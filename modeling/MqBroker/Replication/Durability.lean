import MqBroker.Replication.Ballot
import MqBroker.Replication.StateFile

/-!
# Votes Across Restarts

What a node has voted is what `raft_state.bin` says it has voted.

A node's life is a sequence of events: calls of the coordinator's operations,
with whatever arguments, and restarts that build a new coordinator from the
state file. Two facts carry over a restart. Where the saves are done, every
operation either leaves the saved fields alone or writes them all
(`Op.exec_saved`), and reading the file gives back what was written as long as
the vote is not longer than the reader accepts (`decodeState_encodeState`). A
restart is therefore a quiet move of the ballot, or the claim to leadership of
a node configured as leader, and `Election.Ballot.Honest` holds through the
whole life.

A save that fails goes unnoticed, and the node comes back with an older term
and vote, or with none. What a restart needs is that the file was written with
the term and the vote of the moment (`VoteSaved`).

Two inputs are outside of this. A node with an empty id votes for "nobody"
when it starts an election, and then votes again. A node constructed as a
candidate wins an election it never started, and then holds a vote for itself
in a term where it may have voted for another.

## Main definitions

* `ReplicationCoordinator.Holds`: What a save has left in the state file.
* `NodeEvent`, `runNode`: The events in the life of a node.
* `votesCast`: The votes a node casts on the way.
* `VotesOnce`: Terms never decrease and no term sees two votes.

## Theorems

* `Op.exec_saved`: Operations save what they change.
* `restart_step`: A restart that finds term and vote is a move of the ballot.
* `runNode_votes_once`: A node votes once in a term, across restarts.
* `votes_twice`: The two inputs that are left out.
-/

namespace MqBroker

open Election (Ballot Label)
open ReplicationCoordinator

/-! ## The state file -/

/-- What a restart would load from a coordinator's state file. -/
def ReplicationCoordinator.loadable (c : ReplicationCoordinator) : RaftState :=
  (c.stateFile.bind decodeState).getD {}

/-- The state file holds a state, completely written. Without a file it is the
    initial one. -/
def ReplicationCoordinator.Holds (c : ReplicationCoordinator) (s : RaftState) : Prop :=
  (c.stateFile = none ∧ s = {}) ∨ c.stateFile = some (encodeState s)

/-- The state file was written in the present term. -/
def ReplicationCoordinator.TermSaved (c : ReplicationCoordinator) : Prop :=
  ∃ s, c.Holds s ∧ s.Fits ∧ s.currentTerm = c.currentTerm

/-- The state file was written with the present term and vote. -/
def ReplicationCoordinator.VoteSaved (c : ReplicationCoordinator) : Prop :=
  ∃ s, c.Holds s ∧ s.Fits ∧ s.currentTerm = c.currentTerm ∧ s.votedFor = c.votedFor

/-- What the file holds is what is loaded. -/
theorem ReplicationCoordinator.Holds.loadable {c : ReplicationCoordinator} {s : RaftState}
    (h : c.Holds s) (hfits : s.Fits) : c.loadable = s := by
  rcases h with ⟨hnone, rfl⟩ | hfile
  · rw [ReplicationCoordinator.loadable, hnone, Option.bind_none, Option.getD_none]
  · rw [ReplicationCoordinator.loadable, hfile, Option.bind_some,
      decodeState_encodeState s hfits, Option.getD_some]

/-- So there is only one such state to look at. -/
theorem exists_holds_iff (c : ReplicationCoordinator) (P : RaftState → Prop) :
    (∃ s, c.Holds s ∧ s.Fits ∧ P s) ↔
      c.Holds c.loadable ∧ c.loadable.Fits ∧ P c.loadable := by
  constructor
  · rintro ⟨s, hholds, hfits, hs⟩
    rw [hholds.loadable hfits]
    exact ⟨hholds, hfits, hs⟩
  · intro h
    exact ⟨c.loadable, h⟩

instance instDecidableHolds (c : ReplicationCoordinator) (s : RaftState) : Decidable (c.Holds s) :=
  inferInstanceAs (Decidable (_ ∨ _))

instance instDecidableStateFits (s : RaftState) : Decidable s.Fits :=
  inferInstanceAs (Decidable (_ ≤ _))

instance instDecidableTermSaved (c : ReplicationCoordinator) : Decidable c.TermSaved :=
  decidable_of_iff _ (exists_holds_iff c (fun s => s.currentTerm = c.currentTerm)).symm

instance instDecidableVoteSaved (c : ReplicationCoordinator) : Decidable c.VoteSaved :=
  decidable_of_iff _ (exists_holds_iff c
    (fun s => s.currentTerm = c.currentTerm ∧ s.votedFor = c.votedFor)).symm

/-- The next saves are done. -/
def ReplicationCoordinator.SavesDone (c : ReplicationCoordinator) : Prop :=
  ∀ o ∈ c.saves, o = .replaced

/-- The saves that an operation lets happen are done. -/
def Op.completes : Op → Bool
  | .fileSystem saves => saves.all (· = .replaced)
  | _ => true

theorem persist_savesDone {c : ReplicationCoordinator} (h : c.SavesDone) : c.persist.SavesDone := by
  unfold persist
  split
  · exact fun o ho => h o (List.mem_of_mem_tail ho)
  · exact h

/-- Between two coordinators the saved fields were either left alone or
    written to the state file. -/
def Saved (c c' : ReplicationCoordinator) : Prop :=
  c'.SavesDone ∧ ((c'.stateFile = c.stateFile ∧ c'.raftState = c.raftState) ∨
    c'.stateFile = some (encodeState c'.raftState))

theorem saved_of_eq {c d : ReplicationCoordinator} (h : d.SavesDone)
    (hfile : d.stateFile = c.stateFile) (hstate : d.raftState = c.raftState) : Saved c d :=
  ⟨h, Or.inl ⟨hfile, hstate⟩⟩

theorem persist_saved (c d : ReplicationCoordinator) (h : d.hasStatePath = true)
    (hsaves : d.SavesDone) : Saved c d.persist := by
  refine ⟨persist_savesDone hsaves, Or.inr ?_⟩
  rw [persist_stateFile d h, persist_raftState]
  cases hnext : d.saves with
  | nil => rfl
  | cons o rest =>
      rw [List.headD_cons, hsaves o (by rw [hnext]; exact List.mem_cons_self)]
      rfl

/-- What is saved can be loaded. -/
theorem Saved.loadable {c c' : ReplicationCoordinator} (h : Saved c c')
    (hc : c.loadable = c.raftState) (hvote : c'.votedFor.length ≤ maxVotedSize) :
    c'.loadable = c'.raftState := by
  rcases h.2 with ⟨hfile, hstate⟩ | hfile
  · rw [ReplicationCoordinator.loadable, hfile, hstate, ← hc, ReplicationCoordinator.loadable]
  · rw [ReplicationCoordinator.loadable, hfile, Option.bind_some,
      decodeState_encodeState _ hvote, Option.getD_some]

/-- The progress `ObserveAppend` records after its last persist is not part
    of the saved state. -/
theorem persist_observeLeader_saved (c d : ReplicationCoordinator) (h : d.hasStatePath = true)
    (hsaves : d.SavesDone) (p : Bytes) (t : UInt64) (l : Bytes) (off : UInt64) (now : Int) :
    Saved c (d.persist.observeLeader p t l off now) :=
  persist_saved c d h hsaves

/-- Registering replicas changes nothing but the replicas. -/
theorem foldl_registerReplica_eq (c : ReplicationCoordinator) (members : List Bytes) :
    ∃ replicas, members.foldl registerReplica c = { c with replicas := replicas } := by
  induction members generalizing c with
  | nil => exact ⟨c.replicas, rfl⟩
  | cons r members ih =>
      rcases ih (c.registerReplica r) with ⟨replicas, heq⟩
      refine ⟨replicas, ?_⟩
      rw [List.foldl_cons, heq, registerReplica]
      split <;> rfl

section Saved

variable {c : ReplicationCoordinator}

theorem observeAppend_saved (hpath : c.hasStatePath = true) (hsaves : c.SavesDone) (p l : Bytes)
    (t off commit : UInt64) (now : Int) : Saved c (c.observeAppend p t l off commit now).1 := by
  have hadopt : (c.adoptTerm t).hasStatePath = true ∧ (c.adoptTerm t).SavesDone := by
    unfold adoptTerm
    split
    · rw [persist_hasStatePath]
      exact ⟨hpath, persist_savesDone hsaves⟩
    · exact ⟨hpath, hsaves⟩
  simp only [observeAppend]
  split
  · exact saved_of_eq hsaves rfl rfl
  · split
    · exact persist_saved c _ hadopt.1 hadopt.2
    · refine persist_observeLeader_saved c _ ?_ ?_ p t l off now
      · exact hadopt.1
      · exact hadopt.2

theorem requestVote_saved (hpath : c.hasStatePath = true) (hsaves : c.SavesDone) (t : UInt64) (cand : Bytes)
    (idx lt : UInt64) : Saved c (c.requestVote t cand idx lt).1 := by
  by_cases h : (c.requestVote t cand idx lt).2 = true
  · rw [(requestVote_granted h).2.2.2]
    refine persist_saved c _ ?_ ?_
    · split <;> exact hpath
    · split <;> exact hsaves
  · rw [requestVote_refused h]
    exact saved_of_eq hsaves rfl rfl

theorem observeVote_saved (hpath : c.hasStatePath = true) (hsaves : c.SavesDone) (t : UInt64) (v : Bytes) (g : Bool) :
    Saved c (c.observeVote t v g).1 := by
  simp only [observeVote]
  split
  · exact saved_of_eq hsaves rfl rfl
  · split
    · exact persist_saved c _ hpath hsaves
    · exact saved_of_eq hsaves rfl rfl

theorem advanceCommit_saved (hpath : c.hasStatePath = true) (hsaves : c.SavesDone) (p : Bytes) (off : UInt64)
    (now : Int) : Saved c (c.advanceCommit p off now).1 := by
  simp only [advanceCommit]
  split
  · exact saved_of_eq hsaves rfl rfl
  · split
    · exact saved_of_eq hsaves rfl rfl
    · split
      · exact saved_of_eq hsaves rfl rfl
      · exact persist_saved c _ hpath hsaves

/-- Every operation saves what it changes of the saved fields, when the saves are
    done. -/
theorem Op.exec_saved (op : Op) (hop : op.completes = true) (hpath : c.hasStatePath = true)
    (hsaves : c.SavesDone) : Saved c (op.exec c) := by
  cases op with
  | setLeader id => exact persist_saved c _ hpath hsaves
  | registerReplica id =>
      simp only [Op.exec, ReplicationCoordinator.registerReplica]
      split <;> exact saved_of_eq hsaves rfl rfl
  | removeReplica id => exact saved_of_eq hsaves rfl rfl
  | observeHeartbeat p id off now =>
      simp only [Op.exec, ReplicationCoordinator.observeHeartbeat]
      split
      · exact saved_of_eq hsaves rfl rfl
      · split <;> exact saved_of_eq hsaves rfl rfl
  | observeAppend p t l off commit now => exact observeAppend_saved hpath hsaves p l t off commit now
  | beginElection => exact persist_saved c _ hpath hsaves
  | observePreVote t v g =>
      simp only [Op.exec, ReplicationCoordinator.observePreVote]
      split <;> exact saved_of_eq hsaves rfl rfl
  | requestVote t cand idx lt => exact requestVote_saved hpath hsaves t cand idx lt
  | observeVote t v g => exact observeVote_saved hpath hsaves t v g
  | observeHeartbeatRound r =>
      simp only [Op.exec, ReplicationCoordinator.observeHeartbeatRound]
      split
      · exact saved_of_eq hsaves rfl rfl
      · split
        · exact saved_of_eq hsaves rfl rfl
        · split <;> exact saved_of_eq hsaves rfl rfl
  | advanceCommit p off now => exact advanceCommit_saved hpath hsaves p off now
  | recordLocalOffset p off => exact saved_of_eq hsaves rfl rfl
  | fileSystem saves =>
      exact saved_of_eq (fun o ho => of_decide_eq_true (List.all_eq_true.mp hop o ho)) rfl rfl

end Saved

/-! ## The life of a node -/

/-- A call of an operation, or a restart of the process with its configured
    role and timeout. -/
inductive NodeEvent
  | call (op : Op)
  | restart (role : ReplicaRole) (timeoutMs : Int)
deriving DecidableEq, Repr

/-- The coordinator after an event. -/
def NodeEvent.exec (c : ReplicationCoordinator) : NodeEvent → ReplicationCoordinator
  | .call op => op.exec c
  | .restart role timeoutMs =>
      ReplicationCoordinator.restart c.nodeId role timeoutMs c.hasStatePath c.stateFile

/-- The vote an event casts. -/
def NodeEvent.vote (c : ReplicationCoordinator) : NodeEvent → Option (UInt64 × Bytes)
  | .call op => op.vote c
  | .restart _ _ => none

/-- The coordinator after a sequence of events. -/
def runNode (c : ReplicationCoordinator) (events : List NodeEvent) : ReplicationCoordinator :=
  events.foldl NodeEvent.exec c

/-- The votes cast in a sequence of events, with their terms. -/
def votesCast : ReplicationCoordinator → List NodeEvent → List (UInt64 × Bytes)
  | _, [] => []
  | c, e :: rest => (e.vote c).toList ++ votesCast (e.exec c) rest

/-- The term never decreases, and no two candidates get a vote in one term. -/
def VotesOnce (c : ReplicationCoordinator) (events : List NodeEvent) : Prop :=
  Monotone (fun n => (runNode c (events.take n)).currentTerm) ∧
    ∀ t a b, (t, a) ∈ votesCast c events → (t, b) ∈ votesCast c events → a = b

/-- The node ids an operation is called with. -/
def Op.ids : Op → List Bytes
  | .setLeader id => [id]
  | .registerReplica id => [id]
  | .removeReplica id => [id]
  | .observeHeartbeat _ id _ _ => [id]
  | .observeAppend _ _ id _ _ _ => [id]
  | .observePreVote _ id _ => [id]
  | .requestVote _ id _ _ => [id]
  | .observeVote _ id _ => [id]
  | _ => []

/-- The node ids an event brings in. -/
def NodeEvent.ids : NodeEvent → List Bytes
  | .call op => op.ids
  | .restart _ _ => []

/-- The saves that an event lets happen are done. -/
def NodeEvent.completes : NodeEvent → Bool
  | .call op => op.completes
  | .restart _ _ => true

/-- A restart of a process that is configured as a candidate. -/
def NodeEvent.startsCandidate : NodeEvent → Bool
  | .restart .candidate _ => true
  | _ => false

/-- No id of the sequence is longer than the state file can hold, and the
    term stays below its largest value. -/
structure WithinLimits (c : ReplicationCoordinator) (events : List NodeEvent) : Prop where
  nodeId : c.nodeId.length ≤ maxVotedSize
  ids : ∀ e ∈ events, ∀ id ∈ e.ids, id.length ≤ maxVotedSize
  terms : ∀ n ≤ events.length, (runNode c (events.take n)).currentTerm.toNat < 2 ^ 64 - 1

instance (c : ReplicationCoordinator) (events : List NodeEvent) :
    Decidable (WithinLimits c events) :=
  decidable_of_iff
    (c.nodeId.length ≤ maxVotedSize ∧ (∀ e ∈ events, ∀ id ∈ e.ids, id.length ≤ maxVotedSize) ∧
      ∀ n ≤ events.length, (runNode c (events.take n)).currentTerm.toNat < 2 ^ 64 - 1)
    ⟨fun ⟨hid, hids, hterms⟩ => ⟨hid, hids, hterms⟩, fun h => ⟨h.nodeId, h.ids, h.terms⟩⟩

/-- The limits hold for the first events of a sequence. -/
theorem WithinLimits.take {c : ReplicationCoordinator} {events : List NodeEvent}
    (h : WithinLimits c events) (n : Nat) : WithinLimits c (events.take n) := by
  refine ⟨h.nodeId, fun e he => h.ids e (List.mem_of_mem_take he), fun m hm => ?_⟩
  rw [List.take_take]
  refine h.terms _ ?_
  rw [List.length_take] at hm
  omega

/-- What others see of an event. -/
def NodeEvent.label (c : ReplicationCoordinator) : NodeEvent → Label Bytes
  | .call op => op.label c
  | .restart role _ => if role = .leader then .lead else .quiet

/-- What lasts through the life of a node that has cast certain votes: the
    state file holds the saved fields, and the ballot agrees with the votes. -/
structure Lasting (c : ReplicationCoordinator) (cast : Set (UInt64 × Bytes)) : Prop where
  path : c.hasStatePath = true
  saves : c.SavesDone
  loads : c.loadable = c.raftState
  named : c.nodeId ≠ [] ∧ c.nodeId.length ≤ maxVotedSize
  voted : c.votedFor.length ≤ maxVotedSize
  honest : c.ballot.Honest c.nodeId cast

section Events

variable {c : ReplicationCoordinator} {cast : Set (UInt64 × Bytes)}

/-- The vote of an event is the vote its label shows. -/
theorem NodeEvent.vote_mem (e : NodeEvent) (v : UInt64 × Bytes) (h : e.vote c = some v) :
    v ∈ (e.label c).vote (e.exec c).currentTerm := by
  cases e with
  | restart role timeoutMs => exact absurd h.symm (Option.some_ne_none v)
  | call op => exact (op.vote_iff v).mp h

/-- A restart that finds term and vote keeps them, and takes the configured
    role. -/
theorem restart_step (hpath : c.hasStatePath = true)
    (hterm : c.loadable.currentTerm = c.currentTerm) (hvote : c.loadable.votedFor = c.votedFor)
    (role : ReplicaRole) (timeoutMs : Int) (hrole : role ≠ .candidate) (q : ℕ) :
    c.ballot.Step c.nodeId q ((NodeEvent.restart role timeoutMs).label c)
      ((NodeEvent.restart role timeoutMs).exec c).ballot := by
  have hload : (if c.hasStatePath then (c.stateFile.bind decodeState).getD {} else {})
      = c.loadable := if_pos hpath
  simp only [NodeEvent.exec, NodeEvent.label, ReplicationCoordinator.restart, hload, hterm, hvote]
  cases role with
  | leader =>
      rw [if_pos rfl]
      exact .lead le_rfl (if_pos rfl).symm (by simp only [ballot, reduceCtorEq, not_false_eq_true])
  | follower =>
      rw [if_neg (by decide)]
      exact .stay rfl rfl (by simp only [ballot, reduceCtorEq, false_implies])
        (by simp only [ballot, reduceCtorEq, false_implies])
  | candidate => exact absurd rfl hrole

/-- Every event of a lasting node is a move of its ballot. -/
theorem NodeEvent.ballot_step (hc : Lasting c cast) (e : NodeEvent)
    (hrole : ¬ e.startsCandidate) (hterm : c.currentTerm.toNat < 2 ^ 64 - 1) :
    c.ballot.Step c.nodeId 0 (e.label c) (e.exec c).ballot := by
  cases e with
  | call op =>
      exact op.ballot_step hc.named.1 (Nat.zero_le _)
        (fun _ => lt_add_one_of_toNat_lt c.currentTerm hterm)
  | restart role timeoutMs =>
      refine restart_step hc.path (congrArg RaftState.currentTerm hc.loads)
        (congrArg RaftState.votedFor hc.loads) role timeoutMs (fun hcand => hrole ?_) 0
      rw [hcand]
      rfl

theorem NodeEvent.exec_nodeId (e : NodeEvent) : (e.exec c).nodeId = c.nodeId := by
  cases e with
  | call op => exact op.exec_nodeId
  | restart role timeoutMs => rfl

theorem Op.label_cast_mem (op : Op) (cand : Bytes) (h : op.label c = .cast cand) :
    cand ∈ op.ids ∨ cand = c.nodeId := by
  cases op with
  | requestVote t cand' idx lt =>
      simp only [Op.label] at h
      split at h
      · rw [← Label.cast.inj h]
        exact Or.inl List.mem_cons_self
      · cases h
  | beginElection => exact Or.inr (Label.cast.inj h).symm
  | setLeader id =>
      simp only [Op.label] at h
      split at h <;> cases h
  | observeAppend p t l off commit now =>
      simp only [Op.label] at h
      split at h <;> cases h
  | observeVote t v g =>
      simp only [Op.label] at h
      split at h <;> cases h
  | _ => cases h

/-- The remembered vote never gets longer than the ids around. -/
theorem Op.exec_votedFor_length (hc : Lasting c cast) (op : Op)
    (hids : ∀ id ∈ op.ids, id.length ≤ maxVotedSize) (hterm : c.currentTerm.toNat < 2 ^ 64 - 1) :
    (op.exec c).votedFor.length ≤ maxVotedSize := by
  have hstep := (NodeEvent.call op).ballot_step hc Bool.false_ne_true hterm
  rcases hstep.votedFor_cases with hsame | hnone | hself | ⟨cand, hlabel, hcand⟩
  · rw [show (op.exec c).votedFor = c.votedFor from optionalId_injective hsame]
    exact hc.voted
  · rw [show (op.exec c).votedFor = [] from optionalId_eq_none hnone]
    exact Nat.zero_le _
  · rw [show (op.exec c).votedFor = c.nodeId from optionalId_eq_some hself]
    exact hc.named.2
  · rw [show (op.exec c).votedFor = cand from optionalId_eq_some hcand]
    rcases op.label_cast_mem cand hlabel with hmem | rfl
    · exact hids cand hmem
    · exact hc.named.2

/-- What lasts, lasts through every event. -/
theorem Lasting.step (hc : Lasting c cast) (e : NodeEvent)
    (hids : ∀ id ∈ e.ids, id.length ≤ maxVotedSize) (hrole : ¬ e.startsCandidate)
    (hsaves : e.completes = true) (hterm : c.currentTerm.toNat < 2 ^ 64 - 1) :
    Lasting (e.exec c) (cast ∪ {v | e.vote c = some v}) := by
  have hstep := e.ballot_step hc hrole hterm
  have hhonest : (e.exec c).ballot.Honest (e.exec c).nodeId (cast ∪ {v | e.vote c = some v}) := by
    rw [e.exec_nodeId]
    exact (hc.honest.step hstep).subset
      (Set.union_subset_union_right cast (fun v hv => e.vote_mem v hv))
  cases e with
  | call op =>
      have hvote := op.exec_votedFor_length hc hids hterm
      have hsaved := op.exec_saved hsaves hc.path hc.saves
      refine ⟨?_, hsaved.1, ?_, ?_, hvote, hhonest⟩
      · exact op.exec_hasStatePath.trans hc.path
      · exact hsaved.loadable hc.loads hvote
      · rw [NodeEvent.exec_nodeId]
        exact hc.named
  | restart role timeoutMs =>
      have hload : ((NodeEvent.restart role timeoutMs).exec c).raftState = c.raftState := by
        simp only [NodeEvent.exec, ReplicationCoordinator.restart, if_pos hc.path]
        exact hc.loads
      refine ⟨hc.path, fun o ho => absurd ho List.not_mem_nil, ?_, hc.named, ?_, hhonest⟩
      · rw [hload]
        exact hc.loads
      · exact (congrArg (fun s => s.votedFor.length) hload).le.trans hc.voted

theorem votesCast_append (c : ReplicationCoordinator) (l m : List NodeEvent) :
    votesCast c (l ++ m) = votesCast c l ++ votesCast (runNode c l) m := by
  induction l generalizing c with
  | nil => rfl
  | cons e l ih =>
      simp only [List.cons_append, votesCast, ih, List.append_assoc]
      rfl

/-- What lasts, lasts through a whole life. -/
theorem Lasting.run (hc : Lasting c ∅) (events : List NodeEvent) (h : WithinLimits c events)
    (hroles : ∀ e ∈ events, ¬ e.startsCandidate) (hsaves : ∀ e ∈ events, e.completes = true) :
    Lasting (runNode c events) {v | v ∈ votesCast c events} := by
  induction events using List.reverseRecOn with
  | nil =>
      exact ⟨hc.path, hc.saves, hc.loads, hc.named, hc.voted,
        hc.honest.subset (fun v hv => nomatch hv)⟩
  | append_singleton l e ih =>
      have hfirst : WithinLimits c l := by
        have htake := h.take l.length
        rwa [List.take_left] at htake
      have hlasting := ih hfirst (fun e' he' => hroles e' (List.mem_append_left [e] he'))
        (fun e' he' => hsaves e' (List.mem_append_left [e] he'))
      have hterm : (runNode c l).currentTerm.toNat < 2 ^ 64 - 1 := by
        have hn := hfirst.terms l.length le_rfl
        rwa [List.take_length] at hn
      have hmem : e ∈ l ++ [e] := List.mem_append_right l (List.mem_singleton_self e)
      have hstep := hlasting.step e (h.ids e hmem) (hroles e hmem) (hsaves e hmem) hterm
      rw [runNode, List.foldl_append]
      refine ⟨hstep.path, hstep.saves, hstep.loads, hstep.named, hstep.voted, hstep.honest.subset ?_⟩
      intro v hv
      rw [Set.mem_ofPred_eq, votesCast_append, List.mem_append] at hv
      rcases hv with hold | hnew
      · exact Or.inl hold
      · right
        simpa only [Set.mem_ofPred_eq, votesCast, List.append_nil, Option.mem_toList,
          Option.mem_def] using hnew

end Events

/-- A loaded vote is no longer than the reader accepts. -/
theorem decodeState_votedFor_length (file : Bytes) (s : RaftState) (h : decodeState file = some s) :
    s.votedFor.length ≤ maxVotedSize := by
  simp only [decodeState] at h
  split at h
  · exact absurd h.symm (Option.some_ne_none s)
  · rename_i hguard
    split at h
    · exact absurd h.symm (Option.some_ne_none s)
    · rw [← Option.some.inj h]
      simp only [substr, List.length_take]
      omega

/-- A node starts its life with no vote cast, whatever it finds on disk. -/
theorem restart_lasting (nodeId : Bytes) (role : ReplicaRole) (timeoutMs : Int)
    (file : Option Bytes) (hid : nodeId ≠ []) (hlen : nodeId.length ≤ maxVotedSize)
    (hrole : role ≠ .candidate) :
    Lasting (ReplicationCoordinator.restart nodeId role timeoutMs true file) ∅ := by
  refine ⟨rfl, fun o ho => absurd ho List.not_mem_nil, rfl, ⟨hid, hlen⟩, ?_, ?_, ?_, ?_⟩
  · change ((file.bind decodeState).getD {}).votedFor.length ≤ maxVotedSize
    cases hload : file.bind decodeState with
    | none => exact Nat.zero_le _
    | some s =>
        rcases Option.bind_eq_some_iff.mp hload with ⟨bytes, _, hdecode⟩
        exact decodeState_votedFor_length bytes s hdecode
  · intro t cand hmem
    exact absurd hmem (Set.notMem_empty _)
  · intro t a b hmem
    exact absurd hmem (Set.notMem_empty _)
  · intro hrun
    exact absurd hrun hrole

/-- A node with an id, constructed as leader or follower each time, votes at
    most once in a term, whatever calls and restarts make up its life, as long
    as its saves are done. -/
theorem runNode_votes_once (nodeId : Bytes) (role : ReplicaRole) (timeoutMs : Int)
    (file : Option Bytes) (events : List NodeEvent) (hid : nodeId ≠ [])
    (hrole : role ≠ .candidate) (hroles : ∀ e ∈ events, ¬ e.startsCandidate)
    (hsaves : ∀ e ∈ events, e.completes = true)
    (h : WithinLimits (ReplicationCoordinator.restart nodeId role timeoutMs true file) events) :
    VotesOnce (ReplicationCoordinator.restart nodeId role timeoutMs true file) events := by
  have hstart := restart_lasting nodeId role timeoutMs file hid h.nodeId hrole
  generalize ReplicationCoordinator.restart nodeId role timeoutMs true file = c at *
  refine ⟨monotone_nat_of_le_succ ?_, (hstart.run events h hroles hsaves).honest.unique⟩
  intro n
  by_cases hn : n < events.length
  · -- The event at position `n` is one move of a ballot that lasts.
    have hlasting := hstart.run (events.take n) (h.take n)
      (fun e he => hroles e (List.mem_of_mem_take he))
      (fun e he => hsaves e (List.mem_of_mem_take he))
    have hstep := events[n].ballot_step hlasting (hroles _ (List.getElem_mem hn)) (h.terms n hn.le)
    simp only [List.take_succ_eq_append_getElem hn, runNode, List.foldl_append]
    exact hstep.term_le
  · rw [List.take_of_length_le (by omega), List.take_of_length_le (by omega)]

/-- A follower votes for another node, restarts and refuses a second
    candidate of that term. -/
theorem runNode_votes_once_pair :
    VotesOnce (ReplicationCoordinator.restart [97] .follower 5000 true none)
      [.call (.registerReplica [98]), .call (.registerReplica [99]),
        .call (.requestVote 1 [98] 0 0), .restart .follower 5000,
        .call (.registerReplica [99]), .call (.requestVote 1 [99] 0 0)] :=
  runNode_votes_once [97] .follower 5000 none
    [.call (.registerReplica [98]), .call (.registerReplica [99]),
      .call (.requestVote 1 [98] 0 0), .restart .follower 5000,
      .call (.registerReplica [99]), .call (.requestVote 1 [99] 0 0)]
    (by decide) (by decide) (by decide) (by decide) (by decide +kernel)

/-- A node with an empty id votes for another node in the term of its own
    election, and so does a node that was restarted as a candidate and wins
    the election of a term in which it had voted for another node. -/
theorem votes_twice :
    (WithinLimits (ReplicationCoordinator.restart [] .follower 5000 true none)
        [.call (.registerReplica [98]), .call .beginElection, .call (.requestVote 1 [98] 0 0)] ∧
      ¬ VotesOnce (ReplicationCoordinator.restart [] .follower 5000 true none)
        [.call (.registerReplica [98]), .call .beginElection, .call (.requestVote 1 [98] 0 0)]) ∧
    (WithinLimits (ReplicationCoordinator.restart [97] .follower 5000 true none)
        [.call (.registerReplica [98]), .call (.requestVote 1 [98] 0 0), .restart .candidate 5000,
          .call (.observeVote 1 [97] true), .call (.requestVote 1 [97] 0 0)] ∧
      ¬ VotesOnce (ReplicationCoordinator.restart [97] .follower 5000 true none)
        [.call (.registerReplica [98]), .call (.requestVote 1 [98] 0 0), .restart .candidate 5000,
          .call (.observeVote 1 [97] true), .call (.requestVote 1 [97] 0 0)]) := by
  refine ⟨⟨by decide +kernel, ?_⟩, ⟨by decide +kernel, ?_⟩⟩
  · intro h
    exact absurd (h.2 1 [] [98] (by decide +kernel) (by decide +kernel)) (by decide)
  · intro h
    exact absurd (h.2 1 [97] [98] (by decide +kernel) (by decide +kernel)) (by decide)

end MqBroker
