import MqBroker.Lib.Election
import MqBroker.Replication.Coordinator

/-!
# A Coordinator as a Voter

Every operation of the coordinator, seen as a move of the ballot it holds.

`Op` lists the public operations that change a coordinator and `Op.exec` runs
one. `ReplicationCoordinator.ballot` forgets everything but term, vote, role
and counted votes, and `Op.label` says what the rest of the cluster sees of an
operation. `Op.ballot_step` is the connection: whatever the operation and its
arguments, the ballot makes a move of `Election.Ballot.Step` with that label.
Every fact about elections is then a fact about ballots.

The source writes "no vote" as the empty string. A node whose own id is empty
therefore cannot remember that it voted for itself, which is why the move of
`BeginElection` needs an id that is not empty.

## Main definitions

* `Op`, `Op.exec`: The operations that change a coordinator.
* `ReplicationCoordinator.ballot`: The ballot a coordinator holds.
* `Op.label`: What others see of an operation.

## Theorems

* `Op.ballot_step`: Every operation is a move of the ballot.
* `Op.exec_nodeId`, `Op.exec_hasStatePath`: What no operation changes.
-/

namespace MqBroker

open Election (Ballot Label)

/-- The public operations that change a coordinator, and what the file system
    does with the saves that follow. -/
inductive Op
  | setLeader (nodeId : Bytes)
  | registerReplica (nodeId : Bytes)
  | removeReplica (nodeId : Bytes)
  | observeHeartbeat (partition nodeId : Bytes) (replicatedOffset : UInt64) (now : Int)
  | observeAppend (partition : Bytes) (term : UInt64) (leaderId : Bytes)
      (replicatedOffset leaderCommit : UInt64) (now : Int)
  | beginElection
  | observePreVote (term : UInt64) (voterId : Bytes) (granted : Bool)
  | requestVote (term : UInt64) (candidateId : Bytes)
      (candidateLastLogIndex candidateLastLogTerm : UInt64)
  | observeVote (term : UInt64) (voterId : Bytes) (granted : Bool)
  | observeHeartbeatRound (majorityResponded : Bool)
  | advanceCommit (partition : Bytes) (offset : UInt64) (now : Int)
  | recordLocalOffset (partition : Bytes) (offset : UInt64)
  | fileSystem (saves : List SaveOutcome)
deriving DecidableEq, Repr

/-- The coordinator after an operation. -/
def Op.exec (c : ReplicationCoordinator) : Op → ReplicationCoordinator
  | .setLeader id => c.setLeader id
  | .registerReplica id => c.registerReplica id
  | .removeReplica id => c.removeReplica id
  | .observeHeartbeat p id off now => c.observeHeartbeat p id off now
  | .observeAppend p t l off commit now => (c.observeAppend p t l off commit now).1
  | .beginElection => c.beginElection.1
  | .observePreVote t v g => (c.observePreVote t v g).1
  | .requestVote t cand idx lt => (c.requestVote t cand idx lt).1
  | .observeVote t v g => (c.observeVote t v g).1
  | .observeHeartbeatRound r => (c.observeHeartbeatRound r).1
  | .advanceCommit p off now => (c.advanceCommit p off now).1
  | .recordLocalOffset p off => c.recordLocalOffset p off
  | .fileSystem saves => { c with saves := saves }

/-- A vote that was granted: its term, the voter and the candidate. -/
instance instLawfulBEqVote : LawfulBEq (UInt64 × Bytes × Bytes) := inferInstance

namespace ReplicationCoordinator

/-- A vote as an optional id: the empty id stands for no vote. -/
def optionalId (id : Bytes) : Option Bytes := if id = [] then none else some id

/-- The ballot a coordinator holds. -/
def ballot (c : ReplicationCoordinator) : Ballot Bytes UInt64 where
  term := c.currentTerm
  votedFor := optionalId c.votedFor
  running := c.role = .candidate
  leading := c.role = .leader
  votes := c.votes

theorem optionalId_ne {id : Bytes} (h : id ≠ []) : optionalId id = some id := if_neg h

theorem optionalId_eq_some {id other : Bytes} (h : optionalId id = some other) : id = other := by
  by_cases hid : id = []
  · rw [optionalId, if_pos hid] at h
    exact absurd h.symm (Option.some_ne_none other)
  · rw [optionalId_ne hid] at h
    exact Option.some.inj h

theorem optionalId_eq_none {id : Bytes} (h : optionalId id = none) : id = [] := by
  by_contra hid
  rw [optionalId_ne hid] at h
  exact Option.some_ne_none id h

theorem optionalId_injective {id other : Bytes} (h : optionalId id = optionalId other) :
    id = other := by
  by_cases hid : other = []
  · rw [hid] at h ⊢
    exact optionalId_eq_none h
  · rw [optionalId_ne hid] at h
    exact optionalId_eq_some h

theorem lt_add_one_of_toNat_lt (t : UInt64) (h : t.toNat < 2 ^ 64 - 1) : t < t + 1 := by
  rw [UInt64.lt_iff_toNat_lt, UInt64.toNat_add]
  have hone : (1 : UInt64).toNat = 1 := rfl
  rw [hone, Nat.mod_eq_of_lt (by omega)]
  omega

/-! ## What persisting leaves alone -/

section Persist

variable (c : ReplicationCoordinator)

@[simp] theorem persist_ballot : c.persist.ballot = c.ballot := by
  unfold persist
  split <;> rfl

@[simp] theorem persist_hasStatePath : c.persist.hasStatePath = c.hasStatePath := by
  unfold persist
  split <;> rfl

@[simp] theorem persist_replicas : c.persist.replicas = c.replicas := by
  unfold persist
  split <;> rfl

@[simp] theorem persist_raftState : c.persist.raftState = c.raftState := by
  unfold persist
  split <;> rfl

theorem persist_stateFile (h : c.hasStatePath = true) :
    c.persist.stateFile
      = (c.saves.headD .replaced).file c.stateFile (encodeState c.raftState) := by
  unfold persist
  rw [if_pos h]

@[simp] theorem persist_saves (h : c.hasStatePath = true) : c.persist.saves = c.saves.tail := by
  unfold persist
  rw [if_pos h]

end Persist

end ReplicationCoordinator

/-- The vote an operation casts, with its term: a granted request, or the
    node's own election. -/
def Op.vote (c : ReplicationCoordinator) : Op → Option (UInt64 × Bytes)
  | .requestVote t cand idx lt => if (c.requestVote t cand idx lt).2 then some (t, cand) else none
  | .beginElection => some (c.beginElection.2.term, c.beginElection.2.candidateId)
  | _ => none

/-- What the rest of the cluster sees of an operation. -/
def Op.label (c : ReplicationCoordinator) : Op → Label Bytes
  | .setLeader id => if id = c.nodeId then .lead else .quiet
  | .observeAppend _ t l _ _ _ => if c.acceptsLeader t l ∧ l = c.nodeId then .lead else .quiet
  | .beginElection => .cast c.nodeId
  | .requestVote t cand idx lt =>
      if (c.requestVote t cand idx lt).2 then .cast cand else .quiet
  | .observeVote t v g => if c.countsVote t v g then .count v else .quiet
  | _ => .quiet

section Moves

open ReplicationCoordinator

variable {c : ReplicationCoordinator} {q : ℕ}

/-- An operation that leaves the ballot alone is a move. -/
theorem ballot_step_of_eq {c' : ReplicationCoordinator} (h : c'.ballot = c.ballot) (self : Bytes) :
    c.ballot.Step self q .quiet c'.ballot := by
  rw [h]
  exact .stay rfl rfl (fun hrun => ⟨hrun, rfl⟩) id

theorem setLeader_step (id : Bytes) :
    c.ballot.Step c.nodeId q ((Op.setLeader id).label c) (c.setLeader id).ballot := by
  rw [setLeader, persist_ballot, Op.label]
  by_cases hid : id = c.nodeId
  · simp only [if_pos hid]
    exact .lead le_rfl (if_pos rfl).symm (by simp [ballot])
  · simp only [if_neg hid]
    exact .stay rfl rfl (by simp [ballot]) (by simp [ballot])

theorem observeHeartbeat_ballot (p id : Bytes) (off : UInt64) (now : Int) :
    (c.observeHeartbeat p id off now).ballot = c.ballot := by
  unfold observeHeartbeat
  split
  · rfl
  · split <;> rfl

theorem registerReplica_ballot (id : Bytes) : (c.registerReplica id).ballot = c.ballot := by
  unfold registerReplica
  split <;> rfl

theorem observePreVote_ballot (t : UInt64) (v : Bytes) (g : Bool) :
    (c.observePreVote t v g).1.ballot = c.ballot := by
  unfold observePreVote
  split <;> rfl

theorem advanceCommit_ballot (p : Bytes) (off : UInt64) (now : Int) :
    (c.advanceCommit p off now).1.ballot = c.ballot := by
  simp only [advanceCommit]
  split
  · rfl
  · split
    · rfl
    · split
      · rfl
      · rw [persist_ballot]
        rfl

/-- The ballot after the term update of `ObserveAppend`. -/
theorem adoptTerm_ballot (t : UInt64) :
    (c.adoptTerm t).ballot
      = if t > c.currentTerm then { c.ballot with term := t, votedFor := none } else c.ballot := by
  unfold adoptTerm
  split
  · rw [persist_ballot]
    rfl
  · rfl

/-- An accepted `ObserveAppend` adopts the term and settles the role; the
    commit and the progress it records are not part of the ballot. -/
theorem observeAppend_ballot {p l : Bytes} {t off commit : UInt64} {now : Int}
    (h : c.acceptsLeader t l = true) :
    (c.observeAppend p t l off commit now).1.ballot
      = { (c.adoptTerm t).ballot with
          running := (if l = c.nodeId then ReplicaRole.leader else .follower) = .candidate
          leading := (if l = c.nodeId then ReplicaRole.leader else .follower) = .leader } := by
  have hcommit : ∀ d : ReplicationCoordinator,
      (persist (d.observeCommit p off commit)).ballot = d.ballot := by
    intro d
    rw [persist_ballot]
    rfl
  simp only [observeAppend]
  rw [if_neg (not_not.mpr h)]
  split
  · exact hcommit _
  · exact hcommit _

theorem observeAppend_step (p l : Bytes) (t off commit : UInt64) (now : Int) :
    c.ballot.Step c.nodeId q ((Op.observeAppend p t l off commit now).label c)
      (c.observeAppend p t l off commit now).1.ballot := by
  by_cases h : c.acceptsLeader t l = true
  · have hterm : c.currentTerm ≤ t := (of_decide_eq_true h).1
    rw [observeAppend_ballot h, adoptTerm_ballot]
    by_cases hl : l = c.nodeId
    · have hlabel : (Op.observeAppend p t l off commit now).label c = .lead := if_pos ⟨h, hl⟩
      rw [hlabel]
      by_cases hgt : t > c.currentTerm
      · simp only [if_pos hgt, if_pos hl]
        exact .lead hterm (if_neg hgt.ne').symm (by simp only [reduceCtorEq, not_false_eq_true])
      · simp only [if_neg hgt, if_pos hl]
        exact .lead le_rfl (if_pos rfl).symm (by simp only [reduceCtorEq, not_false_eq_true])
    · have hlabel : (Op.observeAppend p t l off commit now).label c = .quiet :=
        if_neg (fun hboth => hl hboth.2)
      rw [hlabel]
      by_cases hgt : t > c.currentTerm
      · simp only [if_pos hgt, if_neg hl]
        exact .adopt hgt rfl (by simp only [reduceCtorEq, not_false_eq_true])
          (by simp only [reduceCtorEq, not_false_eq_true])
      · simp only [if_neg hgt, if_neg hl]
        exact .stay rfl rfl (by simp only [reduceCtorEq, false_implies])
          (by simp only [reduceCtorEq, false_implies])
  · have hlabel : (Op.observeAppend p t l off commit now).label c = .quiet :=
      if_neg (fun hboth => h hboth.1)
    rw [hlabel, observeAppend, if_pos h]
    exact ballot_step_of_eq rfl _

/-- Starting an election is a campaign in the next term. The next term is
    above the present one unless the counter wraps around. -/
theorem beginElection_step (hid : c.nodeId ≠ []) (hterm : c.currentTerm < c.currentTerm + 1) :
    c.ballot.Step c.nodeId q (Op.beginElection.label c) c.beginElection.1.ballot := by
  simp only [beginElection, persist_ballot, Op.label]
  exact .campaign hterm (optionalId_ne hid) rfl (by simp only [ballot, reduceCtorEq, not_false_eq_true])

/-- A request that is not granted changes nothing: a higher term is only
    adopted together with a vote. -/
theorem requestVote_refused {t : UInt64} {cand : Bytes} {idx lt : UInt64}
    (h : ¬ (c.requestVote t cand idx lt).2 = true) : (c.requestVote t cand idx lt).1 = c := by
  simp only [requestVote] at h ⊢
  by_cases haccept : c.acceptsCandidate t cand = true
  · by_cases hlog : c.logUpToDate idx lt = true
    · simp only [haccept, hlog, not_true_eq_false, if_false] at h ⊢
      by_cases hgt : t > c.currentTerm
      · simp only [if_pos hgt, ne_eq, not_true_eq_false, false_and, if_false] at h
      · simp only [if_neg hgt] at h ⊢
        by_cases hother : c.votedFor ≠ [] ∧ c.votedFor ≠ cand
        · rw [if_pos hother]
        · rw [if_neg hother] at h
          exact absurd rfl h
    · simp only [haccept, hlog, not_true_eq_false, if_false]
      rfl
  · simp only [haccept]
    rfl

/-- What a granted request has passed, and what it leaves behind. -/
theorem requestVote_granted {t : UInt64} {cand : Bytes} {idx lt : UInt64}
    (h : (c.requestVote t cand idx lt).2 = true) :
    c.acceptsCandidate t cand ∧ c.logUpToDate idx lt ∧
      (t = c.currentTerm → c.votedFor = [] ∨ c.votedFor = cand) ∧
      (c.requestVote t cand idx lt).1 = persist { (if t > c.currentTerm then
        { c with currentTerm := t, votedFor := [], role := .follower, leaderId := [] } else c) with
        votedFor := cand } := by
  simp only [requestVote] at h ⊢
  by_cases haccept : c.acceptsCandidate t cand = true
  · by_cases hlog : c.logUpToDate idx lt = true
    · simp only [haccept, hlog, not_true_eq_false, if_false, true_and] at h ⊢
      by_cases hgt : t > c.currentTerm
      · simp only [if_pos hgt, ne_eq, not_true_eq_false, false_and, if_false, and_true]
        intro heq
        exact absurd heq hgt.ne'
      · simp only [if_neg hgt] at h ⊢
        by_cases hother : c.votedFor ≠ [] ∧ c.votedFor ≠ cand
        · rw [if_pos hother] at h
          exact absurd h Bool.false_ne_true
        · rw [if_neg hother]
          refine ⟨fun _ => ?_, rfl⟩
          by_cases hnone : c.votedFor = []
          · exact Or.inl hnone
          · exact Or.inr (not_not.mp (fun hne => hother ⟨hnone, hne⟩))
    · simp only [haccept, hlog, not_true_eq_false, if_false] at h
      exact absurd h Bool.false_ne_true
  · simp only [haccept] at h
    exact absurd h Bool.false_ne_true

/-- A granted vote is a grant in the term of the request. -/
theorem requestVote_ballot {t : UInt64} {cand : Bytes} {idx lt : UInt64}
    (h : (c.requestVote t cand idx lt).2 = true) :
    (c.requestVote t cand idx lt).1.ballot.term = t ∧
      c.ballot.Step c.nodeId q (.cast cand) (c.requestVote t cand idx lt).1.ballot := by
  rcases requestVote_granted h with ⟨haccept, _, hold, heq⟩
  rcases of_decide_eq_true haccept with ⟨hcand, hterm, _⟩
  rw [heq, persist_ballot]
  by_cases hgt : t > c.currentTerm
  · simp only [if_pos hgt]
    exact ⟨rfl, .grant cand hterm (fun h => absurd h hgt.ne) (optionalId_ne hcand)
      (by simp only [ballot, reduceCtorEq, false_implies])
      (by simp only [ballot, reduceCtorEq, false_implies])⟩
  · have hsame : t = c.currentTerm := le_antisymm (not_lt.mp hgt) hterm
    simp only [if_neg hgt]
    refine ⟨hsame.symm, .grant cand le_rfl ?_ (optionalId_ne hcand) (fun hrun => ⟨rfl, hrun, rfl⟩)
      (fun hlead => ⟨rfl, hlead⟩)⟩
    intro _
    rcases hold hsame with hnone | hagain
    · exact Or.inl (if_pos hnone)
    · right
      rw [← hagain]
      exact optionalId_ne (by rw [hagain]; exact hcand)

theorem requestVote_step (t : UInt64) (cand : Bytes) (idx lt : UInt64) :
    c.ballot.Step c.nodeId q ((Op.requestVote t cand idx lt).label c)
      (c.requestVote t cand idx lt).1.ballot := by
  rw [Op.label]
  by_cases h : (c.requestVote t cand idx lt).2 = true
  · rw [if_pos h]
    exact (requestVote_ballot h).2
  · rw [if_neg h, requestVote_refused h]
    exact ballot_step_of_eq rfl _

theorem observeVote_step (hid : c.nodeId ≠ []) (hq : q ≤ c.majority) (t : UInt64)
    (v : Bytes) (g : Bool) :
    c.ballot.Step c.nodeId q ((Op.observeVote t v g).label c)
      (c.observeVote t v g).1.ballot := by
  simp only [Op.label, observeVote]
  by_cases h : c.countsVote t v g = true
  · have hrun : c.role = .candidate := (of_decide_eq_true h).2.1
    simp only [h, not_true_eq_false, if_false, if_true]
    by_cases hwin : c.majority ≤ (insert v c.votes).card
    · simp only [ge_iff_le, if_pos hwin, persist_ballot]
      exact .win v rfl (optionalId_ne hid) hrun (hq.trans hwin)
        (by simp only [ballot, reduceCtorEq, not_false_eq_true])
    · simp only [ge_iff_le, if_neg hwin]
      exact .tally v rfl rfl hrun rfl (by simp only [ballot, hrun, reduceCtorEq, not_false_eq_true])
  · simp only [h]
    exact ballot_step_of_eq rfl _

theorem observeHeartbeatRound_step (r : Bool) :
    c.ballot.Step c.nodeId q .quiet (c.observeHeartbeatRound r).1.ballot := by
  simp only [observeHeartbeatRound]
  split
  · exact ballot_step_of_eq rfl _
  · split
    · exact ballot_step_of_eq rfl _
    · split
      · exact ballot_step_of_eq rfl _
      · exact .stay rfl rfl (by simp only [ballot, reduceCtorEq, false_implies])
          (by simp only [ballot, reduceCtorEq, false_implies])

/-- Every operation is a move of the ballot, with the label that says what
    the rest of the cluster sees of it. -/
theorem Op.ballot_step (op : Op) (hid : c.nodeId ≠ []) (hq : q ≤ c.majority)
    (hterm : op = .beginElection → c.currentTerm < c.currentTerm + 1) :
    c.ballot.Step c.nodeId q (op.label c) (op.exec c).ballot := by
  cases op with
  | setLeader id => exact setLeader_step id
  | registerReplica id => exact ballot_step_of_eq (registerReplica_ballot id) _
  | removeReplica id => exact ballot_step_of_eq rfl _
  | observeHeartbeat p id off now =>
      exact ballot_step_of_eq (observeHeartbeat_ballot p id off now) _
  | observeAppend p t l off commit now => exact observeAppend_step p l t off commit now
  | beginElection => exact beginElection_step hid (hterm rfl)
  | observePreVote t v g => exact ballot_step_of_eq (observePreVote_ballot t v g) _
  | requestVote t cand idx lt => exact requestVote_step t cand idx lt
  | observeVote t v g => exact observeVote_step hid hq t v g
  | observeHeartbeatRound r => exact observeHeartbeatRound_step r
  | advanceCommit p off now => exact ballot_step_of_eq (advanceCommit_ballot p off now) _
  | recordLocalOffset p off => exact ballot_step_of_eq rfl _
  | fileSystem saves => exact ballot_step_of_eq rfl _

/-- The vote of an operation is the vote its label shows. -/
theorem Op.vote_iff (op : Op) (v : UInt64 × Bytes) :
    op.vote c = some v ↔ v ∈ (op.label c).vote (op.exec c).currentTerm := by
  cases op with
  | requestVote t cand idx lt =>
      simp only [Op.vote, Op.label, Op.exec]
      by_cases hgrant : (c.requestVote t cand idx lt).2 = true
      · have hterm : (c.requestVote t cand idx lt).1.currentTerm = t :=
          (requestVote_ballot (q := 0) hgrant).1
        rw [if_pos hgrant, if_pos hgrant, hterm, Option.some.injEq]
        exact eq_comm
      · rw [if_neg hgrant, if_neg hgrant]
        exact iff_of_false (Option.some_ne_none v).symm (Set.notMem_empty v)
  | beginElection =>
      have hterm : c.beginElection.1.currentTerm = c.currentTerm + 1 :=
        congrArg Ballot.term (persist_ballot _)
      simp only [Op.vote, Op.label, Op.exec, hterm, Option.some.injEq]
      exact eq_comm
  | setLeader id =>
      simp only [Op.label]
      split <;> exact iff_of_false (Option.some_ne_none v).symm (Set.notMem_empty v)
  | observeAppend p t l off commit now =>
      simp only [Op.label]
      split <;> exact iff_of_false (Option.some_ne_none v).symm (Set.notMem_empty v)
  | observeVote t voter g =>
      simp only [Op.label]
      split <;> exact iff_of_false (Option.some_ne_none v).symm (Set.notMem_empty v)
  | _ => exact iff_of_false (Option.some_ne_none v).symm (Set.notMem_empty v)

/-! ## What operations leave alone -/

/-- The part of a coordinator that is fixed when it is constructed. -/
def ReplicationCoordinator.fixed (c : ReplicationCoordinator) : Bytes × Int × Bool :=
  (c.nodeId, c.heartbeatTimeoutMs, c.hasStatePath)

@[simp] theorem persist_fixed (c : ReplicationCoordinator) : c.persist.fixed = c.fixed := by
  unfold persist
  split <;> rfl

theorem adoptTerm_fixed (t : UInt64) : (c.adoptTerm t).fixed = c.fixed := by
  unfold adoptTerm
  split
  · rw [persist_fixed]
    rfl
  · rfl

theorem observeAppend_fixed (p l : Bytes) (t off commit : UInt64) (now : Int) :
    (c.observeAppend p t l off commit now).1.fixed = c.fixed := by
  have hcommit : ∀ d : ReplicationCoordinator,
      (persist (d.observeCommit p off commit)).fixed = d.fixed := by
    intro d
    rw [persist_fixed]
    rfl
  simp only [observeAppend]
  split
  · rfl
  · split
    · exact (hcommit _).trans (adoptTerm_fixed t)
    · exact (hcommit _).trans (adoptTerm_fixed t)

/-- No operation changes the id, the timeout or the state path. -/
theorem Op.exec_fixed (op : Op) : (op.exec c).fixed = c.fixed := by
  cases op with
  | setLeader id => exact persist_fixed _
  | registerReplica id =>
      simp only [Op.exec, ReplicationCoordinator.registerReplica]
      split <;> rfl
  | removeReplica id => rfl
  | observeHeartbeat p id off now =>
      simp only [Op.exec, ReplicationCoordinator.observeHeartbeat]
      split
      · rfl
      · split <;> rfl
  | observeAppend p t l off commit now => exact observeAppend_fixed p l t off commit now
  | beginElection => exact persist_fixed _
  | observePreVote t v g =>
      simp only [Op.exec, ReplicationCoordinator.observePreVote]
      split <;> rfl
  | requestVote t cand idx lt =>
      simp only [Op.exec]
      by_cases h : (c.requestVote t cand idx lt).2 = true
      · rw [(requestVote_granted h).2.2.2, persist_fixed]
        split <;> rfl
      · rw [requestVote_refused h]
  | observeVote t v g =>
      simp only [Op.exec, ReplicationCoordinator.observeVote]
      split
      · rfl
      · split
        · exact persist_fixed _
        · rfl
  | observeHeartbeatRound r =>
      simp only [Op.exec, ReplicationCoordinator.observeHeartbeatRound]
      split
      · rfl
      · split
        · rfl
        · split <;> rfl
  | advanceCommit p off now =>
      simp only [Op.exec, ReplicationCoordinator.advanceCommit]
      split
      · rfl
      · split
        · rfl
        · split
          · rfl
          · exact persist_fixed _
  | recordLocalOffset p off => rfl
  | fileSystem saves => rfl

/-- Whether an operation leaves the set of registered replicas alone. -/
def Op.keepsMembers : Op → Bool
  | .registerReplica _ => false
  | .removeReplica _ => false
  | _ => true

theorem observeAppend_replicas (p l : Bytes) (t off commit : UInt64) (now : Int) (id : Bytes) :
    id ∈ (c.observeAppend p t l off commit now).1.replicas ↔ id ∈ c.replicas := by
  have hadopt : (c.adoptTerm t).replicas = c.replicas := by
    unfold adoptTerm
    split
    · exact persist_replicas _
    · rfl
  have hcommit : ∀ d : ReplicationCoordinator,
      (persist (d.observeCommit p off commit)).replicas = d.replicas := by
    intro d
    rw [persist_replicas]
    rfl
  simp only [observeAppend]
  split
  · rfl
  · rename_i haccept
    split
    · rw [hcommit, hadopt]
    · rename_i hother
      -- The leader's entry is written back, and the leader was registered.
      have hmember : l ∈ c.replicas := by
        have h := (of_decide_eq_true (not_not.mp haccept)).2.2
        simp only [isMember, Bool.or_eq_true, decide_eq_true_eq] at h
        exact AList.lookup_isSome.mp (h.resolve_left hother)
      simp only [observeLeader, setProgress, AList.mem_insert, hcommit, hadopt]
      exact ⟨fun h => h.elim (fun heq => heq ▸ hmember) (fun hin => hin), Or.inr⟩

theorem observeHeartbeat_replicas (p node : Bytes) (off : UInt64) (now : Int) (id : Bytes) :
    id ∈ (c.observeHeartbeat p node off now).replicas ↔ id ∈ c.replicas := by
  simp only [observeHeartbeat]
  split
  · rfl
  · split
    · rfl
    · rename_i replica hlookup
      have hmember : node ∈ c.replicas := by
        rw [← AList.lookup_isSome, hlookup]
        rfl
      simp only [setProgress, AList.mem_insert]
      exact ⟨fun h => h.elim (fun heq => heq ▸ hmember) (fun hin => hin), Or.inr⟩

theorem Op.exec_replicas (op : Op) (hop : op.keepsMembers = true) (id : Bytes) :
    id ∈ (op.exec c).replicas ↔ id ∈ c.replicas := by
  cases op with
  | setLeader l => simp only [Op.exec, ReplicationCoordinator.setLeader, persist_replicas]
  | registerReplica r => exact absurd hop Bool.false_ne_true
  | removeReplica r => exact absurd hop Bool.false_ne_true
  | observeHeartbeat p node off now => exact observeHeartbeat_replicas p node off now id
  | observeAppend p t l off commit now => exact observeAppend_replicas p l t off commit now id
  | beginElection =>
      simp only [Op.exec, ReplicationCoordinator.beginElection, persist_replicas]
  | observePreVote t v g =>
      simp only [Op.exec, ReplicationCoordinator.observePreVote]
      split <;> rfl
  | requestVote t cand idx lt =>
      simp only [Op.exec]
      by_cases h : (c.requestVote t cand idx lt).2 = true
      · rw [(requestVote_granted h).2.2.2, persist_replicas]
        split <;> rfl
      · rw [requestVote_refused h]
  | observeVote t v g =>
      simp only [Op.exec, ReplicationCoordinator.observeVote]
      split
      · rfl
      · split
        · rw [persist_replicas]
        · rfl
  | observeHeartbeatRound r =>
      simp only [Op.exec, ReplicationCoordinator.observeHeartbeatRound]
      split
      · rfl
      · split
        · rfl
        · split <;> rfl
  | advanceCommit p off now =>
      simp only [Op.exec, ReplicationCoordinator.advanceCommit]
      split
      · rfl
      · split
        · rfl
        · split
          · rfl
          · rw [persist_replicas]
  | recordLocalOffset p off => rfl
  | fileSystem saves => rfl

theorem Op.exec_nodeId (op : Op) : (op.exec c).nodeId = c.nodeId :=
  congrArg Prod.fst op.exec_fixed

theorem Op.exec_hasStatePath (op : Op) : (op.exec c).hasStatePath = c.hasStatePath :=
  congrArg (fun f => f.2.2) op.exec_fixed

end Moves

end MqBroker
