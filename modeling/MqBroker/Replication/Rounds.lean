import MqBroker.Lib.Runs
import MqBroker.Replication.Ballot

/-!
# Rounds of a Coordinator

The two tallies of a coordinator that are about a round and outlive it: the
pre-votes it has collected, and the heartbeat rounds it has missed.

A pre-vote asks for a term, and the votes of an election are cleared when the
next one begins, but nothing ever clears the pre-votes. Once they are a
majority they stay one, and the first grant of any later round, the node's own
for instance, is answered as if a majority had granted it. Missed rounds are
cleared by a round that is answered, and by nothing else: a node that is voted
into office again goes on counting where it stopped, and steps down after the
first round it misses.

Both answers are right when nothing is left of earlier rounds. For pre-votes
that is to say that the set is empty when a round begins, but for the voter that
begins it: a node grants itself one in each of its rounds. For missed rounds it
is a question of whether the count was 0 at some moment of the present
leadership.

## Main definitions

* `Op.tallies`: What an operation does to the two tallies.
* `PreVoting`: A coordinator with the pre-votes it was granted for each term.
* `PreVoting.Answers`: A majority is announced for the term it was granted for.
* `PreVoting.Cleared`: No pre-votes of others are left when a round begins.
* `MissedTwice`: The last two rounds were missed, in the present leadership.
* `CountedAnew`: The count was 0 in the present leadership.

## Theorems

* `Op.exec_tallies`: What an operation does to the two tallies.
* `preVotes_counted`: When pre-votes are counted for each round.
* `stepDown_iff`: When stepping down takes three rounds.
-/

namespace MqBroker

open ReplicationCoordinator

/-! ## The tallies -/

/-- The pre-votes and the missed rounds of a coordinator. -/
def ReplicationCoordinator.tallies (c : ReplicationCoordinator) : Finset Bytes × Nat :=
  (c.preVotes, c.missedHeartbeatRounds)

/-- The checks of `ObservePreVote`. -/
def ReplicationCoordinator.countsPreVote (c : ReplicationCoordinator) (term : UInt64)
    (voterId : Bytes) (granted : Bool) : Bool :=
  term = c.currentTerm + 1 ∧ granted ∧ voterId ≠ [] ∧ c.isMember voterId

/-- What an operation does to the two tallies. -/
def Op.tallies (c : ReplicationCoordinator) : Op → Finset Bytes × Nat
  | .observePreVote t v g =>
      (if c.countsPreVote t v g then insert v c.preVotes else c.preVotes, c.missedHeartbeatRounds)
  | .observeHeartbeatRound r =>
      (c.preVotes,
        if c.role ≠ .leader then c.missedHeartbeatRounds
        else if r then 0
        else c.missedHeartbeatRounds + 1)
  | _ => c.tallies

section Tallies

variable {c : ReplicationCoordinator}

/-- `ObservePreVote` as its checks and the count. -/
theorem observePreVote_eq (t : UInt64) (v : Bytes) (g : Bool) :
    c.observePreVote t v g
      = if c.countsPreVote t v g then
          ({ c with preVotes := insert v c.preVotes },
            decide ((insert v c.preVotes).card ≥ c.majority))
        else (c, false) := by
  unfold observePreVote countsPreVote
  by_cases hcounts : t = c.currentTerm + 1 ∧ g ∧ v ≠ [] ∧ c.isMember v
  · rcases hcounts with ⟨hterm, hgranted, hvoter, hmember⟩
    rw [if_neg (by simp [hterm, hgranted, hvoter, hmember]),
      if_pos (decide_eq_true ⟨hterm, hgranted, hvoter, hmember⟩)]
  · rw [if_pos (by tauto), if_neg fun h => hcounts (of_decide_eq_true h)]

@[simp] theorem persist_tallies : c.persist.tallies = c.tallies := by
  unfold persist
  split <;> rfl

theorem adoptTerm_tallies (t : UInt64) : (c.adoptTerm t).tallies = c.tallies := by
  unfold adoptTerm
  split
  · rw [persist_tallies]
    rfl
  · rfl

theorem observeAppend_tallies (p l : Bytes) (t off commit : UInt64) (now : Int) :
    (c.observeAppend p t l off commit now).1.tallies = c.tallies := by
  have hcommit : ∀ d : ReplicationCoordinator,
      (persist (d.observeCommit p off commit)).tallies = d.tallies := by
    intro d
    rw [persist_tallies]
    rfl
  simp only [observeAppend]
  split
  · rfl
  · split
    · exact (hcommit _).trans (adoptTerm_tallies t)
    · exact (hcommit _).trans (adoptTerm_tallies t)

/-- The tallies after an operation. -/
theorem Op.exec_tallies (op : Op) : (op.exec c).tallies = op.tallies c := by
  cases op with
  | setLeader id => exact persist_tallies
  | registerReplica id =>
      simp only [Op.exec, ReplicationCoordinator.registerReplica]
      split <;> rfl
  | removeReplica id => rfl
  | observeHeartbeat p id off now =>
      simp only [Op.exec, ReplicationCoordinator.observeHeartbeat]
      split
      · rfl
      · split <;> rfl
  | observeAppend p t l off commit now => exact observeAppend_tallies p l t off commit now
  | beginElection => exact persist_tallies
  | observePreVote t v g =>
      simp only [Op.exec, Op.tallies, observePreVote_eq]
      split <;> rfl
  | requestVote t cand idx lt =>
      simp only [Op.exec]
      by_cases h : (c.requestVote t cand idx lt).2 = true
      · rw [(requestVote_granted h).2.2.2, persist_tallies]
        split <;> rfl
      · rw [requestVote_refused h]
        rfl
  | observeVote t v g =>
      simp only [Op.exec, ReplicationCoordinator.observeVote]
      split
      · rfl
      · split
        · exact persist_tallies
        · rfl
  | observeHeartbeatRound r =>
      simp only [Op.exec, Op.tallies, ReplicationCoordinator.observeHeartbeatRound]
      split
      · rfl
      · split
        · rfl
        · split <;> rfl
  | advanceCommit p off now =>
      simp only [Op.exec, ReplicationCoordinator.advanceCommit]
      split
      · rfl
      · split
        · rfl
        · split
          · rfl
          · exact persist_tallies
  | recordLocalOffset p off => rfl
  | fileSystem saves => rfl

end Tallies

/-! ## Pre-votes -/

/-- A coordinator with the pre-votes that were counted, the terms they were granted
    for, and the term of the latest. -/
structure PreVoting where
  coordinator : ReplicationCoordinator
  granted : Finset (UInt64 × Bytes) := ∅
  latest : Option UInt64 := none

/-- An operation, with a grant remembered when it is counted. -/
def PreVoting.step (s : PreVoting) (op : Op) : PreVoting :=
  match op with
  | .observePreVote t v g =>
      if s.coordinator.countsPreVote t v g then
        { coordinator := op.exec s.coordinator
          granted := insert (t, v) s.granted
          latest := some t }
      else { s with coordinator := op.exec s.coordinator }
  | _ => { s with coordinator := op.exec s.coordinator }

/-- The nodes that have granted a pre-vote for a term. -/
def PreVoting.grants (s : PreVoting) (term : UInt64) : Finset Bytes :=
  (s.granted.filter fun grant => grant.1 = term ∧ s.coordinator.isMember grant.2).image Prod.snd

/-- `ObservePreVote` announces a majority only when a majority of the nodes has
    granted a pre-vote for the term. -/
def PreVoting.Answers (s : PreVoting) : Op → Prop
  | .observePreVote t v g =>
      (s.coordinator.observePreVote t v g).2 = true →
        s.coordinator.majority ≤ ((s.step (.observePreVote t v g)).grants t).card
  | _ => True

/-- When the first pre-vote for a term is counted, none is left of another node,
    and no node is removed whose pre-vote would be left. -/
def PreVoting.Cleared (s : PreVoting) : Op → Prop
  | .observePreVote t v g =>
      s.coordinator.countsPreVote t v g → s.latest ≠ some t → s.coordinator.preVotes ⊆ {v}
  | .removeReplica id => id ∈ s.coordinator.preVotes → id = s.coordinator.nodeId
  | _ => True

instance decidableCleared (s : PreVoting) (op : Op) : Decidable (s.Cleared op) :=
  match op with
  | .observePreVote _ _ _ => inferInstanceAs (Decidable (_ → _ → (_ : Finset Bytes) ⊆ _))
  | .removeReplica _ => inferInstanceAs (Decidable (_ → _))
  | .setLeader _ | .registerReplica _ | .observeHeartbeat _ _ _ _ | .observeAppend _ _ _ _ _ _
  | .beginElection | .requestVote _ _ _ _ | .observeVote _ _ _ | .observeHeartbeatRound _
  | .advanceCommit _ _ _ | .recordLocalOffset _ _ | .fileSystem _ => isTrue trivial

/-- All pre-votes are of nodes that have granted one for the term of the latest. -/
def PreVoting.Current (s : PreVoting) : Prop :=
  ∀ t, s.latest = some t → s.coordinator.preVotes ⊆ s.grants t

namespace PreVoting

variable {s : PreVoting}

theorem mem_grants {t : UInt64} {w : Bytes} :
    w ∈ s.grants t ↔ (t, w) ∈ s.granted ∧ s.coordinator.isMember w := by
  simp only [grants, Finset.mem_image, Finset.mem_filter]
  constructor
  · rintro ⟨⟨_, _⟩, ⟨hgranted, rfl, hmember⟩, rfl⟩
    exact ⟨hgranted, hmember⟩
  · rintro ⟨hgranted, hmember⟩
    exact ⟨(t, w), ⟨hgranted, rfl, hmember⟩, rfl⟩

theorem isMember_iff {c : ReplicationCoordinator} {w : Bytes} :
    c.isMember w ↔ w = c.nodeId ∨ w ∈ c.replicas := by
  rw [isMember, Bool.or_eq_true, decide_eq_true_eq, AList.lookup_isSome]

/-- A node stays one, unless it is removed. -/
theorem exec_isMember {c : ReplicationCoordinator} {op : Op} {w : Bytes}
    (h : c.isMember w = true)
    (hop : ∀ id, op = .removeReplica id → id = w → w = c.nodeId) :
    (op.exec c).isMember w = true := by
  rw [isMember_iff] at h ⊢
  rw [Op.exec_nodeId]
  rcases h with hself | hin
  · exact Or.inl hself
  · cases hkeeps : op.keepsMembers with
    | true => exact Or.inr ((Op.exec_replicas op hkeeps w).mpr hin)
    | false =>
        cases op with
        | registerReplica id =>
            right
            simp only [Op.exec, ReplicationCoordinator.registerReplica]
            split
            · exact hin
            · exact AList.mem_insert _ |>.mpr (Or.inr hin)
        | removeReplica id =>
            by_cases hid : id = w
            · exact Or.inl (hop id rfl hid)
            · right
              simp only [Op.exec, ReplicationCoordinator.removeReplica]
              exact AList.mem_erase.mpr ⟨fun heq => hid heq.symm, hin⟩
        | _ => cases hkeeps

/-- A grant that is counted. -/
theorem step_counted {t : UInt64} {v : Bytes} {g : Bool}
    (hcounts : s.coordinator.countsPreVote t v g = true) :
    (s.step (.observePreVote t v g)).coordinator.preVotes = insert v s.coordinator.preVotes ∧
      (s.step (.observePreVote t v g)).latest = some t ∧
      (s.step (.observePreVote t v g)).grants t = insert v (s.grants t) := by
  have hmember : s.coordinator.isMember v = true := (of_decide_eq_true hcounts).2.2.2
  have hstep : s.step (.observePreVote t v g)
      = { coordinator := { s.coordinator with preVotes := insert v s.coordinator.preVotes }
          granted := insert (t, v) s.granted
          latest := some t } := by
    simp only [PreVoting.step, if_pos hcounts, Op.exec, observePreVote_eq]
  rw [hstep]
  refine ⟨rfl, rfl, ?_⟩
  -- The grant adds its voter, who is a node, to those of the term.
  ext w
  simp only [Finset.mem_insert, mem_grants, Prod.mk.injEq, true_and]
  constructor
  · rintro ⟨rfl | hgranted, hw⟩
    · exact Or.inl rfl
    · exact Or.inr ⟨hgranted, hw⟩
  · rintro (rfl | ⟨hgranted, hw⟩)
    · exact ⟨Or.inl rfl, hmember⟩
    · exact ⟨Or.inr hgranted, hw⟩

/-- Any other operation leaves the pre-votes and the grants as they are. -/
theorem step_uncounted {op : Op}
    (h : ∀ t v g, op = .observePreVote t v g → s.coordinator.countsPreVote t v g = false) :
    (s.step op).coordinator = op.exec s.coordinator ∧ (s.step op).granted = s.granted ∧
      (s.step op).latest = s.latest ∧
      (s.step op).coordinator.preVotes = s.coordinator.preVotes := by
  have htallies : (op.exec s.coordinator).preVotes = (op.tallies s.coordinator).1 :=
    congrArg Prod.fst op.exec_tallies
  cases op with
  | observePreVote t v g =>
      have hcounts := h t v g rfl
      rw [Op.tallies, hcounts] at htallies
      simp only [PreVoting.step, hcounts, Bool.false_eq_true, if_false]
      exact ⟨trivial, trivial, trivial, htallies⟩
  | _ => exact ⟨rfl, rfl, rfl, htallies⟩

/-- The pre-votes stay those of the term when those of others are cleared. -/
theorem Current.step (h : s.Current) {op : Op} (hop : s.Cleared op) : (s.step op).Current := by
  by_cases hcounted : ∃ t v g, op = .observePreVote t v g ∧ s.coordinator.countsPreVote t v g = true
  · rcases hcounted with ⟨t, v, g, rfl, hcounts⟩
    rcases step_counted hcounts with ⟨hpreVotes, hlatest, hgrants⟩
    intro t' ht'
    rw [hlatest] at ht'
    obtain rfl := Option.some.inj ht'
    rw [hpreVotes, hgrants]
    -- Either the round has begun before, or it begins with this voter alone.
    by_cases hround : s.latest = some t
    · exact Finset.insert_subset_insert v (h t hround)
    · refine Finset.insert_subset (Finset.mem_insert_self _ _) ?_
      exact (hop hcounts hround).trans
        (Finset.singleton_subset_iff.mpr (Finset.mem_insert_self _ _))
  · have hnone : ∀ t v g, op = .observePreVote t v g →
        s.coordinator.countsPreVote t v g = false :=
      fun t v g heq => Bool.eq_false_iff.mpr fun hcounts => hcounted ⟨t, v, g, heq, hcounts⟩
    rcases step_uncounted hnone with ⟨hexec, hgranted, hlatest, hpreVotes⟩
    intro t ht w hw
    rw [hlatest] at ht
    rw [hpreVotes] at hw
    rcases mem_grants.mp (h t ht hw) with ⟨hgrant, hmember⟩
    rw [mem_grants, hgranted, hexec]
    refine ⟨hgrant, exec_isMember hmember ?_⟩
    rintro id rfl rfl
    exact hop hw

/-- Where the pre-votes are those of the term, an answer is right. -/
theorem Current.answers {op : Op} (h : (s.step op).Current) : s.Answers op := by
  cases op with
  | observePreVote t v g =>
      intro hanswer
      rw [observePreVote_eq] at hanswer
      by_cases hcounts : s.coordinator.countsPreVote t v g = true
      · rcases step_counted hcounts with ⟨hpreVotes, hlatest, _⟩
        rw [if_pos hcounts, decide_eq_true_eq, ← hpreVotes] at hanswer
        exact hanswer.trans (Finset.card_le_card (h t hlatest))
      · rw [if_neg hcounts] at hanswer
        cases hanswer
  | _ => trivial

end PreVoting

/-- In a run in which no pre-votes of others are left when a round begins,
    majorities are announced only for the terms they were granted for. -/
theorem preVotes_counted (c : ReplicationCoordinator) (ops : List Op)
    (h : Along PreVoting.step PreVoting.Cleared { coordinator := c } ops) :
    Along PreVoting.step PreVoting.Answers { coordinator := c } ops := by
  -- The induction is on the run, from any state whose pre-votes are those of one term.
  have hrun : ∀ (ops : List Op) (s : PreVoting), s.Current →
      Along PreVoting.step PreVoting.Cleared s ops → Along PreVoting.step PreVoting.Answers s ops := by
    intro ops
    induction ops with
    | nil => exact fun _ _ _ => trivial
    | cons op ops ih =>
        intro s hs hops
        have hnext := hs.step hops.1
        exact ⟨hnext.answers, ih _ hnext hops.2⟩
  exact hrun ops _ (fun _ hnone => (nomatch hnone)) h

/-- A node of three asks for pre-votes in vain, hears of a later term, and asks
    again. -/
def secondRoundOps : List Op :=
  [.registerReplica [97], .registerReplica [98], .observePreVote 1 [110] true,
    .observeAppend [112] 5 [98] 0 0 0, .observePreVote 6 [110] true, .observePreVote 6 [97] true]

/-- It has a majority in the second round, which is announced. -/
theorem preVotes_counted_second :
    let c : ReplicationCoordinator := .restart [110] .follower 10000 false none
    ((secondRoundOps.dropLast.foldl Op.exec c).observePreVote 6 [97] true).2 = true ∧
      Along PreVoting.step PreVoting.Answers { coordinator := c } secondRoundOps :=
  ⟨by decide, preVotes_counted _ secondRoundOps (by decide)⟩

/-- Two rounds of a node of three: the first one is won with the grant of
    another node, and an election follows. -/
def preVoteOps : List Op :=
  [.registerReplica [97], .registerReplica [98], .observePreVote 1 [110] true,
    .observePreVote 1 [97] true, .beginElection, .observePreVote 2 [110] true]

/-- In the second round the node is told that it has a majority when nobody but
    itself has granted anything. -/
theorem preVote_leftover :
    ¬ ∀ (nodeId : Bytes) (role : ReplicaRole) (timeoutMs : Int) (hasStatePath : Bool)
      (stateFile : Option Bytes) (ops : List Op),
      Along PreVoting.step PreVoting.Answers
        { coordinator := .restart nodeId role timeoutMs hasStatePath stateFile } ops := by
  intro h
  have hlast := (h [110] .follower 10000 false none preVoteOps).2.2.2.2.2.1 (by decide)
  revert hlast
  decide

/-! ## Missed rounds -/

/-- Whether an operation is a heartbeat round. -/
def Op.isRound : Op → Bool
  | .observeHeartbeatRound _ => true
  | _ => false

/-- A node is leader all along. -/
abbrev LeadsAlong (c : ReplicationCoordinator) (ops : List Op) : Prop :=
  Always Op.exec (fun d => d.role = .leader) c ops

/-- Another missed round ends the leadership. -/
def ReplicationCoordinator.StepsDown (c : ReplicationCoordinator) : Prop :=
  c.role = .leader ∧ (c.observeHeartbeatRound false).1.role = .follower

/-- The two heartbeat rounds before this moment were missed, and the node is
    leader since before the first of them. -/
def MissedTwice (c : ReplicationCoordinator) (before : List Op) : Prop :=
  ∃ first rest, before = first ++ rest ∧ LeadsAlong (first.foldl Op.exec c) rest ∧
    rest.filter Op.isRound = [.observeHeartbeatRound false, .observeHeartbeatRound false]

/-- The node is leader since a moment at which no missed round was counted. -/
def CountedAnew (c : ReplicationCoordinator) (before : List Op) : Prop :=
  ∃ first rest, before = first ++ rest ∧ LeadsAlong (first.foldl Op.exec c) rest ∧
    (first.foldl Op.exec c).missedHeartbeatRounds = 0

section Missed

variable {c : ReplicationCoordinator}

theorem exec_missed (op : Op) :
    (op.exec c).missedHeartbeatRounds = (op.tallies c).2 :=
  congrArg Prod.snd op.exec_tallies

theorem exec_missed_other {op : Op} (h : op.isRound = false) :
    (op.exec c).missedHeartbeatRounds = c.missedHeartbeatRounds := by
  rw [exec_missed]
  cases op with
  | observeHeartbeatRound r => exact absurd h Bool.noConfusion
  | _ => rfl

theorem exec_answered (h : c.role = .leader) :
    ((Op.observeHeartbeatRound true).exec c).missedHeartbeatRounds = 0 := by
  rw [exec_missed, Op.tallies, if_neg (not_not.mpr h), if_pos rfl]

theorem exec_missed_round (h : c.role = .leader) :
    ((Op.observeHeartbeatRound false).exec c).missedHeartbeatRounds
      = c.missedHeartbeatRounds + 1 := by
  rw [exec_missed, Op.tallies, if_neg (not_not.mpr h), if_neg Bool.false_ne_true]

/-- A leader steps down at the third missed round that is counted. -/
theorem stepsDown_iff_missed :
    c.StepsDown ↔ c.role = .leader ∧ 2 ≤ c.missedHeartbeatRounds := by
  refine and_congr_right fun hleader => ?_
  simp only [observeHeartbeatRound, hleader, ne_eq, not_true_eq_false, if_false,
    Bool.false_eq_true]
  split
  · rename_i hfew
    exact iff_of_false (by simp only [reduceCtorEq, not_false_eq_true]) (by omega)
  · exact iff_of_true rfl (by omega)

/-- A node that is still leader after a missed round has not counted three. -/
theorem missed_round_leads (h : c.role = .leader)
    (hleads : ((Op.observeHeartbeatRound false).exec c).role = .leader) :
    c.missedHeartbeatRounds + 1 ≤ 2 := by
  by_contra hmany
  have hdown : c.StepsDown := stepsDown_iff_missed.mpr ⟨h, by omega⟩
  rw [Op.exec, hdown.2] at hleads
  cases hleads

/-- From a moment on at which nothing was counted, the rounds that are counted
    are the last ones, and there are at most two of them. -/
theorem counted_last (hzero : c.missedHeartbeatRounds = 0) (ops : List Op)
    (hleads : LeadsAlong c ops) :
    (ops.foldl Op.exec c).missedHeartbeatRounds ≤ 2 ∧
      ∃ first rest, ops = first ++ rest ∧
        rest.filter Op.isRound
          = List.replicate (ops.foldl Op.exec c).missedHeartbeatRounds
              (.observeHeartbeatRound false) := by
  -- Going by the last operation keeps the moment the count starts from.
  induction ops using List.reverseRecOn with
  | nil => exact ⟨by rw [List.foldl_nil, hzero]; omega, [], [], rfl, by
      rw [List.foldl_nil, hzero]; rfl⟩
  | append_singleton ops op ih =>
      rcases always_append.mp hleads with ⟨hbefore, hnow⟩
      rcases ih hbefore with ⟨hle, first, rest, hsplit, hrounds⟩
      have hleader := hnow.start
      rw [List.foldl_append, List.foldl_cons, List.foldl_nil]
      by_cases hop : op.isRound = true
      · cases op with
        | observeHeartbeatRound r =>
            cases r with
            | true =>
                rw [exec_answered hleader]
                exact ⟨by omega, ops ++ [.observeHeartbeatRound true], [],
                  (List.append_nil _).symm, rfl⟩
            | false =>
                rw [exec_missed_round hleader]
                refine ⟨missed_round_leads hleader hnow.2, first,
                  rest ++ [.observeHeartbeatRound false], ?_, ?_⟩
                · rw [hsplit, List.append_assoc]
                · rw [List.filter_append, hrounds, List.replicate_succ']
                  rfl
        | _ => cases hop
      · rw [exec_missed_other (Bool.not_eq_true _ ▸ hop)]
        refine ⟨hle, first, rest ++ [op], ?_, ?_⟩
        · rw [hsplit, List.append_assoc]
        · rw [List.filter_append, hrounds, List.filter_cons_of_neg hop, List.filter_nil,
            List.append_nil]

/-- While a node is leader and every round is missed, all of them are counted. -/
theorem counted_all {n : Nat} (ops : List Op) (hleads : LeadsAlong c ops)
    (hrounds : ops.filter Op.isRound = List.replicate n (.observeHeartbeatRound false)) :
    n = 0 ∨ c.missedHeartbeatRounds + n ≤ 2 := by
  induction ops generalizing c n with
  | nil =>
      left
      rw [List.filter_nil] at hrounds
      exact (List.replicate_eq_nil_iff _).mp hrounds.symm
  | cons op ops ih =>
      by_cases hop : op.isRound = true
      · rw [List.filter_cons_of_pos hop] at hrounds
        cases n with
        | zero => exact Or.inl rfl
        | succ n =>
            right
            rw [List.replicate_succ] at hrounds
            rcases List.cons.inj hrounds with ⟨rfl, hrest⟩
            have hfew := missed_round_leads hleads.1 hleads.2.start
            have hcount := exec_missed_round hleads.1
            rcases ih hleads.2 hrest with rfl | hle
            · omega
            · omega
      · rw [List.filter_cons_of_neg hop] at hrounds
        rw [← @exec_missed_other c op (Bool.not_eq_true _ ▸ hop)]
        exact ih hleads.2 hrounds

end Missed

/-- A leader that steps down does so after three rounds that it has missed, in
    the leadership it loses, exactly when it has been leader since a moment at
    which no missed round was counted. -/
theorem stepDown_iff (c : ReplicationCoordinator) (before : List Op) :
    ((before.foldl Op.exec c).StepsDown → MissedTwice c before) ↔
      ((before.foldl Op.exec c).role = .leader →
        2 ≤ (before.foldl Op.exec c).missedHeartbeatRounds → CountedAnew c before) := by
  constructor
  · intro hright hleader hmany
    rcases hright (stepsDown_iff_missed.mpr ⟨hleader, hmany⟩) with
      ⟨first, rest, hsplit, hleads, hrounds⟩
    refine ⟨first, rest, hsplit, hleads, ?_⟩
    -- The two rounds were counted, and the count has not reached three.
    rcases counted_all (n := 2) rest hleads hrounds with hnone | hfew
    · omega
    · omega
  · intro hanew hdown
    rcases stepsDown_iff_missed.mp hdown with ⟨hleader, hmany⟩
    rcases hanew hleader hmany with ⟨first, rest, rfl, hleads, hzero⟩
    rcases counted_last hzero rest hleads with ⟨hfew, early, late, rfl, hrounds⟩
    rw [List.foldl_append] at hmany
    have htwo : ((early ++ late).foldl Op.exec (first.foldl Op.exec c)).missedHeartbeatRounds
        = 2 := by
      omega
    rw [htwo] at hrounds
    refine ⟨first ++ early, late, (List.append_assoc _ _ _).symm, ?_, hrounds⟩
    rw [List.foldl_append]
    exact (always_append.mp hleads).2

/-- A node of two misses three rounds and steps down, and is elected again. -/
def reelectedOps : List Op :=
  [.registerReplica [97], .observeHeartbeatRound false, .observeHeartbeatRound false,
    .observeHeartbeatRound false, .beginElection, .observeVote 1 [110] true,
    .observeVote 1 [97] true]

/-- The first round that is missed after the election ends the leadership. -/
theorem stepDown_early :
    ¬ ∀ (nodeId : Bytes) (role : ReplicaRole) (timeoutMs : Int) (hasStatePath : Bool)
      (stateFile : Option Bytes) (before : List Op),
      (before.foldl Op.exec (.restart nodeId role timeoutMs hasStatePath stateFile)).StepsDown →
        MissedTwice (.restart nodeId role timeoutMs hasStatePath stateFile) before := by
  intro h
  rcases h [110] .leader 10000 false none reelectedOps ⟨by decide, by decide⟩ with
    ⟨first, rest, hsplit, hleads, hrounds⟩
  rcases List.eq_nil_or_concat rest with rfl | ⟨early, last, rfl⟩
  · cases hrounds
  · rw [List.concat_eq_append] at hsplit hleads
    have hbefore : first ++ early = reelectedOps.dropLast := by
      rw [hsplit, ← List.append_assoc, List.dropLast_concat]
    -- The node was a candidate just before it was leader.
    have hleader := (always_append.mp hleads).1.last
    rw [← List.foldl_append, hbefore] at hleader
    revert hleader
    decide

end MqBroker
