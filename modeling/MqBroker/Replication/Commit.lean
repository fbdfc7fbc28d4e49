import MqBroker.Replication.Ballot

/-!
# Commit Indices

What operations do to the summary that a coordinator keeps of each partition,
and when a commit index goes back.

Three operations write to the table of partitions, each to one entry.
`Op.entry` is the entry that is written, and everything else about partitions
follows from it. `RecordLocalOffset` leaves the commit index alone and
`AdvanceCommit` takes a maximum. `ObserveAppend` takes a maximum with the
commit index of the leader, too, but then cuts the result down to the offset
of the message. A leader that has just been elected sends heartbeats with the
offset 0, and its followers forget what was committed.

## Main definitions

* `Op.entry`: The entry of the table of partitions an operation writes.
* `runOps`: A sequence of operations.
* `CommitsForward`: Commit indices never decrease.
* `RunsReaching`: Appends and heartbeats reach the commit index.

## Theorems

* `Op.exec_partitionStates`: An operation writes at most one entry.
* `Op.commits_iff`: When one operation takes no commit index back.
* `commits_forward_iff`: When a sequence of operations does.
-/

namespace MqBroker

open ReplicationCoordinator

/-- The entry of the table of partitions that an operation writes. -/
def Op.entry (c : ReplicationCoordinator) : Op → Option (Bytes × PartitionState)
  | .observeAppend p t l off commit _ =>
      let state := c.partitionStates.get p
      if c.acceptsLeader t l then
        some (p, { state with commitIndex := min (max state.commitIndex commit) off })
      else none
  | .advanceCommit p off now =>
      let state := c.partitionStates.get p
      if c.role ≠ .leader then none
      -- A refused commit still creates the entry.
      else if off > state.localOffset ∨ state.lastLogTerm ≠ c.currentTerm then some (p, state)
      else if 1 + c.replicatedCount p off now < c.majority then some (p, state)
      else
        let commit := max state.commitIndex off
        some (p, { state with commitIndex := commit, lastApplied := commit })
  | .recordLocalOffset p off =>
      let state := c.partitionStates.get p
      some (p, { state with
        localOffset := max state.localOffset off
        lastLogTerm := c.currentTerm })
  | _ => none

/-- A table with an entry written, if there is one. -/
def Table.write {α β : Type} [DecidableEq α] (t : Table α β) : Option (α × β) → Table α β
  | none => t
  | some (k, v) => t.insert k v

section Entries

variable {c : ReplicationCoordinator}

@[simp] theorem persist_partitionStates : c.persist.partitionStates = c.partitionStates := by
  unfold persist
  split <;> rfl

theorem adoptTerm_partitionStates (t : UInt64) :
    (c.adoptTerm t).partitionStates = c.partitionStates := by
  unfold adoptTerm
  split
  · exact persist_partitionStates
  · rfl

theorem observeAppend_partitionStates (p l : Bytes) (t off commit : UInt64) (now : Int) :
    (c.observeAppend p t l off commit now).1.partitionStates
      = c.partitionStates.write ((Op.observeAppend p t l off commit now).entry c) := by
  simp only [observeAppend, Op.entry]
  by_cases haccepts : c.acceptsLeader t l = true
  · -- Neither the term nor the progress of the leader is in the table.
    have hcommit : ∀ d : ReplicationCoordinator, d.partitionStates = c.partitionStates →
        (persist (d.observeCommit p off commit)).partitionStates
          = c.partitionStates.insert p
            { c.partitionStates.get p with
              commitIndex := min (max (c.partitionStates.get p).commitIndex commit) off } := by
      intro d hd
      rw [persist_partitionStates, observeCommit, hd]
    simp only [haccepts, not_true_eq_false, if_false, if_true, Table.write]
    split <;> exact hcommit _ (adoptTerm_partitionStates t)
  · simp only [haccepts, not_false_eq_true, if_true, Bool.false_eq_true, if_false, Table.write]

theorem advanceCommit_partitionStates (p : Bytes) (off : UInt64) (now : Int) :
    (c.advanceCommit p off now).1.partitionStates
      = c.partitionStates.write ((Op.advanceCommit p off now).entry c) := by
  simp only [advanceCommit, Op.entry]
  split
  · rfl
  · split
    · rfl
    · split
      · rfl
      · rw [persist_partitionStates]
        rfl

/-- An operation writes at most one entry of the table of partitions. -/
theorem Op.exec_partitionStates (op : Op) :
    (op.exec c).partitionStates = c.partitionStates.write (op.entry c) := by
  cases op with
  | setLeader id => exact persist_partitionStates
  | registerReplica id =>
      simp only [Op.exec, ReplicationCoordinator.registerReplica]
      split <;> rfl
  | removeReplica id => rfl
  | observeHeartbeat p id off now =>
      simp only [Op.exec, ReplicationCoordinator.observeHeartbeat]
      split
      · rfl
      · split <;> rfl
  | observeAppend p t l off commit now => exact observeAppend_partitionStates p l t off commit now
  | beginElection => exact persist_partitionStates
  | observePreVote t v g =>
      simp only [Op.exec, ReplicationCoordinator.observePreVote]
      split <;> rfl
  | requestVote t cand idx lt =>
      simp only [Op.exec]
      by_cases hgranted : (c.requestVote t cand idx lt).2 = true
      · rw [(requestVote_granted hgranted).2.2.2, persist_partitionStates]
        split <;> rfl
      · rw [requestVote_refused hgranted]
        rfl
  | observeVote t v g =>
      simp only [Op.exec, ReplicationCoordinator.observeVote]
      split
      · rfl
      · split
        · exact persist_partitionStates
        · rfl
  | observeHeartbeatRound r =>
      simp only [Op.exec, ReplicationCoordinator.observeHeartbeatRound]
      split
      · rfl
      · split
        · rfl
        · split <;> rfl
  | advanceCommit p off now => exact advanceCommit_partitionStates p off now
  | recordLocalOffset p off => rfl
  | fileSystem saves => rfl

/-! ## Commit indices -/

/-- An operation takes no commit index back. -/
def Op.Commits (c : ReplicationCoordinator) (op : Op) : Prop :=
  ∀ p, c.partitionCommitIndex p ≤ (op.exec c).partitionCommitIndex p

/-- An append or a heartbeat that is accepted reaches as far as the commit
    index of its partition. -/
def Op.Reaches (c : ReplicationCoordinator) : Op → Prop
  | .observeAppend p t l off _ _ => c.acceptsLeader t l → c.partitionCommitIndex p ≤ off
  | _ => True

theorem Op.partitionCommitIndex_of_none {op : Op} (h : op.entry c = none) (q : Bytes) :
    (op.exec c).partitionCommitIndex q = c.partitionCommitIndex q := by
  rw [partitionCommitIndex, partitionCommitIndex, op.exec_partitionStates, h]
  rfl

theorem Op.partitionCommitIndex_of_some {op : Op} {p : Bytes} {s : PartitionState}
    (h : op.entry c = some (p, s)) (q : Bytes) :
    (op.exec c).partitionCommitIndex q
      = if q = p then s.commitIndex else c.partitionCommitIndex q := by
  have hwrite : (op.exec c).partitionStates = c.partitionStates.insert p s := by
    rw [op.exec_partitionStates, h]
    rfl
  rw [partitionCommitIndex, partitionCommitIndex, hwrite]
  split
  · rename_i hq
    rw [hq, Table.get_insert_self]
  · rename_i hq
    rw [Table.get_insert_ne _ _ _ _ hq]

theorem Op.commits_of_none {op : Op} (h : op.entry c = none) : op.Commits c := by
  intro p
  rw [Op.partitionCommitIndex_of_none h]

/-- Only the partition whose entry is written has to be looked at. -/
theorem Op.commits_of_some {op : Op} {p : Bytes} {s : PartitionState}
    (h : op.entry c = some (p, s)) : op.Commits c ↔ c.partitionCommitIndex p ≤ s.commitIndex := by
  simp only [Op.Commits, Op.partitionCommitIndex_of_some h]
  constructor
  · intro hall
    have hp := hall p
    rwa [if_pos rfl] at hp
  · intro hle q
    split
    · rename_i hq
      rw [hq]
      exact hle
    · exact le_rfl

theorem observeAppend_commits_iff (p l : Bytes) (t off commit : UInt64) (now : Int) :
    (Op.observeAppend p t l off commit now).Commits c
      ↔ (Op.observeAppend p t l off commit now).Reaches c := by
  by_cases haccepts : c.acceptsLeader t l = true
  · have hentry : (Op.observeAppend p t l off commit now).entry c
        = some (p, { c.partitionStates.get p with
            commitIndex := min (max (c.partitionStates.get p).commitIndex commit) off }) := by
      simp only [Op.entry, haccepts, if_true]
    -- The maximum never hurts, so what is left is the minimum with the offset.
    rw [Op.commits_of_some hentry]
    simp only [Op.Reaches, haccepts, forall_const, partitionCommitIndex, le_min_iff, le_max_left,
      true_and]
  · have hentry : (Op.observeAppend p t l off commit now).entry c = none := by
      simp only [Op.entry, haccepts, Bool.false_eq_true, if_false]
    simp only [Op.commits_of_none hentry, Op.Reaches, haccepts, Bool.false_eq_true, false_implies]

theorem advanceCommit_commits (p : Bytes) (off : UInt64) (now : Int) :
    (Op.advanceCommit p off now).Commits c := by
  cases hentry : (Op.advanceCommit p off now).entry c with
  | none => exact Op.commits_of_none hentry
  | some e =>
      rcases e with ⟨q, s⟩
      rw [Op.commits_of_some hentry]
      simp only [Op.entry] at hentry
      split at hentry
      · cases hentry
      · split at hentry
        · cases hentry
          exact le_rfl
        · split at hentry
          · cases hentry
            exact le_rfl
          · cases hentry
            exact le_max_left _ _

/-- An operation takes no commit index back exactly when it is not an append
    or a heartbeat that stops short of it. -/
theorem Op.commits_iff (op : Op) : op.Commits c ↔ op.Reaches c := by
  cases op with
  | observeAppend p t l off commit now => exact observeAppend_commits_iff p l t off commit now
  | advanceCommit p off now => exact iff_of_true (advanceCommit_commits p off now) trivial
  | recordLocalOffset p off =>
      refine iff_of_true ?_ trivial
      rw [Op.commits_of_some rfl]
      exact le_rfl
  | _ => exact iff_of_true (Op.commits_of_none rfl) trivial

end Entries

/-! ## Sequences of operations -/

/-- The coordinator after a sequence of operations. -/
def runOps (c : ReplicationCoordinator) (ops : List Op) : ReplicationCoordinator :=
  ops.foldl Op.exec c

/-- No commit index ever decreases in a sequence of operations. -/
def CommitsForward (c : ReplicationCoordinator) (ops : List Op) : Prop :=
  ∀ p, Monotone (fun n => (runOps c (ops.take n)).partitionCommitIndex p)

/-- Every append or heartbeat that is accepted reaches the commit index its
    partition has at that point. -/
def RunsReaching (c : ReplicationCoordinator) (ops : List Op) : Prop :=
  ∀ n (h : n < ops.length), ops[n].Reaches (runOps c (ops.take n))

theorem runOps_take_succ (c : ReplicationCoordinator) (ops : List Op) (n : Nat)
    (h : n < ops.length) :
    runOps c (ops.take (n + 1)) = ops[n].exec (runOps c (ops.take n)) := by
  simp only [runOps, List.take_succ_eq_append_getElem h, List.foldl_append, List.foldl_cons,
    List.foldl_nil]

/-- Commit indices never decrease, for any coordinator and any sequence of
    operations, exactly when no accepted append or heartbeat stops short of the
    commit index. -/
theorem commits_forward_iff (c : ReplicationCoordinator) (ops : List Op) :
    CommitsForward c ops ↔ RunsReaching c ops := by
  constructor
  · intro hforward n hn
    rw [← Op.commits_iff]
    intro p
    have hstep := hforward p (Nat.le_succ n)
    simp only [Nat.succ_eq_add_one, runOps_take_succ c ops n hn] at hstep
    exact hstep
  · intro hreaching p
    refine monotone_nat_of_le_succ ?_
    intro n
    by_cases hn : n < ops.length
    · rw [runOps_take_succ c ops n hn]
      exact (Op.commits_iff _).mpr (hreaching n hn) p
    · rw [List.take_of_length_le (by omega), List.take_of_length_le (by omega)]

/-- A follower has committed offset 5 and hears from a leader that was just
    elected: its heartbeat carries the offset 0, and the commit index is 0
    again. -/
theorem commits_back :
    ¬ CommitsForward (ReplicationCoordinator.restart [97] .follower 5000 true none)
      [.registerReplica [98], .registerReplica [99], .observeAppend [112] 1 [98] 5 5 0,
        .observeAppend [112] 2 [99] 0 0 1] := by
  intro h
  have hback := h [112] (show 3 ≤ 4 by decide)
  exact absurd hback (by decide +kernel)

end MqBroker
