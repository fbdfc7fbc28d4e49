import MqBroker.Storage.Retained

/-!
# Calls on a Partition

Every call that changes a partition, with everything the file system can do to
it, and what no call can do.

A call can fail and still have changed something. An append whose sync fails
has stored its message, one whose write fails may have started a segment, and
a cleanup stops in front of the first file that cannot be removed, with the
files before it gone. Through all of this the messages of a partition stay
numbered up to the next offset, and a partition with an active segment keeps
one.

## Main definitions

* `PartitionCall`: A call that changes a partition.
* `cleanupFaulty`: The loop of the cleaner when removing can fail.
* `Partition.InOrder`: Messages that are numbered up to the next offset.
* `runCalls`: A recovery and calls after it.

## Theorems

* `exec_segments_ne`: No call takes the active segment away.
* `runCalls_inOrder`: The messages stay numbered.
-/

namespace MqBroker

/-- The cleaner's loop, when the files of only so many segments can be
    removed. -/
def cleanupFaulty (config : StorageConfig) (now : Int64) :
    Nat → Nat → List Segment → List Segment
  | removable + 1, total, oldest :: next :: rest =>
      if oldest.expired config now || oversized config total then
        cleanupFaulty config now removable (total - oldest.size) (next :: rest)
      else oldest :: next :: rest
  | _, _, segments => segments

/-- A call that changes a partition, with what the file system makes of it. -/
inductive PartitionCall
  | append (io : IoOutcome) (now : Int64) (key value : Bytes)
  | appendReplica (io : IoOutcome) (m : Message)
  | cleanup (now : Int64) (removable : Nat)
deriving DecidableEq, Repr

/-- The partition after a call. -/
def PartitionCall.exec (config : StorageConfig) (p : Partition) : PartitionCall → Partition
  | .append io now key value => (p.append config io now key value).1
  | .appendReplica io m => (p.appendReplica config io m).1
  | .cleanup now removable =>
      { p with segments := cleanupFaulty config now removable p.totalSize p.segments }

/-- A recovery from log files, and calls after it. -/
def runCalls (config : StorageConfig) (files : List SegmentFile) (calls : List PartitionCall) :
    Partition :=
  calls.foldl (PartitionCall.exec config) (recover config files)

/-! ## Cleaning -/

/-- As long as enough files can be removed, this is the loop of the cleaner. -/
theorem cleanupFaulty_enough (config : StorageConfig) (now : Int64) (segments : List Segment)
    (total removable : Nat) (h : segments.length ≤ removable) :
    cleanupFaulty config now removable total segments
      = cleanupLoop config now total segments := by
  induction segments generalizing total removable with
  | nil => cases removable <;> rfl
  | cons oldest rest ih =>
      cases removable with
      | zero => exact absurd h (Nat.not_succ_le_zero _)
      | succ removable =>
          cases rest with
          | nil => rfl
          | cons next rest =>
              simp only [cleanupFaulty, cleanupLoop]
              rw [ih _ removable (Nat.le_of_succ_le_succ h)]

/-- The cleaner removes segments at the front, and not all of them, also if it
    has to stop. -/
theorem cleanupFaulty_suffix (config : StorageConfig) (now : Int64) (segments : List Segment)
    (total removable : Nat) :
    cleanupFaulty config now removable total segments <:+ segments ∧
      (segments ≠ [] → cleanupFaulty config now removable total segments ≠ []) := by
  induction segments generalizing total removable with
  | nil => cases removable <;> exact ⟨List.suffix_rfl, id⟩
  | cons oldest rest ih =>
      cases removable with
      | zero => exact ⟨List.suffix_rfl, id⟩
      | succ removable =>
          cases rest with
          | nil => exact ⟨List.suffix_rfl, id⟩
          | cons next rest =>
              simp only [cleanupFaulty]
              split
              · rcases ih (total - oldest.size) removable with ⟨hsuffix, hne⟩
                exact ⟨hsuffix.trans (List.suffix_cons oldest _),
                  fun _ => hne (List.cons_ne_nil _ _)⟩
              · exact ⟨List.suffix_rfl, id⟩

/-! ## The active segment -/

/-- No call takes the active segment away. -/
theorem exec_segments_ne (config : StorageConfig) (p : Partition) (call : PartitionCall)
    (h : p.segments ≠ []) : (call.exec config p).segments ≠ [] := by
  cases call with
  | append io now key value =>
      simp only [PartitionCall.exec, Partition.append]
      split
      · exact h
      · exact appendRecord_segments_ne config io p _ h
  | appendReplica io m =>
      simp only [PartitionCall.exec, Partition.appendReplica]
      split
      · exact h
      · split
        · exact h
        · exact appendRecord_segments_ne config io p _ h
  | cleanup now removable =>
      exact (cleanupFaulty_suffix config now p.segments p.totalSize removable).2 h

theorem foldl_segments_ne (config : StorageConfig) (calls : List PartitionCall) (p : Partition)
    (h : p.segments ≠ []) : (calls.foldl (PartitionCall.exec config) p).segments ≠ [] := by
  induction calls generalizing p with
  | nil => exact h
  | cons call calls ih => exact ih _ (exec_segments_ne config p call h)

/-! ## Offsets -/

/-- The messages are numbered, from somewhere up to the next offset. -/
def Partition.InOrder (p : Partition) : Prop :=
  ∃ first, Numbered first p.messages ∧ p.nextOffset = first + UInt64.ofNat p.messages.length

theorem recover_inOrder (config : StorageConfig) (files : List SegmentFile) :
    (recover config files).InOrder := by
  rcases recover_numbered config files with ⟨hnumbered, hnext, _⟩
  exact ⟨0, hnumbered, by rw [hnext, UInt64.zero_add]⟩

/-- A record with the next offset keeps them so, whatever comes of it. -/
theorem Partition.InOrder.appendRecord {p : Partition} (h : p.InOrder) (config : StorageConfig)
    (io : IoOutcome) (m : Message) (hoffset : m.offset = p.nextOffset) :
    (MqBroker.appendRecord config io p m).1.InOrder := by
  rcases h with ⟨first, hnumbered, hnext⟩
  rcases appendRecord_cases config io p m with ⟨hmessages, hend, _⟩ | ⟨hmessages, hend, _⟩
  · refine ⟨first, ?_, ?_⟩
    · rw [hmessages, numbered_append, ← hnext]
      exact ⟨hnumbered, hoffset, trivial⟩
    · rw [hend, hmessages, hnext, List.length_append, UInt64.ofNat_add, UInt64.add_assoc]
      rfl
  · exact ⟨first, by rw [hmessages]; exact hnumbered, by rw [hend, hmessages]; exact hnext⟩

/-- What is left of numbered messages at the back is numbered. -/
theorem Partition.InOrder.suffix {p : Partition} (h : p.InOrder) {segments : List Segment}
    (hsuffix : segments <:+ p.segments) : ({ p with segments := segments } : Partition).InOrder := by
  rcases h with ⟨first, hnumbered, hnext⟩
  rcases hsuffix with ⟨front, hfront⟩
  have hmessages : p.messages
      = front.flatMap Segment.messages ++ segments.flatMap Segment.messages := by
    rw [Partition.messages, ← hfront, List.flatMap_append]
  rw [hmessages, numbered_append] at hnumbered
  refine ⟨first + UInt64.ofNat (front.flatMap Segment.messages).length, hnumbered.2, ?_⟩
  rw [hmessages, List.length_append, UInt64.ofNat_add, ← UInt64.add_assoc] at hnext
  exact hnext

theorem exec_inOrder (config : StorageConfig) (p : Partition) (call : PartitionCall)
    (h : p.InOrder) : (call.exec config p).InOrder := by
  cases call with
  | append io now key value =>
      simp only [PartitionCall.exec, Partition.append]
      split
      · exact h
      · exact h.appendRecord config io _ rfl
  | appendReplica io m =>
      simp only [PartitionCall.exec, Partition.appendReplica]
      split
      · exact h
      · split
        · exact h
        · rename_i hoffset
          exact h.appendRecord config io m (not_not.mp hoffset)
  | cleanup now removable =>
      exact h.suffix (cleanupFaulty_suffix config now p.segments p.totalSize removable).1

/-- The messages stay numbered, through every recovery and every call. -/
theorem runCalls_inOrder (config : StorageConfig) (files : List SegmentFile)
    (calls : List PartitionCall) : (runCalls config files calls).InOrder := by
  -- The induction is on the calls, from any partition in order.
  have hfold : ∀ (calls : List PartitionCall) (p : Partition), p.InOrder →
      (calls.foldl (PartitionCall.exec config) p).InOrder := by
    intro calls
    induction calls with
    | nil => exact fun p h => h
    | cons call calls ih => exact fun p h => ih _ (exec_inOrder config p call h)
  exact hfold calls _ (recover_inOrder config files)

end MqBroker
