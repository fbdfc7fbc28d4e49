import MqBroker.Storage.Calls

/-!
# What a Read Returns

A read returns the longest run of messages from its start on that fits into
the bytes it may return.

## Main definitions

* `Partition.Reachable`: The states of a partition.
* `StorageEngine.readInto`: `Read` with the list it writes to.

## Theorems

* `read_longest`: A read returns the longest run that fits.
-/

namespace MqBroker

/-- The states of a partition: a recovery from any log files, and any calls
    after it. -/
def Partition.Reachable (config : StorageConfig) (p : Partition) : Prop :=
  ∃ files calls, runCalls config files calls = p

/-- `Read`, with the list it writes to: whether it succeeds, and what is in the
    list afterwards. -/
def StorageEngine.readInto (e : StorageEngine) (partitionOk : Bool) (topic : Bytes)
    (number : UInt32) (start : UInt64) (maxBytes : UInt32) (output : List Message) :
    Bool × List Message :=
  match e.read partitionOk topic number start maxBytes with
  | .ok messages => (true, messages)
  | .error _ => (false, output)

/-- A read from a partition in any state. The messages are in the order of
    their offsets. From a start up to the next offset the read succeeds with
    the longest run of messages from there on that fits. From a start behind it
    the read fails, and leaves the list as it is. -/
theorem read_longest (e : StorageEngine) (topic : Bytes) (number : UInt32) (start : UInt64)
    (maxBytes : UInt32) (output : List Message) (htopic : isValidTopicName topic = true)
    (hmax : maxBytes ≠ 0) (hreachable : (e.partition topic number).Reachable e.config) :
    (e.partition topic number).InOrder ∧
      (start ≤ (e.partition topic number).nextOffset →
        (e.readInto true topic number start maxBytes output).1 = true ∧
        LongestFitting Message.payload maxBytes.toNat
          ((e.partition topic number).messages.filter (fun m => start ≤ m.offset))
          (e.readInto true topic number start maxBytes output).2) ∧
      ((e.partition topic number).nextOffset < start →
        e.readInto true topic number start maxBytes output = (false, output)) := by
  have hvalid : ¬ (¬ isValidTopicName topic = true ∨ maxBytes = 0) :=
    not_or.mpr ⟨not_not.mpr htopic, hmax⟩
  refine ⟨?_, fun hstart => ?_, fun hstart => ?_⟩
  · rcases hreachable with ⟨files, calls, hp⟩
    rw [← hp]
    exact runCalls_inOrder e.config files calls
  · simp only [StorageEngine.readInto, StorageEngine.read, if_neg hvalid, not_true_eq_false,
      if_false, Partition.read, if_neg (not_lt.mpr hstart)]
    refine ⟨trivial, ?_⟩
    rw [readLoop_start]
    exact fitting_longest _ _ _
  · simp only [StorageEngine.readInto, StorageEngine.read, if_neg hvalid, not_true_eq_false,
      if_false, Partition.read, gt_iff_lt, if_pos hstart]

/-- A read of two messages, from a partition with a recovery, two appends and a
    cleanup behind it. -/
theorem read_longest_two :
    let e := ({ config := StorageConfig.effective {} } : StorageEngine).put [97] 0
      (runCalls (StorageConfig.effective {}) [⟨0, []⟩]
        [.append {} 5 [1] [2], .append {} 6 [] [3, 4], .cleanup 7 0])
    (e.partition [97] 0).InOrder ∧
      (0 ≤ (e.partition [97] 0).nextOffset →
        (e.readInto true [97] 0 0 4 []).1 = true ∧
        LongestFitting Message.payload 4
          ((e.partition [97] 0).messages.filter (fun m => 0 ≤ m.offset))
          (e.readInto true [97] 0 0 4 []).2) ∧
      ((e.partition [97] 0).nextOffset < 0 →
        e.readInto true [97] 0 0 4 [] = (false, [])) := by
  refine read_longest _ [97] 0 0 4 [] (by decide +kernel) (by decide) ⟨[⟨0, []⟩],
    [.append {} 5 [1] [2], .append {} 6 [] [3, 4], .cleanup 7 0], ?_⟩
  exact (put_partition_self _ _ _ _).symm

end MqBroker
