import MqBroker.Lib.Decimal
import MqBroker.Storage.Store

/-!
# Where the Log Files Are

The paths of the log files, and removing a directory of them.

A topic has a directory that is named after it, in hexadecimal, so that every
name is a name for a directory too. Two digits are one byte. So two topics do
not share a directory, and a topic whose name begins with that of another one
has a directory beside the other one and not below it.

Paths are taken from the data directory on, as lists of names.

## Main definitions

* `topicCode`: `TopicCode`.
* `topicDirectory`, `segmentPath`: The directory of a topic and the path of a
  log file.
* `removeAll`, `filesUnder`: The files outside of a directory, and inside.
* `StorageEngine.disk`: The log files of an engine, with their paths.

## Theorems

* `topicCode_injective`: A directory belongs to one topic.
* `filesUnder_removeAll`: Removing one leaves the others alone.
* `disk_filterKeys`: Dropping the partitions of a topic is removing its
  directory.
-/

namespace MqBroker

/-! ## Names -/

/-- The digits of `TopicCode`. -/
def kHex : Bytes := "0123456789abcdef".toUTF8.toList

/-- The two digits of a byte. -/
def hexPair (byte : UInt8) : Bytes :=
  [kHex.getD (byte >>> 4).toNat 0, kHex.getD (byte &&& 0x0F).toNat 0]

/-- `TopicCode`. -/
def topicCode (topic : Bytes) : Bytes := topic.flatMap hexPair

/-- Two digits are those of one byte. -/
theorem hexPair_injective {a b : UInt8} (h : hexPair a = hexPair b) : a = b := by
  have hback : ∀ n < 256, 16 * kHex.idxOf ((hexPair (UInt8.ofNat n)).getD 0 0)
      + kHex.idxOf ((hexPair (UInt8.ofNat n)).getD 1 0) = n := by
    decide +kernel
  have ha := hback a.toNat a.toNat_lt
  have hb := hback b.toNat b.toNat_lt
  rw [UInt8.ofNat_toNat] at ha hb
  rw [h, hb] at ha
  exact UInt8.toNat_inj.mp ha.symm

theorem topicCode_injective {t u : Bytes} (h : topicCode t = topicCode u) : t = u := by
  induction t generalizing u with
  | nil =>
      cases u with
      | nil => rfl
      | cons b u => cases h
  | cons a t ih =>
      cases u with
      | nil => cases h
      | cons b u =>
          rw [topicCode, topicCode, List.flatMap_cons, List.flatMap_cons] at h
          rcases List.append_inj h rfl with ⟨hpair, hrest⟩
          rw [hexPair_injective hpair, ih hrest]

/-! ## Paths -/

/-- The directory of a topic. -/
def topicDirectory (topic : Bytes) : List Bytes := ["queues".toUTF8.toList, topicCode topic]

/-- The name of a log file: its number on 20 digits. -/
def segmentName (number : Nat) : Bytes :=
  List.replicate (20 - (decimal number).length) 48 ++ (decimal number ++ ".log".toUTF8.toList)

/-- `SegmentPath`, in the directory of a partition. -/
def segmentPath (topic : Bytes) (n : UInt32) (number : Nat) : List Bytes :=
  topicDirectory topic ++ [decimal n.toNat, segmentName number]

/-- The files that are left when a directory is removed. -/
def removeAll (directory : List Bytes) (files : List (List Bytes × Bytes)) :
    List (List Bytes × Bytes) :=
  files.filter (fun file => ¬ directory <+: file.1)

/-- The files in a directory. -/
def filesUnder (directory : List Bytes) (files : List (List Bytes × Bytes)) :
    List (List Bytes × Bytes) :=
  files.filter (fun file => directory <+: file.1)

/-- No path leads through the directories of two topics. -/
theorem topicDirectory_unique {t u : Bytes} {path : List Bytes} (ht : topicDirectory t <+: path)
    (hu : topicDirectory u <+: path) : t = u := by
  have heq := (List.prefix_of_prefix_length_le ht hu le_rfl).eq_of_length rfl
  exact topicCode_injective (List.cons.inj (List.cons.inj heq).2).1

theorem topicDirectory_segmentPath (t u : Bytes) (n : UInt32) (number : Nat) :
    topicDirectory t <+: segmentPath u n number ↔ u = t := by
  constructor
  · exact fun h => topicDirectory_unique (List.prefix_append _ _) h
  · rintro rfl
    exact List.prefix_append _ _

/-- Removing the directory of one topic leaves the files of another one. -/
theorem filesUnder_removeAll {t u : Bytes} (h : u ≠ t) (files : List (List Bytes × Bytes)) :
    filesUnder (topicDirectory u) (removeAll (topicDirectory t) files)
      = filesUnder (topicDirectory u) files := by
  rw [filesUnder, removeAll, List.filter_filter]
  refine List.filter_congr fun file _ => ?_
  rw [Bool.and_eq_left_iff_imp, decide_eq_true_eq, decide_eq_true_eq]
  exact fun hu ht => h (topicDirectory_unique hu ht)

/-! ## The files of an engine -/

/-- The log files of a partition, with their paths. -/
def Partition.disk (p : Partition) (topic : Bytes) (n : UInt32) : List (List Bytes × Bytes) :=
  p.files.map (fun file => (segmentPath topic n file.number, file.log))

/-- The log files of an engine, with their paths. -/
def StorageEngine.disk (e : StorageEngine) : List (List Bytes × Bytes) :=
  e.partitions.entries.flatMap (fun entry => entry.2.disk entry.1.1 entry.1.2)

/-- The files of a partition are all in the directory of its topic. -/
theorem filesUnder_disk (p : Partition) (topic u : Bytes) (n : UInt32) :
    filesUnder (topicDirectory u) (p.disk topic n) = if topic = u then p.disk topic n else [] := by
  rw [filesUnder, Partition.disk, List.filter_map]
  simp only [Function.comp_def, topicDirectory_segmentPath]
  split
  · rename_i htopic
    rw [List.filter_eq_self.mpr fun _ _ => decide_eq_true htopic]
  · rename_i htopic
    rw [List.filter_eq_nil_iff.mpr fun _ _ hmem => htopic (of_decide_eq_true hmem), List.map_nil]

theorem removeAll_disk (p : Partition) (topic u : Bytes) (n : UInt32) :
    removeAll (topicDirectory u) (p.disk topic n) = if topic = u then [] else p.disk topic n := by
  rw [removeAll, Partition.disk, List.filter_map]
  simp only [Function.comp_def, topicDirectory_segmentPath]
  split
  · rename_i htopic
    rw [List.filter_eq_nil_iff.mpr fun _ _ hmem => absurd htopic (of_decide_eq_true hmem),
      List.map_nil]
  · rename_i htopic
    rw [List.filter_eq_self.mpr fun _ _ => decide_eq_true htopic]

/-- Dropping the partitions of a topic is removing its directory. -/
theorem disk_filterKeys (e : StorageEngine) (topic : Bytes) :
    ({ e with partitions := e.partitions.filterKeys (fun place => place.1 ≠ topic) } :
      StorageEngine).disk = removeAll (topicDirectory topic) e.disk := by
  rw [StorageEngine.disk, StorageEngine.disk, removeAll, List.filter_flatMap, Table.filterKeys]
  simp only
  induction e.partitions.entries with
  | nil => rfl
  | cons entry entries ih =>
      have hentry := removeAll_disk entry.2 entry.1.1 topic entry.1.2
      rw [removeAll] at hentry
      rw [List.flatMap_cons, hentry, ← ih, List.filter_cons]
      by_cases htopic : entry.1.1 = topic
      · rw [if_pos htopic, if_neg fun h => absurd htopic (of_decide_eq_true h),
          List.nil_append]
      · rw [if_neg htopic, if_pos (decide_eq_true htopic), List.flatMap_cons]

/-- Partitions of other topics may change as they like. -/
theorem filesUnder_mapEntries (e : StorageEngine) {f : Bytes × UInt32 → Partition → Partition}
    {u : Bytes} (h : ∀ n p, f (u, n) p = p) :
    filesUnder (topicDirectory u)
        ({ e with partitions := e.partitions.mapEntries f } : StorageEngine).disk
      = filesUnder (topicDirectory u) e.disk := by
  rw [StorageEngine.disk, StorageEngine.disk, filesUnder, filesUnder, List.filter_flatMap,
    List.filter_flatMap, Table.mapEntries]
  simp only [List.flatMap_map]
  refine List.flatMap_congr fun entry _ => ?_
  have hnew := filesUnder_disk (f entry.1 entry.2) entry.1.1 u entry.1.2
  have hold := filesUnder_disk entry.2 entry.1.1 u entry.1.2
  rw [filesUnder] at hnew hold
  rw [hnew, hold]
  split
  · rename_i htopic
    rcases entry with ⟨⟨topic, n⟩, p⟩
    cases htopic
    rw [h]
  · rfl

end MqBroker
