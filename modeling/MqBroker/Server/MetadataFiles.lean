import MqBroker.Lib.Reader
import MqBroker.Server.Runs

/-!
# The Metadata Files

`topics.meta` and `consumer_offsets.meta`, byte by byte: what the two `Save`
functions write, and what the two `Load` functions make of it.

Both files are a header with a magic word, a version and a number, and as many
entries as the number says. The limits on the number are the same on both
sides. Names of topics are checked when a list is saved and again when it is
loaded, and partition counts once more when the loaded list becomes the table
of topics.

Elsewhere a broker has lists in the place of these files. `openFiles` is a start
on the bytes, and it comes to the same thing.

## Main definitions

* `TopicMetadataStore.encode`, `TopicMetadataStore.load`: `topics.meta`.
* `ConsumerOffsetStore.encode`, `ConsumerOffsetStore.load`:
  `consumer_offsets.meta`.
* `Server.openFiles`: `Open`, on the bytes of the two files.

## Theorems

* `TopicMetadataStore.yields`, `ConsumerOffsetStore.yields`: What passed the
  checks of `Save` is found in the file, and nothing in less than the file.
* `snapshots_round_trip`: The two files and the parts of them.
* `replaceTopics_some`: When a loaded list becomes the table of topics.
* `openFiles_restart`: Starting on the bytes is starting on the lists.
-/

namespace MqBroker

open Reader

/-! ## Topics -/

namespace TopicMetadataStore

/-- The magic word "MQTM". -/
def magic : Bytes := [0x4D, 0x51, 0x54, 0x4D]

/-- The version of the format. -/
def version : UInt32 := 1

/-- What `Save` writes. -/
def encode (topics : List (Bytes × UInt32)) : Bytes :=
  magic ++ (put32 version ++ (put32 (UInt32.ofNat topics.length) ++
    topics.flatMap (fun topic => Server.encodeEntry topic.1 topic.2)))

/-- `Save`: the file, unless the list does not pass the checks. -/
def save (topics : List (Bytes × UInt32)) : Option Bytes :=
  if topicsSavable topics then some (encode topics) else none

/-- One round of the loop of `Load`. -/
def readTopic : Reader (Bytes × UInt32) := do
  let name ← u16 >>= fun size => bytes size.toNat
  let partitionCount ← u32
  check (isValidTopicName name = true ∧ partitionCount ≠ 0)
  return (name, partitionCount)

/-- `Load`, on a file that exists. -/
def read : Reader (List (Bytes × UInt32)) := do
  let found ← bytes magic.length
  check (found = magic)
  let found ← u32
  check (found = version)
  let count ← u32
  check (count.toNat ≤ maxTopics)
  many readTopic count.toNat

/-- `Load`. A file that does not exist stands for no topics. -/
def load : Option Bytes → Option (List (Bytes × UInt32))
  | none => some []
  | some file => read.value file

end TopicMetadataStore

/-! ## Offsets -/

namespace ConsumerOffsetStore

/-- The magic word "MQCO". -/
def magic : Bytes := [0x4D, 0x51, 0x43, 0x4F]

/-- The version of the format. -/
def version : UInt32 := 1

/-- An entry of the file. -/
def encodeOffset (item : ConsumerOffset) : Bytes :=
  (put16 (UInt16.ofNat item.group.length) ++ item.group) ++
    ((put16 (UInt16.ofNat item.topic.length) ++ item.topic) ++
      (put32 item.partition ++ put64 item.offset))

/-- What `Save` writes. -/
def encode (offsets : List ConsumerOffset) : Bytes :=
  magic ++ (put32 version ++ (put32 (UInt32.ofNat offsets.length) ++ offsets.flatMap encodeOffset))

/-- `Save`: the file, unless the list does not pass the checks. -/
def save (offsets : List ConsumerOffset) : Option Bytes :=
  if offsetsSavable offsets then some (encode offsets) else none

/-- One round of the loop of `Load`. A size has 16 bits and is never above
    65535. -/
def readOffset : Reader ConsumerOffset := do
  let group ← u16 >>= fun size => bytes size.toNat
  let topic ← u16 >>= fun size => bytes size.toNat
  let partition ← u32
  let offset ← u64
  return ⟨group, topic, partition, offset⟩

/-- `Load`, on a file that exists. -/
def read : Reader (List ConsumerOffset) := do
  let found ← bytes magic.length
  check (found = magic)
  let found ← u32
  check (found = version)
  let count ← u32
  check (count.toNat ≤ 100000)
  many readOffset count.toNat

/-- `Load`. A file that does not exist stands for no offsets. -/
def load : Option Bytes → Option (List ConsumerOffset)
  | none => some []
  | some file => read.value file

end ConsumerOffsetStore

/-! ## Round trips -/

/-- The header of a file, and the entries behind it. -/
theorem yields_file {α : Type} {word : Bytes} {version : UInt32} {limit : Nat} {item : Reader α}
    {encode : α → Bytes} (entries : List α) (hlimit : limit < 2 ^ 32)
    (hcount : entries.length ≤ limit) (h : ∀ a ∈ entries, item.Yields (encode a) a) :
    (do
      let found ← bytes word.length
      check (found = word)
      let found ← u32
      check (found = version)
      let count ← u32
      check (count.toNat ≤ limit)
      many item count.toNat : Reader (List α)).Yields
      (word ++ (put32 version ++ (put32 (UInt32.ofNat entries.length) ++ entries.flatMap encode)))
      entries := by
  have hsize : (UInt32.ofNat entries.length).toNat = entries.length :=
    UInt32.toNat_ofNat_of_lt' (hcount.trans_lt hlimit)
  refine (yields_bytes word).bind (Yields.check_bind rfl ?_)
  refine (yields_u32 version).bind (Yields.check_bind rfl ?_)
  refine (yields_u32 _).bind (Yields.check_bind (by omega) ?_)
  rw [hsize]
  exact Yields.many entries h

/-- What passed the checks of `Save` is found in `topics.meta`. -/
theorem TopicMetadataStore.yields {topics : List (Bytes × UInt32)}
    (h : topicsSavable topics = true) : TopicMetadataStore.read.Yields (encode topics) topics := by
  rw [topicsSavable, Bool.and_eq_true, decide_eq_true_eq, List.all_eq_true] at h
  refine yields_file topics (by decide) h.1 fun topic htopic => ?_
  have hvalid := h.2 topic htopic
  rw [Bool.and_eq_true, bne_iff_ne] at hvalid
  have hname := isValidTopicName_length hvalid.1
  rw [Server.encodeEntry, ← List.append_assoc]
  refine (yields_string topic.1 (by omega)).bind ?_
  rw [← List.append_nil (put32 topic.2)]
  exact (yields_u32 topic.2).bind (Yields.check_bind hvalid (yields_pure topic))

/-- What passed the checks of `Save` is found in `consumer_offsets.meta`. -/
theorem ConsumerOffsetStore.yields {offsets : List ConsumerOffset}
    (h : offsetsSavable offsets = true) :
    ConsumerOffsetStore.read.Yields (encode offsets) offsets := by
  rw [offsetsSavable, Bool.and_eq_true, decide_eq_true_eq, List.all_eq_true] at h
  refine yields_file offsets (by decide) h.1 fun item hitem => ?_
  have hsizes := h.2 item hitem
  rw [Bool.and_eq_true, decide_eq_true_eq, decide_eq_true_eq] at hsizes
  refine (yields_string item.group hsizes.1).bind ?_
  refine (yields_string item.topic hsizes.2).bind ?_
  refine (yields_u32 item.partition).bind ?_
  exact (yields_u64 item.offset).map_bind (ConsumerOffset.mk item.group item.topic item.partition)

theorem TopicMetadataStore.load_save {topics : List (Bytes × UInt32)}
    (h : topicsSavable topics = true) : load (save topics) = some topics := by
  rw [save, if_pos h]
  exact (TopicMetadataStore.yields h).value

theorem ConsumerOffsetStore.load_save {offsets : List ConsumerOffset}
    (h : offsetsSavable offsets = true) : load (save offsets) = some offsets := by
  rw [save, if_pos h]
  exact (ConsumerOffsetStore.yields h).value

/-- A file that `Save` has written is loaded as the list that was saved, and no
    part of it that is cut off at the end is loaded. -/
theorem snapshots_round_trip :
    (∀ topics file, TopicMetadataStore.save topics = some file →
      TopicMetadataStore.load (some file) = some topics ∧
        ∀ part, part <+: file → part ≠ file → TopicMetadataStore.load (some part) = none) ∧
    ∀ offsets file, ConsumerOffsetStore.save offsets = some file →
      ConsumerOffsetStore.load (some file) = some offsets ∧
        ∀ part, part <+: file → part ≠ file → ConsumerOffsetStore.load (some part) = none := by
  refine ⟨fun topics file hsave => ?_, fun offsets file hsave => ?_⟩
  · rw [TopicMetadataStore.save, Option.ite_none_right_eq_some, Option.some.injEq] at hsave
    rcases hsave with ⟨hsavable, rfl⟩
    have hyields := TopicMetadataStore.yields hsavable
    exact ⟨hyields.value, fun part hpart hne => hyields.value_cut hpart hne⟩
  · rw [ConsumerOffsetStore.save, Option.ite_none_right_eq_some, Option.some.injEq] at hsave
    rcases hsave with ⟨hsavable, rfl⟩
    have hyields := ConsumerOffsetStore.yields hsavable
    exact ⟨hyields.value, fun part hpart hne => hyields.value_cut hpart hne⟩

/-- Two topics, and an offset of a group whose name is empty. -/
theorem snapshots_round_trip_two :
    (TopicMetadataStore.load (TopicMetadataStore.save [([97], 2), ([98], 1)])
        = some [([97], 2), ([98], 1)] ∧
      TopicMetadataStore.load ((TopicMetadataStore.save [([97], 2), ([98], 1)]).map
        List.dropLast) = none) ∧
    ConsumerOffsetStore.load (ConsumerOffsetStore.save [⟨[], [97], 1, 7⟩])
        = some [⟨[], [97], 1, 7⟩] ∧
      ConsumerOffsetStore.load ((ConsumerOffsetStore.save [⟨[], [97], 1, 7⟩]).map
        List.dropLast) = none := by
  have htopics : TopicMetadataStore.save [([97], 2), ([98], 1)]
      = some (TopicMetadataStore.encode [([97], 2), ([98], 1)]) := by decide +kernel
  have hoffsets : ConsumerOffsetStore.save [⟨[], [97], 1, 7⟩]
      = some (ConsumerOffsetStore.encode [⟨[], [97], 1, 7⟩]) := by decide +kernel
  rcases snapshots_round_trip.1 _ _ htopics with ⟨hload, hcut⟩
  rcases snapshots_round_trip.2 _ _ hoffsets with ⟨hload', hcut'⟩
  rw [htopics, hoffsets]
  exact ⟨⟨hload, hcut _ (List.dropLast_prefix _) (by decide +kernel)⟩, hload',
    hcut' _ (List.dropLast_prefix _) (by decide +kernel)⟩

/-! ## From the file to the table -/

/-- A list of valid topics, each with its own name, becomes the table of
    topics. -/
theorem replaceTopics_some {topics : List (Bytes × UInt32)} {table : Table Bytes UInt32}
    (hvalid : ∀ topic ∈ topics, ValidTopic topic.1 topic.2)
    (hnodup : (topics.map Prod.fst).Nodup)
    (hnew : ∀ topic ∈ topics, table.lookup topic.1 = none) :
    ∃ table', replaceTopics topics table = some table' ∧
      ∀ name count, table'.lookup name = some count ↔
        (name, count) ∈ topics ∨ table.lookup name = some count := by
  induction topics generalizing table with
  | nil =>
      refine ⟨table, rfl, fun name count => ?_⟩
      simp only [List.not_mem_nil, false_or]
  | cons first rest ih =>
      rcases first with ⟨name, count⟩
      have hfirst : ValidTopic name count := hvalid (name, count) List.mem_cons_self
      have hnone : table.lookup name = none := hnew (name, count) List.mem_cons_self
      rw [List.map_cons, List.nodup_cons] at hnodup
      have hother : ∀ topic ∈ rest, topic.1 ≠ name := fun topic htopic heq =>
        hnodup.1 (List.mem_map.mpr ⟨topic, htopic, heq⟩)
      have hstep : replaceTopics ((name, count) :: rest) table
          = replaceTopics rest (table.insert name count) := by
        rw [replaceTopics, if_neg]
        rintro (hname | hzero | hlarge | htwice)
        · exact hname hfirst.1
        · exact hfirst.2.1 hzero
        · exact absurd hfirst.2.2 (UInt32.not_le.mpr hlarge)
        · rw [hnone] at htwice
          exact absurd htwice Bool.false_ne_true
      rcases @ih (table.insert name count)
        (fun topic htopic => hvalid topic (List.mem_cons_of_mem _ htopic)) hnodup.2
        (fun topic htopic => by
          rw [AList.lookup_insert_ne (hother topic htopic)]
          exact hnew topic (List.mem_cons_of_mem _ htopic)) with ⟨table', htable, hlookup⟩
      refine ⟨table', hstep.trans htable, fun name' count' => ?_⟩
      rw [hlookup, List.mem_cons, Prod.mk.injEq]
      by_cases hname : name' = name
      · -- The name stands nowhere else, neither in the rest nor in the table.
        have hrest : (name', count') ∉ rest := fun hmem => hother _ hmem hname
        rw [hname] at hrest ⊢
        rw [AList.lookup_insert, hnone, Option.some.injEq]
        simp only [hrest, true_and, false_or, reduceCtorEq, or_false]
        exact eq_comm
      · rw [AList.lookup_insert_ne hname]
        simp only [hname, false_and, false_or]

/-! ## Starting on the files -/

/-- `Open` and the configuration of a broker, on the bytes of its two metadata
    files. -/
def Server.openFiles (s : Server) (config : ServerConfig) (kept : Bytes → UInt32 → Nat)
    (topics offsets : Option Bytes) : Option Server := do
  let topicsFile ← TopicMetadataStore.load topics
  let table ← replaceTopics topicsFile ∅
  let offsetsFile ← ConsumerOffsetStore.load offsets
  return Server.start config (s.broker.storage.reopened config.storage kept) table topicsFile
    offsetsFile s.broker.coordinator.stateFile

/-- What is in the two files of a broker was saved there. -/
structure Server.Published (s : Server) : Prop where
  topics : ∀ topic ∈ s.topicsFile, ValidTopic topic.1 topic.2
  names : (s.topicsFile.map Prod.fst).Nodup
  few : s.topicsFile.length ≤ maxTopics
  offsets : offsetsSavable s.offsetsFile = true

namespace Server.Published

variable {s : Server}

theorem topicsSavable (h : s.Published) : MqBroker.topicsSavable s.topicsFile = true := by
  rw [MqBroker.topicsSavable, Bool.and_eq_true, decide_eq_true_eq, List.all_eq_true]
  refine ⟨h.few, fun topic htopic => ?_⟩
  rw [Bool.and_eq_true, bne_iff_ne]
  exact ⟨(h.topics topic htopic).1, (h.topics topic htopic).2.1⟩

/-- The table after a restart is what is in the file. -/
theorem restart_eq (h : s.Published) (config : ServerConfig) (kept : Bytes → UInt32 → Nat) :
    ∃ table, replaceTopics s.topicsFile ∅ = some table ∧
      (∀ name count, table.lookup name = some count ↔ (name, count) ∈ s.topicsFile) ∧
      s.restart config kept = Server.start config (s.broker.storage.reopened config.storage kept)
        table s.topicsFile s.offsetsFile s.broker.coordinator.stateFile := by
  rcases @replaceTopics_some s.topicsFile ∅ h.topics h.names (fun _ _ => rfl) with
    ⟨table, htable, hlookup⟩
  refine ⟨table, htable, fun name count => ?_, ?_⟩
  · rw [hlookup]
    exact or_iff_left (nofun)
  · rw [Server.restart, if_neg (not_lt.mpr h.few), htable]

/-- A broker that is started on the bytes it has saved is the one that is
    started on the lists. -/
theorem openFiles_restart (h : s.Published) (config : ServerConfig) (kept : Bytes → UInt32 → Nat) :
    s.openFiles config kept (TopicMetadataStore.save s.topicsFile)
        (ConsumerOffsetStore.save s.offsetsFile)
      = some (s.restart config kept) := by
  rcases h.restart_eq config kept with ⟨table, htable, _, heq⟩
  rw [Server.openFiles, TopicMetadataStore.load_save h.topicsSavable,
    ConsumerOffsetStore.load_save h.offsets, heq]
  simp only [Option.bind_eq_bind, Option.bind_some, htable]
  rfl

end Server.Published

end MqBroker
