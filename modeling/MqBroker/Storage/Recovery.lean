import MqBroker.Storage.Engine

/-!
# Recovery of Well-Formed Partitions

What a partition looks like as long as nothing goes wrong, and that replaying
its files rebuilds it exactly.

A segment that was only ever written to is determined by its number and its
messages: `Segment.build` writes them one after the other into an empty
segment. A partition is well formed when every segment is of this form and
its messages, taken over all segments, are numbered from 0 without a gap.

The replay of one file is described once, by `recoverSegment_eq`: if the file
starts with the records of some messages and the scan stops behind them, then
the segment rebuilt from it holds these messages and its file is cut to their
records. Why the scan stops is left open. At the end of an undamaged file it
is the end of the input; behind a cut it is an incomplete record; at a
damaged byte it is a failed check; in a file that follows a damaged one it is
an unexpected offset. Every use of recovery is an instance of that lemma.

The retention bug shows in the last section. Recovery always starts from
offset 0, so a partition whose first segment was removed is not rebuilt: the
first record of the first remaining file has an offset greater than 0, the
scan stops in front of it, and the file is cut to nothing.

## Main definitions

* `Numbered`: Messages carry consecutive offsets.
* `Segment.build`: The segment that holds given messages.
* `Partition.WellFormed`: The invariant of an undamaged partition.
* `Partition.ofSegments`: The partition with given segments.
* `Partition.reachesSync`: An append that stores its record.
* `keepsAll`: A cleanup that finds nothing to remove.
* `Replayed`: What a replay makes of arbitrary files.
* `ReopensExactly`: A restart gives back the partition and changes no file.

## Theorems

* `recordLoop_eq`: The record loop reads a run of records and stops.
* `recoverSegment_eq`: Replaying one file.
* `recover_stop`: Replaying intact files and one that stops the scan.
* `recover_files`: Replaying the files of a well-formed partition rebuilds it.
* `recover_replayed`: Replaying arbitrary files.
* `appendRecord_wellFormed`: A successful append keeps a partition well formed.
* `reopen_of_removesNothing`: Without removals, a restart loses nothing.
* `reopen_after_removal`: After a removal, a restart destroys what was kept.
-/

namespace MqBroker

/-! ## Consecutive offsets -/

/-- The messages carry consecutive offsets, from `start` on. -/
def Numbered : UInt64 → List Message → Prop
  | _, [] => True
  | start, m :: ms => m.offset = start ∧ Numbered (start + 1) ms

theorem ofNat_succ_add (start : UInt64) (n : Nat) :
    start + 1 + UInt64.ofNat n = start + UInt64.ofNat (n + 1) := by
  rw [UInt64.ofNat_add, UInt64.add_assoc, UInt64.add_comm (UInt64.ofNat n)]
  rfl

theorem numbered_append (start : UInt64) (a b : List Message) :
    Numbered start (a ++ b) ↔ Numbered start a ∧ Numbered (start + UInt64.ofNat a.length) b := by
  induction a generalizing start with
  | nil =>
      simp only [List.nil_append, Numbered, List.length_nil, true_and]
      rw [show UInt64.ofNat 0 = 0 from rfl, UInt64.add_zero]
  | cons m a ih =>
      simp only [List.cons_append, Numbered, ih, List.length_cons, ofNat_succ_add, and_assoc]

theorem numbered_take (start : UInt64) (ms : List Message) (n : Nat) (h : Numbered start ms) :
    Numbered start (ms.take n) := by
  rw [← List.take_append_drop n ms, numbered_append] at h
  exact h.1

/-- The offsets of numbered messages, read off their positions. -/
theorem numbered_getElem (start : UInt64) (ms : List Message) (h : Numbered start ms) (i : Nat)
    (hi : i < ms.length) : ms[i].offset = start + UInt64.ofNat i := by
  induction ms generalizing start i with
  | nil => exact absurd hi (Nat.not_lt_zero i)
  | cons m ms ih =>
      cases i with
      | zero =>
          rw [List.getElem_cons_zero, h.1, show UInt64.ofNat 0 = 0 from rfl, UInt64.add_zero]
      | succ i =>
          rw [List.getElem_cons_succ, ih (start + 1) h.2 i (Nat.lt_of_succ_lt_succ hi),
            ofNat_succ_add]

/-- Messages that are numbered from 0 have their positions as offsets. -/
theorem numbered_offsets (ms : List Message) (h : Numbered 0 ms) :
    ms.map Message.offset = (List.range ms.length).map UInt64.ofNat := by
  refine List.ext_getElem (by simp only [List.length_map, List.length_range]) (fun i hi _ => ?_)
  rw [List.getElem_map, List.getElem_map, List.getElem_range,
    numbered_getElem 0 ms h i (by simpa only [List.length_map] using hi), UInt64.zero_add]

/-! ## Segments determined by their messages -/

/-- The records of some messages, one after the other. -/
def encodeRecords (ms : List Message) : Bytes := ms.flatMap encodeRecord

/-- Push messages without touching the file, as the record loop does. -/
def Segment.pushAll (interval : UInt32) (s : Segment) (ms : List Message) : Segment :=
  ms.foldl (fun s m => s.push interval m (encodeRecord m).length) s

/-- The segment with a given number that holds exactly the given messages. -/
def Segment.build (interval : UInt32) (number : Nat) (ms : List Message) : Segment :=
  { ({ number := number } : Segment).pushAll interval ms with log := encodeRecords ms }

theorem encodeRecords_append (a b : List Message) :
    encodeRecords (a ++ b) = encodeRecords a ++ encodeRecords b :=
  List.flatMap_append

theorem encodeRecords_cons (m : Message) (ms : List Message) :
    encodeRecords (m :: ms) = encodeRecord m ++ encodeRecords ms :=
  List.flatMap_cons

theorem length_le_encodeRecords (ms : List Message) : ms.length ≤ (encodeRecords ms).length := by
  induction ms with
  | nil => exact Nat.zero_le _
  | cons m ms ih =>
      have hhead := recordHeaderSize_le_length m
      rw [recordHeaderSize] at hhead
      rw [encodeRecords_cons, List.length_append, List.length_cons]
      omega

theorem pushAll_cons (interval : UInt32) (s : Segment) (m : Message) (ms : List Message) :
    s.pushAll interval (m :: ms)
      = (s.push interval m (encodeRecord m).length).pushAll interval ms := rfl

theorem pushAll_number (interval : UInt32) (ms : List Message) (s : Segment) :
    (s.pushAll interval ms).number = s.number := by
  induction ms generalizing s with
  | nil => rfl
  | cons m ms ih => rw [pushAll_cons, ih, Segment.push]

theorem pushAll_messages (interval : UInt32) (ms : List Message) (s : Segment) :
    (s.pushAll interval ms).messages = s.messages ++ ms := by
  induction ms generalizing s with
  | nil => rw [List.append_nil, Segment.pushAll, List.foldl_nil]
  | cons m ms ih => rw [pushAll_cons, ih, Segment.push, List.append_assoc, List.singleton_append]

theorem pushAll_size (interval : UInt32) (ms : List Message) (s : Segment) :
    (s.pushAll interval ms).size = s.size + (encodeRecords ms).length := by
  induction ms generalizing s with
  | nil => rfl
  | cons m ms ih =>
      rw [pushAll_cons, ih, encodeRecords_cons, List.length_append, Segment.push, Nat.add_assoc]

@[simp] theorem build_number (interval : UInt32) (n : Nat) (ms : List Message) :
    (Segment.build interval n ms).number = n := pushAll_number interval ms _

@[simp] theorem build_messages (interval : UInt32) (n : Nat) (ms : List Message) :
    (Segment.build interval n ms).messages = ms := pushAll_messages interval ms _

@[simp] theorem build_log (interval : UInt32) (n : Nat) (ms : List Message) :
    (Segment.build interval n ms).log = encodeRecords ms := rfl

@[simp] theorem build_size (interval : UInt32) (n : Nat) (ms : List Message) :
    (Segment.build interval n ms).size = (encodeRecords ms).length := by
  rw [Segment.build, pushAll_size, Nat.zero_add]

/-- The file of a segment that is built from its messages. -/
theorem log_of_built {interval : UInt32} {s : Segment}
    (h : s = Segment.build interval s.number s.messages) : s.log = encodeRecords s.messages := by
  conv_lhs => rw [h]
  rw [build_log]

theorem write_build (interval : UInt32) (n : Nat) (ms : List Message) (m : Message) :
    (Segment.build interval n ms).write interval m = Segment.build interval n (ms ++ [m]) := by
  have hlog : encodeRecords (ms ++ [m]) = encodeRecords ms ++ encodeRecord m := by
    rw [encodeRecords_append, encodeRecords_cons]
    exact congrArg _ (List.append_nil _)
  rw [Segment.build, Segment.build, hlog, Segment.pushAll, Segment.pushAll, List.foldl_append]
  rfl

/-! ## Replaying one file -/

/-- The record loop reads a run of records with the expected offsets and
    stops where the next read fails. -/
theorem recordLoop_eq (interval : UInt32) (ms : List Message) (rest : Bytes) (fuel : Nat)
    (s : Segment) (next : UInt64) (hnum : Numbered next ms) (hst : ∀ m ∈ ms, m.Readable)
    (hstop : readRecord (next + UInt64.ofNat ms.length) rest = none) (hfuel : ms.length < fuel) :
    recordLoop interval fuel (encodeRecords ms ++ rest) s next
      = (s.pushAll interval ms, next + UInt64.ofNat ms.length) := by
  -- Every turn consumes one message of the list and one unit of fuel.
  induction ms generalizing fuel s next with
  | nil =>
      rw [List.length_nil, show UInt64.ofNat 0 = 0 from rfl, UInt64.add_zero] at hstop ⊢
      cases fuel with
      | zero => omega
      | succ fuel => rw [encodeRecords, List.flatMap_nil, List.nil_append, recordLoop, hstop]; rfl
  | cons m ms ih =>
      cases fuel with
      | zero => omega
      | succ fuel =>
          have hread := readRecord_encodeRecord m (hst m List.mem_cons_self) next
            (encodeRecords ms ++ rest) hnum.1
          rw [List.length_cons, ← ofNat_succ_add] at hstop ⊢
          rw [encodeRecords_cons, List.append_assoc, recordLoop, hread]
          simp only [List.drop_left]
          rw [ih fuel _ (next + 1) hnum.2 (fun m' hm' => hst m' (List.mem_cons_of_mem m hm')) hstop
            (Nat.lt_of_succ_lt_succ hfuel), pushAll_cons]

/-- Replaying a file that starts with the records of some messages, where the
    scan stops behind them for whatever reason: the segment holds these
    messages, and the file is cut to their records. -/
theorem recoverSegment_eq (config : StorageConfig) (p : Partition) (number : Nat)
    (ms : List Message) (rest : Bytes) (hnum : Numbered p.nextOffset ms)
    (hst : ∀ m ∈ ms, m.Readable)
    (hstop : readRecord (p.nextOffset + UInt64.ofNat ms.length) rest = none) :
    recoverSegment config p ⟨number, encodeRecords ms ++ rest⟩
      = { segments := p.segments ++ [Segment.build config.indexInterval number ms]
          nextOffset := p.nextOffset + UInt64.ofNat ms.length } := by
  have hfuel : ms.length < (encodeRecords ms ++ rest).length + 1 := by
    have := length_le_encodeRecords ms
    rw [List.length_append]
    omega
  rw [recoverSegment]
  simp only [recordLoop_eq config.indexInterval ms rest _ _ _ hnum hst hstop hfuel]
  -- The size that the loop has counted is the length of the records it read.
  have hcut : (encodeRecords ms ++ rest).take
      (({ number := number } : Segment).pushAll config.indexInterval ms).size
      = encodeRecords ms := by
    rw [pushAll_size, Nat.zero_add, List.take_left]
  rw [hcut]
  rfl

/-- The end of the input stops the scan. -/
theorem readRecord_nil (next : UInt64) : readRecord next [] = none := rfl

/-! ## Well-formed partitions -/

/-- The invariant of a partition that was only written to: at least one
    segment, each determined by its messages, and over all segments storable
    messages numbered from 0. -/
structure Partition.WellFormed (config : StorageConfig) (p : Partition) : Prop where
  segments_ne : p.segments ≠ []
  built : ∀ s ∈ p.segments, s = Segment.build config.indexInterval s.number s.messages
  numbered : Numbered 0 p.messages
  storable : ∀ m ∈ p.messages, m.Storable
  next : p.nextOffset = UInt64.ofNat p.messages.length

/-- Replaying the files of built segments appends these segments, whatever
    was replayed before them. -/
theorem foldl_recoverSegment (config : StorageConfig) (segs : List Segment) (p : Partition)
    (hbuilt : ∀ s ∈ segs, s = Segment.build config.indexInterval s.number s.messages)
    (hnum : Numbered p.nextOffset (segs.flatMap Segment.messages))
    (hst : ∀ m ∈ segs.flatMap Segment.messages, m.Readable) :
    (segs.map (fun s => (⟨s.number, s.log⟩ : SegmentFile))).foldl (recoverSegment config) p
      = { segments := p.segments ++ segs
          nextOffset := p.nextOffset + UInt64.ofNat (segs.flatMap Segment.messages).length } := by
  induction segs generalizing p with
  | nil =>
      simp only [List.map_nil, List.foldl_nil, List.append_nil, List.flatMap_nil, List.length_nil]
      rw [show UInt64.ofNat 0 = 0 from rfl, UInt64.add_zero]
  | cons s segs ih =>
      rw [List.flatMap_cons, numbered_append] at hnum
      rw [List.flatMap_cons] at hst
      have hlog : s.log = encodeRecords s.messages ++ [] := by
        rw [List.append_nil, log_of_built (hbuilt s List.mem_cons_self)]
      have hfile := recoverSegment_eq config p s.number s.messages [] hnum.1
        (fun m hm => hst m (List.mem_append_left _ hm)) (readRecord_nil _)
      rw [← hlog, ← hbuilt s List.mem_cons_self] at hfile
      rw [List.map_cons, List.foldl_cons, hfile,
        ih _ (fun t ht => hbuilt t (List.mem_cons_of_mem s ht)) hnum.2
          (fun m hm => hst m (List.mem_append_right _ hm)),
        List.flatMap_cons, List.length_append, UInt64.ofNat_add, UInt64.add_assoc,
        List.append_assoc, List.singleton_append]

/-- The partition with given segments, numbered without a gap. -/
def Partition.ofSegments (segs : List Segment) : Partition :=
  { segments := segs, nextOffset := UInt64.ofNat (segs.flatMap Segment.messages).length }

theorem wellFormed_ofSegments (config : StorageConfig) (segs : List Segment) (hne : segs ≠ [])
    (hbuilt : ∀ s ∈ segs, s = Segment.build config.indexInterval s.number s.messages)
    (hnum : Numbered 0 (segs.flatMap Segment.messages))
    (hst : ∀ m ∈ segs.flatMap Segment.messages, m.Storable) :
    (Partition.ofSegments segs).WellFormed config :=
  ⟨hne, hbuilt, hnum, hst, rfl⟩

/-- Replaying intact files and then one that starts with whole records and
    stops the scan behind them. -/
theorem recover_stop (config : StorageConfig) (init : List Segment) (number : Nat)
    (ms : List Message) (rest : Bytes)
    (hbuilt : ∀ s ∈ init, s = Segment.build config.indexInterval s.number s.messages)
    (hnum : Numbered 0 (init.flatMap Segment.messages ++ ms))
    (hst : ∀ m ∈ init.flatMap Segment.messages ++ ms, m.Storable)
    (hstop : ∀ next, readRecord next rest = none) :
    recover config (init.map (fun s => (⟨s.number, s.log⟩ : SegmentFile)) ++
        [⟨number, encodeRecords ms ++ rest⟩])
      = Partition.ofSegments (init ++ [Segment.build config.indexInterval number ms]) := by
  rw [numbered_append] at hnum
  have hinit := foldl_recoverSegment config init {} hbuilt hnum.1
    (fun m hm => (hst m (List.mem_append_left _ hm)).readable)
  rw [recover, List.foldl_append, hinit, List.foldl_cons, List.foldl_nil,
    recoverSegment_eq config _ number ms rest hnum.2
      (fun m hm => (hst m (List.mem_append_right _ hm)).readable) (hstop _),
    Partition.ofSegments]
  rw [List.flatMap_append, List.flatMap_singleton, build_messages, List.length_append,
    UInt64.ofNat_add, UInt64.zero_add]
  rfl

/-- Files whose first record is not the expected one are cut to nothing: the
    scan stops in front of them, and the expected offset stays what it is. -/
theorem foldl_recoverSegment_mismatch (config : StorageConfig) (segs : List Segment)
    (p : Partition)
    (hbuilt : ∀ s ∈ segs, s = Segment.build config.indexInterval s.number s.messages)
    (hst : ∀ m ∈ segs.flatMap Segment.messages, m.Storable)
    (hne : ∀ s ∈ segs, ∀ m ms, s.messages = m :: ms → m.offset ≠ p.nextOffset) :
    (segs.map (fun s => (⟨s.number, s.log⟩ : SegmentFile))).foldl (recoverSegment config) p
      = { p with segments := p.segments ++
            segs.map (fun s => Segment.build config.indexInterval s.number []) } := by
  induction segs generalizing p with
  | nil => simp only [List.map_nil, List.foldl_nil, List.append_nil]
  | cons s segs ih =>
      rw [List.flatMap_cons] at hst
      have hlog := log_of_built (hbuilt s List.mem_cons_self)
      -- The scan of this file stops at once, in front of its first record.
      have hstop : readRecord (p.nextOffset + UInt64.ofNat ([] : List Message).length) s.log
          = none := by
        rw [List.length_nil, show UInt64.ofNat 0 = 0 from rfl, UInt64.add_zero, hlog]
        cases hms : s.messages with
        | nil => exact readRecord_nil _
        | cons m ms =>
            rw [encodeRecords_cons]
            exact readRecord_offset_ne m (hst m (List.mem_append_left _ (by
              rw [hms]; exact List.mem_cons_self))).readable _ _ (hne s List.mem_cons_self m ms hms)
      -- Nothing is read, so the next file is met with the same expectation.
      have hfile := recoverSegment_eq config p s.number [] s.log trivial
        (fun m hm => absurd hm List.not_mem_nil) hstop
      rw [List.length_nil, show UInt64.ofNat 0 = 0 from rfl, UInt64.add_zero] at hfile
      have hrest := ih
        { p with segments := p.segments ++ [Segment.build config.indexInterval s.number []] }
        (fun t ht => hbuilt t (List.mem_cons_of_mem s ht))
        (fun m hm => hst m (List.mem_append_right _ hm))
        (fun t ht => hne t (List.mem_cons_of_mem s ht))
      rw [List.map_cons, List.foldl_cons]
      change (segs.map _).foldl (recoverSegment config)
        (recoverSegment config p ⟨s.number, encodeRecords [] ++ s.log⟩) = _
      rw [hfile, hrest, List.map_cons, List.append_assoc, List.singleton_append]

/-- Replaying the files of built segments with numbered messages rebuilds the
    partition: segments, messages, index files and next offset. -/
theorem recover_built (config : StorageConfig) (p : Partition)
    (hbuilt : ∀ s ∈ p.segments, s = Segment.build config.indexInterval s.number s.messages)
    (hnumbered : Numbered 0 p.messages) (hreadable : ∀ m ∈ p.messages, m.Readable)
    (hnext : p.nextOffset = UInt64.ofNat p.messages.length) : recover config p.files = p := by
  have hfold := foldl_recoverSegment config p.segments {} hbuilt hnumbered hreadable
  rw [recover, Partition.files, hfold]
  rw [Partition.messages] at hnext
  rw [← hnext, UInt64.zero_add]
  rfl

/-- So it does with the files of a well-formed partition. -/
theorem recover_files (config : StorageConfig) (p : Partition) (h : p.WellFormed config) :
    recover config p.files = p :=
  recover_built config p h.built h.numbered (fun m hm => (h.storable m hm).readable) h.next

/-! ## Arbitrary files -/

/-- Whatever is in a file, it starts with the records of some messages that are
    read, perhaps of none, and the scan stops behind them. -/
theorem scan_exists (next : UInt64) (input : Bytes) :
    ∃ ms rest, input = encodeRecords ms ++ rest ∧ Numbered next ms ∧ (∀ m ∈ ms, m.Readable) ∧
      readRecord (next + UInt64.ofNat ms.length) rest = none := by
  -- The induction is on the length of what is unread; a record takes some of it.
  induction hlen : input.length using Nat.strong_induction_on generalizing next input with
  | _ n ih =>
      cases hread : readRecord next input with
      | none =>
          refine ⟨[], input, rfl, trivial, fun m hm => absurd hm List.not_mem_nil, ?_⟩
          rw [List.length_nil, show UInt64.ofNat 0 = 0 from rfl, UInt64.add_zero]
          exact hread
      | some found =>
          rcases found with ⟨m, len⟩
          rcases readRecord_some hread with ⟨hreadable, hoffset, hsize, hinput⟩
          have hhead := recordHeaderSize_le_length m
          rw [recordHeaderSize] at hhead
          have hcount := congrArg List.length hinput
          rw [List.length_append] at hcount
          rcases ih (input.drop len).length (by omega) (next + 1) _ rfl with
            ⟨ms, rest, hrest, hnumbered, hmessages, hstop⟩
          refine ⟨m :: ms, rest, ?_, ⟨hoffset, hnumbered⟩, ?_, ?_⟩
          · rw [encodeRecords_cons, List.append_assoc, ← hrest]
            exact hinput
          · exact List.forall_mem_cons.mpr ⟨hreadable, hmessages⟩
          · rw [List.length_cons, ← ofNat_succ_add]
            exact hstop

/-- What a replay makes of log files. From each it takes the records with the
    offsets that are next, up to the first place where no such record is. -/
inductive Replayed (interval : UInt32) : UInt64 → List SegmentFile → List Segment → Prop
  | nil (next : UInt64) : Replayed interval next [] []
  | cons {next : UInt64} {number : Nat} {ms : List Message} {rest : Bytes}
      {files : List SegmentFile} {segments : List Segment}
      (numbered : Numbered next ms) (readable : ∀ m ∈ ms, m.Readable)
      (stop : readRecord (next + UInt64.ofNat ms.length) rest = none)
      (others : Replayed interval (next + UInt64.ofNat ms.length) files segments) :
      Replayed interval next (⟨number, encodeRecords ms ++ rest⟩ :: files)
        (Segment.build interval number ms :: segments)

/-- A turn of the record loop for every byte is enough, and one more to stop. -/
theorem recordLoop_enough (interval : UInt32) (fuel : Nat) (input : Bytes) (s : Segment)
    (next : UInt64) (h : input.length < fuel) :
    recordLoop interval fuel input s next
      = recordLoop interval (input.length + 1) input s next := by
  rcases scan_exists next input with ⟨ms, rest, rfl, hnumbered, hreadable, hstop⟩
  have hlen := length_le_encodeRecords ms
  rw [List.length_append] at h
  rw [recordLoop_eq interval ms rest fuel s next hnumbered hreadable hstop (by omega),
    recordLoop_eq interval ms rest _ s next hnumbered hreadable hstop
      (by rw [List.length_append]; omega)]

theorem foldl_replayed (config : StorageConfig) (files : List SegmentFile) (p : Partition) :
    ∃ segments, Replayed config.indexInterval p.nextOffset files segments ∧
      files.foldl (recoverSegment config) p
        = { segments := p.segments ++ segments
            nextOffset := p.nextOffset +
              UInt64.ofNat (segments.flatMap Segment.messages).length } := by
  induction files generalizing p with
  | nil =>
      refine ⟨[], .nil _, ?_⟩
      rw [List.foldl_nil, List.append_nil]
      exact congrArg (Partition.mk p.segments) (UInt64.add_zero _).symm
  | cons file files ih =>
      rcases file with ⟨number, log⟩
      rcases scan_exists p.nextOffset log with ⟨ms, rest, rfl, hnumbered, hreadable, hstop⟩
      rw [List.foldl_cons, recoverSegment_eq config p number ms rest hnumbered hreadable hstop]
      rcases ih { segments := p.segments ++ [Segment.build config.indexInterval number ms]
                  nextOffset := p.nextOffset + UInt64.ofNat ms.length } with
        ⟨segments, hsegments, heq⟩
      refine ⟨_, .cons hnumbered hreadable hstop hsegments, ?_⟩
      rw [heq, List.flatMap_cons, build_messages, List.length_append, UInt64.ofNat_add,
        UInt64.add_assoc, List.append_assoc, List.singleton_append]

/-- Whatever is in the log files, a recovery replays them from offset 0 on. -/
theorem recover_replayed (config : StorageConfig) (files : List SegmentFile) :
    Replayed config.indexInterval 0 files (recover config files).segments ∧
      (recover config files).nextOffset
        = UInt64.ofNat (recover config files).messages.length := by
  rcases foldl_replayed config files {} with ⟨segments, hsegments, heq⟩
  rw [recover, heq, List.nil_append, Partition.messages, UInt64.zero_add]
  exact ⟨hsegments, rfl⟩

namespace Replayed

variable {interval : UInt32} {next : UInt64} {files : List SegmentFile} {segments : List Segment}

/-- The messages of a replay are numbered, from where it began. -/
theorem all_numbered (h : Replayed interval next files segments) :
    Numbered next (segments.flatMap Segment.messages) := by
  induction h with
  | nil next => trivial
  | cons hnumbered hreadable hstop _ ih =>
      rw [List.flatMap_cons, build_messages, numbered_append]
      exact ⟨hnumbered, ih⟩

theorem all_readable (h : Replayed interval next files segments) :
    ∀ m ∈ segments.flatMap Segment.messages, m.Readable := by
  induction h with
  | nil next => exact fun m hm => absurd hm List.not_mem_nil
  | cons hnumbered hreadable hstop _ ih =>
      intro m hm
      rw [List.flatMap_cons, build_messages] at hm
      exact (List.mem_append.mp hm).elim (hreadable m) (ih m)

theorem all_built (h : Replayed interval next files segments) :
    ∀ s ∈ segments, s = Segment.build interval s.number s.messages := by
  induction h with
  | nil next => exact fun s hs => absurd hs List.not_mem_nil
  | cons hnumbered hreadable hstop _ ih =>
      refine List.forall_mem_cons.mpr ⟨?_, ih⟩
      rw [build_number, build_messages]

/-- The segments have the numbers of the files, and their files are beginnings
    of these. -/
theorem forall₂ (h : Replayed interval next files segments) :
    List.Forall₂ (fun file s => s.number = file.number ∧ s.log <+: file.log) files segments := by
  induction h with
  | nil next => exact .nil
  | cons _ _ _ _ ih =>
      refine .cons ⟨build_number _ _ _, ?_⟩ ih
      rw [build_log]
      exact List.prefix_append _ _

theorem numbers (h : Replayed interval next files segments) :
    segments.map Segment.number = files.map SegmentFile.number := by
  induction h with
  | nil next => rfl
  | cons _ _ _ _ ih => rw [List.map_cons, List.map_cons, build_number, ih]

/-- There is a segment for every file. -/
theorem length_eq (h : Replayed interval next files segments) :
    segments.length = files.length := by
  induction h with
  | nil next => rfl
  | cons _ _ _ _ ih => rw [List.length_cons, List.length_cons, ih]

end Replayed

/-- Whatever is in the log files, a recovery ends with messages that are
    numbered from 0, with their count as the next offset, and with a segment
    for every file. -/
theorem recover_numbered (config : StorageConfig) (files : List SegmentFile) :
    Numbered 0 (recover config files).messages ∧
      (recover config files).nextOffset = UInt64.ofNat (recover config files).messages.length ∧
      (recover config files).segments.length = files.length := by
  rcases recover_replayed config files with ⟨hreplayed, hnext⟩
  exact ⟨hreplayed.all_numbered, hnext, hreplayed.length_eq⟩

theorem freshPartition_eq (config : StorageConfig) :
    freshPartition config = { segments := [Segment.build config.indexInterval 0 []] } := by
  have hfile := recoverSegment_eq config {} 0 [] [] trivial
    (fun m hm => absurd hm List.not_mem_nil) (readRecord_nil _)
  exact hfile

theorem freshPartition_wellFormed (config : StorageConfig) :
    (freshPartition config).WellFormed config := by
  rw [freshPartition_eq]
  refine ⟨List.cons_ne_nil _ _, ?_, trivial, ?_, rfl⟩
  · intro s hs
    rw [List.mem_singleton.mp hs, build_number, build_messages]
  · intro m hm
    exact absurd hm List.not_mem_nil

/-! ## Appending -/

@[simp] theorem write_messages (interval : UInt32) (s : Segment) (m : Message) :
    (s.write interval m).messages = s.messages ++ [m] := rfl

/-- The segments an append that writes its record leaves: the record goes to
    the active segment or, after a roll, to a new one behind it. -/
def appendedSegments (config : StorageConfig) (init : List Segment) (active : Segment)
    (m : Message) : List Segment :=
  if rolls config active (encodeRecord m).length then
    init ++ [active] ++ [({ number := active.number + 1 } : Segment).write config.indexInterval m]
  else init ++ [active.write config.indexInterval m]

/-- An append whose file operations succeed up to the sync. -/
theorem appendRecord_written (config : StorageConfig) (io : IoOutcome) (p : Partition)
    (m : Message) (init : List Segment) (active : Segment) (hp : p.segments = init ++ [active])
    (hopen : rolls config active (encodeRecord m).length = true → io.openOk = true)
    (hwrite : io.writtenBeforeError = none) :
    appendRecord config io p m
      = ({ segments := appendedSegments config init active m, nextOffset := p.nextOffset + 1 },
          if io.syncOk then none else some .walFsyncFailed) := by
  simp only [appendRecord, hp, List.getLast?_concat, List.dropLast_concat, appendedSegments, hwrite]
  by_cases hroll : rolls config active (encodeRecord m).length = true
  · simp only [hroll, hopen hroll, Bool.not_true, Bool.and_false, Bool.false_eq_true, if_false,
      if_true]
  · simp only [hroll, Bool.false_and, Bool.false_eq_true, if_false]

theorem messages_appendedSegments (config : StorageConfig) (init : List Segment)
    (active : Segment) (m : Message) :
    (appendedSegments config init active m).flatMap Segment.messages
      = (init ++ [active]).flatMap Segment.messages ++ [m] := by
  rw [appendedSegments]
  by_cases hroll : rolls config active (encodeRecord m).length = true
  · rw [if_pos hroll, List.flatMap_append, List.flatMap_singleton, write_messages]
    rfl
  · rw [if_neg hroll, List.flatMap_append, List.flatMap_append, List.flatMap_singleton,
      List.flatMap_singleton, write_messages, List.append_assoc]

/-- An append of a message gets as far as the sync: there is an active segment,
    a new one is created if needed, and the record is written. -/
def Partition.reachesSync (config : StorageConfig) (io : IoOutcome) (m : Message)
    (p : Partition) : Bool :=
  match p.segments.getLast? with
  | none => false
  | some active =>
      (!rolls config active (encodeRecord m).length || io.openOk) && io.writtenBeforeError.isNone

/-- An append that gets as far as the sync has stored its record. -/
theorem appendRecord_reached {config : StorageConfig} {io : IoOutcome} {p : Partition}
    {m : Message} (h : p.reachesSync config io m = true) :
    ∃ init active, p.segments = init ++ [active] ∧
      appendRecord config io p m
        = ({ segments := appendedSegments config init active m, nextOffset := p.nextOffset + 1 },
            if io.syncOk then none else some .walFsyncFailed) := by
  rcases List.eq_nil_or_concat p.segments with hp | ⟨init, active, hp⟩
  · simp only [Partition.reachesSync, hp, List.getLast?_nil, Bool.false_eq_true] at h
  · rw [List.concat_eq_append] at hp
    simp only [Partition.reachesSync, hp, List.getLast?_concat, Bool.and_eq_true, Bool.or_eq_true,
      Bool.not_eq_true', Option.isNone_iff_eq_none] at h
    refine ⟨init, active, hp, appendRecord_written config io p m init active hp ?_ h.2⟩
    exact fun hroll => h.1.resolve_left fun hstay => by rw [hstay] at hroll; cases hroll

/-- One that does not has changed no message and no offset, and fails for
    another reason than the sync. -/
theorem appendRecord_unreached {config : StorageConfig} {io : IoOutcome} {p : Partition}
    {m : Message} (h : p.reachesSync config io m = false) :
    (appendRecord config io p m).1.messages = p.messages ∧
      (appendRecord config io p m).1.nextOffset = p.nextOffset ∧
      ∃ e, (appendRecord config io p m).2 = some e ∧ e ≠ .walFsyncFailed := by
  rcases List.eq_nil_or_concat p.segments with hp | ⟨init, active, hp⟩
  · simp only [appendRecord, hp, List.getLast?_nil]
    exact ⟨trivial, trivial, _, rfl, by decide⟩
  · rw [List.concat_eq_append] at hp
    simp only [Partition.reachesSync, hp, List.getLast?_concat] at h
    by_cases hroll : rolls config active (encodeRecord m).length = true
    · cases hopen : io.openOk with
      | false =>
          -- The segment has to roll, and its file cannot be created.
          simp only [appendRecord, hp, List.getLast?_concat, hroll, hopen, Bool.not_false,
            Bool.and_self, if_true]
          exact ⟨trivial, trivial, _, rfl, by decide⟩
      | true =>
          cases hwrite : io.writtenBeforeError with
          | none =>
              rw [hroll, hopen, hwrite] at h
              cases h
          | some k =>
              simp only [appendRecord, hp, List.getLast?_concat, List.dropLast_concat, hwrite,
                hroll, hopen, Bool.not_true, Bool.and_false, Bool.false_eq_true, if_false, if_true]
              refine ⟨?_, trivial, _, rfl, by decide⟩
              simp only [Partition.messages, hp, List.flatMap_append, List.flatMap_singleton,
                List.append_nil]
    · rw [Bool.not_eq_true] at hroll
      cases hwrite : io.writtenBeforeError with
      | none =>
          rw [hroll, hwrite] at h
          cases h
      | some k =>
          -- The bytes that reached the file belong to no message in memory.
          simp only [appendRecord, hp, List.getLast?_concat, List.dropLast_concat, hwrite, hroll,
            Bool.false_and, Bool.false_eq_true, if_false]
          refine ⟨?_, trivial, _, rfl, by decide⟩
          simp only [Partition.messages, hp, List.flatMap_append, List.flatMap_singleton]

/-- Everything an append can do to the messages of a partition: either the
    record is stored and the next offset moves on, also when only the sync
    fails, or an error is reported and neither changes. -/
theorem appendRecord_cases (config : StorageConfig) (io : IoOutcome) (p : Partition)
    (m : Message) :
    ((appendRecord config io p m).1.messages = p.messages ++ [m] ∧
      (appendRecord config io p m).1.nextOffset = p.nextOffset + 1 ∧
      (appendRecord config io p m).2 = if io.syncOk then none else some .walFsyncFailed) ∨
    ((appendRecord config io p m).1.messages = p.messages ∧
      (appendRecord config io p m).1.nextOffset = p.nextOffset ∧
      ∃ e, (appendRecord config io p m).2 = some e) := by
  cases h : p.reachesSync config io m with
  | true =>
      rcases appendRecord_reached h with ⟨init, active, hp, heq⟩
      rw [heq]
      exact Or.inl ⟨by simp only [Partition.messages, messages_appendedSegments, hp], rfl, rfl⟩
  | false =>
      rcases appendRecord_unreached h with ⟨hmessages, hnext, e, he, _⟩
      exact Or.inr ⟨hmessages, hnext, e, he⟩

/-- No append takes the active segment away. -/
theorem appendRecord_segments_ne (config : StorageConfig) (io : IoOutcome) (p : Partition)
    (m : Message) (hne : p.segments ≠ []) : (appendRecord config io p m).1.segments ≠ [] := by
  simp only [appendRecord]
  split
  · exact hne
  · generalize (rolls config _ _ && !io.openOk) = fails
    split
    · exact hne
    · split <;> exact List.append_ne_nil_of_right_ne_nil _ (List.cons_ne_nil _ [])

/-- An append without I/O errors stores its record. -/
theorem appendRecord_ok (config : StorageConfig) (p : Partition) (m : Message)
    (hne : p.segments ≠ []) :
    (appendRecord config {} p m).1.messages = p.messages ++ [m] ∧
      (appendRecord config {} p m).1.nextOffset = p.nextOffset + 1 ∧
      (appendRecord config {} p m).2 = none := by
  rcases List.eq_nil_or_concat p.segments with hp | ⟨init, active, hp⟩
  · exact absurd hp hne
  · rw [List.concat_eq_append] at hp
    rw [appendRecord_written config {} p m init active hp (fun _ => rfl) rfl]
    exact ⟨by simp only [Partition.messages, messages_appendedSegments, hp], rfl, rfl⟩

theorem built_appendedSegments (config : StorageConfig) (init : List Segment) (active : Segment)
    (m : Message)
    (h : ∀ s ∈ init ++ [active], s = Segment.build config.indexInterval s.number s.messages) :
    ∀ s ∈ appendedSegments config init active m,
      s = Segment.build config.indexInterval s.number s.messages := by
  -- A written segment is built from one message more.
  have hwrite : ∀ t : Segment, t = Segment.build config.indexInterval t.number t.messages →
      t.write config.indexInterval m
        = Segment.build config.indexInterval (t.write config.indexInterval m).number
          (t.write config.indexInterval m).messages := by
    intro t ht
    rw [ht, write_build, build_number, build_messages]
  intro s hs
  rw [appendedSegments] at hs
  by_cases hroll : rolls config active (encodeRecord m).length = true
  · rw [if_pos hroll, List.mem_append, List.mem_singleton] at hs
    rcases hs with hs | rfl
    · exact h s hs
    · exact hwrite _ rfl
  · rw [if_neg hroll, List.mem_append, List.mem_singleton] at hs
    rcases hs with hs | rfl
    · exact h s (List.mem_append_left _ hs)
    · exact hwrite _ (h active (List.mem_append_right _ (List.mem_singleton.mpr rfl)))

/-- A successful append of the expected message keeps a partition well
    formed. -/
theorem appendRecord_wellFormed (config : StorageConfig) (p : Partition) (m : Message)
    (h : p.WellFormed config) (hst : m.Storable) (hoff : m.offset = p.nextOffset) :
    (appendRecord config {} p m).1.WellFormed config := by
  rcases appendRecord_ok config p m h.segments_ne with ⟨hmsgs, hnext, _⟩
  rcases List.eq_nil_or_concat p.segments with hp | ⟨init, active, hp⟩
  · exact absurd hp h.segments_ne
  · rw [List.concat_eq_append] at hp
    -- Without I/O errors the segments are the ones `appendedSegments` gives.
    have hsegs : (appendRecord config {} p m).1.segments
        = appendedSegments config init active m := by
      rw [appendRecord_written config {} p m init active hp (fun _ => rfl) rfl]
    refine ⟨?_, ?_, ?_, ?_, ?_⟩
    · rw [hsegs, appendedSegments]
      by_cases hroll : rolls config active (encodeRecord m).length = true
      · rw [if_pos hroll]
        exact List.append_ne_nil_of_right_ne_nil _ (List.cons_ne_nil _ _)
      · rw [if_neg hroll]
        exact List.append_ne_nil_of_right_ne_nil _ (List.cons_ne_nil _ _)
    · rw [hsegs]
      exact built_appendedSegments config init active m (by rw [← hp]; exact h.built)
    · rw [hmsgs, numbered_append, UInt64.zero_add, ← h.next]
      exact ⟨h.numbered, hoff, trivial⟩
    · intro x hx
      rw [hmsgs, List.mem_append, List.mem_singleton] at hx
      rcases hx with hx | rfl
      · exact h.storable x hx
      · exact hst
    · rw [hnext, hmsgs, List.length_append, List.length_singleton, UInt64.ofNat_add, ← h.next]
      rfl

theorem append_wellFormed (config : StorageConfig) (p : Partition) (now : Int64)
    (key value : Bytes) (h : p.WellFormed config) :
    (p.append config {} now key value).1.WellFormed config := by
  rw [Partition.append]
  by_cases hst : (p.nextMessage now key value).Storable
  · simp only [if_neg (not_not_intro hst)]
    exact appendRecord_wellFormed config p _ h hst rfl
  · simp only [if_pos hst]
    exact h

theorem appendReplica_wellFormed (config : StorageConfig) (p : Partition) (m : Message)
    (h : p.WellFormed config) : (p.appendReplica config {} m).1.WellFormed config := by
  rw [Partition.appendReplica]
  by_cases hst : m.Storable
  · rw [if_neg (not_not_intro hst)]
    by_cases hoff : m.offset = p.nextOffset
    · rw [if_neg (not_not_intro hoff)]
      exact appendRecord_wellFormed config p m h hst hoff
    · rw [if_pos hoff]
      exact h
  · rw [if_pos hst]
    exact h

/-! ## Restarting after retention -/

/-- The cleaner finds nothing to remove: one segment is left, or the oldest
    is neither expired nor surplus. -/
def keepsAll (config : StorageConfig) (now : Int64) (p : Partition) : Bool :=
  match p.segments with
  | oldest :: _ :: _ => !(oldest.expired config now || oversized config p.totalSize)
  | _ => true

theorem cleanup_of_keepsAll (config : StorageConfig) (now : Int64) (p : Partition)
    (h : keepsAll config now p = true) : p.cleanupExpiredSegments config now = p := by
  rcases p with ⟨segments, next⟩
  rw [Partition.cleanupExpiredSegments]
  -- The last segment is never removed, so only two or more are of interest.
  rcases segments with _ | ⟨oldest, _ | ⟨second, rest⟩⟩
  · rfl
  · rfl
  · simp only [keepsAll, Bool.not_eq_true'] at h
    simp only [cleanupLoop, h, Bool.false_eq_true, if_false]

/-- A call that is no cleanup, or a cleanup that finds nothing to remove. -/
def StorageOp.removesNothing (config : StorageConfig) (p : Partition) : StorageOp → Bool
  | .cleanup now => keepsAll config now p
  | _ => true

/-- No call of the run removes a segment. -/
def runRemovesNothing (config : StorageConfig) : Partition → List StorageOp → Bool
  | _, [] => true
  | p, op :: ops => op.removesNothing config p && runRemovesNothing config (op.exec config p) ops

/-- Reopening the engine on the files of a partition gives back its messages
    in order and its next offset, and changes no file. -/
def ReopensExactly (config : StorageConfig) (p : Partition) : Prop :=
  (recover config p.files).messages = p.messages ∧
    (recover config p.files).nextOffset = p.nextOffset ∧
    (recover config p.files).files = p.files

instance (config : StorageConfig) (p : Partition) : Decidable (ReopensExactly config p) :=
  inferInstanceAs (Decidable (_ ∧ _ ∧ _))

theorem reopensExactly_of_wellFormed (config : StorageConfig) (p : Partition)
    (h : p.WellFormed config) : ReopensExactly config p := by
  rw [ReopensExactly, recover_files config p h]
  exact ⟨rfl, rfl, rfl⟩

theorem exec_wellFormed (config : StorageConfig) (p : Partition) (op : StorageOp)
    (h : p.WellFormed config) (hkeep : op.removesNothing config p = true) :
    (op.exec config p).WellFormed config := by
  cases op with
  | append key value now => exact append_wellFormed config p now key value h
  | appendReplica m => exact appendReplica_wellFormed config p m h
  | cleanup now =>
      rw [StorageOp.exec, cleanup_of_keepsAll config now p hkeep]
      exact h

theorem foldl_exec_wellFormed (config : StorageConfig) (ops : List StorageOp) (p : Partition)
    (h : p.WellFormed config) (hkeep : runRemovesNothing config p ops = true) :
    (ops.foldl (StorageOp.exec config) p).WellFormed config := by
  induction ops generalizing p with
  | nil => exact h
  | cons op ops ih =>
      rw [runRemovesNothing, Bool.and_eq_true] at hkeep
      exact ih _ (exec_wellFormed config p op h hkeep.1) hkeep.2

theorem runRemovesNothing_take (config : StorageConfig) (ops : List StorageOp) (n : Nat)
    (p : Partition) (h : runRemovesNothing config p ops = true) :
    runRemovesNothing config p (ops.take n) = true := by
  induction ops generalizing p n with
  | nil => rw [List.take_nil]; exact h
  | cons op ops ih =>
      cases n with
      | zero => rfl
      | succ n =>
          rw [runRemovesNothing, Bool.and_eq_true] at h
          rw [List.take_succ_cons, runRemovesNothing, h.1, ih n _ h.2]
          rfl

/-- As long as no cleanup of a run has anything to remove, the partition
    reopens exactly in every state the run goes through. -/
theorem reopen_of_removesNothing (config : StorageConfig) (ops : List StorageOp)
    (h : runRemovesNothing config.effective (freshPartition config.effective) ops = true)
    (n : Nat) :
    ReopensExactly config.effective (runStorage config.effective (ops.take n)) :=
  reopensExactly_of_wellFormed _ _ (foldl_exec_wellFormed _ _ _
    (freshPartition_wellFormed _) (runRemovesNothing_take _ _ n _ h))

/-- Segments with room for one record of 31 bytes, and retention for two. -/
def tightRetention : StorageConfig :=
  { segmentSizeBytes := 40, indexInterval := 2, retentionMs := 0, retentionBytes := 64 }

theorem reopen_tightRetention :
    ReopensExactly tightRetention.effective (runStorage tightRetention.effective
      ([.append [] [1] 5, .append [] [2] 6, .cleanup 7].take 3)) :=
  reopen_of_removesNothing tightRetention _ (by decide +kernel) 3

/-- A roll, a cleanup and a restart: the one message that was kept is gone,
    the next offset is back at 0, and its file is empty. -/
theorem reopen_after_removal :
    ¬ ReopensExactly ({ tightRetention with retentionBytes := 1 } : StorageConfig).effective
      (runStorage ({ tightRetention with retentionBytes := 1 } : StorageConfig).effective
        [.append [] [1] 5, .append [] [2] 6, .cleanup 7]) := by
  decide +kernel

end MqBroker
