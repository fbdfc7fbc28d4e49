import MqBroker.Storage.Streams

/-!
# Writes That Fail Half Way

What a write or a flush that fails after some bytes does to the messages that
were appended successfully.

When a write fails, the bytes that reached the file stay there, and the next
record goes behind them. When a flush fails nobody looks, and the append
succeeds although its record is not in the file. The stream holds on to it, and
writes it later, all of it, behind the bytes that got through the first time.
A recovery stops at the first place that is not a record it expects. So a
message that was appended successfully behind such a place is gone after a
restart, and so is one whose record was not flushed yet.

A message is kept if its own record reached the file, everything in front of it
in its file and in the files before it is read, and the streams of the files
before it have nothing left to write (`OpenPartition.Keeps`). Bytes that were
left behind do no harm at the end of a segment that has been rolled, since the
recovery goes on with the next file.

What happens later does no harm either. The files before a kept message do not
change any more, its own only grows at its end, and a recovery reads at least
what it would have read before (`recover_grown`).

## Main definitions

* `WriteOp`, `runWrites`: Appends and flushes, and the messages acknowledged.
* `Intact`: Files that hold the records of their messages.
* `OpenPartition.Keeps`: A message that no later failure can take away.
* `OpenPartition.Clean`: A state in which an append cannot be harmed.

## Theorems

* `recover_grown`: A longer file does not lose a message.
* `recover_intact`: Intact files are read in full.
* `exec_keeps`: What is kept stays so, whatever fails.
* `clean_run_recovered`: Acknowledged messages survive a run of clean appends.
* `failed_write_loses`: One that is not.
-/

namespace MqBroker

/-! ## Appends that fail half way -/

/-- An append, in one of the two ways, or a flush of all streams. -/
inductive WriteOp
  | append (io : WriteOutcome) (now : Int64) (key value : Bytes)
  | appendReplica (io : WriteOutcome) (m : Message)
  | flush (flushed : List (Option PartialWrite))
deriving DecidableEq, Repr

/-- The partition after an operation, and the message of an append that returned
    true. -/
def WriteOp.exec (config : StorageConfig) (p : OpenPartition) :
    WriteOp → OpenPartition × Option Message
  | .append io now key value =>
      let result := p.append config io now key value
      (result.1, result.2.toOption)
  | .appendReplica io m =>
      let result := p.appendReplica config io m
      (result.1, if result.2.isNone then some m else none)
  | .flush flushed => (p.flush flushed, none)

/-- A run of operations: the partition, and the messages it started with
    together with those whose append returned true. -/
structure WriteRun where
  partition : OpenPartition
  acknowledged : List Message

def WriteRun.step (config : StorageConfig) (run : WriteRun) (op : WriteOp) : WriteRun :=
  let result := op.exec config run.partition
  { partition := result.1, acknowledged := run.acknowledged ++ result.2.toList }

/-- A run that starts with a recovery. -/
def runWrites (config : StorageConfig) (files : List SegmentFile) (ops : List WriteOp) :
    WriteRun :=
  ops.foldl (WriteRun.step config)
    ⟨(recover config files).opened, (recover config files).messages⟩

/-- The record that an operation goes on to write, if its checks are passed. -/
def WriteOp.checked (p : OpenPartition) : WriteOp → Option (WriteOutcome × Message)
  | .append io now key value =>
      let next := p.partition.nextMessage now key value
      if next.Storable then some (io, next) else none
  | .appendReplica io m => if m.Storable ∧ m.offset = p.nextOffset then some (io, m) else none
  | .flush _ => none

/-! ## Files that grow -/

/-- The files of segments, as a restart finds them. -/
def logFiles (segments : List OpenSegment) : List SegmentFile :=
  segments.map fun s => ⟨s.number, s.log⟩

/-- The messages a partition holds in memory. -/
def OpenPartition.messages (p : OpenPartition) : List Message :=
  p.segments.flatMap fun s => s.messages

theorem recoverSegment_initial (config : StorageConfig) (p : Partition) (file : SegmentFile) :
    p.messages <+: (recoverSegment config p file).messages := by
  rw [Partition.messages, Partition.messages, recoverSegment, List.flatMap_append]
  exact List.prefix_append _ _

/-- More files do not lose a message. -/
theorem recover_append (config : StorageConfig) (files more : List SegmentFile) :
    (recover config files).messages <+: (recover config (files ++ more)).messages := by
  rw [recover, recover, List.foldl_append]
  generalize files.foldl (recoverSegment config) {} = p
  induction more generalizing p with
  | nil => exact List.prefix_rfl
  | cons file more ih => exact (recoverSegment_initial config p file).trans (ih _)

theorem recover_concat (config : StorageConfig) (files : List SegmentFile) (file : SegmentFile) :
    recover config (files ++ [file]) = recoverSegment config (recover config files) file := by
  rw [recover, List.foldl_append]
  rfl

/-- A longer file does not lose a message: the scan goes on where it stopped. -/
theorem recover_grown (config : StorageConfig) (init : List SegmentFile) (number : Nat)
    {log log' : Bytes} (h : log <+: log') :
    (recover config (init ++ [⟨number, log⟩])).messages
      <+: (recover config (init ++ [⟨number, log'⟩])).messages := by
  rcases h with ⟨more, rfl⟩
  rw [recover_concat, recover_concat]
  rcases scan_exists (recover config init).nextOffset log with
    ⟨ms, rest, rfl, hnumbered, hreadable, hstop⟩
  rcases scan_exists ((recover config init).nextOffset + UInt64.ofNat ms.length)
    (rest ++ more) with ⟨ms', rest', hrest, hnumbered', hreadable', hstop'⟩
  have hlog : encodeRecords ms ++ rest ++ more = encodeRecords (ms ++ ms') ++ rest' := by
    rw [List.append_assoc, hrest, encodeRecords_append, List.append_assoc]
  rw [UInt64.add_assoc, ← UInt64.ofNat_add, ← List.length_append] at hstop'
  rw [hlog, recoverSegment_eq config _ number ms rest hnumbered hreadable hstop,
    recoverSegment_eq config _ number (ms ++ ms') rest'
      ((numbered_append _ _ _).mpr ⟨hnumbered, hnumbered'⟩)
      (fun m hm => (List.mem_append.mp hm).elim (hreadable m) (hreadable' m)) hstop']
  simp only [Partition.messages, List.flatMap_append, List.flatMap_singleton, build_messages]
  rw [← List.append_assoc]
  exact List.prefix_append _ _

/-! ## Intact files -/

/-- The files of segments hold the records of their messages, the scan reads
    nothing behind these, and the streams hold nothing back. -/
def Intact : UInt64 → List OpenSegment → Prop
  | _, [] => True
  | next, s :: segments =>
      (s.buffer = [] ∧ ∃ tail, s.log = encodeRecords s.messages ++ tail ∧
        readRecord (next + UInt64.ofNat s.messages.length) tail = none) ∧
      Intact (next + UInt64.ofNat s.messages.length) segments

theorem intact_append (next : UInt64) (a b : List OpenSegment) :
    Intact next (a ++ b) ↔ Intact next a ∧
      Intact (next + UInt64.ofNat (a.flatMap fun s => s.messages).length) b := by
  induction a generalizing next with
  | nil =>
      rw [List.nil_append, List.flatMap_nil, List.length_nil, show UInt64.ofNat 0 = 0 from rfl,
        UInt64.add_zero]
      exact (and_iff_right trivial).symm
  | cons s a ih =>
      rw [List.cons_append, Intact, Intact, ih, List.flatMap_cons, List.length_append,
        UInt64.ofNat_add, UInt64.add_assoc]
      exact and_assoc.symm

/-- A file that holds the records of its messages and nothing else. -/
theorem intact_exact (next : UInt64) {s : OpenSegment} (hbuffer : s.buffer = [])
    (hlog : s.log = encodeRecords s.messages) : Intact next [s] :=
  ⟨⟨hbuffer, [], by rw [hlog, List.append_nil], readRecord_nil _⟩, trivial⟩

theorem intact_buffer {segments : List OpenSegment} {next : UInt64} (h : Intact next segments) :
    ∀ s ∈ segments, s.buffer = [] := by
  induction segments generalizing next with
  | nil => exact fun s hs => absurd hs List.not_mem_nil
  | cons s segments ih => exact List.forall_mem_cons.mpr ⟨h.1.1, ih h.2⟩

theorem foldl_intact (config : StorageConfig) (segments : List OpenSegment) (p : Partition)
    (hintact : Intact p.nextOffset segments)
    (hnumbered : Numbered p.nextOffset (segments.flatMap fun s => s.messages))
    (hreadable : ∀ m ∈ segments.flatMap fun s => s.messages, m.Readable) :
    ((logFiles segments).foldl (recoverSegment config) p).messages
      = p.messages ++ segments.flatMap fun s => s.messages := by
  induction segments generalizing p with
  | nil => exact (List.append_nil _).symm
  | cons s segments ih =>
      rcases hintact with ⟨⟨_, tail, hlog, hstop⟩, hrest⟩
      rw [List.flatMap_cons, numbered_append] at hnumbered
      rw [List.flatMap_cons] at hreadable
      rw [logFiles, List.map_cons, List.foldl_cons, hlog, recoverSegment_eq config p s.number
        s.messages tail hnumbered.1 (fun m hm => hreadable m (List.mem_append_left _ hm)) hstop,
        ← logFiles, ih _ hrest hnumbered.2 fun m hm => hreadable m (List.mem_append_right _ hm)]
      rw [Partition.messages, List.flatMap_append, List.flatMap_singleton, build_messages,
        List.append_assoc, List.flatMap_cons, Partition.messages]

/-- What holds of the memory of a partition, whatever is in its files. -/
structure OpenPartition.Held (p : OpenPartition) : Prop where
  numbered : Numbered 0 p.messages
  next : p.nextOffset = UInt64.ofNat p.messages.length
  readable : ∀ m ∈ p.messages, m.Readable

theorem opened_messages (p : Partition) : p.opened.messages = p.messages := by
  rw [OpenPartition.messages, Partition.opened, Partition.messages, List.flatMap_map]

theorem held_recover (config : StorageConfig) (files : List SegmentFile) :
    (recover config files).opened.Held := by
  rcases recover_replayed config files with ⟨hreplayed, hnext⟩
  refine ⟨?_, ?_, ?_⟩
  · rw [opened_messages]
    exact hreplayed.all_numbered
  · rw [opened_messages]
    exact hnext
  · rw [opened_messages]
    exact hreplayed.all_readable

/-- Intact files are read in full. -/
theorem recover_intact (config : StorageConfig) {p : OpenPartition} (h : p.Held)
    (hintact : Intact 0 p.segments) :
    (recover config (logFiles p.segments)).messages = p.messages :=
  foldl_intact config p.segments {} hintact h.numbered h.readable

/-- A recovery leaves intact files. -/
theorem intact_recover (config : StorageConfig) (files : List SegmentFile) :
    Intact 0 (recover config files).opened.segments := by
  have hbuilt := (recover_replayed config files).1.all_built
  -- Built segments are intact, whatever offset they start with.
  have hall : ∀ (segments : List Segment) (next : UInt64),
      (∀ s ∈ segments, s = Segment.build config.indexInterval s.number s.messages) →
      Intact next (segments.map fun s => ({ toSegment := s } : OpenSegment)) := by
    intro segments
    induction segments with
    | nil => exact fun _ _ => trivial
    | cons s segments ih =>
        intro next hs
        exact (intact_append next [_] _).mpr
          ⟨intact_exact next rfl (log_of_built (hs s List.mem_cons_self)),
            ih _ fun t ht => hs t (List.mem_cons_of_mem s ht)⟩
  exact hall _ 0 hbuilt

/-! ## What is kept -/

/-- A recovery finds the message in the files up to some segment, and the
    streams of the segments before that have nothing left to write. -/
def OpenPartition.Keeps (config : StorageConfig) (p : OpenPartition) (m : Message) : Prop :=
  ∃ safe s rest, p.segments = safe ++ s :: rest ∧ (∀ t ∈ safe, t.buffer = []) ∧
    m ∈ (recover config (logFiles (safe ++ [s]))).messages

/-- So it finds the message in all of the files. -/
theorem OpenPartition.Keeps.recovered {config : StorageConfig} {p : OpenPartition} {m : Message}
    (h : p.Keeps config m) : m ∈ (recover config (logFiles p.segments)).messages := by
  rcases h with ⟨safe, s, rest, hp, _, hm⟩
  rw [hp, show safe ++ s :: rest = safe ++ [s] ++ rest by rw [List.append_assoc]; rfl, logFiles,
    List.map_append]
  exact (recover_append config _ _).subset hm

/-- In intact files every message is kept. -/
theorem keeps_of_intact (config : StorageConfig) {p : OpenPartition} (h : p.Held)
    (hintact : Intact 0 p.segments) {m : Message} (hm : m ∈ p.messages) : p.Keeps config m := by
  rcases List.eq_nil_or_concat p.segments with hp | ⟨init, active, hp⟩
  · rw [OpenPartition.messages, hp] at hm
    exact absurd hm List.not_mem_nil
  · rw [List.concat_eq_append] at hp
    refine ⟨init, active, [], hp, fun t ht => ?_, ?_⟩
    · refine intact_buffer hintact t ?_
      rw [hp]
      exact List.mem_append_left _ ht
    · rw [← hp, recover_intact config h hintact]
      exact hm

/-- The segments of a partition before and after an operation. -/
inductive Later : List OpenSegment → List OpenSegment → Prop
  | same (segments : List OpenSegment) : Later segments segments
  | added (segments : List OpenSegment) (new : OpenSegment) : Later segments (segments ++ [new])
  | longer (init : List OpenSegment) {active active' : OpenSegment}
      (number : active'.number = active.number) (log : active.log <+: active'.log) :
      Later (init ++ [active]) (init ++ [active'])
  | flushed (segments : List OpenSegment) (flushed : List (Option PartialWrite)) :
      Later segments (flushSegments segments flushed)

/-- A message that is kept stays so: the files before it do not change, and its
    own file only grows. -/
theorem OpenPartition.Keeps.later {config : StorageConfig} {p p' : OpenPartition} {m : Message}
    (h : p.Keeps config m) (hlater : Later p.segments p'.segments) : p'.Keeps config m := by
  rcases h with ⟨safe, s, rest, hp, hsafe, hm⟩
  -- The file of the segment may be longer than it was.
  have hlonger : ∀ s' : OpenSegment, s'.number = s.number → s.log <+: s'.log →
      m ∈ (recover config (logFiles (safe ++ [s']))).messages := by
    intro s' hnumber hlog
    rw [logFiles, List.map_append, List.map_singleton] at hm ⊢
    rw [hnumber]
    exact (recover_grown config _ _ hlog).subset hm
  generalize hbefore : p.segments = before at hlater
  generalize hafter : p'.segments = after at hlater
  rw [hp] at hbefore
  cases hlater with
  | same => exact ⟨safe, s, rest, hafter.trans hbefore.symm, hsafe, hm⟩
  | added _ new =>
      refine ⟨safe, s, rest ++ [new], ?_, hsafe, hm⟩
      rw [hafter, ← hbefore, List.append_assoc, List.cons_append]
  | @longer init active active' hnumber hlog =>
      rcases List.eq_nil_or_concat rest with rfl | ⟨others, last, rfl⟩
      · -- It is the segment that is written to.
        rcases List.append_inj' hbefore rfl with ⟨rfl, hactive⟩
        obtain rfl := List.singleton_inj.mp hactive
        exact ⟨safe, active', [], hafter, hsafe, hlonger active' hnumber hlog⟩
      · rw [List.concat_eq_append, ← List.cons_append, ← List.append_assoc] at hbefore
        rcases List.append_inj' hbefore rfl with ⟨rfl, _⟩
        refine ⟨safe, s, others ++ [active'], ?_, hsafe, hm⟩
        rw [hafter, List.append_assoc, List.cons_append]
  | flushed _ flushed =>
      rw [← hbefore, flushSegments_append hsafe] at hafter
      cases hothers : flushed.drop safe.length with
      | nil =>
          rw [hothers, flushSegments] at hafter
          · exact ⟨safe, s, rest, hafter, hsafe, hm⟩
          · intro _ _ _ _ _ hcons
            cases hcons
      | cons f others =>
          rw [hothers, flushSegments] at hafter
          exact ⟨safe, _, _, hafter, hsafe, hlonger _ (drain_number s f) (drain_log s f)⟩

/-! ## One operation -/

/-- An operation that passes its checks goes on with its record, which has the
    next offset. -/
theorem exec_checked (config : StorageConfig) {p : OpenPartition} {op : WriteOp}
    {io : WriteOutcome} {m : Message} (h : op.checked p = some (io, m)) :
    m.Storable ∧ m.offset = p.nextOffset ∧
      op.exec config p = ((appendThrough config io p m).1,
        if (appendThrough config io p m).2.isNone then some m else none) := by
  cases op with
  | append io' now key value =>
      simp only [WriteOp.checked] at h
      split at h
      · rename_i hstorable
        cases h
        refine ⟨hstorable, rfl, ?_⟩
        simp only [WriteOp.exec, OpenPartition.append, hstorable, not_true_eq_false, if_false]
        refine Prod.ext rfl ?_
        simp only
        cases (appendThrough config io p (p.partition.nextMessage now key value)).2 <;> rfl
      · cases h
  | appendReplica io' m' =>
      simp only [WriteOp.checked] at h
      split at h
      · rename_i hchecks
        cases h
        refine ⟨hchecks.1, hchecks.2, ?_⟩
        simp only [WriteOp.exec, OpenPartition.appendReplica, hchecks.1, hchecks.2,
          not_true_eq_false, if_false, ne_eq]
      · cases h
  | flush flushed => cases h

/-- Any other acknowledges nothing, and at most the streams are flushed. -/
theorem exec_unchecked (config : StorageConfig) {p : OpenPartition} {op : WriteOp}
    (h : op.checked p = none) :
    (op.exec config p).2 = none ∧
      ((op.exec config p).1 = p ∨ ∃ flushed, (op.exec config p).1 = p.flush flushed) := by
  cases op with
  | append io now key value =>
      simp only [WriteOp.checked] at h
      split at h
      · cases h
      · rename_i hstorable
        simp only [WriteOp.exec, OpenPartition.append, hstorable, not_false_eq_true, if_true]
        exact ⟨rfl, Or.inl trivial⟩
  | appendReplica io m =>
      simp only [WriteOp.checked] at h
      split at h
      · cases h
      · rename_i hchecks
        have hrefused : ∃ e, p.appendReplica config io m = (p, some e) := by
          by_cases hstorable : m.Storable
          · exact ⟨_, by rw [OpenPartition.appendReplica, if_neg (not_not.mpr hstorable),
              if_pos fun hoffset => hchecks ⟨hstorable, hoffset⟩]⟩
          · exact ⟨_, by rw [OpenPartition.appendReplica, if_pos hstorable]⟩
        rcases hrefused with ⟨e, he⟩
        simp only [WriteOp.exec, he]
        exact ⟨rfl, Or.inl trivial⟩
  | flush flushed => exact ⟨rfl, Or.inr ⟨flushed, rfl⟩⟩

@[simp] theorem flush_messages (p : OpenPartition) (flushed : List (Option PartialWrite)) :
    (p.flush flushed).messages = p.messages :=
  flushSegments_messages p.segments flushed

/-- The messages of an append that gets as far as the sync. -/
theorem reached_messages {config : StorageConfig} {io : WriteOutcome} {p : OpenPartition}
    {m : Message} (h : p.reachesSync config io m = true) :
    (appendThrough config io p m).1.messages = p.messages ++ [m] := by
  rcases appendThrough_reached h with ⟨init, active, hp, heq⟩
  rw [heq, OpenPartition.messages, OpenPartition.messages, hp, closedSegments, writtenSegment]
  simp only [List.flatMap_append, List.flatMap_singleton, drain_messages, OpenSegment.write,
    Segment.push]
  split <;> simp only [List.flatMap_append, List.flatMap_singleton, drain_messages, List.nil_append,
    List.append_assoc]

/-- The messages of one that does not. -/
theorem unreached_messages {config : StorageConfig} {io : WriteOutcome} {p : OpenPartition}
    {m : Message} (h : p.reachesSync config io m = false) :
    (appendThrough config io p m).1.messages = p.messages := by
  rcases (appendThrough_unreached h).2.2 with hsame | ⟨new, hnew, hadded⟩ |
    ⟨init, active, active', hp, hlonger, _, hmessages, _⟩
  · rw [OpenPartition.messages, hsame, OpenPartition.messages]
  · rw [OpenPartition.messages, hadded, OpenPartition.messages, List.flatMap_append,
      List.flatMap_singleton, hnew, List.append_nil]
  · rw [OpenPartition.messages, hlonger, OpenPartition.messages, hp, List.flatMap_append,
      List.flatMap_append, List.flatMap_singleton, List.flatMap_singleton, hmessages]

/-- An operation keeps the messages numbered, and readable. -/
theorem exec_held {p : OpenPartition} (hheld : p.Held) (config : StorageConfig) (op : WriteOp) :
    (op.exec config p).1.Held := by
  cases hchecked : op.checked p with
  | none =>
      rcases (exec_unchecked config hchecked).2 with heq | ⟨flushed, heq⟩
      · rw [heq]
        exact hheld
      · rw [heq]
        exact ⟨by rw [flush_messages]; exact hheld.numbered,
          by rw [flush_messages]; exact hheld.next, by rw [flush_messages]; exact hheld.readable⟩
  | some record =>
      rcases record with ⟨io, m⟩
      rcases exec_checked config hchecked with ⟨hstorable, hoffset, heq⟩
      rw [heq]
      cases hreached : p.reachesSync config io m with
      | true =>
          have hnext : (appendThrough config io p m).1.nextOffset = p.nextOffset + 1 := by
            rcases appendThrough_reached hreached with ⟨_, _, _, hthrough⟩
            rw [hthrough]
          refine ⟨?_, ?_, fun m' hm' => ?_⟩
          · rw [reached_messages hreached, numbered_append, UInt64.zero_add, ← hheld.next]
            exact ⟨hheld.numbered, hoffset, trivial⟩
          · rw [hnext, reached_messages hreached, hheld.next, List.length_append, UInt64.ofNat_add]
            rfl
          · rw [reached_messages hreached] at hm'
            rcases List.mem_append.mp hm' with hold | hnew
            · exact hheld.readable m' hold
            · rw [List.mem_singleton.mp hnew]
              exact hstorable.readable
      | false =>
          have hmessages := unreached_messages hreached
          exact ⟨by rw [hmessages]; exact hheld.numbered,
            by rw [hmessages, (appendThrough_unreached hreached).1]; exact hheld.next,
            by rw [hmessages]; exact hheld.readable⟩

theorem appendThrough_later (config : StorageConfig) (io : WriteOutcome) (p : OpenPartition)
    (m : Message) : Later p.segments (appendThrough config io p m).1.segments := by
  cases hreached : p.reachesSync config io m with
  | true =>
      rcases appendThrough_reached hreached with ⟨init, active, hp, heq⟩
      rw [heq, hp, closedSegments, writtenSegment]
      split
      · exact .added _ _
      · -- The seek and the flush both go to the end of the file.
        refine .longer _ (by rw [drain_number]; exact drain_number active none) ?_
        exact (drain_log active none).trans
          (drain_log ((active.drain none).write config.indexInterval m) io.flushed)
  | false =>
      rcases (appendThrough_unreached hreached).2.2 with hsame | ⟨new, _, hadded⟩ |
        ⟨init, active, active', hp, hlonger, hnumber, _, hlog⟩
      · rw [hsame]
        exact .same _
      · rw [hadded]
        exact .added _ _
      · rw [hp, hlonger]
        exact .longer _ hnumber hlog

/-- What is kept stays so, whatever fails. -/
theorem exec_keeps {config : StorageConfig} {p : OpenPartition} {m : Message}
    (h : p.Keeps config m) (op : WriteOp) : (op.exec config p).1.Keeps config m := by
  refine h.later ?_
  cases hchecked : op.checked p with
  | none =>
      rcases (exec_unchecked config hchecked).2 with heq | ⟨flushed, heq⟩
      · rw [heq]
        exact .same _
      · rw [heq]
        exact .flushed _ _
  | some record =>
      rw [(exec_checked config hchecked).2.2]
      exact appendThrough_later config record.1 p record.2

/-! ## Clean appends -/

/-- An append of a message cannot be harmed: the flush is complete, the files of
    the segments it does not write to are intact, and if the record goes to the
    active segment then the file of that holds its records, together with what
    the stream has held back, and nothing else. -/
structure OpenPartition.Clean (config : StorageConfig) (io : WriteOutcome) (m : Message)
    (p : OpenPartition) : Prop where
  flushed : io.flushed = none
  closed : ∀ init active, p.segments = init ++ [active] →
    Intact 0 (closedSegments config init active m)
  stays : ∀ init active, p.segments = init ++ [active] →
    rolls config active.toSegment (encodeRecord m).length = false →
    active.log ++ active.buffer = encodeRecords active.messages

/-- A run in which every append that passes its checks and does not fail is
    clean. -/
def CleanRun (config : StorageConfig) : OpenPartition → List WriteOp → Prop
  | _, [] => True
  | p, op :: ops =>
      (∀ io m, op.checked p = some (io, m) → p.reachesSync config io m = true →
        io.syncOk = true → p.Clean config io m) ∧ CleanRun config (op.exec config p).1 ops

/-- A clean append leaves intact files. -/
theorem clean_intact {config : StorageConfig} {io : WriteOutcome} {p : OpenPartition}
    {m : Message} (hreached : p.reachesSync config io m = true) (h : p.Clean config io m) :
    Intact 0 (appendThrough config io p m).1.segments := by
  rcases appendThrough_reached hreached with ⟨init, active, hp, heq⟩
  rw [heq, h.flushed]
  refine (intact_append _ _ _).mpr ⟨h.closed init active hp, intact_exact _ rfl ?_⟩
  simp only [OpenSegment.drain, OpenSegment.write, Segment.push, writtenSegment]
  cases hroll : rolls config active.toSegment (encodeRecord m).length with
  | true => simp only [if_true, List.nil_append, encodeRecords, List.flatMap_singleton]
  | false =>
      simp only [Bool.false_eq_true, if_false, List.nil_append]
      rw [h.stays init active hp hroll, encodeRecords_append]
      exact congrArg _ (List.append_nil _).symm

/-! ## Runs -/

/-- What a run keeps: the messages that were acknowledged. -/
structure WriteRun.Safe (config : StorageConfig) (run : WriteRun) : Prop where
  held : run.partition.Held
  kept : ∀ m ∈ run.acknowledged, run.partition.Keeps config m

theorem WriteRun.Safe.step {config : StorageConfig} {run : WriteRun} (h : run.Safe config)
    {op : WriteOp} (hclean : ∀ io m, op.checked run.partition = some (io, m) →
      run.partition.reachesSync config io m = true → io.syncOk = true →
      run.partition.Clean config io m) : (run.step config op).Safe config := by
  have hheld := exec_held h.held config op
  refine ⟨hheld, fun m hm => ?_⟩
  rcases List.mem_append.mp hm with hold | hnew
  · exact exec_keeps (h.kept m hold) op
  · -- The new message, whose file is read in full.
    rw [Option.mem_toList] at hnew
    cases hchecked : op.checked run.partition with
    | none =>
        rw [(exec_unchecked config hchecked).1] at hnew
        cases hnew
    | some record =>
        rcases record with ⟨io, m'⟩
        have heq := (exec_checked config hchecked).2.2
        rw [WriteRun.step, heq]
        rw [heq] at hheld hnew
        cases hreached : run.partition.reachesSync config io m' with
        | false =>
            rcases (appendThrough_unreached hreached).2.1 with ⟨e, he⟩
            rw [he] at hnew
            cases hnew
        | true =>
            rcases appendThrough_reached hreached with ⟨_, _, _, hthrough⟩
            cases hsync : io.syncOk with
            | false =>
                rw [hthrough, hsync] at hnew
                cases hnew
            | true =>
                obtain rfl : m = m' := by
                  rw [hthrough, hsync] at hnew
                  exact (Option.some.inj hnew).symm
                refine keeps_of_intact config hheld
                  (clean_intact hreached (hclean io m hchecked hreached hsync)) ?_
                rw [reached_messages hreached]
                exact List.mem_append_right _ (List.mem_singleton.mpr rfl)

/-- After a run of appends and flushes in which every append that returns true
    is clean, with any failures among the others and in the streams, a restart
    finds every message that was acknowledged, and those the run started with. -/
theorem clean_run_recovered (config : StorageConfig) (files : List SegmentFile)
    (ops : List WriteOp)
    (h : CleanRun config.effective (recover config.effective files).opened ops) :
    ∀ m ∈ (runWrites config.effective files ops).acknowledged,
      m ∈ (recover config.effective
        (logFiles (runWrites config.effective files ops).partition.segments)).messages := by
  -- The induction is on the run, from any state that is safe.
  have hfold : ∀ (ops : List WriteOp) (run : WriteRun), run.Safe config.effective →
      CleanRun config.effective run.partition ops →
      (ops.foldl (WriteRun.step config.effective) run).Safe config.effective := by
    intro ops
    induction ops with
    | nil => exact fun run hrun _ => hrun
    | cons op ops ih =>
        intro run hrun hops
        exact ih _ (hrun.step hops.1) hops.2
  have hstart : WriteRun.Safe config.effective
      ⟨(recover config.effective files).opened, (recover config.effective files).messages⟩ := by
    have hheld := held_recover config.effective files
    refine ⟨hheld, fun m hm => ?_⟩
    refine keeps_of_intact config.effective hheld (intact_recover config.effective files) ?_
    rw [opened_messages]
    exact hm
  exact fun m hm => ((hfold ops _ hstart h).kept m hm).recovered

/-- An append whose record is not flushed, and which fails at the sync, and one
    that finds the record in the stream and writes both. -/
theorem clean_run_recovered_two :
    let run := runWrites (StorageConfig.effective {}) [⟨0, []⟩]
      [.append { flushed := some {}, syncOk := false } 5 [] [1], .append {} 6 [] [2]]
    run.acknowledged = [⟨1, 6, [], [2]⟩] ∧
      ∀ m ∈ run.acknowledged,
        m ∈ (recover (StorageConfig.effective {}) (logFiles run.partition.segments)).messages := by
  refine ⟨by decide +kernel, clean_run_recovered {} [⟨0, []⟩] _ ⟨?_, ?_, trivial⟩⟩
  · intro io m hchecked _ hsync
    rw [WriteOp.checked, if_pos (by decide +kernel)] at hchecked
    cases hchecked
    cases hsync
  · intro io m hchecked _ _
    rw [WriteOp.checked, if_pos (by decide +kernel)] at hchecked
    cases hchecked
    -- The one segment is not full, and its stream holds the first record.
    let p := (WriteOp.exec (StorageConfig.effective {})
      (recover (StorageConfig.effective {}) [⟨0, []⟩]).opened
      (.append { flushed := some {}, syncOk := false } 5 [] [1])).1
    have hone : p.segments.length = 1 := by decide +kernel
    have hall : ∀ s ∈ p.segments, s.size = 31 ∧
        s.log ++ s.buffer = encodeRecords s.messages := by decide +kernel
    refine ⟨rfl, fun init active hp => ?_, fun init active hp _ => ?_⟩
    · have hsize := (hall active (by rw [hp]; exact List.mem_concat_self)).1
      rw [hp, List.length_append, List.length_singleton, Nat.add_eq_right,
        List.length_eq_zero_iff] at hone
      subst hone
      rw [closedSegments, if_neg (by rw [rolls, hsize]; decide +kernel)]
      trivial
    · exact (hall active (by rw [hp]; exact List.mem_concat_self)).2

/-- An append whose flush fails after 3 bytes is acknowledged, and so is the one
    behind it. Both records are in the file in the end, behind the 3 bytes, so
    that a restart finds neither. An append behind the bytes of one whose write
    failed is acknowledged, and lost as well. -/
theorem failed_write_loses :
    let run := runWrites (StorageConfig.effective {}) [⟨0, []⟩]
    let found := fun ops =>
      (recover (StorageConfig.effective {}) (logFiles (run ops).partition.segments)).messages
    let unflushed : List WriteOp :=
      [.append { flushed := some { reached := 3 } } 5 [] [1], .append {} 6 [] [2], .flush [none]]
    let unwritten : List WriteOp :=
      [.append { writtenBeforeError := some 10 } 5 [] [1], .append {} 6 [] [2]]
    (¬ ∀ ops, ∀ m ∈ (run ops).acknowledged, m ∈ found ops) ∧
      (run unflushed).acknowledged = [⟨0, 5, [], [1]⟩, ⟨1, 6, [], [2]⟩] ∧ found unflushed = [] ∧
      (run unwritten).acknowledged = [⟨0, 6, [], [2]⟩] ∧ found unwritten = [] := by
  refine ⟨fun h => ?_, by decide +kernel, by decide +kernel, by decide +kernel, by decide +kernel⟩
  have hlost := h [.append { flushed := some { reached := 3 } } 5 [] [1]] ⟨0, 5, [], [1]⟩
  exact absurd (hlost (by decide +kernel)) (by decide +kernel)

end MqBroker
