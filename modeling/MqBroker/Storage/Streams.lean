import MqBroker.Storage.Recovery

/-!
# Log Streams

The streams that a partition is written through, with what they hold back.

Each segment has a stream of its own, open for as long as the segment is in
the list. A record is written into the buffer of the stream, and the flush
behind it writes the buffer to the file. When that fails, some bytes may have
reached the file, and the stream keeps its buffer. Nobody looks at the flush of
an append, so the append goes on. The bytes that were held back are written by
the next one that comes to that stream: by `seekp` at the beginning of the next
append, by `Flush`, or when the stream is closed.

What a stream still holds after a failed write is up to the library. One that
holds all of it, as is usual, writes the first bytes twice. So the environment
says both how many bytes have reached the file and how many are no longer held.
A record that is too large for a buffer goes to the file at once. Then the
write itself can fail, and the flush has nothing to do.

With streams that write all they are given, this is the engine that has no
buffers (`appendThrough_opened`).

## Main definitions

* `OpenSegment`, `OpenPartition`: Segments with the buffers of their streams.
* `OpenSegment.drain`: A stream writes its buffer to the file.
* `appendThrough`: Rolling, seeking, writing, flushing and syncing one record.
* `OpenPartition.append`, `OpenPartition.appendReplica`: The append paths.
* `OpenPartition.flush`: `Flush` on one partition.

## Theorems

* `appendThrough_opened`: Without failures of the streams, buffers are no matter.
* `appendThrough_reached`: An append that gets as far as the sync.
* `appendThrough_unreached`: One that does not.
-/

namespace MqBroker

/-- A write of a buffer that fails: the bytes that have reached the file, and
    those that the stream no longer holds. -/
structure PartialWrite where
  reached : Nat := 0
  dropped : Nat := 0
deriving DecidableEq, Repr

/-- A segment with the bytes in the buffer of its stream. The log is what is in
    the file. -/
structure OpenSegment extends Segment where
  buffer : Bytes := []
deriving DecidableEq, Repr

/-- A stream writes its buffer to the end of the file. -/
def OpenSegment.drain (s : OpenSegment) : Option PartialWrite → OpenSegment
  | none => { s with log := s.log ++ s.buffer, buffer := [] }
  | some part =>
      { s with log := s.log ++ s.buffer.take part.reached, buffer := s.buffer.drop part.dropped }

/-- A record is written to a stream, and the memory is updated. -/
def OpenSegment.write (interval : UInt32) (s : OpenSegment) (m : Message) : OpenSegment :=
  { toSegment := s.push interval m (encodeRecord m).length, buffer := s.buffer ++ encodeRecord m }

/-- A partition with its streams. -/
structure OpenPartition where
  segments : List OpenSegment := []
  nextOffset : UInt64 := 0
deriving DecidableEq, Repr

/-- The partition without the streams. -/
def OpenPartition.partition (p : OpenPartition) : Partition :=
  { segments := p.segments.map OpenSegment.toSegment, nextOffset := p.nextOffset }

/-- A partition whose streams have nothing to write, as a recovery opens it. -/
def Partition.opened (p : Partition) : OpenPartition :=
  { segments := p.segments.map fun s => { toSegment := s }, nextOffset := p.nextOffset }

/-- How the file system answers one append, with its streams. -/
structure WriteOutcome extends IoOutcome where
  /-- What `seekp` comes to when it writes the buffer: `none` when it succeeds. -/
  sought : Option PartialWrite := none
  /-- What `flush` comes to. -/
  flushed : Option PartialWrite := none
deriving DecidableEq, Repr

/-- What the two append paths do once the message is checked and its offset
    fixed. Behind a `seekp` that has failed, the stream does not write. -/
def appendThrough (config : StorageConfig) (io : WriteOutcome) (p : OpenPartition) (m : Message) :
    OpenPartition × Option AppendError :=
  match p.segments.getLast? with
  | none => (p, some .noActiveSegment)
  | some active =>
      let record := encodeRecord m
      let roll := rolls config active.toSegment record.length
      if roll && !io.openOk then (p, some .cannotCreateSegment)
      else
        let closed := if roll then p.segments else p.segments.dropLast
        let current : OpenSegment := if roll then { number := active.number + 1 } else active
        let sought := current.drain io.sought
        match io.sought, io.writtenBeforeError with
        | some _, _ => ({ p with segments := closed ++ [sought] }, some .walWriteFailed)
        | none, some k =>
            ({ p with segments := closed ++ [{ sought with log := sought.log ++ record.take k }] },
              some .walWriteFailed)
        | none, none =>
            ({ segments := closed ++ [(sought.write config.indexInterval m).drain io.flushed]
               nextOffset := p.nextOffset + 1 },
              if io.syncOk then none else some .walFsyncFailed)

namespace OpenPartition

/-- `Append`. -/
def append (config : StorageConfig) (io : WriteOutcome) (now : Int64) (key value : Bytes)
    (p : OpenPartition) : OpenPartition × Except AppendError Message :=
  let next := p.partition.nextMessage now key value
  if ¬ next.Storable then (p, .error .invalidMessage)
  else
    let result := appendThrough config io p next
    (result.1, match result.2 with
      | none => .ok next
      | some e => .error e)

/-- `AppendReplica`. -/
def appendReplica (config : StorageConfig) (io : WriteOutcome) (m : Message)
    (p : OpenPartition) : OpenPartition × Option AppendError :=
  if ¬ m.Storable then (p, some .invalidMessage)
  else if m.offset ≠ p.nextOffset then (p, some .replicaOffsetGap)
  else appendThrough config io p m

end OpenPartition

/-- The loop of `Flush` over the segments of one partition. It returns where a
    stream or a sync fails, so it may have come to the first streams only. When
    the engine is closed, its streams do the same. -/
def flushSegments : List OpenSegment → List (Option PartialWrite) → List OpenSegment
  | s :: segments, flushed :: others => s.drain flushed :: flushSegments segments others
  | segments, _ => segments

/-- `Flush` on one partition. -/
def OpenPartition.flush (flushed : List (Option PartialWrite)) (p : OpenPartition) :
    OpenPartition :=
  { p with segments := flushSegments p.segments flushed }

/-! ## Streams -/

@[simp] theorem drain_messages (s : OpenSegment) (flushed : Option PartialWrite) :
    (s.drain flushed).messages = s.messages := by
  cases flushed <;> rfl

@[simp] theorem drain_number (s : OpenSegment) (flushed : Option PartialWrite) :
    (s.drain flushed).number = s.number := by
  cases flushed <;> rfl

/-- A file only grows at its end. -/
theorem drain_log (s : OpenSegment) (flushed : Option PartialWrite) :
    s.log <+: (s.drain flushed).log := by
  cases flushed <;> exact List.prefix_append _ _

/-- A stream that holds nothing back has nothing to write. -/
theorem drain_empty {s : OpenSegment} (h : s.buffer = []) (flushed : Option PartialWrite) :
    s.drain flushed = s := by
  rcases s with ⟨s, buffer⟩
  simp only at h
  subst h
  cases flushed <;> simp only [OpenSegment.drain, List.take_nil, List.drop_nil, List.append_nil]

theorem flushSegments_messages (segments : List OpenSegment)
    (flushed : List (Option PartialWrite)) :
    (flushSegments segments flushed).flatMap (fun s => s.messages)
      = segments.flatMap (fun s => s.messages) := by
  induction segments generalizing flushed with
  | nil => cases flushed <;> rfl
  | cons s segments ih =>
      cases flushed with
      | nil => rfl
      | cons f others => rw [flushSegments, List.flatMap_cons, List.flatMap_cons, ih, drain_messages]

/-- Streams that hold nothing back are passed over. -/
theorem flushSegments_append {init : List OpenSegment} (h : ∀ s ∈ init, s.buffer = [])
    (segments : List OpenSegment) (flushed : List (Option PartialWrite)) :
    flushSegments (init ++ segments) flushed
      = init ++ flushSegments segments (flushed.drop init.length) := by
  induction init generalizing flushed with
  | nil => rfl
  | cons s init ih =>
      cases flushed with
      | nil => cases segments <;> rfl
      | cons f others =>
          rw [List.cons_append, flushSegments, drain_empty (h s List.mem_cons_self),
            ih (fun t ht => h t (List.mem_cons_of_mem s ht))]
          rfl

/-! ## One append -/

/-- As long as the streams write all they are given, an append is the one of the
    engine without buffers. -/
theorem appendThrough_opened (config : StorageConfig) {io : WriteOutcome} (p : Partition)
    (m : Message) (hsought : io.sought = none) (hflushed : io.flushed = none) :
    appendThrough config io p.opened m
      = ((appendRecord config io.toIoOutcome p m).1.opened,
          (appendRecord config io.toIoOutcome p m).2) := by
  rcases List.eq_nil_or_concat p.segments with hp | ⟨init, active, hp⟩
  · simp only [appendThrough, appendRecord, Partition.opened, hp, List.map_nil, List.getLast?_nil]
  · rw [List.concat_eq_append] at hp
    simp only [appendThrough, appendRecord, Partition.opened, hp, hsought, hflushed, List.map_append,
      List.map_singleton, List.getLast?_concat, List.dropLast_concat]
    cases hroll : rolls config active (encodeRecord m).length <;> cases io.openOk <;>
      cases io.writtenBeforeError <;>
      simp [OpenSegment.drain, OpenSegment.write, Segment.write, Segment.push, hp]

/-- An append of a message gets as far as the sync: there is an active segment,
    a new one is created if needed, the seek writes what the stream has held
    back, and the record is written. -/
def OpenPartition.reachesSync (config : StorageConfig) (io : WriteOutcome) (m : Message)
    (p : OpenPartition) : Bool :=
  match p.segments.getLast? with
  | none => false
  | some active =>
      (!rolls config active.toSegment (encodeRecord m).length || io.openOk) &&
        io.sought.isNone && io.writtenBeforeError.isNone

/-- The segments an append of a message no longer writes to. -/
def closedSegments (config : StorageConfig) (init : List OpenSegment) (active : OpenSegment)
    (m : Message) : List OpenSegment :=
  if rolls config active.toSegment (encodeRecord m).length then init ++ [active] else init

/-- The segment it writes to, behind a seek that succeeds. -/
def writtenSegment (config : StorageConfig) (active : OpenSegment) (m : Message) : OpenSegment :=
  if rolls config active.toSegment (encodeRecord m).length then { number := active.number + 1 }
  else active.drain none

/-- An append that gets as far as the sync: the memory has the message, the
    file and the stream have what the flush makes of the record. -/
theorem appendThrough_reached {config : StorageConfig} {io : WriteOutcome} {p : OpenPartition}
    {m : Message} (h : p.reachesSync config io m = true) :
    ∃ init active, p.segments = init ++ [active] ∧
      appendThrough config io p m
        = ({ segments := closedSegments config init active m ++
              [((writtenSegment config active m).write config.indexInterval m).drain io.flushed]
             nextOffset := p.nextOffset + 1 },
            if io.syncOk then none else some .walFsyncFailed) := by
  rcases List.eq_nil_or_concat p.segments with hp | ⟨init, active, hp⟩
  · simp only [OpenPartition.reachesSync, hp, List.getLast?_nil, Bool.false_eq_true] at h
  · rw [List.concat_eq_append] at hp
    simp only [OpenPartition.reachesSync, hp, List.getLast?_concat, Bool.and_eq_true,
      Option.isNone_iff_eq_none] at h
    rcases h with ⟨⟨hopen, hsought⟩, hwrite⟩
    refine ⟨init, active, hp, ?_⟩
    simp only [appendThrough, hp, List.getLast?_concat, List.dropLast_concat, closedSegments,
      writtenSegment, hsought, hwrite]
    cases hroll : rolls config active.toSegment (encodeRecord m).length with
    | false => simp only [Bool.false_and, Bool.false_eq_true, if_false]
    | true =>
        rw [hroll, Bool.not_true, Bool.false_or] at hopen
        simp only [hopen, Bool.not_true, Bool.and_false, Bool.false_eq_true, if_false, if_true]
        rw [drain_empty (s := { number := active.number + 1 }) rfl]

/-- One that does not fails, with the memory as it was. At most a segment is
    added, or the file of the active segment grows. -/
theorem appendThrough_unreached {config : StorageConfig} {io : WriteOutcome} {p : OpenPartition}
    {m : Message} (h : p.reachesSync config io m = false) :
    (appendThrough config io p m).1.nextOffset = p.nextOffset ∧
      (∃ e, (appendThrough config io p m).2 = some e) ∧
      ((appendThrough config io p m).1.segments = p.segments ∨
        (∃ new, new.messages = [] ∧
          (appendThrough config io p m).1.segments = p.segments ++ [new]) ∨
        ∃ init active active', p.segments = init ++ [active] ∧
          (appendThrough config io p m).1.segments = init ++ [active'] ∧
          active'.number = active.number ∧ active'.messages = active.messages ∧
          active.log <+: active'.log) := by
  rcases List.eq_nil_or_concat p.segments with hp | ⟨init, active, hp⟩
  · simp only [appendThrough, hp, List.getLast?_nil]
    exact ⟨trivial, ⟨_, rfl⟩, Or.inl trivial⟩
  · rw [List.concat_eq_append] at hp
    simp only [OpenPartition.reachesSync, hp, List.getLast?_concat] at h
    simp only [appendThrough, hp, List.getLast?_concat, List.dropLast_concat]
    cases hroll : rolls config active.toSegment (encodeRecord m).length with
    | false =>
        simp only [hroll, Bool.not_false, Bool.true_or, Bool.true_and] at h
        simp only [Bool.false_and, Bool.false_eq_true, if_false]
        -- Either the seek fails or the write does.
        cases hsought : io.sought with
        | some part =>
            exact ⟨rfl, ⟨_, rfl⟩, Or.inr (Or.inr ⟨init, active, _, rfl, rfl, rfl, rfl,
              List.prefix_append _ _⟩)⟩
        | none =>
            cases hwrite : io.writtenBeforeError with
            | none =>
                rw [hsought, hwrite] at h
                cases h
            | some k =>
                refine ⟨rfl, ⟨_, rfl⟩, Or.inr (Or.inr ⟨init, active, _, rfl, rfl, rfl, rfl, ?_⟩)⟩
                exact (drain_log active none).trans (List.prefix_append _ _)
    | true =>
        simp only [hroll, Bool.not_true, Bool.false_or] at h
        cases hopen : io.openOk with
        | false =>
            simp only [Bool.not_false, Bool.and_self, if_true]
            exact ⟨trivial, ⟨_, rfl⟩, Or.inl hp⟩
        | true =>
            simp only [Bool.not_true, Bool.and_false, Bool.false_eq_true, if_false, if_true]
            cases hsought : io.sought with
            | some part => exact ⟨rfl, ⟨_, rfl⟩, Or.inr (Or.inl ⟨_, rfl, rfl⟩)⟩
            | none =>
                cases hwrite : io.writtenBeforeError with
                | none =>
                    rw [hopen, hsought, hwrite] at h
                    cases h
                | some k => exact ⟨rfl, ⟨_, rfl⟩, Or.inr (Or.inl ⟨_, rfl, rfl⟩)⟩

end MqBroker
