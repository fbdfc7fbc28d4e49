import MqBroker.Storage.Record

/-!
# The Storage Engine

One partition of the storage engine: a list of segments, each a log file with
its index file and the in-memory copy of its messages, and the operations the
engine performs on it.

A segment owns its two files, so their contents are fields of it. What a
restart finds on disk is then `Partition.files`, the log contents in segment
order, and `recover` rebuilds a partition from nothing else. Segment files are
named by their number in twenty digits, so the scan of the directory, which
sorts by name, hands them over in that order.

`Append` and `AppendReplica` build the same record and share everything after
it, so both are `appendRecord` behind their own checks. The file system can
refuse to create a segment, stop a write after some bytes or fail a sync;
`IoOutcome` says which of these happens to one append, and the partition that
is left behind is the one the source leaves, also on its error returns.

Offsets and timestamps are machine integers, since they are stored in fixed
width and compared after being read back. Sizes and positions are natural
numbers.

## Main definitions

* `StorageConfig`: The configuration the modelled operations read.
* `Segment`, `Partition`: The in-memory state with the files behind it.
* `recordLoop`, `recoverSegment`, `recover`: Replaying log files.
* `appendRecord`: Rolling, writing, indexing and syncing one record.
* `Partition.append`, `Partition.appendReplica`: The two append paths.
* `Partition.cleanupExpiredSegments`: Retention.
* `Partition.read`: Reading messages back.
-/

namespace MqBroker

/-- The part of `StorageConfig` the modelled operations read. The sync policy
    only decides whether a sync is attempted, which `IoOutcome` covers. -/
structure StorageConfig where
  segmentSizeBytes : UInt64 := 64 * 1024 * 1024
  indexInterval : UInt32 := 1000
  retentionMs : UInt64 := 7 * 24 * 60 * 60 * 1000
  retentionBytes : UInt64 := 1024 * 1024 * 1024
deriving DecidableEq, Repr

/-- The engine's constructor replaces zero sizes by their defaults. -/
def StorageConfig.effective (config : StorageConfig) : StorageConfig :=
  { config with
    segmentSizeBytes :=
      if config.segmentSizeBytes = 0 then 64 * 1024 * 1024 else config.segmentSizeBytes
    indexInterval := if config.indexInterval = 0 then 1000 else config.indexInterval }

/-- A segment with the contents of its `.log` and `.index` files. -/
structure Segment where
  number : Nat := 0
  log : Bytes := []
  index : Bytes := []
  messages : List Message := []
  size : Nat := 0
  lastTimestampMs : Int64 := 0
deriving DecidableEq, Repr

/-- A partition: its segments, oldest first, and the next offset to write. -/
structure Partition where
  segments : List Segment := []
  nextOffset : UInt64 := 0
deriving DecidableEq, Repr

/-- A log file as the directory scan hands it to the replay. -/
structure SegmentFile where
  number : Nat
  log : Bytes
deriving DecidableEq, Repr

/-- The log files of a partition, in segment order. -/
def Partition.files (p : Partition) : List SegmentFile :=
  p.segments.map (fun s => ⟨s.number, s.log⟩)

/-- The messages a partition holds, in offset order. -/
def Partition.messages (p : Partition) : List Message :=
  p.segments.flatMap Segment.messages

/-- An index entry: an offset and the position of its record. -/
def indexItem (offset : UInt64) (position : Nat) : Bytes :=
  put64 offset ++ put64 (UInt64.ofNat position)

/-- The bookkeeping for a record of `len` bytes placed at the end of a
    segment, the same in the record loop and in the append paths: an index
    entry at every multiple of the interval, the message in memory, and the
    new size and timestamp. -/
def Segment.push (interval : UInt32) (s : Segment) (m : Message) (len : Nat) : Segment :=
  { s with
    index := if m.offset % interval.toUInt64 = 0 then s.index ++ indexItem m.offset s.size
      else s.index
    messages := s.messages ++ [m]
    size := s.size + len
    lastTimestampMs := m.timestampMs }

/-- A record written to the end of a segment, in its file and in memory. -/
def Segment.write (interval : UInt32) (s : Segment) (m : Message) : Segment :=
  { s.push interval m (encodeRecord m).length with log := s.log ++ encodeRecord m }

/-! ## Recovery -/

/-- The record loop of `Recover` over the unread bytes of one log file. Every
    turn consumes a whole record, so as many turns as there are bytes are
    always enough. -/
def recordLoop (interval : UInt32) : Nat → Bytes → Segment → UInt64 → Segment × UInt64
  | 0, _, s, next => (s, next)
  | fuel + 1, input, s, next =>
      match readRecord next input with
      | none => (s, next)
      | some (msg, len) =>
          recordLoop interval fuel (input.drop len) (s.push interval msg len) (next + 1)

/-- Replay one log file: the index is rebuilt, and the file is cut behind the
    last record that was read. -/
def recoverSegment (config : StorageConfig) (p : Partition) (file : SegmentFile) : Partition :=
  let scanned := recordLoop config.indexInterval (file.log.length + 1) file.log
    { number := file.number } p.nextOffset
  { segments := p.segments ++ [{ scanned.1 with log := file.log.take scanned.1.size }]
    nextOffset := scanned.2 }

/-- `Recover`: replay the log files in order, starting from offset 0. -/
def recover (config : StorageConfig) (files : List SegmentFile) : Partition :=
  files.foldl (recoverSegment config) {}

/-- The partition `GetPartition` opens on an empty directory: one empty
    segment with number 0. -/
def freshPartition (config : StorageConfig) : Partition :=
  recover config [⟨0, []⟩]

/-! ## Appending -/

/-- The errors of the append paths. -/
inductive AppendError
  | invalidMessage
  | replicaOffsetGap
  | cannotCreateSegment
  | walWriteFailed
  | walFsyncFailed
  /-- The partition's directory cannot be created or scanned. -/
  | partitionUnavailable
  /-- `segments.back()` of an empty vector, which is undefined in the source. -/
  | noActiveSegment
deriving DecidableEq, Repr

/-- The texts the append paths report. The text of an unavailable partition
    is the file system's own. -/
def AppendError.text : AppendError → String
  | invalidMessage => "invalid message"
  | replicaOffsetGap => "replica offset gap"
  | cannotCreateSegment => "cannot create WAL segment"
  | walWriteFailed => "WAL write failed"
  | walFsyncFailed => "WAL fsync failed"
  | partitionUnavailable => ""
  | noActiveSegment => ""

/-- How the file system answers the calls of one append. -/
structure IoOutcome where
  /-- A new segment file can be opened. -/
  openOk : Bool := true
  /-- `none` when the whole record is written, otherwise the bytes that were
      written before the write failed. -/
  writtenBeforeError : Option Nat := none
  /-- The sync succeeds, or none is due under the sync policy. -/
  syncOk : Bool := true
deriving DecidableEq, Repr

/-- Whether a record of `len` bytes starts a new segment: only a segment that
    already holds data is rolled. -/
def rolls (config : StorageConfig) (active : Segment) (len : Nat) : Bool :=
  active.size ≠ 0 ∧ active.size + len > config.segmentSizeBytes.toNat

/-- What the two append paths do once the message is checked and its offset
    fixed: roll the segment if needed, write the record, index it, update the
    memory state, and sync. -/
def appendRecord (config : StorageConfig) (io : IoOutcome) (p : Partition) (m : Message) :
    Partition × Option AppendError :=
  match p.segments.getLast? with
  | none => (p, some .noActiveSegment)
  | some active =>
      let record := encodeRecord m
      let roll := rolls config active record.length
      if roll && !io.openOk then (p, some .cannotCreateSegment)
      else
        let closed := if roll then p.segments else p.segments.dropLast
        let current := if roll then { number := active.number + 1 } else active
        match io.writtenBeforeError with
        | some k =>
            ({ p with segments := closed ++ [{ current with log := current.log ++ record.take k }] },
              some .walWriteFailed)
        | none =>
            ({ segments := closed ++ [current.write config.indexInterval m]
               nextOffset := p.nextOffset + 1 },
              if io.syncOk then none else some .walFsyncFailed)

/-- The message `Append` writes: the next offset and the clock reading. -/
def Partition.nextMessage (p : Partition) (now : Int64) (key value : Bytes) : Message :=
  { offset := p.nextOffset, timestampMs := now, key := key, value := value }

/-- `Append`: the partition assigns the offset, and returns the message it
    wrote. -/
def Partition.append (config : StorageConfig) (io : IoOutcome) (now : Int64) (key value : Bytes)
    (p : Partition) : Partition × Except AppendError Message :=
  let next := p.nextMessage now key value
  if ¬ next.Storable then (p, .error .invalidMessage)
  else
    let result := appendRecord config io p next
    (result.1, match result.2 with
      | none => .ok next
      | some e => .error e)

/-- `AppendReplica`: the message brings its offset, which must be the next
    one. -/
def Partition.appendReplica (config : StorageConfig) (io : IoOutcome) (m : Message)
    (p : Partition) : Partition × Option AppendError :=
  if ¬ m.Storable then (p, some .invalidMessage)
  else if m.offset ≠ p.nextOffset then (p, some .replicaOffsetGap)
  else appendRecord config io p m

/-! ## Retention -/

/-- The age test of the cleaner, on 64-bit signed integers. -/
def Segment.expired (config : StorageConfig) (now : Int64) (s : Segment) : Bool :=
  config.retentionMs ≠ 0 ∧ s.lastTimestampMs ≠ 0 ∧
    config.retentionMs.toInt64 ≤ now - s.lastTimestampMs

/-- The size test of the cleaner. -/
def oversized (config : StorageConfig) (total : Nat) : Bool :=
  config.retentionBytes ≠ 0 ∧ total > config.retentionBytes.toNat

/-- The cleaner's loop over one partition: drop the oldest segment while it is
    expired or the rest is too large, but never the last one. -/
def cleanupLoop (config : StorageConfig) (now : Int64) : Nat → List Segment → List Segment
  | total, oldest :: next :: rest =>
      if oldest.expired config now || oversized config total then
        cleanupLoop config now (total - oldest.size) (next :: rest)
      else oldest :: next :: rest
  | _, segments => segments

/-- The bytes a partition holds, summed over its segments. -/
def Partition.totalSize (p : Partition) : Nat := (p.segments.map Segment.size).sum

/-- `CleanupExpiredSegments` on one partition. -/
def Partition.cleanupExpiredSegments (config : StorageConfig) (now : Int64) (p : Partition) :
    Partition :=
  { p with segments := cleanupLoop config now p.totalSize p.segments }

/-! ## Reading -/

/-- The reading loop, with the messages and bytes collected so far. -/
def readLoop (start : UInt64) (maxBytes : Nat) : List Message → List Message → Nat → List Message
  | [], acc, _ => acc
  | item :: rest, acc, bytes =>
      if item.offset < start then readLoop start maxBytes rest acc bytes
      else
        let size := item.key.length + item.value.length
        if !acc.isEmpty && bytes + size > maxBytes then acc
        else if size > maxBytes then acc
        else readLoop start maxBytes rest (acc ++ [item]) (bytes + size)

/-- `Read`: nothing when the start lies behind the end of the log. -/
def Partition.read (start : UInt64) (maxBytes : Nat) (p : Partition) : Option (List Message) :=
  if start > p.nextOffset then none
  else some (readLoop start maxBytes p.messages [] 0)

/-! ## Runs -/

/-- One call on a partition, with no I/O error. -/
inductive StorageOp
  | append (key value : Bytes) (now : Int64)
  | appendReplica (m : Message)
  | cleanup (now : Int64)
deriving DecidableEq, Repr

/-- The partition after a call. A call that fails its checks changes nothing. -/
def StorageOp.exec (config : StorageConfig) (p : Partition) : StorageOp → Partition
  | .append key value now => (p.append config {} now key value).1
  | .appendReplica m => (p.appendReplica config {} m).1
  | .cleanup now => p.cleanupExpiredSegments config now

/-- The partition after a sequence of calls on an empty directory. -/
def runStorage (config : StorageConfig) (ops : List StorageOp) : Partition :=
  ops.foldl (StorageOp.exec config) (freshPartition config)

end MqBroker
