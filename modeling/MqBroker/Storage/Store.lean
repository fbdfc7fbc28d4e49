import MqBroker.Core.Topic
import MqBroker.Lib.Fitting
import MqBroker.Lib.Table
import MqBroker.Storage.Recovery

/-!
# The Store

All partitions of one storage engine, addressed by topic and number.

`GetPartition` opens a partition on first use, by a recovery of its directory.
A partition that is not in the table is one whose directory holds no log file,
so that it opens as the fresh one. Opening can fail for reasons outside of the
engine, and then the operation that needed the partition fails with no effect.

The loop of a read has two exits for lack of room, one for the first message
and one for the others. They are one condition: the bytes collected are none as
long as no message is, so a first message is too large exactly if it is too
large on top of them. Messages in front of the start are passed over wherever
they are.

An append either stores its message or leaves the messages of every partition
as they were. The two do not go with the two results it can report: an append
whose sync fails has stored its message and reports an error.

## Main definitions

* `StorageEngine`: The partitions of all topics.
* `StorageEngine.append`, `appendReplica`, `read`, `nextOffset`: Its calls.
* `Message.payload`: The bytes of a message that count.
* `Extended`: One log has grown, the others have not.
* `StorageEngine.Counted`: Offsets are positions.

## Theorems

* `store_append_cases`: `Append` stores its message or changes no message.
* `store_appendReplica_cases`: So does `AppendReplica`.
* `readLoop_fitting`: The loop of a read takes what fits.
* `readLoop_piece`: What is read is one piece of the log.
* `Extended.counted`: Growing by the next offsets keeps offsets positions.
-/

namespace MqBroker

/-- A storage engine: its effective configuration and its partitions. -/
structure StorageEngine where
  config : StorageConfig
  partitions : Table (Bytes × UInt32) Partition := ∅

/-- How the file system answers one call of the engine. -/
structure StoreIo where
  /-- The partition can be opened. -/
  partitionOk : Bool := true
  io : IoOutcome := {}
deriving DecidableEq, Repr

/-- Why a read fails. -/
inductive ReadError
  | invalidRequest
  | partitionUnavailable
  | invalidOffset
deriving DecidableEq, Repr

namespace StorageEngine

variable (e : StorageEngine)

/-- `GetPartition`, when it succeeds. -/
def partition (topic : Bytes) (number : UInt32) : Partition :=
  (e.partitions.lookup (topic, number)).getD (freshPartition e.config)

/-- The engine with one partition replaced. -/
def put (topic : Bytes) (number : UInt32) (p : Partition) : StorageEngine :=
  { e with partitions := e.partitions.insert (topic, number) p }

/-- `Append`. -/
def append (io : StoreIo) (now : Int64) (topic : Bytes) (number : UInt32) (key value : Bytes) :
    StorageEngine × Except AppendError Message :=
  let p := e.partition topic number
  if ¬ isValidTopicName topic ∨ ¬ (p.nextMessage now key value).Storable then
    (e, .error .invalidMessage)
  else if ¬ io.partitionOk then (e, .error .partitionUnavailable)
  else
    let result := p.append e.config io.io now key value
    (e.put topic number result.1, result.2)

/-- `AppendReplica`. -/
def appendReplica (io : StoreIo) (topic : Bytes) (number : UInt32) (m : Message) :
    StorageEngine × Option AppendError :=
  if ¬ isValidTopicName topic ∨ ¬ m.Storable then (e, some .invalidMessage)
  else if ¬ io.partitionOk then (e, some .partitionUnavailable)
  else
    let result := (e.partition topic number).appendReplica e.config io.io m
    (e.put topic number result.1, result.2)

/-- `Read`. -/
def read (partitionOk : Bool) (topic : Bytes) (number : UInt32) (start : UInt64)
    (maxBytes : UInt32) : Except ReadError (List Message) :=
  if ¬ isValidTopicName topic ∨ maxBytes = 0 then .error .invalidRequest
  else if ¬ partitionOk then .error .partitionUnavailable
  else
    match (e.partition topic number).read start maxBytes.toNat with
    | none => .error .invalidOffset
    | some messages => .ok messages

/-- `NextOffset`. -/
def nextOffset (partitionOk : Bool) (topic : Bytes) (number : UInt32) : Option UInt64 :=
  if ¬ isValidTopicName topic ∨ ¬ partitionOk then none
  else some (e.partition topic number).nextOffset

end StorageEngine

section Put

variable (e : StorageEngine) (topic : Bytes) (number : UInt32) (p : Partition)

@[simp] theorem put_config : (e.put topic number p).config = e.config := rfl

@[simp] theorem put_partition_self : (e.put topic number p).partition topic number = p := by
  rw [StorageEngine.partition, StorageEngine.put, AList.lookup_insert, Option.getD_some]

theorem put_partition_ne (t : Bytes) (n : UInt32) (h : (t, n) ≠ (topic, number)) :
    (e.put topic number p).partition t n = e.partition t n := by
  rw [StorageEngine.partition, StorageEngine.put, AList.lookup_insert_ne h,
    StorageEngine.partition]

end Put

/-- Between two engines one message was added to one partition, and every
    other partition is the same. -/
structure Stored (e e' : StorageEngine) (topic : Bytes) (number : UInt32) (m : Message) :
    Prop where
  messages : (e'.partition topic number).messages = (e.partition topic number).messages ++ [m]
  nextOffset : (e'.partition topic number).nextOffset = (e.partition topic number).nextOffset + 1
  opened : (e.partition topic number).segments ≠ [] → (e'.partition topic number).segments ≠ []
  others : ∀ t n, (t, n) ≠ (topic, number) → e'.partition t n = e.partition t n

/-- Between two engines no message was added, no offset used, and no active
    segment lost. -/
def SameMessages (e e' : StorageEngine) : Prop :=
  ∀ t n, (e'.partition t n).messages = (e.partition t n).messages ∧
    (e'.partition t n).nextOffset = (e.partition t n).nextOffset ∧
    ((e.partition t n).segments ≠ [] → (e'.partition t n).segments ≠ [])

theorem SameMessages.refl (e : StorageEngine) : SameMessages e e := fun _ _ => ⟨rfl, rfl, id⟩

theorem sameMessages_put {e : StorageEngine} {topic : Bytes} {number : UInt32} {p : Partition}
    (hmessages : p.messages = (e.partition topic number).messages)
    (hnext : p.nextOffset = (e.partition topic number).nextOffset)
    (hopened : (e.partition topic number).segments ≠ [] → p.segments ≠ []) :
    SameMessages e (e.put topic number p) := by
  intro t n
  by_cases h : (t, n) = (topic, number)
  · rcases Prod.mk.inj h with ⟨rfl, rfl⟩
    rw [put_partition_self]
    exact ⟨hmessages, hnext, hopened⟩
  · rw [put_partition_ne e topic number p t n h]
    exact ⟨rfl, rfl, id⟩

/-- `Append` stores its message, and then succeeds unless the sync fails, or
    it changes no message and fails. -/
theorem store_append_cases (e : StorageEngine) (io : StoreIo) (now : Int64) (topic : Bytes)
    (number : UInt32) (key value : Bytes) :
    (Stored e (e.append io now topic number key value).1 topic number
        ((e.partition topic number).nextMessage now key value) ∧
      (e.append io now topic number key value).2
        = if io.io.syncOk then .ok ((e.partition topic number).nextMessage now key value)
          else .error .walFsyncFailed) ∨
    (SameMessages e (e.append io now topic number key value).1 ∧
      ∃ err, (e.append io now topic number key value).2 = .error err) := by
  simp only [StorageEngine.append]
  by_cases hvalid : ¬ isValidTopicName topic ∨
      ¬ ((e.partition topic number).nextMessage now key value).Storable
  · rw [if_pos hvalid]
    exact Or.inr ⟨.refl e, _, rfl⟩
  · have hstorable := not_not.mp (not_or.mp hvalid).2
    rw [if_neg hvalid]
    by_cases hopen : ¬ io.partitionOk = true
    · rw [if_pos hopen]
      exact Or.inr ⟨.refl e, _, rfl⟩
    · rw [if_neg hopen]
      simp only [Partition.append, if_neg (not_not.mpr hstorable)]
      rcases appendRecord_cases e.config io.io (e.partition topic number)
        ((e.partition topic number).nextMessage now key value) with
        ⟨hmessages, hnext, hresult⟩ | ⟨hmessages, hnext, err, hresult⟩
      · left
        refine ⟨⟨?_, ?_, ?_, ?_⟩, ?_⟩
        · rw [put_partition_self, hmessages]
        · rw [put_partition_self, hnext]
        · rw [put_partition_self]
          exact appendRecord_segments_ne _ _ _ _
        · exact fun t n h => put_partition_ne e topic number _ t n h
        · rw [hresult]
          cases io.io.syncOk <;> rfl
      · right
        refine ⟨sameMessages_put hmessages hnext (appendRecord_segments_ne _ _ _ _), err, ?_⟩
        rw [hresult]

/-- `AppendReplica` stores a message that has the next offset, and then
    succeeds unless the sync fails, or it changes no message and fails. -/
theorem store_appendReplica_cases (e : StorageEngine) (io : StoreIo) (topic : Bytes)
    (number : UInt32) (m : Message) :
    (Stored e (e.appendReplica io topic number m).1 topic number m ∧
      m.offset = (e.partition topic number).nextOffset ∧ m.Storable ∧
      (e.appendReplica io topic number m).2
        = if io.io.syncOk then none else some .walFsyncFailed) ∨
    (SameMessages e (e.appendReplica io topic number m).1 ∧
      ∃ err, (e.appendReplica io topic number m).2 = some err) := by
  simp only [StorageEngine.appendReplica]
  by_cases hvalid : ¬ isValidTopicName topic ∨ ¬ m.Storable
  · rw [if_pos hvalid]
    exact Or.inr ⟨.refl e, _, rfl⟩
  · have hstorable := not_not.mp (not_or.mp hvalid).2
    rw [if_neg hvalid]
    by_cases hopen : ¬ io.partitionOk = true
    · rw [if_pos hopen]
      exact Or.inr ⟨.refl e, _, rfl⟩
    · rw [if_neg hopen]
      simp only [Partition.appendReplica, if_neg (not_not.mpr hstorable)]
      by_cases hoffset : m.offset ≠ (e.partition topic number).nextOffset
      · rw [if_pos hoffset]
        exact Or.inr ⟨sameMessages_put rfl rfl id, _, rfl⟩
      · rw [if_neg hoffset]
        rcases appendRecord_cases e.config io.io (e.partition topic number) m with
          ⟨hmessages, hnext, hresult⟩ | ⟨hmessages, hnext, err, hresult⟩
        · left
          refine ⟨⟨?_, ?_, ?_, ?_⟩, not_not.mp hoffset, hstorable, hresult⟩
          · rw [put_partition_self, hmessages]
          · rw [put_partition_self, hnext]
          · rw [put_partition_self]
            exact appendRecord_segments_ne _ _ _ _
          · exact fun t n h => put_partition_ne e topic number _ t n h
        · exact Or.inr ⟨sameMessages_put hmessages hnext (appendRecord_segments_ne _ _ _ _), err,
            hresult⟩

/-- If the file system does its part, a message that passes the checks is
    stored. -/
theorem store_append_ok (e : StorageEngine) (now : Int64) (topic : Bytes) {number : UInt32}
    {key value : Bytes} (htopic : isValidTopicName topic = true)
    (hstorable : ((e.partition topic number).nextMessage now key value).Storable)
    (hopen : (e.partition topic number).segments ≠ []) :
    Stored e (e.append {} now topic number key value).1 topic number
        ((e.partition topic number).nextMessage now key value) ∧
      (e.append {} now topic number key value).2
        = .ok ((e.partition topic number).nextMessage now key value) := by
  rcases store_append_cases e {} now topic number key value with hstored | ⟨_, err, herr⟩
  · exact hstored
  · have hvalid : ¬ (¬ isValidTopicName topic = true ∨
        ¬ ((e.partition topic number).nextMessage now key value).Storable) :=
      fun h => h.elim (absurd htopic) (absurd hstorable)
    rcases appendRecord_ok e.config (e.partition topic number)
      ((e.partition topic number).nextMessage now key value) hopen with ⟨_, _, hresult⟩
    simp only [StorageEngine.append, if_neg hvalid, not_true_eq_false, if_false, Partition.append,
      if_neg (not_not.mpr hstorable), hresult] at herr
    cases herr

/-- So is a message of another log that has the next offset. -/
theorem store_appendReplica_ok (e : StorageEngine) (topic : Bytes) (number : UInt32) {m : Message}
    (htopic : isValidTopicName topic = true) (hstorable : m.Storable)
    (hnext : m.offset = (e.partition topic number).nextOffset)
    (hopen : (e.partition topic number).segments ≠ []) :
    Stored e (e.appendReplica {} topic number m).1 topic number m := by
  rcases store_appendReplica_cases e {} topic number m with ⟨hstored, _⟩ | ⟨_, err, herr⟩
  · exact hstored
  · have hvalid : ¬ (¬ isValidTopicName topic = true ∨ ¬ m.Storable) :=
      fun h => h.elim (absurd htopic) (absurd hstorable)
    rcases appendRecord_ok e.config (e.partition topic number) m hopen with ⟨_, _, hresult⟩
    simp only [StorageEngine.appendReplica, if_neg hvalid, not_true_eq_false, if_false,
      Partition.appendReplica, if_neg (not_not.mpr hstorable), if_neg (not_not.mpr hnext),
      hresult] at herr
    cases herr

/-! ## Growing logs -/

/-- Between two engines some messages were added to one partition, and no
    messages to any other. -/
structure Extended (e e' : StorageEngine) (topic : Bytes) (number : UInt32) (ms : List Message) :
    Prop where
  messages : (e'.partition topic number).messages = (e.partition topic number).messages ++ ms
  nextOffset : (e'.partition topic number).nextOffset
    = (e.partition topic number).nextOffset + UInt64.ofNat ms.length
  others : ∀ t n, (t, n) ≠ (topic, number) →
    (e'.partition t n).messages = (e.partition t n).messages ∧
      (e'.partition t n).nextOffset = (e.partition t n).nextOffset
  opened : ∀ t n, (e.partition t n).segments ≠ [] → (e'.partition t n).segments ≠ []

section Extended

variable {e e' e'' : StorageEngine} {topic : Bytes} {number : UInt32}

theorem SameMessages.extended (h : SameMessages e e') (topic : Bytes) (number : UInt32) :
    Extended e e' topic number [] := by
  refine ⟨?_, ?_, fun t n _ => ⟨(h t n).1, (h t n).2.1⟩, fun t n => (h t n).2.2⟩
  · rw [(h topic number).1, List.append_nil]
  · rw [(h topic number).2.1]
    exact (UInt64.add_zero _).symm

theorem Stored.extended {m : Message} (h : Stored e e' topic number m) :
    Extended e e' topic number [m] := by
  refine ⟨h.messages, h.nextOffset, ?_, ?_⟩
  · intro t n hne
    rw [h.others t n hne]
    exact ⟨rfl, rfl⟩
  · intro t n
    by_cases hplace : (t, n) = (topic, number)
    · rcases Prod.mk.inj hplace with ⟨rfl, rfl⟩
      exact h.opened
    · rw [h.others t n hplace]
      exact id

theorem Extended.trans {ms ms' : List Message} (h : Extended e e' topic number ms)
    (h' : Extended e' e'' topic number ms') : Extended e e'' topic number (ms ++ ms') := by
  refine ⟨?_, ?_, ?_, fun t n hopen => h'.opened t n (h.opened t n hopen)⟩
  · rw [h'.messages, h.messages, List.append_assoc]
  · rw [h'.nextOffset, h.nextOffset, List.length_append, UInt64.ofNat_add, UInt64.add_assoc]
  · intro t n hne
    rw [(h'.others t n hne).1, (h'.others t n hne).2]
    exact h.others t n hne

/-- Every log of the old engine is the beginning of the new one's. -/
theorem Extended.isPrefix {ms : List Message} (h : Extended e e' topic number ms) (t : Bytes)
    (n : UInt32) : (e.partition t n).messages <+: (e'.partition t n).messages := by
  by_cases hplace : (t, n) = (topic, number)
  · rcases Prod.mk.inj hplace with ⟨rfl, rfl⟩
    rw [h.messages]
    exact List.prefix_append _ _
  · rw [(h.others t n hplace).1]

/-- No log grows by more messages than were added. -/
theorem Extended.length_le {ms : List Message} (h : Extended e e' topic number ms) (t : Bytes)
    (n : UInt32) :
    (e'.partition t n).messages.length ≤ (e.partition t n).messages.length + ms.length := by
  by_cases hplace : (t, n) = (topic, number)
  · rcases Prod.mk.inj hplace with ⟨rfl, rfl⟩
    rw [h.messages, List.length_append]
  · rw [(h.others t n hplace).1]
    exact Nat.le_add_right _ _

end Extended

/-! ## Reading -/

/-- What is read is what the loop collects. -/
theorem read_ok {e : StorageEngine} {partitionOk : Bool} {topic : Bytes} {number : UInt32}
    {start : UInt64} {maxBytes : UInt32} {messages : List Message}
    (h : e.read partitionOk topic number start maxBytes = .ok messages) :
    messages = readLoop start maxBytes.toNat (e.partition topic number).messages [] 0 := by
  simp only [StorageEngine.read, Partition.read] at h
  split at h
  · cases h
  · split at h
    · cases h
    · split at h
      · cases h
      · rename_i read hloop
        split at hloop
        · cases hloop
        · rw [← Except.ok.inj h, ← Option.some.inj hloop]

/-- The bytes of a message that count against the limit of a read. -/
def Message.payload (m : Message) : Nat := m.key.length + m.value.length

/-- The loop takes what fits of the messages from the start on. -/
theorem readLoop_fitting (start : UInt64) (maxBytes : Nat) (l acc : List Message) (bytes : Nat)
    (hbytes : bytes ≤ maxBytes) (hempty : acc = [] → bytes = 0) :
    readLoop start maxBytes l acc bytes
      = acc ++ fitting Message.payload (maxBytes - bytes)
          (l.filter (fun m => start ≤ m.offset)) := by
  induction l generalizing acc bytes with
  | nil => exact (List.append_nil acc).symm
  | cons item rest ih =>
      simp only [readLoop]
      by_cases hskip : item.offset < start
      · rw [if_pos hskip, ih acc bytes hbytes hempty, List.filter_cons_of_neg]
        exact fun h => not_le.mpr hskip (of_decide_eq_true h)
      · have htake : (item :: rest).filter (fun m => start ≤ m.offset)
            = item :: rest.filter (fun m => start ≤ m.offset) :=
          List.filter_cons_of_pos (decide_eq_true (not_lt.mp hskip))
        rw [if_neg hskip, htake, fitting]
        by_cases hroom : item.payload ≤ maxBytes - bytes
        · -- There is room, and neither of the two exits is taken.
          have hlarge : ¬ (!acc.isEmpty && decide (bytes + (item.key.length + item.value.length)
              > maxBytes)) = true := by
            rw [Message.payload] at hroom
            rw [Bool.and_eq_true, decide_eq_true_eq]
            omega
          rw [Message.payload] at hroom
          rw [if_neg hlarge, if_neg (by omega), if_pos (by rw [Message.payload]; exact hroom),
            ih _ _ (by omega) (fun h => absurd h (List.append_ne_nil_of_right_ne_nil _
              (List.cons_ne_nil _ _))), List.append_assoc, List.singleton_append, Message.payload,
            Nat.sub_add_eq]
        · rw [if_neg hroom, List.append_nil]
          rw [Message.payload] at hroom
          cases acc with
          | nil =>
              rw [hempty rfl] at hroom ⊢
              rw [if_neg (by simp only [List.isEmpty_nil, Bool.not_true, Bool.false_and,
                Bool.false_eq_true, not_false_eq_true]), if_pos (by omega)]
          | cons first taken =>
              rw [if_pos]
              simp only [List.isEmpty_cons, Bool.not_false, Bool.true_and, decide_eq_true_eq]
              omega

/-- Where nothing is collected yet, the room is all there is. -/
theorem readLoop_start (start : UInt64) (maxBytes : Nat) (l : List Message) :
    readLoop start maxBytes l [] 0
      = fitting Message.payload maxBytes (l.filter (fun m => start ≤ m.offset)) :=
  readLoop_fitting start maxBytes l [] 0 (Nat.zero_le _) fun _ => rfl

theorem readLoop_mem {start : UInt64} {maxBytes : Nat} {l : List Message} {m : Message}
    (h : m ∈ readLoop start maxBytes l [] 0) : m ∈ l := by
  rw [readLoop_start] at h
  exact List.mem_of_mem_filter ((fitting_initial _ _ _).subset h)

/-- The first message that is read is the first from the start on, if it is not
    too large. -/
theorem readLoop_head (start : UInt64) (maxBytes : Nat) (l : List Message) :
    (readLoop start maxBytes l [] 0).head?
      = (l.find? (fun m => start ≤ m.offset)).filter
          (fun m => m.key.length + m.value.length ≤ maxBytes) := by
  rw [readLoop_start, head?_fitting, List.head?_filter]
  rfl

/-- The messages of a numbered log from an offset on. -/
theorem numbered_filter (first start : UInt64) (l : List Message) (h : Numbered first l)
    (hwrap : first.toNat + l.length ≤ 2 ^ 64) :
    l.filter (fun m => start ≤ m.offset) = l.drop (start.toNat - first.toNat) := by
  induction l generalizing first with
  | nil => rw [List.filter_nil, List.drop_nil]
  | cons item rest ih =>
      rw [List.length_cons] at hwrap
      have hrest : rest.filter (fun m => start ≤ m.offset)
          = rest.drop (start.toNat - (first.toNat + 1)) := by
        rcases List.eq_nil_or_concat rest with rfl | ⟨_, _, hcons⟩
        · rw [List.filter_nil, List.drop_nil]
        · -- There is a next offset, so it has not wrapped around.
          have hpos : 0 < rest.length := by
            rw [hcons, List.length_concat]
            omega
          have hnext : (first + 1).toNat = first.toNat + 1 := by
            rw [UInt64.toNat_add, show (1 : UInt64).toNat = 1 from rfl]
            exact Nat.mod_eq_of_lt (by omega)
          rw [ih (first + 1) h.2 (by omega), hnext]
      by_cases hle : start ≤ item.offset
      · have hle' := UInt64.le_iff_toNat_le.mp hle
        rw [h.1] at hle'
        rw [List.filter_cons_of_pos (by rw [decide_eq_true_eq]; exact hle), hrest,
          show start.toNat - (first.toNat + 1) = 0 by omega,
          show start.toNat - first.toNat = 0 by omega, List.drop_zero, List.drop_zero]
      · have hlt : first.toNat < start.toNat := by
          rw [h.1, UInt64.le_iff_toNat_le] at hle
          omega
        rw [List.filter_cons_of_neg (by rw [decide_eq_true_eq]; exact hle), hrest,
          show start.toNat - first.toNat = start.toNat - (first.toNat + 1) + 1 by omega,
          List.drop_succ_cons]

/-- What is read from a log is a part of it in one piece. -/
theorem readLoop_piece (start first : UInt64) (maxBytes : Nat) (l : List Message)
    (h : Numbered first l) (hwrap : first.toNat + l.length ≤ 2 ^ 64) :
    ∃ front, front ++ readLoop start maxBytes l [] 0 <+: l := by
  rw [readLoop_start, numbered_filter first start l h hwrap]
  rcases fitting_initial Message.payload maxBytes (l.drop (start.toNat - first.toNat)) with
    ⟨rest, hrest⟩
  refine ⟨l.take (start.toNat - first.toNat), rest, ?_⟩
  rw [List.append_assoc, hrest, List.take_append_drop]

/-! ## Offsets are positions -/

/-- What holds of every log, also one with failed writes behind it: messages
    that are numbered from 0, the count as the next offset, and an active
    segment to write to. -/
structure Partition.Counted (p : Partition) : Prop where
  numbered : Numbered 0 p.messages
  next : p.nextOffset = UInt64.ofNat p.messages.length
  opened : p.segments ≠ []

/-- It holds after a recovery, whatever is in the log files. -/
theorem counted_recover (config : StorageConfig) (files : List SegmentFile) (hne : files ≠ []) :
    (recover config files).Counted := by
  rcases recover_numbered config files with ⟨hnumbered, hnext, hlength⟩
  refine ⟨hnumbered, hnext, ?_⟩
  rw [← List.length_pos_iff_ne_nil, hlength]
  exact List.length_pos_iff_ne_nil.mpr hne

theorem counted_fresh (config : StorageConfig) : (freshPartition config).Counted :=
  counted_recover config _ (List.cons_ne_nil _ [])

/-- The offset of a message is the number of messages in front of it. -/
theorem Partition.Counted.offset {p : Partition} (h : p.Counted) {front rest : List Message}
    {m : Message} (hpre : front ++ m :: rest <+: p.messages) :
    m.offset = UInt64.ofNat front.length := by
  rcases hpre with ⟨back, heq⟩
  have hnumbered := h.numbered
  rw [← heq, List.append_assoc, numbered_append, UInt64.zero_add] at hnumbered
  exact hnumbered.2.1

/-- All logs of an engine are counted. -/
def StorageEngine.Counted (e : StorageEngine) : Prop := ∀ t n, (e.partition t n).Counted

/-- Logs that grow by messages with the next offsets stay counted. -/
theorem Extended.counted {e e' : StorageEngine} {topic : Bytes} {number : UInt32}
    {ms : List Message} (h : Extended e e' topic number ms) (he : e.Counted)
    (hnumbered : Numbered (e.partition topic number).nextOffset ms) : e'.Counted := by
  intro t n
  by_cases hplace : (t, n) = (topic, number)
  · rcases Prod.mk.inj hplace with ⟨rfl, rfl⟩
    have hp := he t n
    refine ⟨?_, ?_, h.opened t n hp.opened⟩
    · rw [h.messages, numbered_append, UInt64.zero_add, ← hp.next]
      exact ⟨hp.numbered, hnumbered⟩
    · rw [h.nextOffset, h.messages, hp.next, List.length_append, UInt64.ofNat_add]
  · rcases h.others t n hplace with ⟨hmessages, hnext⟩
    have hp := he t n
    exact ⟨by rw [hmessages]; exact hp.numbered, by rw [hmessages, hnext]; exact hp.next,
      h.opened t n hp.opened⟩

end MqBroker
