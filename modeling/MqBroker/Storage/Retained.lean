import MqBroker.Storage.Crash
import MqBroker.Storage.Store

/-!
# What a Log Retains

The shape of every log of a storage engine, whatever has happened to it.

Retention removes the oldest segments of a log, so its first message need not
have offset 0. What stays true is that the messages are numbered without a gap
up to the next offset. A recovery starts to count at 0 again, and keeps of the
log files what fits that count. It does not check the limits of the append
paths, so what can be said of a message that was read from a file is only that
its key and value fit their length fields.

## Main definitions

* `Partition.Regular`: The shape of a log.
* `Partition.Unwrapped`: The offsets have not run over.
* `StorageEngine.cleanupExpiredSegments`: Retention in all partitions.
* `StorageEngine.reopened`: The engine after a restart.

## Theorems

* `regular_recover`, `Partition.Regular.cleanup`: Recovery and retention.
* `StorageEngine.Regular.extended`, `StorageEngine.Regular.append`: Appending.
* `Partition.Regular.split`: A log around one of its messages.
-/

namespace MqBroker

/-- The shape of a log: messages that are numbered from somewhere up to the
    next offset and fit their length fields, and an active segment. -/
structure Partition.Regular (p : Partition) : Prop where
  numbered : ∃ first, Numbered first p.messages ∧
    p.nextOffset = first + UInt64.ofNat p.messages.length
  framed : ∀ m ∈ p.messages, m.Framed
  opened : p.segments ≠ []

/-- All offsets of a log are below the next one. -/
def Partition.Unwrapped (p : Partition) : Prop := ∀ m ∈ p.messages, m.offset < p.nextOffset

/-- All logs of an engine have the shape. -/
def StorageEngine.Regular (e : StorageEngine) : Prop := ∀ t n, (e.partition t n).Regular

/-! ## Recovery -/

theorem recover_framed (config : StorageConfig) (files : List SegmentFile) :
    ∀ m ∈ (recover config files).messages, m.Framed :=
  fun m hm => ((recover_replayed config files).1.all_readable m hm).framed

/-- A recovery leaves a log of the shape, whatever is in the files. -/
theorem regular_recover (config : StorageConfig) (files : List SegmentFile) (hne : files ≠ []) :
    (recover config files).Regular := by
  have hcounted := counted_recover config files hne
  refine ⟨⟨0, hcounted.numbered, ?_⟩, recover_framed config files, hcounted.opened⟩
  rw [UInt64.zero_add]
  exact hcounted.next

theorem regular_fresh (config : StorageConfig) : (freshPartition config).Regular :=
  regular_recover config _ (List.cons_ne_nil _ [])

theorem Partition.Regular.files_ne {p : Partition} (h : p.Regular) : p.files ≠ [] :=
  fun hnil => h.opened (List.map_eq_nil_iff.mp hnil)

theorem cutLast_ne (kept : Nat) (files : List SegmentFile) (h : files ≠ []) :
    cutLast kept files ≠ [] := by
  cases files with
  | nil => exact absurd rfl h
  | cons file rest =>
      cases rest with
      | nil => exact List.cons_ne_nil _ _
      | cons next rest => exact List.cons_ne_nil _ _

/-! ## Retention -/

/-- The cleaner removes segments at the front, and not all of them. -/
theorem cleanupLoop_suffix (config : StorageConfig) (now : Int64) (total : Nat)
    (segments : List Segment) :
    cleanupLoop config now total segments <:+ segments ∧
      (segments ≠ [] → cleanupLoop config now total segments ≠ []) := by
  induction segments generalizing total with
  | nil => exact ⟨List.suffix_rfl, id⟩
  | cons oldest rest ih =>
      cases rest with
      | nil => exact ⟨List.suffix_rfl, id⟩
      | cons next rest =>
          simp only [cleanupLoop]
          split
          · rcases ih (total - oldest.size) with ⟨hsuffix, hne⟩
            exact ⟨hsuffix.trans (List.suffix_cons oldest _), fun _ => hne (List.cons_ne_nil _ _)⟩
          · exact ⟨List.suffix_rfl, id⟩

theorem Partition.Regular.cleanup {p : Partition} (h : p.Regular) (config : StorageConfig)
    (now : Int64) : (p.cleanupExpiredSegments config now).Regular := by
  rcases cleanupLoop_suffix config now p.totalSize p.segments with ⟨⟨front, hfront⟩, hne⟩
  rcases h.numbered with ⟨first, hnumbered, hnext⟩
  have hmessages : p.messages = front.flatMap Segment.messages
      ++ (p.cleanupExpiredSegments config now).messages := by
    rw [Partition.messages, Partition.messages, Partition.cleanupExpiredSegments,
      ← List.flatMap_append, hfront]
  refine ⟨⟨first + UInt64.ofNat (front.flatMap Segment.messages).length, ?_, ?_⟩, ?_,
    hne h.opened⟩
  · rw [hmessages, numbered_append] at hnumbered
    exact hnumbered.2
  · rw [hmessages, List.length_append, UInt64.ofNat_add, ← UInt64.add_assoc] at hnext
    exact hnext
  · intro m hm
    refine h.framed m ?_
    rw [hmessages]
    exact List.mem_append_right _ hm

/-- `CleanupExpiredSegments` on all partitions. -/
def StorageEngine.cleanupExpiredSegments (e : StorageEngine) (now : Int64) : StorageEngine :=
  { e with partitions := e.partitions.mapValues (Partition.cleanupExpiredSegments e.config now) }

/-- An engine that is started on the log files of another one. The last file of
    a partition can have lost its end, if the old engine did not stop by
    itself. -/
def StorageEngine.reopened (e : StorageEngine) (config : StorageConfig)
    (kept : Bytes → UInt32 → Nat) : StorageEngine where
  config := config.effective
  partitions := e.partitions.mapEntries (fun place p =>
    recover config.effective (cutLast (kept place.1 place.2) p.files))

/-! ## Engines -/

namespace StorageEngine.Regular

variable {e e' : StorageEngine}

theorem lookup (h : e.Regular) {t : Bytes} {n : UInt32} {p : Partition}
    (hp : e.partitions.lookup (t, n) = some p) : p.Regular := by
  have hpartition := h t n
  rw [StorageEngine.partition, hp] at hpartition
  exact hpartition

/-- An engine has the shape if all partitions in its table have it. -/
theorem of_lookup (h : ∀ t n p, e.partitions.lookup (t, n) = some p → p.Regular) : e.Regular := by
  intro t n
  rw [StorageEngine.partition]
  cases hp : e.partitions.lookup (t, n) with
  | none => exact regular_fresh e.config
  | some p => exact h t n p hp

/-- What is read has the shape of messages. -/
theorem read_framed (h : e.Regular) {partitionOk : Bool} {topic : Bytes} {number : UInt32}
    {start : UInt64} {maxBytes : UInt32} {messages : List Message}
    (hread : e.read partitionOk topic number start maxBytes = .ok messages) :
    ∀ m ∈ messages, m.Framed := by
  intro m hm
  rw [read_ok hread] at hm
  exact (h topic number).framed m (readLoop_mem hm)

theorem cleanup (h : e.Regular) (now : Int64) : (e.cleanupExpiredSegments now).Regular := by
  refine of_lookup fun t n p hp => ?_
  rw [StorageEngine.cleanupExpiredSegments, Table.lookup_mapValues, Option.map_eq_some_iff] at hp
  rcases hp with ⟨q, hq, rfl⟩
  exact (h.lookup hq).cleanup e.config now

theorem reopened (h : e.Regular) (config : StorageConfig) (kept : Bytes → UInt32 → Nat) :
    (e.reopened config kept).Regular := by
  refine of_lookup fun t n p hp => ?_
  rw [StorageEngine.reopened, Table.lookup_mapEntries, Option.map_eq_some_iff] at hp
  rcases hp with ⟨q, hq, rfl⟩
  exact regular_recover _ _ (cutLast_ne _ _ (h.lookup hq).files_ne)

/-- Messages with the next offsets that pass the checks of the append paths
    keep the shape. -/
theorem extended (h : e.Regular) {topic : Bytes} {number : UInt32} {ms : List Message}
    (hext : Extended e e' topic number ms)
    (hnumbered : Numbered (e.partition topic number).nextOffset ms)
    (hstorable : ∀ m ∈ ms, m.Storable) : e'.Regular := by
  intro t n
  by_cases hplace : (t, n) = (topic, number)
  · rcases Prod.mk.inj hplace with ⟨rfl, rfl⟩
    rcases (h t n).numbered with ⟨first, hold, hnext⟩
    refine ⟨⟨first, ?_, ?_⟩, ?_, hext.opened t n (h t n).opened⟩
    · rw [hext.messages, numbered_append, ← hnext]
      exact ⟨hold, hnumbered⟩
    · rw [hext.nextOffset, hext.messages, hnext, List.length_append, UInt64.ofNat_add,
        UInt64.add_assoc]
    · intro m hm
      rw [hext.messages] at hm
      rcases List.mem_append.mp hm with hm | hm
      · exact (h t n).framed m hm
      · exact (hstorable m hm).framed
  · rcases hext.others t n hplace with ⟨hmessages, hnext⟩
    refine ⟨?_, ?_, hext.opened t n (h t n).opened⟩
    · rw [hmessages, hnext]
      exact (h t n).numbered
    · rw [hmessages]
      exact (h t n).framed

theorem same (h : e.Regular) (hsame : SameMessages e e') : e'.Regular :=
  h.extended (hsame.extended [] 0) trivial (fun _ hm => absurd hm List.not_mem_nil)

/-- `Append` keeps the shape, whatever comes of it. -/
theorem append (h : e.Regular) (io : StoreIo) (now : Int64) (topic : Bytes) (number : UInt32)
    (key value : Bytes) : (e.append io now topic number key value).1.Regular := by
  by_cases hstorable : ((e.partition topic number).nextMessage now key value).Storable
  · rcases store_append_cases e io now topic number key value with ⟨hstored, _⟩ | ⟨hsame, _⟩
    · refine h.extended hstored.extended ⟨rfl, trivial⟩ fun m hm => ?_
      rw [List.mem_singleton.mp hm]
      exact hstorable
    · exact h.same hsame
  · simp only [StorageEngine.append]
    rw [if_pos (Or.inr hstorable)]
    exact h

end StorageEngine.Regular

/-! ## A message of a log -/

/-- A log that has not run over, around one of its messages: what is in front
    of it has smaller offsets. -/
theorem Partition.Regular.split {p : Partition} (h : p.Regular) (hwrap : p.Unwrapped) {m : Message}
    (hm : m ∈ p.messages) :
    ∃ front back, p.messages = front ++ m :: back ∧ ∀ x ∈ front, x.offset < m.offset := by
  rcases h.numbered with ⟨first, hnumbered, hnext⟩
  -- The message with the largest offset of all would not be below the next.
  have hroom : first.toNat + p.messages.length < 2 ^ 64 := by
    by_contra hlong
    have hlt := first.toNat_lt
    have hi : 2 ^ 64 - 1 - first.toNat < p.messages.length := by omega
    have hlast := hwrap _ (List.getElem_mem hi)
    rw [numbered_getElem first _ hnumbered _ hi, UInt64.lt_iff_toNat_lt, UInt64.toNat_add,
      UInt64.toNat_ofNat', Nat.mod_eq_of_lt (show 2 ^ 64 - 1 - first.toNat < 2 ^ 64 by omega),
      Nat.mod_eq_of_lt (by omega)] at hlast
    have hbelow := p.nextOffset.toNat_lt
    omega
  rcases List.append_of_mem hm with ⟨front, back, hsplit⟩
  refine ⟨front, back, hsplit, fun x hx => ?_⟩
  rw [hsplit, List.length_append, List.length_cons] at hroom
  rw [hsplit, numbered_append] at hnumbered
  rcases List.mem_iff_getElem.mp hx with ⟨i, hi, rfl⟩
  rw [numbered_getElem first front hnumbered.1 i hi, hnumbered.2.1, UInt64.lt_iff_toNat_lt,
    UInt64.toNat_add, UInt64.toNat_add, UInt64.toNat_ofNat', UInt64.toNat_ofNat',
    Nat.mod_eq_of_lt (show i < 2 ^ 64 by omega),
    Nat.mod_eq_of_lt (show front.length < 2 ^ 64 by omega), Nat.mod_eq_of_lt (by omega),
    Nat.mod_eq_of_lt (by omega)]
  omega

end MqBroker
