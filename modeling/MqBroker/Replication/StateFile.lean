import MqBroker.Replication.Coordinator

/-!
# Replacing the State File

`PersistLocked` one file operation at a time, and what `LoadState` finds when
the process stops between two of them.

The new state goes to a temporary file, which then takes the place of
`raft_state.bin`. The old file is removed before the new one is renamed, so
there is a moment without any state file. A process that stops there, or whose
rename fails, restarts in term 0 without a vote. At every other moment the
file is complete. The reader accepts no vote longer than 4096 bytes, so a file
with a longer one is complete and cannot be read.

Bytes reach the temporary file one at a time here. The stream hands them over
in larger pieces, but nothing reads the temporary file and every state of it
that a stop can leave behind is among these.

## Main definitions

* `FileStep`, `StateFiles`: The two files and what is done to them.
* `persistSteps`: The operations of `PersistLocked`, with their failures.
* `FileSystem.outcome`: What they come to.
* `loadState`: `LoadState` on the files that are left.
* `RaftState.asRead`: What the reader makes of a state that was written.
* `Survives`: The condition for a stop to be harmless.

## Theorems

* `decodeState_encodeState`: Loading what was saved.
* `persistSteps_state`: The state file after any of the operations.
* `stop_restores_iff`: When the old or the new state is restored.
-/

namespace MqBroker

/-! ## Reading back -/

/-- What the reader makes of a state that was written: the size of the vote
    has 32 bits, and a vote that seems too long makes the file unreadable. -/
def RaftState.asRead (s : RaftState) : Option RaftState :=
  let size := s.votedFor.length % 2 ^ 32
  if size ≤ maxVotedSize then some { s with votedFor := s.votedFor.take size } else none

theorem decodeState_encodeState_asRead (s : RaftState) :
    decodeState (encodeState s) = s.asRead := by
  have hmagic : getLE 4 (encodeState s) 0 = raftMagic := by
    rw [encodeState, getLE_putLE]
    rfl
  have hvoted : getLE 4 (encodeState s) 28 = s.votedFor.length % 2 ^ 32 := by
    rw [encodeState]
    iterate 4 rw [getLE_append_right _ _ _ _ (by simp only [length_putLE]; decide)]
    simp only [length_putLE]
    rw [getLE_putLE]
    rfl
  have hlen : (encodeState s).length = 32 + s.votedFor.length := by
    simp only [encodeState, List.length_append, length_putLE]
    omega
  have hterm : getLE 8 (encodeState s) 4 = s.currentTerm.toNat := by
    rw [encodeState, getLE_append_right _ _ _ _ (by simp only [length_putLE]; decide)]
    simp only [length_putLE, Nat.sub_self]
    rw [getLE_putLE, Nat.mod_eq_of_lt (by exact s.currentTerm.toNat_lt)]
  have hcommit : getLE 8 (encodeState s) 12 = s.commitIndex.toNat := by
    rw [encodeState]
    iterate 2 rw [getLE_append_right _ _ _ _ (by simp only [length_putLE]; decide)]
    simp only [length_putLE]
    rw [getLE_putLE, Nat.mod_eq_of_lt (by exact s.commitIndex.toNat_lt)]
  have happlied : getLE 8 (encodeState s) 20 = s.lastApplied.toNat := by
    rw [encodeState]
    iterate 3 rw [getLE_append_right _ _ _ _ (by simp only [length_putLE]; decide)]
    simp only [length_putLE]
    rw [getLE_putLE, Nat.mod_eq_of_lt (by exact s.lastApplied.toNat_lt)]
  have hvote : ∀ size, substr (encodeState s) 32 size = s.votedFor.take size := by
    intro size
    rw [encodeState]
    iterate 5 rw [substr_append_right _ _ _ _ (by simp only [length_putLE]; decide)]
    simp only [length_putLE]
    rw [substr, List.drop_zero]
  -- The size never exceeds the bytes that follow it.
  have hsize := Nat.mod_le s.votedFor.length (2 ^ 32)
  simp only [decodeState, RaftState.asRead, hmagic, hvoted, hlen, hterm, hcommit, happlied, hvote,
    UInt64.ofNat_toNat]
  by_cases hfits : s.votedFor.length % 2 ^ 32 ≤ maxVotedSize
  · rw [if_neg (by omega), if_neg (by omega), if_pos hfits]
  · rw [if_pos (by omega), if_neg hfits]

/-- The state file gives back what was written to it. -/
theorem decodeState_encodeState (s : RaftState) (h : s.votedFor.length ≤ maxVotedSize) :
    decodeState (encodeState s) = some s := by
  have hsize : s.votedFor.length % 2 ^ 32 = s.votedFor.length :=
    Nat.mod_eq_of_lt (lt_of_le_of_lt h (by decide))
  simp only [decodeState_encodeState_asRead, RaftState.asRead, hsize, if_pos h, List.take_length]

/-! ## File operations -/

/-- `raft_state.bin` and the temporary file beside it. -/
structure StateFiles where
  state : Option Bytes
  temporary : Option Bytes
deriving DecidableEq, Repr

/-- The file operations of `PersistLocked`. -/
inductive FileStep
  | createDirectories
  | openTemporary
  | write (byte : UInt8)
  | flush
  | close
  | remove
  | rename
deriving DecidableEq, Repr

/-- The files after an operation. Renaming takes the place of a file with the
    new name in one step. -/
def FileStep.exec (files : StateFiles) : FileStep → StateFiles
  | .openTemporary => { files with temporary := some [] }
  | .write byte => { files with temporary := files.temporary.map (· ++ [byte]) }
  | .remove => { files with state := none }
  | .rename =>
      match files.temporary with
      | none => files
      | some bytes => ⟨some bytes, none⟩
  | _ => files

/-- The files after a sequence of operations. -/
def runSteps (files : StateFiles) (steps : List FileStep) : StateFiles :=
  steps.foldl FileStep.exec files

/-- What the file system lets `PersistLocked` do. -/
structure FileSystem where
  /-- The temporary file can be opened. -/
  opens : Bool := true
  /-- The number of bytes that can be written before the stream fails. -/
  room : Nat
  /-- The old file can be removed. -/
  removes : Bool := true
  /-- The temporary file can be renamed. -/
  renames : Bool := true
deriving DecidableEq, Repr

/-- The operations on the temporary file. -/
def temporarySteps (fs : FileSystem) (bytes : Bytes) : List FileStep :=
  .createDirectories ::
    ((if fs.opens then .openTemporary :: (bytes.take fs.room).map .write else [])
      ++ [.flush, .close])

/-- The operations that put the temporary file in place. They are left out
    when the stream has failed; their own errors are ignored. -/
def replaceSteps (fs : FileSystem) (bytes : Bytes) : List FileStep :=
  if fs.opens ∧ bytes.length ≤ fs.room then
    (if fs.removes then [.remove] else []) ++ (if fs.renames then [.rename] else [])
  else []

/-- The file operations of `PersistLocked`. -/
def persistSteps (fs : FileSystem) (s : RaftState) : List FileStep :=
  temporarySteps fs (encodeState s) ++ replaceSteps fs (encodeState s)

/-- `LoadState` on the files that are left: the initial state when there is no
    file, or none that can be read. -/
def loadState (files : StateFiles) : RaftState :=
  (files.state.bind decodeState).getD {}

/-! ## The files on the way -/

/-- Operations that do not touch the state file. -/
def FileStep.isTemporary : FileStep → Bool
  | .remove => false
  | .rename => false
  | _ => true

theorem FileStep.exec_state {step : FileStep} (h : step.isTemporary = true) (files : StateFiles) :
    (step.exec files).state = files.state := by
  cases step with
  | remove => cases h
  | rename => cases h
  | _ => rfl

theorem runSteps_state (steps : List FileStep) (h : ∀ step ∈ steps, step.isTemporary = true)
    (files : StateFiles) : (runSteps files steps).state = files.state := by
  induction steps generalizing files with
  | nil => rfl
  | cons step steps ih =>
      rw [runSteps, List.foldl_cons]
      rw [← FileStep.exec_state (h step List.mem_cons_self) files]
      exact ih (fun s hs => h s (List.mem_cons_of_mem _ hs)) _

theorem temporarySteps_isTemporary (fs : FileSystem) (bytes : Bytes) :
    ∀ step ∈ temporarySteps fs bytes, step.isTemporary = true := by
  intro step hstep
  simp only [temporarySteps, List.mem_cons, List.mem_append, List.not_mem_nil, or_false] at hstep
  rcases hstep with rfl | hwritten | rfl | rfl
  · rfl
  · split at hwritten
    · rcases List.mem_cons.mp hwritten with rfl | hwrite
      · rfl
      · rcases List.mem_map.mp hwrite with ⟨byte, _, rfl⟩
        rfl
    · exact absurd hwritten List.not_mem_nil
  · rfl
  · rfl

theorem runSteps_writes (bytes : Bytes) (state : Option Bytes) (sofar : Bytes) :
    runSteps ⟨state, some sofar⟩ (bytes.map .write) = ⟨state, some (sofar ++ bytes)⟩ := by
  induction bytes generalizing sofar with
  | nil => rw [List.append_nil, List.map_nil, runSteps, List.foldl_nil]
  | cons byte bytes ih =>
      have hstep := ih (sofar ++ [byte])
      rwa [List.append_assoc] at hstep

/-- When the stream has not failed, the temporary file is complete. -/
theorem runSteps_temporarySteps (fs : FileSystem) (bytes : Bytes) (files : StateFiles)
    (h : fs.opens = true ∧ bytes.length ≤ fs.room) :
    runSteps files (temporarySteps fs bytes) = ⟨files.state, some bytes⟩ := by
  have hwrites := runSteps_writes bytes files.state []
  rw [List.nil_append] at hwrites
  rw [temporarySteps, if_pos h.1, List.take_of_length_le h.2, runSteps, List.foldl_cons,
    List.foldl_append, List.foldl_cons]
  -- Flushing and closing leave the two files alone.
  exact congrArg (fun written => runSteps written [.flush, .close]) hwrites

/-- What is left of the state file by operations of `PersistLocked`. -/
def stateAfter (old : Option Bytes) (bytes : Bytes) (steps : List FileStep) : Option Bytes :=
  if .rename ∈ steps then some bytes
  else if .remove ∈ steps then none
  else old

theorem stateAfter_of_temporary (old : Option Bytes) (bytes : Bytes) (steps : List FileStep)
    (h : ∀ step ∈ steps, step.isTemporary = true) : stateAfter old bytes steps = old := by
  have hrename : FileStep.rename ∉ steps := fun hmem => absurd (h _ hmem) Bool.false_ne_true
  have hremove : FileStep.remove ∉ steps := fun hmem => absurd (h _ hmem) Bool.false_ne_true
  rw [stateAfter, if_neg hrename, if_neg hremove]

theorem length_replaceSteps (fs : FileSystem) (bytes : Bytes) :
    (replaceSteps fs bytes).length ≤ 2 := by
  unfold replaceSteps
  cases fs.removes <;> cases fs.renames <;> split <;> simp

/-- The operations that put a complete temporary file in place. -/
theorem runSteps_replaceSteps (fs : FileSystem) (bytes : Bytes) (old : Option Bytes) (n : Nat) :
    (runSteps ⟨old, some bytes⟩ ((replaceSteps fs bytes).take n)).state
      = stateAfter old bytes ((replaceSteps fs bytes).take n) := by
  match n with
  | 0 => rfl
  | 1 =>
      unfold replaceSteps
      cases fs.removes <;> cases fs.renames <;> split <;> rfl
  | n + 2 =>
      -- From two on, the count no longer matters.
      rw [List.take_of_length_le (le_trans (length_replaceSteps fs bytes) (by omega))]
      unfold replaceSteps
      cases fs.removes <;> cases fs.renames <;> split <;> rfl

/-- The state file after the first operations of `PersistLocked`: the old one,
    none or the new one, whatever the temporary file held before. -/
theorem persistSteps_state (fs : FileSystem) (s : RaftState) (old temporary : Option Bytes)
    (n : Nat) :
    (runSteps ⟨old, temporary⟩ ((persistSteps fs s).take n)).state
      = stateAfter old (encodeState s) ((persistSteps fs s).take n) := by
  have htemp := temporarySteps_isTemporary fs (encodeState s)
  rw [persistSteps, List.take_append]
  by_cases hn : n ≤ (temporarySteps fs (encodeState s)).length
  · -- The state file has not been touched yet.
    have hpart : ∀ step ∈ (temporarySteps fs (encodeState s)).take n, step.isTemporary = true :=
      fun step hstep => htemp step (List.mem_of_mem_take hstep)
    rw [Nat.sub_eq_zero_of_le hn, List.take_zero, List.append_nil, runSteps_state _ hpart,
      stateAfter_of_temporary _ _ _ hpart]
  · rw [List.take_of_length_le (by omega)]
    generalize n - (temporarySteps fs (encodeState s)).length = k
    by_cases hgood : fs.opens = true ∧ (encodeState s).length ≤ fs.room
    · have hrun := runSteps_temporarySteps fs (encodeState s) ⟨old, temporary⟩ hgood
      have hreplace := runSteps_replaceSteps fs (encodeState s) old k
      rw [runSteps] at hrun
      rw [runSteps, List.foldl_append, hrun, ← runSteps, hreplace]
      -- The first operations count for nothing in the outcome.
      have hrename : FileStep.rename ∉ temporarySteps fs (encodeState s) :=
        fun hmem => absurd (htemp _ hmem) Bool.false_ne_true
      have hremove : FileStep.remove ∉ temporarySteps fs (encodeState s) :=
        fun hmem => absurd (htemp _ hmem) Bool.false_ne_true
      simp only [stateAfter, List.mem_append, hrename, hremove, false_or]
    · have hnone : replaceSteps fs (encodeState s) = [] := if_neg hgood
      rw [hnone, List.take_nil, List.append_nil, runSteps_state _ htemp,
        stateAfter_of_temporary _ _ _ htemp]

/-- What all operations of `PersistLocked` come to. -/
def FileSystem.outcome (fs : FileSystem) (bytes : Bytes) : SaveOutcome :=
  if fs.opens ∧ bytes.length ≤ fs.room then
    if fs.renames then .replaced else if fs.removes then .removed else .kept
  else .kept

/-- Every outcome of a save is one of the file system. -/
theorem exists_outcome (bytes : Bytes) (o : SaveOutcome) :
    ∃ fs : FileSystem, fs.outcome bytes = o := by
  cases o with
  | replaced => exact ⟨{ room := bytes.length }, by simp only [FileSystem.outcome, le_refl]; rfl⟩
  | kept => exact ⟨{ room := 0, opens := false }, rfl⟩
  | removed =>
      exact ⟨{ room := bytes.length, renames := false }, by
        simp only [FileSystem.outcome, le_refl]; rfl⟩

/-- The files after all operations of `PersistLocked`. -/
theorem runSteps_persistSteps (fs : FileSystem) (s : RaftState) (old temporary : Option Bytes) :
    (runSteps ⟨old, temporary⟩ (persistSteps fs s)).state
      = (fs.outcome (encodeState s)).file old (encodeState s) := by
  have htemp := temporarySteps_isTemporary fs (encodeState s)
  have hall := persistSteps_state fs s old temporary (persistSteps fs s).length
  have hrename : FileStep.rename ∉ temporarySteps fs (encodeState s) :=
    fun hmem => absurd (htemp _ hmem) Bool.false_ne_true
  have hremove : FileStep.remove ∉ temporarySteps fs (encodeState s) :=
    fun hmem => absurd (htemp _ hmem) Bool.false_ne_true
  rw [List.take_length] at hall
  rw [hall, FileSystem.outcome]
  simp only [stateAfter, persistSteps, List.mem_append, hrename, hremove, false_or, replaceSteps]
  -- The last two operations decide, and they are left out when the stream has failed.
  split
  · cases fs.removes <;> cases fs.renames <;> rfl
  · rfl

/-- `persist` is `PersistLocked` with the operations that the file system lets
    it do. -/
theorem persist_stateFile_eq (c : ReplicationCoordinator) (h : c.hasStatePath = true)
    (fs : FileSystem) (temporary : Option Bytes)
    (hfs : c.saves.headD .replaced = fs.outcome (encodeState c.raftState)) :
    (runSteps ⟨c.stateFile, temporary⟩ (persistSteps fs c.raftState)).state
      = c.persist.stateFile := by
  rw [runSteps_persistSteps, ← hfs, ReplicationCoordinator.persist, if_pos h]

/-! ## Stopping on the way -/

/-- `LoadState` gives the old state or the new one. Without an old file the
    old state is the initial one. -/
def Restores (old : Option RaftState) (new : RaftState) (files : StateFiles) : Prop :=
  loadState files = old.getD {} ∨ loadState files = new

/-- The vote of a state is not too long to be read back. -/
def RaftState.Fits (s : RaftState) : Prop := s.votedFor.length ≤ maxVotedSize

/-- The condition for a stop to be harmless. After the rename the vote of the
    new state has to fit, before the removal that of the old state, unless
    what is read of a vote that does not fit happens to be the other state. In
    between, one of the two has to be the initial state. -/
def Survives (old : Option RaftState) (new : RaftState) (steps : List FileStep) : Prop :=
  if .rename ∈ steps then new.Fits ∨ new.asRead.getD {} = old.getD {}
  else if .remove ∈ steps then old.getD {} = {} ∨ new = {}
  else ∀ s, old = some s → s.Fits ∨ s.asRead.getD {} = new

theorem asRead_eq_self_iff (s : RaftState) : s.asRead.getD {} = s ↔ s.Fits := by
  constructor
  · intro h
    have hlen := congrArg (fun r => r.votedFor.length) h
    simp only [RaftState.asRead] at hlen
    rw [RaftState.Fits]
    split at hlen
    · -- What was read is no longer than the size that was accepted.
      simp only [Option.getD_some, List.length_take] at hlen
      omega
    · simp only [Option.getD_none, List.length_nil] at hlen
      omega
  · intro h
    rw [← decodeState_encodeState_asRead, decodeState_encodeState s h, Option.getD_some]

/-- Whatever the old and the new state, the failures of the file system and
    the leftovers in the temporary file: when the process stops after any of
    the operations of `PersistLocked`, the old or the new state is restored
    exactly if the stop is not between removal and rename and the state that is
    in place can be read. -/
theorem stop_restores_iff (old : Option RaftState) (new : RaftState) (fs : FileSystem)
    (temporary : Option Bytes) (n : Nat) :
    Restores old new
        (runSteps ⟨old.map encodeState, temporary⟩ ((persistSteps fs new).take n))
      ↔ Survives old new ((persistSteps fs new).take n) := by
  have hold : (old.map encodeState).bind decodeState = old.bind RaftState.asRead := by
    cases old with
    | none => rfl
    | some s => exact decodeState_encodeState_asRead s
  rw [Restores, loadState, persistSteps_state, stateAfter, Survives]
  split
  · rw [Option.bind_some, decodeState_encodeState_asRead, asRead_eq_self_iff, or_comm]
  · split
    · rw [Option.bind_none, Option.getD_none, eq_comm, @eq_comm _ new]
    · rw [hold]
      cases old with
      | none => exact iff_of_true (Or.inl rfl) (fun s hs => nomatch hs)
      | some s =>
          rw [Option.bind_some, Option.getD_some, asRead_eq_self_iff]
          simp only [Option.some.injEq, forall_eq']

/-- The process stops after removing the old file: a node that voted in term 7
    and moves to term 8 comes back in term 0, free to vote again. -/
theorem stop_forgets :
    ¬ Restores (some { currentTerm := 7, votedFor := [98] }) { currentTerm := 8 }
      (runSteps ⟨some (encodeState { currentTerm := 7, votedFor := [98] }), none⟩
        ((persistSteps { room := 4096 } { currentTerm := 8 }).take 37)) := by
  unfold Restores
  decide +kernel

end MqBroker
