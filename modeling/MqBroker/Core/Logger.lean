import MqBroker.Lib.Bytes
import MqBroker.Lib.Runs
import Mathlib.Logic.Function.Basic

/-!
# Log Rotation

`Logger` appends lines to a file. Before a line it compares the bytes that are left
under the limit with the bytes of the line, and if the line does not fit the file
becomes the backup and an empty one takes its place.

The bytes that are left are an unsigned difference. If the file is larger than the
limit, the difference wraps to almost 2^64, every line fits, and the file is never
rotated again. A file gets there if it was larger when it was opened, or if one line
on an empty file was.

`files` is what is on the disk. The lines also go to the standard error, which plays
no part here, and the time of a line is what `put_time` made of it.

## Main definitions

* `Logger`, `Logger.exec`: The logger and its calls.
* `Logger.RespectsLimit`: What the limit promises for a line.
* `Logger.WithinLimit`: The file is not larger than the limit before a line.

## Theorems

* `Logger.rotateIfNeeded_of_fits`, `Logger.rotateIfNeeded_of_not_fits`: The two ways.
* `Logger.along_respectsLimit_iff`: When the limit is respected in a run.
* `Logger.larger_file_not_rotated`: A run in which it is not.
* `Logger.Inv.within_of_short`: Short lines on files that fit.
-/

namespace MqBroker

/-- `LogLevel`. -/
inductive LogLevel
  | trace
  | debug
  | info
  | warn
  | error
  | critical

namespace LogLevel

/-- The number of a level, which is what levels are compared by. -/
def number : LogLevel → Nat
  | .trace => 0
  | .debug => 1
  | .info => 2
  | .warn => 3
  | .error => 4
  | .critical => 5

/-- `Logger::LevelName`. -/
def levelName : LogLevel → Bytes
  | .trace => "trace".toUTF8.toList
  | .debug => "debug".toUTF8.toList
  | .info => "info".toUTF8.toList
  | .warn => "warn".toUTF8.toList
  | .error => "error".toUTF8.toList
  | .critical => "critical".toUTF8.toList

end LogLevel

/-- `Logger`, and the disk it writes to. -/
structure Logger where
  level : LogLevel
  filePath : Bytes
  /-- Whether `file_` has a file. -/
  fileOpen : Bool
  /-- Whether `file_` has met no error. -/
  fileGood : Bool
  maxFileBytes : UInt64
  fileBytes : UInt64
  /-- The files on the disk. -/
  files : Bytes → Option Bytes

/-- A call of the logger. -/
inductive LoggerCall
  | setLevel (level : LogLevel)
  | setFile (path : Bytes) (maxFileBytes : UInt64)
  | closeFile
  | log (level : LogLevel) (time message : Bytes)

namespace Logger

/-- `kMaxLineBytes`. -/
def kMaxLineBytes : Nat := 4096

/-- The constructor. -/
def create (files : Bytes → Option Bytes) : Logger where
  level := .info
  filePath := []
  fileOpen := false
  fileGood := true
  maxFileBytes := 0
  fileBytes := 0
  files := files

/-- `SetLevel`. -/
def setLevel (s : Logger) (level : LogLevel) : Logger := { s with level := level }

/-- `SetFile`, which opens a file to append to it and takes its size over. -/
def setFile (s : Logger) (path : Bytes) (maxFileBytes : UInt64) : Logger × Bool :=
  if path = [] ∨ maxFileBytes = 0 then (s, false)
  else
    let contents := (s.files path).getD []
    ({ s with
      filePath := path
      fileOpen := true
      fileGood := true
      maxFileBytes := maxFileBytes
      fileBytes := UInt64.ofNat contents.length
      files := Function.update s.files path (some contents) }, true)

/-- `CloseFile`. To close a stream that has no file is an error of the stream. -/
def closeFile (s : Logger) : Logger :=
  { s with
    filePath := []
    fileOpen := false
    fileGood := s.fileGood && s.fileOpen
    maxFileBytes := 0
    fileBytes := 0 }

/-- Where a file goes when it is rotated. -/
def backup (path : Bytes) : Bytes := path ++ ".1".toUTF8.toList

/-- `RotateIfNeeded`. If there is no file to rename, the backup is gone and the
    stream is closed. -/
def rotateIfNeeded (s : Logger) (nextLineBytes : UInt64) : Logger × Bool :=
  -- The difference wraps if the file is over the limit already.
  if s.fileBytes = 0 ∨ nextLineBytes ≤ s.maxFileBytes - s.fileBytes then (s, true)
  else
    match s.files s.filePath with
    | none =>
        ({ s with
          fileOpen := false
          fileGood := s.fileGood && s.fileOpen
          files := Function.update s.files (backup s.filePath) none }, false)
    | some contents =>
        ({ s with
          fileOpen := true
          fileGood := true
          fileBytes := 0
          files := Function.update (Function.update s.files (backup s.filePath) (some contents))
            s.filePath (some []) }, true)

/-- The line that `Log` writes. -/
def formatted (level : LogLevel) (time message : Bytes) : Bytes :=
  let line := time ++ " [".toUTF8.toList ++ level.levelName ++ "] ".toUTF8.toList
  let available := if kMaxLineBytes > line.length then kMaxLineBytes - line.length else 0
  line ++ message.take available ++ [10]

/-- The output to `file_`, which fails if there is no file. -/
def output (s : Logger) (line : Bytes) : Logger :=
  if s.fileOpen = true then
    { s with
      fileBytes := s.fileBytes + UInt64.ofNat line.length
      files := Function.update s.files s.filePath
        (some ((s.files s.filePath).getD [] ++ line)) }
  else { s with fileGood := false, fileBytes := s.fileBytes + UInt64.ofNat line.length }

/-- `Log`. -/
def log (s : Logger) (level : LogLevel) (time message : Bytes) : Logger :=
  if level.number < s.level.number then s
  else if s.fileGood = false then s
  else
    let line := formatted level time message
    match s.rotateIfNeeded (UInt64.ofNat line.length) with
    -- The line is lost.
    | (s', false) => s'
    | (s', true) => s'.output line

/-- What a call does. -/
def exec (s : Logger) : LoggerCall → Logger
  | .setLevel level => s.setLevel level
  | .setFile path maxFileBytes => (s.setFile path maxFileBytes).1
  | .closeFile => s.closeFile
  | .log level time message => s.log level time message

/-! ## The limit -/

/-- The size of the log file on the disk. -/
def fileSize (s : Logger) : Nat := ((s.files s.filePath).getD []).length

/-- A line of this level goes to the file. -/
def Writes (s : Logger) (level : LogLevel) : Prop :=
  s.level.number ≤ level.number ∧ s.fileGood = true ∧ s.fileOpen = true

instance (s : Logger) (level : LogLevel) : Decidable (s.Writes level) :=
  inferInstanceAs (Decidable (_ ∧ _ ∧ _))

/-- When a line is written the file is empty or has room for it, and a file at the
    limit or over it has become the backup. -/
def RespectsLine (s : Logger) (line : Bytes) : Prop :=
  let s' := (s.rotateIfNeeded (UInt64.ofNat line.length)).1
  (s'.fileSize = 0 ∨ s'.fileSize + line.length ≤ s.maxFileBytes.toNat) ∧
    (s.maxFileBytes.toNat ≤ s.fileSize →
      s'.fileSize = 0 ∧ s'.files (backup s.filePath) = s.files s.filePath)

instance (s : Logger) (line : Bytes) : Decidable (s.RespectsLine line) :=
  inferInstanceAs (Decidable ((_ ∨ _) ∧ (_ → _)))

/-- Every line that goes to the file respects the limit. -/
def RespectsLimit (s : Logger) : LoggerCall → Prop
  | .log level time message => s.Writes level → s.RespectsLine (formatted level time message)
  | _ => True

instance (s : Logger) : (call : LoggerCall) → Decidable (s.RespectsLimit call)
  | .log level time message =>
      inferInstanceAs (Decidable (s.Writes level → s.RespectsLine (formatted level time message)))
  | .setLevel _ => isTrue trivial
  | .setFile _ _ => isTrue trivial
  | .closeFile => isTrue trivial

/-- The file is not larger than the limit before a line is written. -/
def WithinLimit (s : Logger) : LoggerCall → Prop
  | .log level _ _ => s.Writes level → s.fileSize ≤ s.maxFileBytes.toNat
  | _ => True

instance (s : Logger) : (call : LoggerCall) → Decidable (s.WithinLimit call)
  | .log level _ _ =>
      inferInstanceAs (Decidable (s.Writes level → s.fileSize ≤ s.maxFileBytes.toNat))
  | .setLevel _ => isTrue trivial
  | .setFile _ _ => isTrue trivial
  | .closeFile => isTrue trivial

/-- No file is larger than a file can be. -/
def SizesFit (s : Logger) : Prop :=
  ∀ path contents, s.files path = some contents → contents.length < 2 ^ 63

/-! ## Rotation -/

/-- What holds between the calls: the tracked size is the size on the disk. -/
structure Inv (s : Logger) : Prop where
  opened : s.fileOpen = true → s.fileGood = true ∧ s.maxFileBytes ≠ 0 ∧
    ∃ contents, s.files s.filePath = some contents ∧ s.fileBytes.toNat = contents.length
  closed : s.fileOpen = false → s.fileGood = true → s.fileBytes = 0

theorem Inv.create (files : Bytes → Option Bytes) : (create files).Inv :=
  ⟨fun h => (nomatch h), fun _ _ => rfl⟩

variable {s : Logger}

/-- The test of `RotateIfNeeded`, for sizes that a file can have. For a file over the
    limit the difference is more than any line has. -/
theorem fits_iff {fileBytes maxFileBytes lineBytes : UInt64} (hfile : fileBytes.toNat < 2 ^ 63)
    (hline : lineBytes.toNat < 2 ^ 63) :
    (fileBytes = 0 ∨ lineBytes ≤ maxFileBytes - fileBytes) ↔
      fileBytes.toNat = 0 ∨ maxFileBytes.toNat < fileBytes.toNat ∨
        fileBytes.toNat + lineBytes.toNat ≤ maxFileBytes.toNat := by
  have hmax := maxFileBytes.toNat_lt
  rw [← UInt64.toNat_inj, UInt64.le_iff_toNat_le, UInt64.toNat_sub]
  refine or_congr Iff.rfl ?_
  rcases Nat.lt_or_ge maxFileBytes.toNat fileBytes.toNat with hlt | hge
  · -- The difference wraps.
    rw [Nat.mod_eq_of_lt (by omega)]
    omega
  · have hwrap : 2 ^ 64 - fileBytes.toNat + maxFileBytes.toNat =
        maxFileBytes.toNat - fileBytes.toNat + 2 ^ 64 := by omega
    rw [hwrap, Nat.add_mod_right, Nat.mod_eq_of_lt (by omega)]
    omega

/-- A file whose next line fits, or seems to, is left as it is. -/
theorem rotateIfNeeded_of_fits {nextLineBytes : UInt64} (hline : nextLineBytes.toNat < 2 ^ 63)
    (hfile : s.fileBytes.toNat < 2 ^ 63)
    (hfits : s.fileBytes.toNat = 0 ∨ s.maxFileBytes.toNat < s.fileBytes.toNat ∨
      s.fileBytes.toNat + nextLineBytes.toNat ≤ s.maxFileBytes.toNat) :
    s.rotateIfNeeded nextLineBytes = (s, true) := by
  rw [rotateIfNeeded, if_pos ((fits_iff hfile hline).mpr hfits)]

/-- The file becomes the backup otherwise. -/
theorem rotateIfNeeded_of_not_fits {nextLineBytes : UInt64} {contents : Bytes}
    (hline : nextLineBytes.toNat < 2 ^ 63) (hfile : s.fileBytes.toNat < 2 ^ 63)
    (hcontents : s.files s.filePath = some contents)
    (hfits : ¬(s.fileBytes.toNat = 0 ∨ s.maxFileBytes.toNat < s.fileBytes.toNat ∨
      s.fileBytes.toNat + nextLineBytes.toNat ≤ s.maxFileBytes.toNat)) :
    s.rotateIfNeeded nextLineBytes =
      ({ s with
        fileOpen := true
        fileGood := true
        fileBytes := 0
        files := Function.update (Function.update s.files (backup s.filePath) (some contents))
          s.filePath (some []) }, true) := by
  rw [rotateIfNeeded, if_neg (fun h => hfits ((fits_iff hfile hline).mp h)), hcontents]

/-- A path and its backup are two files. -/
theorem backup_ne (path : Bytes) : backup path ≠ path := by
  intro h
  have hlen := congrArg List.length h
  have htwo : (".1".toUTF8.toList : Bytes).length = 2 := by decide +kernel
  rw [backup, List.length_append, htwo] at hlen
  omega

/-- A line has at least its end. -/
theorem formatted_length_pos (level : LogLevel) (time message : Bytes) :
    0 < (formatted level time message).length := by
  rw [formatted, List.length_append, List.length_singleton]
  omega

/-- After the output the line is at the end of the file. -/
theorem output_files {contents line : Bytes} (hopen : s.fileOpen = true)
    (hcontents : s.files s.filePath = some contents) :
    (s.output line).files s.filePath = some (contents ++ line) := by
  rw [output, if_pos hopen]
  simp only [Function.update_self, hcontents, Option.getD_some]

theorem Inv.output (h : s.Inv) (hopen : s.fileOpen = true) {line : Bytes}
    (hfit : (s.output line).SizesFit) : (s.output line).Inv := by
  obtain ⟨hgood, hmax, contents, hcontents, hsize⟩ := h.opened hopen
  have hfiles := @output_files s contents line hopen hcontents
  have hlt := hfit _ _ hfiles
  rw [List.length_append] at hlt
  rw [Logger.output, if_pos hopen] at hfiles ⊢
  refine ⟨fun _ => ⟨hgood, hmax, contents ++ line, hfiles, ?_⟩, fun hclosed => ?_⟩
  · rw [UInt64.toNat_add, hsize, UInt64.toNat_ofNat', List.length_append,
      Nat.mod_eq_of_lt (by omega), Nat.mod_eq_of_lt (by omega)]
  · exact absurd (hopen.symm.trans hclosed) (by decide)

/-- A logger that writes to a file still does after a rotation. -/
theorem Inv.rotateIfNeeded (h : s.Inv) (hopen : s.fileOpen = true) (nextLineBytes : UInt64) :
    ∃ s', s.rotateIfNeeded nextLineBytes = (s', true) ∧ s'.Inv ∧ s'.fileOpen = true ∧
      s'.maxFileBytes = s.maxFileBytes := by
  obtain ⟨hgood, hmax, contents, hcontents, hsize⟩ := h.opened hopen
  by_cases hfits : s.fileBytes = 0 ∨ nextLineBytes ≤ s.maxFileBytes - s.fileBytes
  · rw [Logger.rotateIfNeeded, if_pos hfits]
    exact ⟨s, rfl, h, hopen, rfl⟩
  · rw [Logger.rotateIfNeeded, if_neg hfits, hcontents]
    refine ⟨_, rfl, ⟨fun _ => ⟨rfl, hmax, [], ?_, rfl⟩, fun hclosed => (nomatch hclosed)⟩,
      rfl, rfl⟩
    exact Function.update_self _ _ _

/-- A line that goes to the file is put at its end, after a rotation if need be. -/
theorem log_eq_output {level : LogLevel} {time message : Bytes} {s' : Logger}
    (hwrites : s.Writes level)
    (hrotate : s.rotateIfNeeded (UInt64.ofNat (formatted level time message).length) = (s', true)) :
    s.log level time message = s'.output (formatted level time message) := by
  have hlevel : ¬level.number < s.level.number := Nat.not_lt.mpr hwrites.1
  have hgood : ¬s.fileGood = false := by
    rw [hwrites.2.1]
    decide
  simp only [log, if_neg hlevel, if_neg hgood, hrotate]

/-- A line that does not go to the file changes nothing, or it went to a stream
    without a file, which is bad from then on. -/
theorem Inv.log_of_not_writes (h : s.Inv) {level : LogLevel} (time message : Bytes)
    (hwrites : ¬s.Writes level) :
    s.log level time message = s ∨
      (s.log level time message).fileOpen = false ∧
        (s.log level time message).fileGood = false := by
  by_cases hlevel : level.number < s.level.number
  · rw [log, if_pos hlevel]
    exact .inl rfl
  cases hgood : s.fileGood with
  | false =>
      rw [log, if_neg hlevel, if_pos hgood]
      exact .inl rfl
  | true =>
      cases hopen : s.fileOpen with
      | true => exact absurd ⟨Nat.not_lt.mp hlevel, hgood, hopen⟩ hwrites
      | false =>
          have hrotate : s.rotateIfNeeded (UInt64.ofNat (formatted level time message).length) =
              (s, true) := by
            rw [Logger.rotateIfNeeded, if_pos (.inl (h.closed hopen hgood))]
          simp only [log, if_neg hlevel, hgood, hrotate, Logger.output, hopen]
          exact .inr ⟨rfl, rfl⟩

theorem Inv.log (h : s.Inv) (level : LogLevel) (time message : Bytes)
    (hfit : (s.log level time message).SizesFit) : (s.log level time message).Inv := by
  by_cases hwrites : s.Writes level
  · obtain ⟨s', hrotate, h', hopen', -⟩ := h.rotateIfNeeded hwrites.2.2
      (UInt64.ofNat (formatted level time message).length)
    rw [log_eq_output hwrites hrotate] at hfit ⊢
    exact h'.output hopen' hfit
  · rcases h.log_of_not_writes time message hwrites with heq | ⟨hclosed, hbad⟩
    · rw [heq]
      exact h
    · refine ⟨fun hopened => ?_, fun _ hgood => ?_⟩
      · exact absurd (hopened.symm.trans hclosed) (by decide)
      · exact absurd (hgood.symm.trans hbad) (by decide)

/-- A line that was written is in a file, so its length does not wrap. -/
theorem Inv.lineLength (h : s.Inv) {level : LogLevel} {time message : Bytes}
    (hwrites : s.Writes level) (hnext : (s.log level time message).SizesFit) :
    (formatted level time message).length < 2 ^ 63 ∧
      (UInt64.ofNat (formatted level time message).length).toNat =
        (formatted level time message).length := by
  obtain ⟨s', hrotate, h', hopen', -⟩ := h.rotateIfNeeded hwrites.2.2
    (UInt64.ofNat (formatted level time message).length)
  obtain ⟨-, -, contents', hcontents', -⟩ := h'.opened hopen'
  rw [log_eq_output hwrites hrotate] at hnext
  have hlt := hnext _ _ (output_files hopen' hcontents')
  rw [List.length_append] at hlt
  refine ⟨by omega, ?_⟩
  rw [UInt64.toNat_ofNat']
  exact Nat.mod_eq_of_lt (by omega)

/-- No call breaks the invariant. -/
theorem Inv.exec (h : s.Inv) (hfit : s.SizesFit) (call : LoggerCall)
    (hnext : (s.exec call).SizesFit) : (s.exec call).Inv := by
  cases call with
  | setLevel level => exact ⟨h.opened, h.closed⟩
  | setFile path maxFileBytes =>
      simp only [Logger.exec, setFile]
      by_cases hinvalid : path = [] ∨ maxFileBytes = 0
      · rw [if_pos hinvalid]
        exact h
      · rw [if_neg hinvalid]
        refine ⟨fun _ => ⟨rfl, fun hmax => hinvalid (.inr hmax), _,
          Function.update_self _ _ _, ?_⟩, fun hclosed => (nomatch hclosed)⟩
        rw [UInt64.toNat_ofNat']
        apply Nat.mod_eq_of_lt
        cases hcontents : s.files path with
        | none => decide
        | some contents =>
            have hlt := hfit path contents hcontents
            rw [Option.getD_some]
            omega
  | closeFile => exact ⟨fun hopened => (nomatch hopened), fun _ _ => rfl⟩
  | log level time message => exact h.log level time message hnext

/-- A line respects the limit exactly if the file is within the limit before it. -/
theorem respectsLimit_iff (h : s.Inv) (hfit : s.SizesFit) (call : LoggerCall)
    (hnext : (s.exec call).SizesFit) : s.RespectsLimit call ↔ s.WithinLimit call := by
  cases call with
  | setLevel level => exact Iff.rfl
  | setFile path maxFileBytes => exact Iff.rfl
  | closeFile => exact Iff.rfl
  | log level time message =>
      refine imp_congr_right fun hwrites => ?_
      have hopen := hwrites.2.2
      obtain ⟨-, hmax, contents, hcontents, hsize⟩ := h.opened hopen
      have hmaxpos : s.maxFileBytes.toNat ≠ 0 := fun hzero => hmax (UInt64.toNat_inj.mp hzero)
      have hsizeEq : s.fileSize = s.fileBytes.toNat := by
        rw [fileSize, hcontents, Option.getD_some, hsize]
      have hfile : s.fileBytes.toNat < 2 ^ 63 := hsize ▸ hfit _ _ hcontents
      have hpos := formatted_length_pos level time message
      have hline := h.lineLength hwrites hnext
      have hlt : (UInt64.ofNat (formatted level time message).length).toNat < 2 ^ 63 := by
        rw [hline.2]
        exact hline.1
      by_cases hfits : s.fileBytes.toNat = 0 ∨ s.maxFileBytes.toNat < s.fileBytes.toNat ∨
          s.fileBytes.toNat + (UInt64.ofNat (formatted level time message).length).toNat ≤
            s.maxFileBytes.toNat
      · simp only [RespectsLine, rotateIfNeeded_of_fits hlt hfile hfits, hsizeEq]
        rw [hline.2] at hfits
        constructor
        · rintro ⟨hroom, -⟩
          omega
        · intro hwithin
          exact ⟨by omega, fun hover => by omega⟩
      · simp only [RespectsLine, rotateIfNeeded_of_not_fits hlt hfile hcontents hfits]
        rw [hline.2] at hfits
        have hempty : ((Function.update (Function.update s.files (backup s.filePath)
            (some contents)) s.filePath (some []) s.filePath).getD []).length = 0 := by
          rw [Function.update_self]
          rfl
        refine iff_of_true ⟨.inl hempty, fun _ => ⟨hempty, ?_⟩⟩ (by omega)
        simp only [Function.update_of_ne (backup_ne s.filePath), Function.update_self, hcontents]

/-! ## Runs -/

/-- No file is larger than a bound. -/
def Bounded (files : Bytes → Option Bytes) (bound : Nat) : Prop :=
  ∀ path contents, files path = some contents → contents.length ≤ bound

/-- How many bytes a call can add to a file. -/
def addedBytes : LoggerCall → Nat
  | .log level time message => (formatted level time message).length
  | _ => 0

theorem Bounded.mono {files : Bytes → Option Bytes} {bound : Nat} (h : Bounded files bound)
    (more : Nat) : Bounded files (bound + more) :=
  fun path contents hpath => (h path contents hpath).trans (Nat.le_add_right _ _)

theorem Bounded.update {files : Bytes → Option Bytes} {bound : Nat} (h : Bounded files bound)
    (path : Bytes) {value : Option Bytes}
    (hvalue : ∀ contents, value = some contents → contents.length ≤ bound) :
    Bounded (Function.update files path value) bound := by
  intro other contents hother
  by_cases hpath : other = path
  · rw [hpath, Function.update_self] at hother
    exact hvalue contents hother
  · rw [Function.update_of_ne hpath] at hother
    exact h other contents hother

/-- What is read of a file that may not be there is not larger either. -/
theorem Bounded.getD {files : Bytes → Option Bytes} {bound : Nat} (h : Bounded files bound)
    (path : Bytes) : ((files path).getD []).length ≤ bound := by
  cases hpath : files path with
  | none => exact Nat.zero_le _
  | some contents => exact h path contents hpath

/-- A rotation moves a file and adds nothing. -/
theorem Bounded.rotateIfNeeded {bound : Nat} (h : Bounded s.files bound) (nextLineBytes : UInt64) :
    Bounded (s.rotateIfNeeded nextLineBytes).1.files bound := by
  rw [Logger.rotateIfNeeded]
  by_cases hfits : s.fileBytes = 0 ∨ nextLineBytes ≤ s.maxFileBytes - s.fileBytes
  · rw [if_pos hfits]
    exact h
  · rw [if_neg hfits]
    cases hcontents : s.files s.filePath with
    | none => exact h.update _ fun contents hnone => (nomatch hnone)
    | some contents =>
        refine (h.update _ fun c hc => ?_).update _ fun c hc => ?_
        · rw [← Option.some.inj hc]
          exact h _ _ hcontents
        · rw [← Option.some.inj hc]
          exact Nat.zero_le _

/-- An output adds its line. -/
theorem Bounded.output {bound : Nat} (h : Bounded s.files bound) (line : Bytes) :
    Bounded (s.output line).files (bound + line.length) := by
  rw [Logger.output]
  by_cases hopen : s.fileOpen = true
  · rw [if_pos hopen]
    refine (h.mono line.length).update _ fun contents hcontents => ?_
    rw [← Option.some.inj hcontents, List.length_append]
    exact Nat.add_le_add_right (h.getD s.filePath) _
  · rw [if_neg hopen]
    exact h.mono line.length

theorem Bounded.exec {bound : Nat} (h : Bounded s.files bound) (call : LoggerCall) :
    Bounded (s.exec call).files (bound + addedBytes call) := by
  cases call with
  | setLevel level => exact h
  | setFile path maxFileBytes =>
      simp only [Logger.exec, setFile]
      by_cases hinvalid : path = [] ∨ maxFileBytes = 0
      · rw [if_pos hinvalid]
        exact h
      · rw [if_neg hinvalid]
        refine h.update _ fun contents hcontents => ?_
        rw [← Option.some.inj hcontents]
        exact h.getD path
  | closeFile => exact h
  | log level time message =>
      have hrotated := h.rotateIfNeeded (UInt64.ofNat (formatted level time message).length)
      simp only [Logger.exec, Logger.log, addedBytes]
      split_ifs
      · exact h.mono _
      · exact h.mono _
      · rcases hrotate : s.rotateIfNeeded (UInt64.ofNat (formatted level time message).length)
          with ⟨s', _ | _⟩
        · rw [hrotate] at hrotated
          exact hrotated.mono _
        · rw [hrotate] at hrotated
          exact hrotated.output _

/-- If what is on the disk and all lines together are less than the largest file, no
    file gets too large. -/
theorem Bounded.always_sizesFit {bound : Nat} (h : Bounded s.files bound) (calls : List LoggerCall)
    (hsum : bound + (calls.map addedBytes).sum < 2 ^ 63) :
    Always Logger.exec SizesFit s calls := by
  induction calls generalizing s bound with
  | nil =>
      rw [List.map_nil, List.sum_nil] at hsum
      exact fun path contents hpath => (h path contents hpath).trans_lt hsum
  | cons call calls ih =>
      rw [List.map_cons, List.sum_cons] at hsum
      refine ⟨fun path contents hpath => (h path contents hpath).trans_lt (by omega), ?_⟩
      exact ih (h.exec call) (by omega)

/-- In a run without errors of the disk, every line respects the limit exactly if the
    file is within the limit before every line. -/
theorem along_respectsLimit_iff (files : Bytes → Option Bytes) (calls : List LoggerCall)
    (hsizes : Always Logger.exec SizesFit (Logger.create files) calls) :
    Along Logger.exec RespectsLimit (Logger.create files) calls ↔
      Along Logger.exec WithinLimit (Logger.create files) calls := by
  refine along_congr_of_always ?_ ?_ (Inv.create files) hsizes
  · exact fun s call h hfit hnext => h.exec hfit call hnext
  · exact fun s call h hfit hnext => respectsLimit_iff h hfit call hnext

/-- A run in which a line is filtered, one is written, and one rotates the file. -/
theorem along_respectsLimit_iff_rotates :
    Along Logger.exec RespectsLimit (Logger.create fun _ => none)
        [.setFile "broker.log".toUTF8.toList 80,
          .log .debug "2026-01-01T00:00:00".toUTF8.toList "hidden".toUTF8.toList,
          .log .info "2026-01-01T00:00:00".toUTF8.toList "first record".toUTF8.toList,
          .log .warn "2026-01-01T00:00:01".toUTF8.toList
            "second record that triggers file rotation".toUTF8.toList] := by
  refine (along_respectsLimit_iff _ _ (@Bounded.always_sizesFit _ 0 ?_ _ ?_)).mpr ?_
  · exact fun path contents hpath => (nomatch hpath)
  · decide +kernel
  · decide +kernel

/-- A log file of 81 bytes from before, with a limit of 80, is written to as it is. -/
theorem larger_file_not_rotated :
    ¬Along Logger.exec RespectsLimit
      (Logger.create (Function.update (fun _ => none) "broker.log".toUTF8.toList
        (some (List.replicate 81 46))))
      [.setFile "broker.log".toUTF8.toList 80,
        .log .info "2026-01-01T00:00:00".toUTF8.toList "first record".toUTF8.toList] := by
  decide +kernel

/-- The file that is opened and the line that is written are not larger than the
    limit. -/
def Short (s : Logger) : LoggerCall → Prop
  | .setFile path maxFileBytes => ((s.files path).getD []).length ≤ maxFileBytes.toNat
  | .log level time message =>
      s.Writes level → (formatted level time message).length ≤ s.maxFileBytes.toNat
  | _ => True

/-- A short call leaves the file within the limit. -/
theorem Inv.within_of_short (h : s.Inv) (hfit : s.SizesFit) {call : LoggerCall}
    (hnext : (s.exec call).SizesFit) (hshort : s.Short call)
    (hwithin : s.fileOpen = true → s.fileSize ≤ s.maxFileBytes.toNat) :
    (s.exec call).fileOpen = true →
      (s.exec call).fileSize ≤ (s.exec call).maxFileBytes.toNat := by
  cases call with
  | setLevel level => exact hwithin
  | setFile path maxFileBytes =>
      simp only [Logger.exec, setFile]
      by_cases hinvalid : path = [] ∨ maxFileBytes = 0
      · rw [if_pos hinvalid]
        exact hwithin
      · rw [if_neg hinvalid]
        intro _
        simp only [fileSize, Function.update_self, Option.getD_some]
        exact hshort
  | closeFile => exact fun hopened => (nomatch hopened)
  | log level time message =>
      intro hopened
      by_cases hwrites : s.Writes level
      · obtain ⟨s', hrotate, h', hopen', hmax⟩ := h.rotateIfNeeded hwrites.2.2
          (UInt64.ofNat (formatted level time message).length)
        obtain ⟨-, -, contents, hcontents, -⟩ := h'.opened hopen'
        -- Within the limit the line is put on an empty file or has room.
        obtain ⟨hroom, -⟩ := (respectsLimit_iff h hfit (.log level time message) hnext).mpr
          (fun hwrites => hwithin hwrites.2.2) hwrites
        rw [hrotate, fileSize, hcontents, Option.getD_some] at hroom
        have hline := hshort hwrites
        have hpath : (s'.output (formatted level time message)).filePath = s'.filePath := by
          rw [Logger.output, if_pos hopen']
        have hlimit : (s'.output (formatted level time message)).maxFileBytes = s.maxFileBytes := by
          rw [Logger.output, if_pos hopen', ← hmax]
        rw [Logger.exec, log_eq_output hwrites hrotate, hlimit, fileSize, hpath,
          output_files hopen' hcontents, Option.getD_some, List.length_append]
        rcases hroom with hempty | hroom
        · rw [hempty, Nat.zero_add]
          exact hline
        · exact hroom
      · rw [Logger.exec] at hopened ⊢
        rcases h.log_of_not_writes time message hwrites with heq | ⟨hclosed, -⟩
        · rw [heq] at hopened ⊢
          exact hwithin hopened
        · exact absurd (hopened.symm.trans hclosed) (by decide)

/-- Files that are within their limits when they are opened and lines that are within
    the limit stay within it. -/
theorem along_withinLimit_of_short (files : Bytes → Option Bytes) (calls : List LoggerCall)
    (hsizes : Always Logger.exec SizesFit (Logger.create files) calls)
    (hshort : Along Logger.exec Short (Logger.create files) calls) :
    Along Logger.exec WithinLimit (Logger.create files) calls := by
  have hrun : Always Logger.exec
      (fun s => s.Inv ∧ (s.fileOpen = true → s.fileSize ≤ s.maxFileBytes.toNat))
      (Logger.create files) calls := by
    refine Always.of_along_always ?_ ⟨Inv.create files, fun hopened => (nomatch hopened)⟩
      hsizes hshort
    rintro s call ⟨h, hwithin⟩ hfit hnext hcall
    exact ⟨h.exec hfit call hnext, h.within_of_short hfit hnext hcall hwithin⟩
  refine hrun.along.mono ?_
  rintro s call ⟨-, hwithin⟩
  cases call with
  | log level time message => exact fun hwrites => hwithin hwrites.2.2
  | setLevel level => trivial
  | setFile path maxFileBytes => trivial
  | closeFile => trivial

end Logger

end MqBroker
