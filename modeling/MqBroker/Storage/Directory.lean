import MqBroker.Storage.Calls
import MqBroker.Storage.Paths
import Mathlib.Data.List.Sort
import Mathlib.Data.List.TakeWhile

/-!
# The Directory of a Partition

What a recovery makes of a directory.

`Recover` looks through the directory for names that end in `.log`, sorts
them, and takes the number of a segment from the front of its name. If there
is no such name, it makes a first segment with the number 0. But a name whose
front is no number is left out only after that, in the loop. So a directory
in which no name is the name of a segment, although some end in `.log`, gives
a partition without segments, and the append paths use the last of them.

For files with the names the engine gives them nothing of this matters. The
names are sorted as their numbers are, since these are written on one count of
digits, and `recoverDirectory` is `recover` on the files in the order of their
numbers.

## Main definitions

* `stem`, `extension`: The parts of a file name.
* `stoull`: The number at the front of a text.
* `recoverDirectory`: `Recover` on the entries of a directory.
* `SegmentSet`: Log files with the names the engine gives them.

## Theorems

* `recoverDirectory_files`: What is left out, and what is replayed.
* `activeSegment_iff`: When a partition always has an active segment.
* `recoverDirectory_canonical`: Files are replayed in the order of numbers.
* `recovery_of_arbitrary_files`: What a recovery leaves, and that it is final.
-/

namespace MqBroker

/-! ## File names -/

/-- An entry of a directory. There are no contents if the entry cannot be
    opened as a file or cut, as with a directory of its own. -/
structure DirectoryEntry where
  name : Bytes
  contents : Option Bytes
deriving DecidableEq, Repr

/-- The part of a name behind its last dot, or all of a name without one. -/
def afterDot (name : Bytes) : Bytes := (name.reverse.takeWhile (· ≠ 46)).reverse

/-- `path::stem`: a name up to its last dot. A dot at the front does not count,
    and the name of the parent directory is all stem. -/
def stem (name : Bytes) : Bytes :=
  if (afterDot name).length + 1 < name.length ∧ name ≠ [46, 46] then
    name.take (name.length - (afterDot name).length - 1)
  else name

/-- `path::extension`: the rest of the name, with the dot. -/
def extension (name : Bytes) : Bytes := name.drop (stem name).length

/-- The characters `isspace` accepts. -/
def isSpace (byte : UInt8) : Bool := byte = 32 || 9 ≤ byte && byte ≤ 13

/-- `std::stoull`: white space, a sign, and digits, whatever is behind them.
    Without a digit it throws, and with a number that does not fit. A minus
    sign takes the number from 2^64. -/
def stoull (text : Bytes) : Option Nat :=
  let rest := text.dropWhile isSpace
  let unsigned := if rest.head? = some 43 ∨ rest.head? = some 45 then rest.tail else rest
  let digits := unsigned.takeWhile isDigit
  if digits = [] ∨ 2 ^ 64 ≤ decimalValue digits then none
  else if rest.head? = some 45 then some ((2 ^ 64 - decimalValue digits) % 2 ^ 64)
  else some (decimalValue digits)

/-! ## Recovery -/

/-- The extension of log files. -/
def logExtension : Bytes := ".log".toUTF8.toList

/-- The entries the scan of `Recover` takes, sorted by name. -/
def logPaths (entries : List DirectoryEntry) : List DirectoryEntry :=
  (entries.filter (fun entry => extension entry.name = logExtension)).insertionSort
    (fun a b => a.name ≤ b.name)

/-- The loop of `Recover` over the paths. -/
def recoverPaths (config : StorageConfig) : Partition → List DirectoryEntry → Option Partition
  | p, [] => some p
  | p, path :: paths =>
      match stoull (stem path.name) with
      | none => recoverPaths config p paths
      | some number =>
          match path.contents with
          | none => none
          | some log => recoverPaths config (recoverSegment config p ⟨number, log⟩) paths

/-- `Recover`. Where there is no log file, one is made. -/
def recoverDirectory (config : StorageConfig) (entries : List DirectoryEntry) :
    Option Partition :=
  let paths := logPaths entries
  recoverPaths config {} (if paths = [] then [⟨segmentName 0, some []⟩] else paths)

/-- The log files behind paths, if they can all be opened. -/
def segmentFiles : List DirectoryEntry → Option (List SegmentFile)
  | [] => some []
  | path :: paths =>
      match stoull (stem path.name) with
      | none => segmentFiles paths
      | some number =>
          match path.contents with
          | none => none
          | some log => (segmentFiles paths).map (⟨number, log⟩ :: ·)

/-- The loop replays the files behind the paths whose names begin with a
    number. -/
theorem recoverPaths_eq (config : StorageConfig) (paths : List DirectoryEntry) (p : Partition) :
    recoverPaths config p paths
      = (segmentFiles paths).map (fun files => files.foldl (recoverSegment config) p) := by
  induction paths generalizing p with
  | nil => rfl
  | cons path paths ih =>
      simp only [recoverPaths, segmentFiles]
      cases stoull (stem path.name) with
      | none => exact ih p
      | some number =>
          cases path.contents with
          | none => rfl
          | some log =>
              simp only [ih, Option.map_map]
              rfl

/-- There are no log files behind paths exactly if no name begins with a
    number. -/
theorem segmentFiles_eq_nil {paths : List DirectoryEntry} {files : List SegmentFile}
    (h : segmentFiles paths = some files) :
    files = [] ↔ ∀ path ∈ paths, stoull (stem path.name) = none := by
  induction paths generalizing files with
  | nil =>
      rw [← Option.some.inj h]
      exact iff_of_true rfl fun path hpath => absurd hpath List.not_mem_nil
  | cons path paths ih =>
      simp only [segmentFiles] at h
      rw [List.forall_mem_cons]
      cases hnumber : stoull (stem path.name) with
      | none =>
          rw [hnumber] at h
          rw [ih h]
          exact (and_iff_right rfl).symm
      | some number =>
          rw [hnumber] at h
          cases hlog : path.contents with
          | none =>
              rw [hlog] at h
              cases h
          | some log =>
              rw [hlog] at h
              rcases Option.map_eq_some_iff.mp h with ⟨rest, _, rfl⟩
              exact iff_of_false (List.cons_ne_nil _ _) fun hnone => nomatch hnone.1

/-- The entries with the extension of log files. -/
theorem mem_logPaths {entries : List DirectoryEntry} {entry : DirectoryEntry} :
    entry ∈ logPaths entries ↔ entry ∈ entries ∧ extension entry.name = logExtension := by
  rw [logPaths, List.mem_insertionSort, List.mem_filter, decide_eq_true_eq]

/-! ## The active segment -/

/-- The name of the segment that is made where there is none. -/
theorem stoull_first : stoull (stem (segmentName 0)) = some 0 := by decide +kernel

/-- What is left out of a directory, and what is replayed. -/
theorem recoverDirectory_files {config : StorageConfig} {entries : List DirectoryEntry}
    {p : Partition} (h : recoverDirectory config entries = some p) :
    ∃ files, p = recover config files ∧
      (files = [] ↔ logPaths entries ≠ [] ∧
        ∀ path ∈ logPaths entries, stoull (stem path.name) = none) := by
  simp only [recoverDirectory] at h
  rw [recoverPaths_eq] at h
  rcases Option.map_eq_some_iff.mp h with ⟨files, hfiles, hp⟩
  refine ⟨files, hp.symm, ?_⟩
  rw [segmentFiles_eq_nil hfiles]
  split
  · -- The segment that is made has a name with a number.
    rename_i hpaths
    refine iff_of_false (fun hnone => ?_) fun hne => hne.1 hpaths
    have hfirst := hnone _ (List.mem_singleton.mpr rfl)
    rw [stoull_first] at hfirst
    cases hfirst
  · rename_i hpaths
    exact (and_iff_right hpaths).symm

/-- A partition that `GetPartition` returns has an active segment, then and
    after any calls, exactly if its directory has no name that ends in `.log`,
    or one of these names begins with a number. -/
theorem activeSegment_iff (config : StorageConfig) (entries : List DirectoryEntry)
    (p : Partition) (h : recoverDirectory config.effective entries = some p) :
    (∀ calls : List PartitionCall,
        (calls.foldl (PartitionCall.exec config.effective) p).segments ≠ []) ↔
      (∀ entry ∈ entries, extension entry.name ≠ logExtension) ∨
        ∃ entry ∈ entries, extension entry.name = logExtension ∧
          (stoull (stem entry.name)).isSome := by
  rcases recoverDirectory_files h with ⟨files, rfl, hfiles⟩
  -- There is a segment for every file, and no call takes the last one away.
  have hsegments : (∀ calls : List PartitionCall,
      (calls.foldl (PartitionCall.exec config.effective)
        (recover config.effective files)).segments ≠ []) ↔ files ≠ [] := by
    have hlength := (recover_numbered config.effective files).2.2
    rw [← List.length_pos_iff_ne_nil (l := files), ← hlength, List.length_pos_iff_ne_nil]
    exact ⟨fun hcalls => hcalls [], fun hne calls => foldl_segments_ne _ calls _ hne⟩
  rw [hsegments, ne_eq, hfiles, not_and_or, not_not, List.eq_nil_iff_forall_not_mem]
  refine or_congr ?_ ?_
  · simp only [mem_logPaths, not_and]
  · simp only [mem_logPaths, not_forall, exists_prop, and_assoc, ← ne_eq, Option.isSome_iff_ne_none]

/-- With a name that begins with a number beside it, a name that does not is
    passed over. -/
theorem activeSegment_mixed :
    ∃ p, recoverDirectory (StorageConfig.effective {})
        [⟨"abc.log".toUTF8.toList, some []⟩, ⟨"3.log".toUTF8.toList, some []⟩] = some p ∧
      ∀ calls : List PartitionCall,
        (calls.foldl (PartitionCall.exec (StorageConfig.effective {})) p).segments ≠ [] := by
  have hdirectory : recoverDirectory (StorageConfig.effective {})
      [⟨"abc.log".toUTF8.toList, some []⟩, ⟨"3.log".toUTF8.toList, some []⟩]
      = some { segments := [{ number := 3 }] } := by
    decide +kernel
  refine ⟨_, hdirectory, (activeSegment_iff {} _ _ hdirectory).mpr (Or.inr
    ⟨_, List.mem_cons_of_mem _ (List.mem_singleton.mpr rfl), ?_, ?_⟩)⟩
  · decide +kernel
  · decide +kernel

/-- Alone, it leaves a partition without segments, to which nothing can be
    appended. -/
theorem activeSegment_none :
    ¬ ∀ p, recoverDirectory (StorageConfig.effective {})
        [⟨"abc.log".toUTF8.toList, some []⟩] = some p →
      p.segments ≠ [] ∧
        (p.append (StorageConfig.effective {}) {} 5 [] [1]).2 ≠ .error .noActiveSegment := by
  have hdirectory : recoverDirectory (StorageConfig.effective {})
      [⟨"abc.log".toUTF8.toList, some []⟩] = some {} := by
    decide +kernel
  exact fun h => (h _ hdirectory).1 rfl

/-! ## Files with the names the engine gives them -/

/-- The entry of a log file in its directory. -/
def SegmentFile.entry (file : SegmentFile) : DirectoryEntry :=
  ⟨segmentName file.number, some file.log⟩

@[simp] theorem entry_name (file : SegmentFile) : file.entry.name = segmentName file.number := rfl

@[simp] theorem entry_contents (file : SegmentFile) : file.entry.contents = some file.log := rfl

/-- Log files of a partition, in the order in which the directory has them. No
    two have the same name, and their numbers fit their type. -/
structure SegmentSet where
  files : List SegmentFile
  distinct : (files.map SegmentFile.number).Nodup
  bounded : ∀ file ∈ files, file.number < 2 ^ 64

/-- The directory that holds them. -/
def SegmentSet.entries (dir : SegmentSet) : List DirectoryEntry := dir.files.map SegmentFile.entry

/-- The files in the order of their numbers, and the one that is made if there
    is none. -/
def SegmentSet.replayed (dir : SegmentSet) : List SegmentFile :=
  if dir.files = [] then [⟨0, []⟩]
  else dir.files.insertionSort (fun a b => a.number ≤ b.number)

theorem logExtension_eq : logExtension = [46, 108, 111, 103] := by decide +kernel

theorem segmentName_eq (number : Nat) :
    segmentName number = padded 20 number ++ logExtension := by
  rw [segmentName, padded, List.append_assoc]
  rfl

theorem length_padded_number {number : Nat} (h : number < 2 ^ 64) :
    (padded 20 number).length = 20 :=
  length_padded 20 number (by decide) (lt_of_lt_of_le h (by decide))

theorem stem_segmentName {number : Nat} (h : number < 2 ^ 64) :
    stem (segmentName number) = padded 20 number := by
  have hlen := length_padded_number h
  have hdot : afterDot (padded 20 number ++ logExtension) = [108, 111, 103] := by
    rw [afterDot, List.reverse_append, logExtension_eq]
    rfl
  have hlong : (padded 20 number ++ logExtension).length = 24 := by
    rw [List.length_append, hlen, logExtension_eq]
    rfl
  rw [segmentName_eq, stem, hdot, hlong, if_pos]
  · exact List.take_left' hlen
  · refine ⟨by decide, fun hparent => ?_⟩
    rw [hparent] at hlong
    cases hlong

theorem extension_segmentName {number : Nat} (h : number < 2 ^ 64) :
    extension (segmentName number) = logExtension := by
  rw [extension, stem_segmentName h, segmentName_eq, List.drop_left]

/-- A text of digits is a number, if it fits. -/
theorem stoull_digits {text : Bytes} (hne : text ≠ []) (h : ∀ b ∈ text, isDigit b = true)
    (hfits : decimalValue text < 2 ^ 64) : stoull text = some (decimalValue text) := by
  have hspace : ∀ b ∈ text, ¬ isSpace b = true ∧ b ≠ 43 ∧ b ≠ 45 := by
    intro b hb
    have hdigit := (isDigit_iff b).mp (h b hb)
    refine ⟨fun hspace => ?_, ?_, ?_⟩
    · rw [isSpace, Bool.or_eq_true, Bool.and_eq_true, decide_eq_true_eq, decide_eq_true_eq,
        decide_eq_true_eq, ← UInt8.toNat_inj, UInt8.le_iff_toNat_le, UInt8.le_iff_toNat_le,
        show (32 : UInt8).toNat = 32 from rfl, show (13 : UInt8).toNat = 13 from rfl] at hspace
      omega
    · rintro rfl
      exact absurd hdigit.1 (by decide)
    · rintro rfl
      exact absurd hdigit.1 (by decide)
  cases text with
  | nil => exact absurd rfl hne
  | cons b text =>
      rcases hspace b List.mem_cons_self with ⟨hb, hplus, hminus⟩
      have hdrop : (b :: text).dropWhile isSpace = b :: text :=
        List.dropWhile_cons_of_neg hb
      have hsign : ∀ c : UInt8, b ≠ c → ¬ (b :: text).head? = some c :=
        fun c hne heq => hne (Option.some.inj heq)
      have htake : (b :: text).takeWhile isDigit = b :: text :=
        List.takeWhile_eq_self_iff.mpr h
      simp only [stoull, hdrop]
      rw [if_neg (not_or.mpr ⟨hsign 43 hplus, hsign 45 hminus⟩), htake,
        if_neg (not_or.mpr ⟨List.cons_ne_nil _ _, not_le.mpr hfits⟩), if_neg (hsign 45 hminus)]

theorem stoull_segmentName {number : Nat} (h : number < 2 ^ 64) :
    stoull (stem (segmentName number)) = some number := by
  have hvalue := decimalValue_padded 20 number
  rw [stem_segmentName h, stoull_digits ?_ (mem_padded 20 number) (by rw [hvalue]; exact h),
    hvalue]
  rw [← List.length_pos_iff_ne_nil, length_padded_number h]
  decide

/-- The names are in the order of the numbers. -/
theorem segmentName_le_iff {m n : Nat} (hm : m < 2 ^ 64) (hn : n < 2 ^ 64) :
    segmentName m ≤ segmentName n ↔ m ≤ n := by
  rw [← not_iff_not, Nat.not_le, List.not_le]
  rw [← padded_lt_iff 20 n m (by decide) (lt_of_lt_of_le hn (by decide))
    (lt_of_lt_of_le hm (by decide)), segmentName_eq, segmentName_eq,
    append_lt_append_iff _ _ _ (by rw [length_padded_number hm, length_padded_number hn])]

/-- The files behind canonical names are the files. -/
theorem segmentFiles_canonical (files : List SegmentFile)
    (h : ∀ file ∈ files, file.number < 2 ^ 64) :
    segmentFiles (files.map SegmentFile.entry) = some files := by
  induction files with
  | nil => rfl
  | cons file files ih =>
      simp only [List.map_cons, segmentFiles, entry_name, entry_contents,
        stoull_segmentName (h file List.mem_cons_self),
        ih fun f hf => h f (List.mem_cons_of_mem file hf), Option.map_some]

theorem logPaths_canonical (dir : SegmentSet) :
    logPaths dir.entries
      = (dir.files.insertionSort (fun a b => a.number ≤ b.number)).map SegmentFile.entry := by
  rw [logPaths, SegmentSet.entries, List.filter_eq_self.mpr]
  · refine (List.map_insertionSort _ _ _ _ fun a ha b hb => ?_).symm
    exact (segmentName_le_iff (dir.bounded a ha) (dir.bounded b hb)).symm
  · intro entry hentry
    rcases List.mem_map.mp hentry with ⟨file, hfile, rfl⟩
    exact decide_eq_true (extension_segmentName (dir.bounded file hfile))

theorem SegmentSet.replayed_bounded (dir : SegmentSet) :
    ∀ file ∈ dir.replayed, file.number < 2 ^ 64 := by
  intro file hfile
  rw [SegmentSet.replayed] at hfile
  split at hfile
  · rw [List.mem_singleton.mp hfile]
    decide
  · exact dir.bounded file ((List.mem_insertionSort _).mp hfile)

theorem SegmentSet.replayed_ne (dir : SegmentSet) : dir.replayed ≠ [] := by
  rw [SegmentSet.replayed]
  split
  · exact List.cons_ne_nil _ _
  · rename_i hfiles
    rw [← List.length_pos_iff_ne_nil, List.length_insertionSort]
    exact List.length_pos_iff_ne_nil.mpr hfiles

/-- Files with canonical names are replayed in the order of their numbers. -/
theorem recoverDirectory_canonical (config : StorageConfig) (dir : SegmentSet) :
    recoverDirectory config dir.entries = some (recover config dir.replayed) := by
  have hpaths : (if logPaths dir.entries = [] then [⟨segmentName 0, some []⟩]
      else logPaths dir.entries) = dir.replayed.map SegmentFile.entry := by
    have hnil : logPaths dir.entries = [] ↔ dir.files = [] := by
      rw [logPaths_canonical, List.map_eq_nil_iff, ← List.length_eq_zero_iff,
        List.length_insertionSort, List.length_eq_zero_iff]
    rw [SegmentSet.replayed]
    by_cases hfiles : dir.files = []
    · rw [if_pos (hnil.mpr hfiles), if_pos hfiles]
      rfl
    · rw [if_neg fun h => hfiles (hnil.mp h), if_neg hfiles, logPaths_canonical]
  simp only [recoverDirectory]
  rw [hpaths, recoverPaths_eq, segmentFiles_canonical _ dir.replayed_bounded]
  rfl

/-- The numbers of the files that are replayed ascend. -/
theorem replayed_ascending (dir : SegmentSet) :
    (dir.replayed.map SegmentFile.number).Pairwise (· < ·) := by
  rw [SegmentSet.replayed]
  split
  · exact List.pairwise_singleton _ _
  · have hsorted := List.pairwise_insertionSort
      (fun a b : SegmentFile => a.number ≤ b.number) dir.files
    have hdistinct := (List.perm_insertionSort
      (fun a b : SegmentFile => a.number ≤ b.number) dir.files).map SegmentFile.number
    rw [List.pairwise_map]
    refine hsorted.imp₂ ?_ (List.pairwise_map.mp (hdistinct.nodup_iff.mpr dir.distinct))
    exact fun a b hle hne => lt_of_le_of_ne hle hne

/-- Files that are in the order of their numbers are replayed as they are. -/
theorem replayed_sorted (dir : SegmentSet) (hne : dir.files ≠ [])
    (hsorted : (dir.files.map SegmentFile.number).Pairwise (· < ·)) :
    dir.replayed = dir.files := by
  rw [SegmentSet.replayed, if_neg hne]
  exact List.Pairwise.insertionSort_eq
    ((List.pairwise_map.mp hsorted).imp fun hlt => Nat.le_of_lt hlt)

/-- A recovery of canonically named files with any contents. The messages are
    numbered from 0 across the segments, each file is cut to the records of the
    messages that were read from it, and a second recovery finds the same
    segments and changes nothing. -/
theorem recovery_of_arbitrary_files (config : StorageConfig) (dir : SegmentSet) :
    ∃ p, recoverDirectory config dir.entries = some p ∧
      p.messages.map Message.offset = (List.range p.messages.length).map UInt64.ofNat ∧
      p.nextOffset = UInt64.ofNat p.messages.length ∧
      (p.segments.map Segment.number).Pairwise (· < ·) ∧
      List.Forall₂ (fun file s => s.number = file.number ∧ s.log <+: file.log)
        dir.replayed p.segments ∧
      (∀ s ∈ p.segments, s.log = encodeRecords s.messages ∧ s.size = s.log.length) ∧
      recoverDirectory config (p.files.map SegmentFile.entry) = some p := by
  rcases recover_replayed config dir.replayed with ⟨hreplayed, hnext⟩
  have hbuilt := hreplayed.all_built
  -- The files of the partition have the names of the files it was read from.
  have hnumbers : (recover config dir.replayed).files.map SegmentFile.number
      = dir.replayed.map SegmentFile.number := by
    rw [Partition.files, List.map_map]
    exact hreplayed.numbers
  have hsorted := replayed_ascending dir
  rw [← hnumbers] at hsorted
  have hsegments : (recover config dir.replayed).segments.map Segment.number
      = (recover config dir.replayed).files.map SegmentFile.number := by
    rw [Partition.files, List.map_map]
    rfl
  have hnonempty : (recover config dir.replayed).files ≠ [] := by
    have hlength := congrArg List.length hnumbers
    rw [List.length_map, List.length_map] at hlength
    rw [← List.length_pos_iff_ne_nil, hlength, List.length_pos_iff_ne_nil]
    exact dir.replayed_ne
  let again : SegmentSet :=
    { files := (recover config dir.replayed).files
      distinct := hsorted.imp fun hlt => Nat.ne_of_lt hlt
      bounded := by
        intro file hfile
        have hmem := List.mem_map_of_mem (f := SegmentFile.number) hfile
        rw [hnumbers] at hmem
        rcases List.mem_map.mp hmem with ⟨old, hold, heq⟩
        rw [← heq]
        exact dir.replayed_bounded old hold }
  refine ⟨_, recoverDirectory_canonical config dir, numbered_offsets _ hreplayed.all_numbered,
    hnext, by rw [hsegments]; exact hsorted, hreplayed.forall₂, ?_, ?_⟩
  · intro s hs
    rw [hbuilt s hs, build_log, build_messages, build_size]
    exact ⟨rfl, rfl⟩
  · have hagain := recoverDirectory_canonical config again
    rw [replayed_sorted again hnonempty hsorted, recover_built config _ hbuilt
      hreplayed.all_numbered hreplayed.all_readable hnext] at hagain
    exact hagain

end MqBroker
