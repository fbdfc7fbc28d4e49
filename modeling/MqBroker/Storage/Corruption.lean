import MqBroker.Storage.Crash

/-!
# One Damaged Byte

Recovery after one byte of one log file was changed to a different value.

Inside the damaged file the records in front of the damage are intact, and
the record it falls into is refused, so the scan stops there
(`encodeRecords_set`). The rest of the file is cut away with it. The files
behind it are undamaged, but their first records carry offsets that are not
expected any more: the partition still waits for the offset of the damaged
record, and offsets never repeat. They are cut to nothing.

That last step is where the size of the partition matters. Offsets are 64-bit
numbers and repeat after `2 ^ 64` messages. A file system holds less than
`2 ^ 64` bytes and a message takes more than one, so it does not happen.

## Main definitions

* `damage`: Changing one byte of one file.
* `precedingDamage`: The messages in front of the damaged record.

## Theorems

* `encodeRecords_set`: A damaged file splits at the damaged record.
* `recover_damage`: Recovery of a well-formed partition with one damaged byte.
* `corruption_detected`: The same for the files of any run of appends.
-/

namespace MqBroker

/-- Change byte `j` of file `i` to `b`. -/
def damage (files : List SegmentFile) (i j : Nat) (b : UInt8) : List SegmentFile :=
  files.modify i (fun file => { file with log := file.log.set j b })

/-- The messages of a partition that precede the record which byte `j` of
    segment `i` belongs to: those of the earlier segments, and those of this
    segment whose records end before it. -/
def precedingDamage (p : Partition) (i j : Nat) : List Message :=
  (p.segments.take i).flatMap Segment.messages ++
    wholeRecords j ((p.segments[i]?.map Segment.messages).getD [])

/-- The bytes of all log files together. -/
def diskBytes (files : List SegmentFile) : Nat := (files.map (fun f => f.log.length)).sum

/-- A damaged file of records: the whole records in front of the damage, and
    something the scan does not read. -/
theorem encodeRecords_set (ms : List Message) (hst : ∀ m ∈ ms, m.Storable) (j : Nat) (b : UInt8)
    (hj : j < (encodeRecords ms).length) (hb : (encodeRecords ms)[j] ≠ b) :
    ∃ rest, (encodeRecords ms).set j b = encodeRecords (wholeRecords j ms) ++ rest ∧
      (∀ next, readRecord next rest = none) ∧ (wholeRecords j ms).length < ms.length := by
  induction ms generalizing j with
  | nil => exact absurd hj (Nat.not_lt_zero j)
  | cons m ms ih =>
      have hcons := encodeRecords_cons m ms
      by_cases hfit : (encodeRecord m).length ≤ j
      · -- The first record is intact, and the damage is behind it.
        have hj' : j - (encodeRecord m).length < (encodeRecords ms).length := by
          rw [hcons, List.length_append] at hj
          omega
        have hb' : (encodeRecords ms)[j - (encodeRecord m).length] ≠ b := by
          simp only [hcons] at hb
          rwa [List.getElem_append_right hfit] at hb
        rcases ih (fun x hx => hst x (List.mem_cons_of_mem m hx)) _ hj' hb' with
          ⟨rest, hset, hstop, hlen⟩
        refine ⟨rest, ?_, hstop, ?_⟩
        · rw [hcons, wholeRecords, if_pos hfit, List.set_append_right _ _ hfit, hset,
            encodeRecords_cons, List.append_assoc]
        · rw [wholeRecords, if_pos hfit, List.length_cons, List.length_cons]
          omega
      · -- The damage is in the first record.
        refine ⟨(encodeRecord m ++ encodeRecords ms).set j b, ?_, ?_, ?_⟩
        · rw [hcons, wholeRecords, if_neg hfit]
          rfl
        · intro next
          refine readRecord_set m (hst m List.mem_cons_self) next _ j b (Nat.lt_of_not_le hfit)
            (fun hlt => ?_)
          simp only [hcons] at hb
          exact hb
        · rw [wholeRecords, if_neg hfit, List.length_nil, List.length_cons]
          omega

theorem damage_append (front back : List SegmentFile) (file : SegmentFile) (i : Nat)
    (hi : i = front.length) (j : Nat) (b : UInt8) :
    damage (front ++ file :: back) i j b
      = front ++ { file with log := file.log.set j b } :: back := by
  rw [damage, List.modify_eq_take_drop, hi, List.take_left, List.drop_left]
  rfl

/-- Messages take at least a byte each on disk. -/
theorem length_messages_le_diskBytes (config : StorageConfig) (segs : List Segment)
    (hbuilt : ∀ s ∈ segs, s = Segment.build config.indexInterval s.number s.messages) :
    (segs.flatMap Segment.messages).length
      ≤ diskBytes (segs.map (fun s => (⟨s.number, s.log⟩ : SegmentFile))) := by
  induction segs with
  | nil => exact Nat.zero_le _
  | cons s segs ih =>
      have hlog := log_of_built (hbuilt s List.mem_cons_self)
      have hs := length_le_encodeRecords s.messages
      have hrest := ih (fun t ht => hbuilt t (List.mem_cons_of_mem s ht))
      rw [diskBytes] at hrest ⊢
      rw [← hlog] at hs
      rw [List.flatMap_cons, List.length_append, List.map_cons, List.map_cons, List.sum_cons]
      exact Nat.add_le_add hs hrest

theorem ofNat_ne_of_lt (a b : Nat) (hab : a < b) (hb : b < 2 ^ 64) :
    UInt64.ofNat b ≠ UInt64.ofNat a := by
  intro h
  have hval := congrArg UInt64.toNat h
  rw [UInt64.toNat_ofNat', UInt64.toNat_ofNat', Nat.mod_eq_of_lt hb,
    Nat.mod_eq_of_lt (by omega)] at hval
  omega

/-- Behind the start of a numbered log no message has the offset of an earlier
    one. -/
theorem numbered_offset_ne (a rest : List Message) (m : Message) (n : Nat)
    (hnum : Numbered 0 (a ++ m :: rest)) (hn : n < a.length) (ha : a.length < 2 ^ 64) :
    m.offset ≠ UInt64.ofNat n := by
  rw [numbered_append, UInt64.zero_add] at hnum
  rw [hnum.2.1]
  exact ofNat_ne_of_lt _ _ hn ha

/-- Segments that were cut to nothing hold no messages. -/
theorem messages_emptied (interval : UInt32) (segs : List Segment) :
    (segs.map (fun s => Segment.build interval s.number [])).flatMap Segment.messages = [] := by
  rw [List.flatMap_eq_nil_iff]
  intro t ht
  rcases List.mem_map.mp ht with ⟨u, _, rfl⟩
  exact build_messages _ _ _

/-- Recovery of a well-formed partition after one byte of one file changed:
    exactly the messages in front of the damaged record. -/
theorem recover_damage (config : StorageConfig) (p : Partition) (hwf : p.WellFormed config)
    (hfits : diskBytes p.files < 2 ^ 64) (pre post : List Segment) (s : Segment)
    (hp : p.segments = pre ++ s :: post) (j : Nat) (b : UInt8) (hj : j < s.log.length)
    (hb : s.log[j] ≠ b) :
    (recover config (damage p.files pre.length j b)).messages
      = pre.flatMap Segment.messages ++ wholeRecords j s.messages := by
  have hbuilt := hwf.built
  have hnum := hwf.numbered
  have hst := hwf.storable
  have hlen := length_messages_le_diskBytes config p.segments hbuilt
  rw [Partition.messages, hp, List.flatMap_append, List.flatMap_cons] at hnum hst
  rw [hp] at hbuilt
  have hlog := log_of_built (hbuilt s (List.mem_append_right _ List.mem_cons_self))
  have hstS : ∀ m ∈ s.messages, m.Storable := fun m hm =>
    hst m (List.mem_append_right _ (List.mem_append_left _ hm))
  simp only [hlog] at hj hb
  rcases encodeRecords_set s.messages hstS j b hj hb with ⟨rest, hset, hstop, hshort⟩
  -- The messages in front of the damage are a prefix of all of them.
  have hkept : pre.flatMap Segment.messages ++ wholeRecords j s.messages
      <+: pre.flatMap Segment.messages ++ (s.messages ++ post.flatMap Segment.messages) :=
    (List.prefix_append_right_inj _).mpr
      ((wholeRecords_initial j s.messages).trans (List.prefix_append _ _))
  have hnumKept : Numbered 0 (pre.flatMap Segment.messages ++ wholeRecords j s.messages) := by
    rw [List.prefix_iff_eq_take.mp hkept]
    exact numbered_take _ _ _ hnum
  have hfront := recover_stop config pre s.number (wholeRecords j s.messages) rest
    (fun t ht => hbuilt t (List.mem_append_left _ ht)) hnumKept
    (fun m hm => hst m (hkept.subset hm)) hstop
  -- Up to the damaged file the replay is one that stops.
  have hdamage : damage p.files pre.length j b
      = (pre.map (fun s => (⟨s.number, s.log⟩ : SegmentFile)) ++
          [⟨s.number, encodeRecords (wholeRecords j s.messages) ++ rest⟩]) ++
        post.map (fun s => (⟨s.number, s.log⟩ : SegmentFile)) := by
    rw [Partition.files, hp, List.map_append, List.map_cons,
      damage_append _ _ _ _ (List.length_map _).symm, hlog, hset, List.append_assoc,
      List.singleton_append]
  -- Behind the damage every file starts with an offset that is too large.
  have hbehind : ∀ t ∈ post, ∀ m ms, t.messages = m :: ms →
      m.offset ≠ (Partition.ofSegments (pre ++
        [Segment.build config.indexInterval s.number (wholeRecords j s.messages)])).nextOffset := by
    intro t ht m ms hms
    rcases List.mem_iff_append.mp ht with ⟨front, back, rfl⟩
    have hsplit : pre.flatMap Segment.messages ++
        (s.messages ++ (front ++ t :: back).flatMap Segment.messages)
        = (pre.flatMap Segment.messages ++ (s.messages ++ front.flatMap Segment.messages)) ++
          (m :: (ms ++ back.flatMap Segment.messages)) := by
      simp only [List.flatMap_append, List.flatMap_cons, hms, List.append_assoc, List.cons_append]
    rw [hp, List.flatMap_append, List.flatMap_cons, hsplit, ← hp] at hlen
    rw [Partition.files] at hfits
    rw [Partition.ofSegments, List.flatMap_append, List.flatMap_singleton, build_messages]
    refine numbered_offset_ne _ _ m _ (hsplit ▸ hnum) ?_ ?_
    · simp only [List.length_append]
      omega
    · simp only [List.length_append, List.length_cons] at hlen ⊢
      omega
  rw [hdamage, recover, List.foldl_append]
  change (List.foldl (recoverSegment config) (recover config _) _).messages = _
  rw [hfront, foldl_recoverSegment_mismatch config post _
    (fun t ht => hbuilt t (List.mem_append_right _ (List.mem_cons_of_mem s ht)))
    (fun m hm => hst m (List.mem_append_right _ (List.mem_append_right _ hm))) hbehind]
  rw [Partition.messages, List.flatMap_append, messages_emptied, List.append_nil, Partition.ofSegments,
    List.flatMap_append, List.flatMap_singleton, build_messages]

theorem runRemovesNothing_of_appends (config : StorageConfig) (ops : List StorageOp)
    (p : Partition) (h : ∀ now, StorageOp.cleanup now ∉ ops) :
    runRemovesNothing config p ops = true := by
  induction ops generalizing p with
  | nil => rfl
  | cons op ops ih =>
      have hrest := ih (op.exec config p) (fun now hmem => h now (List.mem_cons_of_mem op hmem))
      cases op with
      | append key value now => exact hrest
      | appendReplica m => exact hrest
      | cleanup now => exact absurd List.mem_cons_self (h now)

/-- A single changed byte is always detected. Whatever byte of whatever file
    is changed to a different value, recovery returns exactly the messages in
    front of the damaged record. -/
theorem corruption_detected (config : StorageConfig) (ops : List StorageOp)
    (hops : ∀ now, StorageOp.cleanup now ∉ ops)
    (hfits : diskBytes (runStorage config.effective ops).files < 2 ^ 64)
    (i j : Nat) (b old : UInt8) (file : SegmentFile)
    (hfile : (runStorage config.effective ops).files[i]? = some file)
    (hold : file.log[j]? = some old) (hb : old ≠ b) :
    (recover config.effective (damage (runStorage config.effective ops).files i j b)).messages
      = precedingDamage (runStorage config.effective ops) i j := by
  have hwf : (runStorage config.effective ops).WellFormed config.effective :=
    foldl_exec_wellFormed _ _ _ (freshPartition_wellFormed _)
      (runRemovesNothing_of_appends _ _ _ hops)
  generalize runStorage config.effective ops = p at *
  rw [Partition.files, List.getElem?_map, Option.map_eq_some_iff] at hfile
  rcases hfile with ⟨s, hs, rfl⟩
  rcases List.getElem?_eq_some_iff.mp hs with ⟨hi, hget⟩
  rcases List.getElem?_eq_some_iff.mp hold with ⟨hj, hbyte⟩
  have hp : p.segments = p.segments.take i ++ s :: p.segments.drop (i + 1) := by
    rw [← hget, List.getElem_cons_drop hi, List.take_append_drop]
  have hlen : (p.segments.take i).length = i := by
    rw [List.length_take]
    omega
  have hrec := recover_damage config.effective p hwf hfits (p.segments.take i)
    (p.segments.drop (i + 1)) s hp j b hj (by rw [hbyte]; exact hb)
  rw [hlen] at hrec
  rw [hrec, precedingDamage, hs]
  rfl

/-- The first byte of the second of three segments is damaged. -/
theorem corruption_detected_small :
    (recover tightRetention.effective (damage (runStorage tightRetention.effective
      [.append [] [1] 5, .append [] [2] 6, .append [] [3] 7]).files 1 0 0)).messages
      = precedingDamage (runStorage tightRetention.effective
        [.append [] [1] 5, .append [] [2] 6, .append [] [3] 7]) 1 0 :=
  corruption_detected tightRetention [.append [] [1] 5, .append [] [2] 6, .append [] [3] 7]
    (fun now h => by simp at h) (by decide +kernel) 1 0 0 237
    ⟨1, encodeRecord ⟨1, 6, [], [2]⟩⟩ (by decide +kernel) (by decide +kernel) (by decide +kernel)

end MqBroker
