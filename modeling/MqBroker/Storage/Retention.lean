import MqBroker.Storage.Retained

/-!
# What Retention Removes

The cleaner removes the oldest surplus of a log and nothing else.

It works with a running total, from which it takes the size of every segment
it removes. So at each turn the total is the bytes of the segments that are
left, and the two tests of a turn are about the oldest of them: its own age,
and the bytes of it and all later ones. `Due` is that condition on a list of
segments. The loop stops at the first list that is not due, or at the last
segment.

Times are 64-bit integers, and the age of a segment is their difference on 64
bits. As long as the difference fits, it is the true one (`ageMs_eq`).

## Main definitions

* `Segment.ageMs`: The age of the last message of a segment.
* `Due`: The oldest of some segments is to be removed.

## Theorems

* `due_iff`: The two tests of a turn.
* `cleanupLoop_flagged`, `cleanupLoop_exact`: What the loop removes, and where it
  stops.
* `cleanup_exact`: What the cleaner does to all partitions.
-/

namespace MqBroker

/-- The age of the last message of a segment. -/
def Segment.ageMs (now : Int64) (s : Segment) : Int := (now - s.lastTimestampMs).toInt

/-- A segment is expired: there is a retention time, the segment has had a
    message, and that message is too old. -/
def Segment.Expired (config : StorageConfig) (now : Int64) (s : Segment) : Prop :=
  config.retentionMs ≠ 0 ∧ s.lastTimestampMs ≠ 0 ∧ (config.retentionMs.toNat : Int) ≤ s.ageMs now

/-- Some segments are too large together. -/
def Oversized (config : StorageConfig) (segments : List Segment) : Prop :=
  config.retentionBytes ≠ 0 ∧ config.retentionBytes.toNat < (segments.map Segment.size).sum

/-- The oldest of some segments is to be removed: it is expired, or it and the
    later ones are too large. -/
def Due (config : StorageConfig) (now : Int64) : List Segment → Prop
  | [] => False
  | oldest :: later => oldest.Expired config now ∨ Oversized config (oldest :: later)

/-- The age is the difference of the times, if that fits. -/
theorem ageMs_eq (now : Int64) (s : Segment) (hlow : -2 ^ 63 ≤ now.toInt - s.lastTimestampMs.toInt)
    (hhigh : now.toInt - s.lastTimestampMs.toInt < 2 ^ 63) :
    s.ageMs now = now.toInt - s.lastTimestampMs.toInt := by
  rw [Segment.ageMs, Int64.toInt_sub, Int.bmod_def]
  omega

/-- A number that fits the signed type keeps its value there. -/
theorem toInt64_toInt_of_lt {value : UInt64} (h : value.toNat < 2 ^ 63) :
    value.toInt64.toInt = value.toNat := by
  rw [← UInt64.ofNat_toNat (x := value), UInt64.toInt64_ofNat', UInt64.ofNat_toNat,
    Int64.toInt_ofNat_of_lt (by omega)]

/-- The test of the source is the one on the age, as long as the retention time
    fits the signed type. -/
theorem expired_iff (config : StorageConfig) (now : Int64) (s : Segment)
    (h : config.retentionMs.toNat ≤ 2 ^ 63 - 1) :
    s.expired config now = true ↔ s.Expired config now := by
  have hretention := toInt64_toInt_of_lt (Nat.lt_of_le_pred (by decide) h)
  rw [Segment.expired, decide_eq_true_eq, Segment.Expired, Segment.ageMs, ← hretention,
    Int64.le_iff_toInt_le]

theorem oversized_iff (config : StorageConfig) (segments : List Segment) :
    oversized config (segments.map Segment.size).sum = true ↔ Oversized config segments := by
  rw [oversized, decide_eq_true_eq, Oversized, gt_iff_lt]

/-- The two tests of a turn. -/
theorem due_iff (config : StorageConfig) (now : Int64) (oldest : Segment) (later : List Segment)
    (h : config.retentionMs.toNat ≤ 2 ^ 63 - 1) :
    (oldest.expired config now || oversized config ((oldest :: later).map Segment.size).sum) = true
      ↔ Due config now (oldest :: later) := by
  rw [Bool.or_eq_true, expired_iff config now oldest h, oversized_iff, Due]

/-- What the loop removes and where it stops, in terms of its two tests. The total is
    the sum of the sizes of the segments that are left. -/
theorem cleanupLoop_flagged (config : StorageConfig) (now : Int64) (segments : List Segment) :
    ∃ removed, segments
        = removed ++ cleanupLoop config now (segments.map Segment.size).sum segments ∧
      (∀ front s back, removed = front ++ s :: back → (s.expired config now ||
        oversized config ((s :: back ++ cleanupLoop config now
          (segments.map Segment.size).sum segments).map Segment.size).sum) = true) ∧
      ((cleanupLoop config now (segments.map Segment.size).sum segments).length ≤ 1 ∨
        ∃ oldest later,
          cleanupLoop config now (segments.map Segment.size).sum segments = oldest :: later ∧
          ¬(oldest.expired config now ||
            oversized config ((oldest :: later).map Segment.size).sum) = true) := by
  have hnone : ∀ (kept front : List Segment) (s : Segment) (back : List Segment),
      [] = front ++ s :: back → (s.expired config now ||
        oversized config ((s :: back ++ kept).map Segment.size).sum) = true :=
    fun kept front s back heq =>
      absurd heq.symm (List.append_ne_nil_of_right_ne_nil front (List.cons_ne_nil s back))
  -- The induction is on the segments; the total stays the sum of their sizes.
  induction segments with
  | nil => exact ⟨[], rfl, hnone _, Or.inl (Nat.zero_le 1)⟩
  | cons oldest rest ih =>
      cases rest with
      | nil => exact ⟨[], rfl, hnone _, Or.inl le_rfl⟩
      | cons next rest =>
          simp only [cleanupLoop]
          by_cases hremove : (oldest.expired config now ||
              oversized config ((oldest :: next :: rest).map Segment.size).sum) = true
          · rw [if_pos hremove]
            have htotal : ((oldest :: next :: rest).map Segment.size).sum - oldest.size
                = ((next :: rest).map Segment.size).sum := by
              rw [List.map_cons, List.sum_cons, Nat.add_sub_cancel_left]
            rw [htotal]
            rcases ih with ⟨removed, hsplit, hall, hstop⟩
            refine ⟨oldest :: removed, by rw [List.cons_append, ← hsplit], ?_, hstop⟩
            intro front s back heq
            cases front with
            | nil =>
                -- The segment of this turn, in front of everything that was left.
                rcases List.cons.inj heq with ⟨rfl, rfl⟩
                rw [List.cons_append, ← hsplit]
                exact hremove
            | cons first front => exact hall front s back (List.cons.inj heq).2
          · rw [if_neg hremove]
            exact ⟨[], rfl, hnone _, Or.inr ⟨oldest, next :: rest, rfl, hremove⟩⟩

/-- What the loop removes and where it stops. Each segment it removes was due
    when its turn came, and what is left is one segment or is not due. -/
theorem cleanupLoop_exact (config : StorageConfig) (now : Int64) (segments : List Segment)
    (h : config.retentionMs.toNat ≤ 2 ^ 63 - 1) :
    ∃ removed, segments
        = removed ++ cleanupLoop config now (segments.map Segment.size).sum segments ∧
      (∀ front s back, removed = front ++ s :: back → Due config now
        (s :: back ++ cleanupLoop config now (segments.map Segment.size).sum segments)) ∧
      ((cleanupLoop config now (segments.map Segment.size).sum segments).length ≤ 1 ∨
        ¬ Due config now (cleanupLoop config now (segments.map Segment.size).sum segments)) := by
  rcases cleanupLoop_flagged config now segments with ⟨removed, hsplit, hall, hstop⟩
  refine ⟨removed, hsplit, fun front s back heq => ?_, hstop.imp_right ?_⟩
  · exact (due_iff config now s _ h).mp (hall front s back heq)
  · rintro ⟨oldest, later, hkept, hkeep⟩ hdue
    rw [hkept] at hdue
    exact hkeep ((due_iff config now oldest later h).mpr hdue)

/-- What the cleaner does to all partitions. From each it removes segments at
    the front, and not the last one, and each of these was due when its turn
    came: expired, or too large together with all later ones. Afterwards one
    segment is left, or the oldest is not expired and all are not too large. The
    next offset and what is kept stay as they are. -/
theorem cleanup_exact (e : StorageEngine) (now : Int64)
    (hretention : e.config.retentionMs.toNat ≤ 2 ^ 63 - 1) :
    (∀ s : Segment, -2 ^ 63 ≤ now.toInt - s.lastTimestampMs.toInt →
        now.toInt - s.lastTimestampMs.toInt < 2 ^ 63 →
        s.ageMs now = now.toInt - s.lastTimestampMs.toInt) ∧
      ∀ place p, e.partitions.lookup place = some p →
        ∃ q removed, (e.cleanupExpiredSegments now).partitions.lookup place = some q ∧
          p.segments = removed ++ q.segments ∧
          (p.segments ≠ [] → q.segments ≠ []) ∧
          q.nextOffset = p.nextOffset ∧
          (∀ front s back, removed = front ++ s :: back →
            s.Expired e.config now ∨ Oversized e.config (s :: back ++ q.segments)) ∧
          (q.segments.length ≤ 1 ∨
            (∀ oldest later, q.segments = oldest :: later → ¬ oldest.Expired e.config now) ∧
              ¬ Oversized e.config q.segments) := by
  refine ⟨ageMs_eq now, fun place p hp => ?_⟩
  rcases cleanupLoop_exact e.config now p.segments hretention with ⟨removed, hsplit, hall, hstop⟩
  refine ⟨p.cleanupExpiredSegments e.config now, removed, ?_, hsplit, ?_, rfl, ?_, ?_⟩
  · rw [StorageEngine.cleanupExpiredSegments, Table.lookup_mapValues, hp, Option.map_some]
  · exact (cleanupLoop_suffix e.config now p.totalSize p.segments).2
  · exact fun front s back heq => hall front s back heq
  · refine hstop.imp_right fun hdue => ?_
    rw [← Partition.totalSize] at hdue
    rw [Partition.cleanupExpiredSegments]
    cases hkept : cleanupLoop e.config now p.totalSize p.segments with
    | nil =>
        refine ⟨fun oldest later heq => absurd heq.symm (List.cons_ne_nil _ _), fun hlarge => ?_⟩
        exact absurd hlarge.2 (Nat.not_lt_zero _)
    | cons oldest later =>
        rw [hkept, Due, not_or] at hdue
        refine ⟨fun first others heq => ?_, hdue.2⟩
        rw [← (List.cons.inj heq).1]
        exact hdue.1

/-- A log of two segments of 31 bytes, of which at most 40 are retained. -/
theorem cleanup_exact_two :
    let p : Partition := { segments := [{ size := 31 }, { number := 1, size := 31 }] }
    let e := ({ config := { retentionBytes := 40 } } : StorageEngine).put [97] 0 p
    ∃ q removed, (e.cleanupExpiredSegments 7).partitions.lookup ([97], 0) = some q ∧
      p.segments = removed ++ q.segments ∧ q.segments ≠ [] ∧
      (q.segments.length ≤ 1 ∨ ¬ Oversized e.config q.segments) := by
  intro p e
  have hlookup : e.partitions.lookup ([97], 0) = some p := AList.lookup_insert _
  rcases (cleanup_exact e 7 (by decide)).2 ([97], 0) p hlookup with
    ⟨q, removed, hq, hsplit, hne, _, _, hstop⟩
  exact ⟨q, removed, hq, hsplit, hne (List.cons_ne_nil _ _), hstop.imp_right And.right⟩

end MqBroker
