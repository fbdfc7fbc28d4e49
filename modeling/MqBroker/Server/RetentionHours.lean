import MqBroker.Server.Config
import MqBroker.Storage.Retention

/-!
# Retention in Hours

What becomes of `retention_hours` on the way from the file to the cleaner.

`main` multiplies the hours by 3600000 on 64 bits, and the cleaner compares the age of a
segment with the product as a signed number. Neither of the two is checked. A product
from 2^63 on is negative for the cleaner, and every segment with a message is old enough;
from 2^64 on it wraps, and the retention is some other time. `ParseSize` has a check for
its product, but it is not used for the hours.

The clock does not read a time before 1970 here.

## Main definitions

* `Config.storageConfig`: The storage configuration that `main` makes.
* `Config.HonoursRetention`: The cleaner removes nothing for its age too early.
* `Config.HoursFit`: The hours that reach the cleaner as they are.

## Theorems

* `retentionMs_toNat`: The product.
* `Config.HonoursRetention.of_expired`: The age of an expired segment.
* `honoursRetention_iff`: The hours that are honoured.
* `retention_wraps`: A file for which it is not.
-/

namespace MqBroker

/-- The storage configuration of `main`. -/
def Config.storageConfig (config : Config) : StorageConfig :=
  { segmentSizeBytes := config.segmentSize
    retentionMs := config.retentionHours * 60 * 60 * 1000 }

/-- What the cleaner removes from a partition is, at its turn, too large together with
    all later segments, or its last message is at least the configured hours old. For
    0 hours it is never old enough. -/
def Config.HonoursRetention (config : Config) : Prop :=
  ∀ (e : StorageEngine) (now : Int64), e.config = config.storageConfig.effective →
    0 ≤ now.toInt → ∀ place p q, e.partitions.lookup place = some p →
      (e.cleanupExpiredSegments now).partitions.lookup place = some q →
      ∀ front s back, p.segments = front ++ s :: back ++ q.segments →
        Oversized e.config (s :: back ++ q.segments) ∨
          (config.retentionHours ≠ 0 ∧
            (config.retentionHours.toNat * 3600000 : Int) ≤ now.toInt - s.lastTimestampMs.toInt)

/-! ## The product -/

/-- The product wraps at 2^64. -/
theorem retentionMs_toNat (config : Config) :
    config.storageConfig.effective.retentionMs.toNat =
      config.retentionHours.toNat * 3600000 % 2 ^ 64 := by
  have hproduct : config.retentionHours * 60 * 60 * 1000 = config.retentionHours * 3600000 := by
    rw [UInt64.mul_assoc, UInt64.mul_assoc]
    rfl
  show (config.retentionHours * 60 * 60 * 1000).toNat = _
  rw [hproduct, UInt64.toNat_mul]
  rfl

/-- The product is 0 for 0 hours, and where it wraps to 0: 3600000 is an odd number
    times 2^7. -/
theorem retentionMs_eq_zero_iff (config : Config) :
    config.storageConfig.effective.retentionMs = 0 ↔ 2 ^ 57 ∣ config.retentionHours.toNat := by
  have hodd : Nat.Coprime (2 ^ 57) 28125 := by
    exact Nat.Coprime.pow_left 57 (by decide)
  have hfactor : config.retentionHours.toNat * 3600000 =
      2 ^ 7 * (config.retentionHours.toNat * 28125) := by omega
  rw [← UInt64.toNat_inj, retentionMs_toNat, hfactor, show (2 : Nat) ^ 64 = 2 ^ 7 * 2 ^ 57 from rfl,
    Nat.mul_mod_mul_left]
  constructor
  · intro hzero
    have hmod : config.retentionHours.toNat * 28125 % 2 ^ 57 = 0 :=
      (Nat.mul_eq_zero.mp hzero).resolve_left (by decide)
    exact hodd.dvd_of_dvd_mul_right (Nat.dvd_of_mod_eq_zero hmod)
  · intro hdvd
    rw [Nat.mod_eq_zero_of_dvd (Nat.dvd_mul_right_of_dvd hdvd 28125)]
    rfl

/-- A number from 2^63 on is negative as a signed one. -/
theorem toInt64_toInt_of_ge {value : UInt64} (h : 2 ^ 63 ≤ value.toNat) :
    value.toInt64.toInt < 0 := by
  have hlt := value.toNat_lt
  have hsize : Int64.size = 2 ^ 64 := rfl
  rw [← UInt64.ofNat_toNat (x := value), UInt64.toInt64_ofNat', Int64.toInt_ofNat',
    Int.bmod_def, hsize]
  omega

/-- The retention of the source is the number of milliseconds, or the cleaner has
    none. -/
def Config.HoursFit (config : Config) : Prop :=
  config.retentionHours.toNat * 3600000 < 2 ^ 63 ∨ 2 ^ 57 ∣ config.retentionHours.toNat

instance (config : Config) : Decidable config.HoursFit := inferInstanceAs (Decidable (_ ∨ _))

/-! ## The cleaner -/

/-- If the product fits, a segment that fails the age test is as old as it should be. A
    difference that does not fit the signed type wraps to a negative one. -/
theorem Config.HoursFit.age {config : Config} (h : config.HoursFit) {now : Int64} {s : Segment}
    (hnow : 0 ≤ now.toInt) (hexpired : s.expired config.storageConfig.effective now = true) :
    config.retentionHours ≠ 0 ∧
      (config.retentionHours.toNat * 3600000 : Int) ≤ now.toInt - s.lastTimestampMs.toInt := by
  rw [Segment.expired, decide_eq_true_eq] at hexpired
  obtain ⟨hretention, -, hage⟩ := hexpired
  have hfits : config.retentionHours.toNat * 3600000 < 2 ^ 63 := by
    refine h.resolve_right fun hdvd => hretention ?_
    exact (retentionMs_eq_zero_iff config).mpr hdvd
  have hms : config.storageConfig.effective.retentionMs.toNat =
      config.retentionHours.toNat * 3600000 := by
    rw [retentionMs_toNat]
    exact Nat.mod_eq_of_lt (by omega)
  refine ⟨fun hzero => hretention ?_, ?_⟩
  · rw [← UInt64.toNat_inj, hms, hzero]
    rfl
  · have hnowlt := now.toInt_lt
    have hlast := s.lastTimestampMs.toInt_lt
    have hlast' := s.lastTimestampMs.le_toInt
    rw [Int64.le_iff_toInt_le, toInt64_toInt_of_lt (by omega), hms, Int64.toInt_sub,
      Int.bmod_def] at hage
    push_cast at hage
    omega

/-- What the cleaner leaves of a partition with a segment that fails the age test and an
    empty one behind it. -/
theorem cleanup_two {e : StorageEngine} {now : Int64} {place : Bytes × UInt32} {s : Segment}
    (hlookup : e.partitions.lookup place = some { segments := [s, {}] })
    (hexpired : s.expired e.config now = true) :
    (e.cleanupExpiredSegments now).partitions.lookup place = some { segments := [{}] } := by
  rw [StorageEngine.cleanupExpiredSegments, Table.lookup_mapValues, hlookup, Option.map_some,
    Partition.cleanupExpiredSegments]
  have hloop : ∀ total, cleanupLoop e.config now total [s, {}] = [{}] := by
    intro total
    rw [cleanupLoop, hexpired, Bool.true_or, if_pos rfl]
    rfl
  rw [hloop]

/-- If the retention is honoured, an empty segment that fails the age test is as old as
    it should be: two empty segments are not too large. -/
theorem Config.HonoursRetention.of_expired {config : Config} (h : config.HonoursRetention)
    {now : Int64} {s : Segment} (hnow : 0 ≤ now.toInt) (hsize : s.size = 0)
    (hexpired : s.expired config.storageConfig.effective now = true) :
    (config.retentionHours.toNat * 3600000 : Int) ≤ now.toInt - s.lastTimestampMs.toInt := by
  obtain ⟨e, he⟩ : ∃ e : StorageEngine, e = ({ config := config.storageConfig.effective } :
      StorageEngine).put [] 0 { segments := [s, {}] } := ⟨_, rfl⟩
  have hconfig : e.config = config.storageConfig.effective := by rw [he]; rfl
  have hlookup : e.partitions.lookup ([], 0) = some { segments := [s, {}] } := by
    rw [he]
    exact AList.lookup_insert _
  rw [← hconfig] at hexpired
  rcases h e now hconfig hnow ([], 0) _ _ hlookup (cleanup_two hlookup hexpired) [] s [] rfl with
    hlarge | ⟨-, hage⟩
  · obtain ⟨-, hsum⟩ := hlarge
    rw [List.singleton_append, List.map_cons, hsize] at hsum
    exact absurd hsum (Nat.not_lt_zero _)
  · exact hage

/-- Otherwise there is a reading of the clock at which a segment fails the age test
    before it is as old as it should be. -/
theorem exists_expired_early {config : Config} (h : ¬config.HoursFit) :
    ∃ now : Int64, 0 ≤ now.toInt ∧
      ({ lastTimestampMs := -1 } : Segment).expired config.storageConfig.effective now = true ∧
      now.toInt - (-1 : Int64).toInt < config.retentionHours.toNat * 3600000 := by
  rw [Config.HoursFit, not_or, not_lt] at h
  obtain ⟨hlarge, hdvd⟩ := h
  have hretention : config.storageConfig.effective.retentionMs ≠ 0 :=
    fun hzero => hdvd ((retentionMs_eq_zero_iff config).mp hzero)
  have hlast : (-1 : Int64) ≠ 0 := by decide
  obtain ⟨ms, hms⟩ : ∃ ms, config.storageConfig.effective.retentionMs = ms := ⟨_, rfl⟩
  have hone : (-1 : Int64).toInt = -1 := rfl
  simp only [Segment.expired, decide_eq_true_eq, hone]
  rw [hms] at hretention ⊢
  rcases Nat.lt_or_ge ms.toNat (2 ^ 63) with hlt | hge
  · -- The product has wrapped to a short time, and the age is that time.
    have hpos : ms.toNat ≠ 0 := fun hzero => hretention (UInt64.toNat_inj.mp hzero)
    have hvalue := toInt64_toInt_of_lt hlt
    have hone' : (1 : Int64).toInt = 1 := rfl
    have hnow : (ms.toInt64 - 1).toInt = ms.toNat - 1 := by
      rw [Int64.toInt_sub, hvalue, hone', Int.bmod_def]
      omega
    refine ⟨ms.toInt64 - 1, by omega, ⟨hretention, hlast, ?_⟩, by omega⟩
    rw [Int64.le_iff_toInt_le, Int64.toInt_sub, hnow, hone, hvalue, Int.bmod_def]
    omega
  · -- The product is negative for the cleaner, and any age is enough.
    have hneg := toInt64_toInt_of_ge hge
    refine ⟨0, le_rfl, ⟨hretention, hlast, ?_⟩, ?_⟩
    · rw [Int64.le_iff_toInt_le]
      exact hneg.le.trans (by decide)
    · have hzero : (0 : Int64).toInt = 0 := rfl
      omega

/-- The cleaner honours the configured hours exactly if their milliseconds fit a signed
    64-bit number, or wrap to none at all. -/
theorem honoursRetention_iff (config : Config) :
    config.HonoursRetention ↔ config.HoursFit := by
  constructor
  · intro h
    by_contra hfits
    obtain ⟨now, hnow, hexpired, hearly⟩ := exists_expired_early hfits
    have hage := h.of_expired hnow rfl hexpired
    exact absurd hage (not_le.mpr hearly)
  · intro h e now hconfig hnow place p q hp hq front s back hsplit
    obtain ⟨removed, hremoved, hall, -⟩ := cleanupLoop_flagged e.config now p.segments
    have hkept : q.segments =
        cleanupLoop e.config now (p.segments.map Segment.size).sum p.segments := by
      rw [StorageEngine.cleanupExpiredSegments, Table.lookup_mapValues, hp, Option.map_some] at hq
      rw [← Option.some.inj hq]
      rfl
    rw [← hkept] at hremoved hall
    have heq : removed = front ++ s :: back := by
      rw [hremoved] at hsplit
      exact List.append_cancel_right hsplit
    have hflag := hall front s back heq
    rw [Bool.or_eq_true, oversized_iff, hconfig] at hflag
    rw [hconfig]
    exact hflag.symm.imp_right fun hexpired => h.age hnow hexpired

/-- A file that asks for more than 5 * 10^12 hours, which are 34 minutes for the
    cleaner. -/
theorem retention_wraps :
    ∃ config, loadConfig "retention_hours = 5124095576031\n".toUTF8.toList = .ok config ∧
      ¬config.HonoursRetention := by
  refine ⟨{ retentionHours := 5124095576031 }, by decide +kernel, fun h => ?_⟩
  have hage := @Config.HonoursRetention.of_expired _ h 1700002048384
    { lastTimestampMs := 1700000000000 } (by decide) rfl (by decide +kernel)
  exact absurd hage (by decide +kernel)

end MqBroker
