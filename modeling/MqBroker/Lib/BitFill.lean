import Mathlib.Data.Nat.Bitwise
import Mathlib.Data.Nat.Log
import Mathlib.Order.Bounds.Basic

/-!
# Filling the Bits Below the Highest

Or-ing a number with itself shifted right doubles the number of set bits at its
top. `Filled h w m` says that `w` bits of `m` from bit `h` downwards are set,
and nothing above them. A number has one such bit, shifts by 1, 2, 4 and so on
double their number, and once they reach bit 0 the number is one less than a
power of two. `least_two_pow` is why this rounds up: that power is the least one
above the number.

## Main definitions

* `Filled`: The top bits of a number are set.

## Theorems

* `Filled.or_shiftRight`: One shift doubles the set bits.
* `Filled.eq_two_pow_sub_one`: Where they reach bit 0.
* `least_two_pow`: The power of two a number rounds up to.
-/

namespace MqBroker

/-- Bit `h` and the `w - 1` bits below it are set, as far as there are any, and
    no bit above `h` is. -/
structure Filled (h w m : Nat) : Prop where
  lt_two_pow : m < 2 ^ (h + 1)
  top_set : ∀ i, i ≤ h → h < i + w → m.testBit i = true

/-- At first only the highest bit is known to be set. -/
theorem filled_log2 {m : Nat} (hm : m ≠ 0) : Filled m.log2 1 m := by
  refine ⟨Nat.lt_log2_self, fun i hi hlt => ?_⟩
  have heq : i = m.log2 := by omega
  rw [heq]
  exact Nat.testBit_log2 hm

/-- A shift by the number of set bits doubles it. -/
theorem Filled.or_shiftRight {h w m : Nat} (hm : Filled h w m) :
    Filled h (2 * w) (m ||| m >>> w) := by
  constructor
  · exact Nat.or_lt_two_pow hm.lt_two_pow
      (Nat.lt_of_le_of_lt (Nat.shiftRight_le m w) hm.lt_two_pow)
  · intro i hi hlt
    rw [Nat.testBit_or, Nat.testBit_shiftRight, Bool.or_eq_true]
    -- The upper half of the new bits was set before, the lower half is the
    -- upper one moved down by `w`.
    by_cases hupper : h < i + w
    · exact Or.inl (hm.top_set i hi hupper)
    · exact Or.inr (hm.top_set (w + i) (by omega) (by omega))

/-- A number with all bits set from bit `h` down. -/
theorem Filled.eq_two_pow_sub_one {h w m : Nat} (hm : Filled h w m) (hw : h < w) :
    m = 2 ^ (h + 1) - 1 := by
  apply Nat.eq_of_testBit_eq
  intro i
  rw [Nat.testBit_two_pow_sub_one]
  by_cases hi : i < h + 1
  · rw [hm.top_set i (by omega) (by omega), decide_eq_true hi]
  · have hbig : m < 2 ^ i :=
      Nat.lt_of_lt_of_le hm.lt_two_pow (Nat.pow_le_pow_right (by omega) (by omega))
    rw [Nat.testBit_lt_two_pow hbig, decide_eq_false hi]

/-- The least power of two that exceeds a number. -/
theorem least_two_pow {m : Nat} (hm : m ≠ 0) :
    IsLeast {p | (∃ k, p = 2 ^ k) ∧ m < p} (2 ^ (m.log2 + 1)) := by
  refine ⟨⟨⟨_, rfl⟩, Nat.lt_log2_self⟩, ?_⟩
  rintro p ⟨⟨k, rfl⟩, hlt⟩
  have hlog : m.log2 < k := (Nat.log2_lt hm).mpr hlt
  exact Nat.pow_le_pow_right (by omega) hlog

end MqBroker
