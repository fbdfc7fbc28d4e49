import MqBroker.Lib.Bytes

/-!
# Reflected Cyclic Redundancy Checks

The bitwise right-shifting CRC, at any width and for any polynomial whose top
bit is set, and why it notices a single damaged byte.

One bit step shifts the register down and, when the bit that falls out is
set, adds the polynomial. Because the polynomial's top bit is set and a shift
leaves the top bit clear, the top bit of the result says which of the two
happened. Nothing is lost, so the step is injective (`crcBit_injective`), and
so is everything built from it by iteration.

A change of one byte puts two different values in the register at that point.
From there on both runs absorb the same bytes, every one an injective step,
so the registers can never meet again: `crcFold_ne_of_byte_ne`.

## Main definitions

* `crcBit`: One bit step of the register.
* `crcByte`: Absorbing one byte, eight bit steps.
* `crcFold`: Absorbing a byte string.

## Theorems

* `crcBit_injective`: A bit step loses nothing.
* `crcFold_injective`: Absorbing a fixed string loses nothing.
* `crcFold_ne_of_byte_ne`: One changed byte changes the register for good.
-/

namespace MqBroker

variable {w : Nat}

/-- One bit step: shift down, adding the polynomial when a set bit falls out. -/
def crcBit (poly c : BitVec w) : BitVec w :=
  -- The mask `-(c & 1)` selects the polynomial without a branch.
  (c >>> 1) ^^^ (poly &&& -(c &&& 1#w))

/-- Absorb one byte into the low end of the register, then step eight bits. -/
def crcByte (poly c : BitVec w) (byte : UInt8) : BitVec w :=
  (crcBit poly)^[8] (c ^^^ BitVec.ofNat w byte.toNat)

/-- Absorb a byte string. -/
def crcFold (poly init : BitVec w) (data : Bytes) : BitVec w :=
  data.foldl (crcByte poly) init

/-- The mask `-(c & 1)` is all ones or all zeros, whichever the low bit is. -/
theorem neg_and_one (c : BitVec w) :
    -(c &&& 1#w) = if c.getLsbD 0 then BitVec.allOnes w else 0#w := by
  have hand : c &&& 1#w = if c.getLsbD 0 then 1#w else 0#w := by
    rw [BitVec.and_one_eq_setWidth_ofBool_getLsbD]
    by_cases h : c.getLsbD 0
    · rw [if_pos h, h]
      exact BitVec.eq_of_toNat_eq (by simp)
    · rw [if_neg h]
      simp [h]
  rw [hand]
  by_cases h : c.getLsbD 0
  · rw [if_pos h, if_pos h, BitVec.neg_one_eq_allOnes]
  · rw [if_neg h, if_neg h, BitVec.neg_zero]

theorem crcBit_eq (poly c : BitVec w) :
    crcBit poly c = if c.getLsbD 0 then (c >>> 1) ^^^ poly else c >>> 1 := by
  rw [crcBit, neg_and_one]
  by_cases h : c.getLsbD 0
  · rw [if_pos h, if_pos h, BitVec.and_allOnes]
  · rw [if_neg h, if_neg h, BitVec.and_zero, BitVec.xor_zero]

/-- The top bit of a step's result is the bit that fell out: the shift leaves
    it clear and the polynomial sets it. -/
theorem crcBit_msb (poly c : BitVec (w + 1)) (hpoly : poly.getLsbD w = true) :
    (crcBit poly c).getLsbD w = c.getLsbD 0 := by
  have hshift : (c >>> 1).getLsbD w = false := by
    rw [BitVec.getLsbD_ushiftRight]
    exact BitVec.getLsbD_of_ge c (1 + w) (by omega)
  rw [crcBit_eq]
  by_cases h : c.getLsbD 0
  · rw [if_pos h, BitVec.getLsbD_xor, hshift, hpoly, h]
    rfl
  · rw [if_neg h, hshift]
    simpa using h

/-- Equal low bits and equal shifts make equal registers. -/
theorem eq_of_shift_eq (a b : BitVec w) (h0 : a.getLsbD 0 = b.getLsbD 0)
    (hs : a >>> 1 = b >>> 1) : a = b := by
  refine BitVec.eq_of_getLsbD_eq (fun i _ => ?_)
  -- Bit 0 is given, and bit `i + 1` is bit `i` of the shift.
  cases i with
  | zero => exact h0
  | succ i =>
      have h := congrArg (fun v => v.getLsbD i) hs
      simpa only [BitVec.getLsbD_ushiftRight, Nat.add_comm 1 i] using h

/-- A bit step is injective. The top bit of the result reveals which bit was
    shifted out, and with it known the polynomial can be taken off again. -/
theorem crcBit_injective (poly : BitVec (w + 1)) (hpoly : poly.getLsbD w = true) :
    Function.Injective (crcBit poly) := by
  intro a b hab
  -- The top bits of the equal results are the low bits of the arguments.
  have h0 : a.getLsbD 0 = b.getLsbD 0 := by
    rw [← crcBit_msb poly a hpoly, ← crcBit_msb poly b hpoly, hab]
  refine eq_of_shift_eq a b h0 ?_
  rw [crcBit_eq, crcBit_eq, h0] at hab
  by_cases h : b.getLsbD 0
  · rw [if_pos h, if_pos h] at hab
    exact (BitVec.xor_left_inj poly).mp hab
  · rw [if_neg h, if_neg h] at hab
    exact hab

theorem crcByte_injective (poly : BitVec (w + 1)) (hpoly : poly.getLsbD w = true) (byte : UInt8) :
    Function.Injective (fun c => crcByte poly c byte) := by
  intro a b hab
  have h := (crcBit_injective poly hpoly).iterate 8 hab
  exact (BitVec.xor_left_inj _).mp h

/-- Absorbing a fixed string is injective in the register it starts from. -/
theorem crcFold_injective (poly : BitVec (w + 1)) (hpoly : poly.getLsbD w = true) (data : Bytes) :
    Function.Injective (fun c => crcFold poly c data) := by
  induction data with
  | nil => exact fun a b hab => hab
  | cons byte data ih => exact fun a b hab => crcByte_injective poly hpoly byte (ih hab)

/-- Different bytes put different values in the register, as long as it is
    wide enough for a byte. -/
theorem crcByte_ne (poly : BitVec (w + 1)) (hpoly : poly.getLsbD w = true) (hw : 8 ≤ w + 1)
    (c : BitVec (w + 1)) (x y : UInt8) (hxy : x ≠ y) : crcByte poly c x ≠ crcByte poly c y := by
  intro h
  have hxor := (crcBit_injective poly hpoly).iterate 8 h
  have hval := congrArg BitVec.toNat ((BitVec.xor_right_inj c).mp hxor)
  -- In a register of eight bits or more a byte is not cut off.
  have hpow : 2 ^ 8 ≤ 2 ^ (w + 1) := Nat.pow_le_pow_right (by norm_num) hw
  have hx : x.toNat < 2 ^ 8 := x.toNat_lt
  have hy : y.toNat < 2 ^ 8 := y.toNat_lt
  rw [BitVec.toNat_ofNat, BitVec.toNat_ofNat, Nat.mod_eq_of_lt (by omega),
    Nat.mod_eq_of_lt (by omega)] at hval
  exact hxy (UInt8.toNat_inj.mp hval)

/-- One changed byte changes the final register. The prefix brings both runs
    to the same register, the changed byte separates them, and the suffix is
    injective and cannot bring them together. -/
theorem crcFold_ne_of_byte_ne (poly : BitVec (w + 1)) (hpoly : poly.getLsbD w = true)
    (hw : 8 ≤ w + 1) (init : BitVec (w + 1)) (pre post : Bytes) (x y : UInt8) (hxy : x ≠ y) :
    crcFold poly init (pre ++ x :: post) ≠ crcFold poly init (pre ++ y :: post) := by
  intro h
  simp only [crcFold, List.foldl_append, List.foldl_cons] at h
  exact crcByte_ne poly hpoly hw _ x y hxy (crcFold_injective poly hpoly post h)

end MqBroker
