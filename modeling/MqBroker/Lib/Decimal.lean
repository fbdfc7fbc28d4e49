import MqBroker.Lib.Bytes
import Mathlib.Data.Nat.Digits.Lemmas

/-!
# Decimal Numbers

Natural numbers written in decimal, as the standard library's `to_string`
writes them, and composite keys made with them.

A key puts a separator between its parts. As long as the last part never
contains the separator, the key determines its parts, whatever bytes the first
part is made of: the separator that counts is the last one. `append_sep_inj`
is that argument, and the digits of a number are never a separator because
they all lie between 48 and 57.

## Main definitions

* `decimal`: The decimal digits of a number.
* `padded`: The digits of a number, with zeros in front.

## Theorems

* `decimal_injective`: A number is determined by its digits.
* `mem_decimal`: Every byte of a decimal number is a digit.
* `padded_lt_iff`: On a fixed count of digits, the order is that of numbers.
* `append_sep_inj`: Splitting a key at its last separator.
-/

namespace MqBroker

/-- The decimal digits of a number, most significant first. -/
def decimal (n : Nat) : Bytes :=
  if n = 0 then [48] else (Nat.digits 10 n).reverse.map (fun d => UInt8.ofNat (48 + d))

theorem toNat_digit (d : Nat) (h : d < 10) : (UInt8.ofNat (48 + d)).toNat = 48 + d := by
  rw [UInt8.toNat_ofNat']
  omega

/-- Every byte of a decimal number is a digit. -/
theorem mem_decimal (n : Nat) (b : UInt8) (h : b ∈ decimal n) : 48 ≤ b.toNat ∧ b.toNat < 58 := by
  unfold decimal at h
  split at h
  · rw [List.mem_singleton.mp h]
    decide
  · rcases List.mem_map.mp h with ⟨d, hd, rfl⟩
    have hlt : d < 10 := Nat.digits_lt_base (by decide) (List.mem_reverse.mp hd)
    rw [toNat_digit d hlt]
    omega

/-- The value of a list of digits, read back from the bytes. -/
def decimalValue (l : Bytes) : Nat := Nat.ofDigits 10 (l.reverse.map (fun b => b.toNat - 48))

theorem decimalValue_decimal (n : Nat) : decimalValue (decimal n) = n := by
  unfold decimal decimalValue
  split
  · rename_i hzero
    rw [hzero]
    rfl
  · -- Digit by digit, the byte gives the digit back.
    have hback : ((Nat.digits 10 n).map (fun d => UInt8.ofNat (48 + d))).map
        (fun b => b.toNat - 48) = Nat.digits 10 n := by
      rw [List.map_map]
      refine (List.map_congr_left ?_).trans (List.map_id _)
      intro d hd
      have hlt : d < 10 := Nat.digits_lt_base (by decide) hd
      simp only [Function.comp_apply, toNat_digit d hlt, id_eq]
      omega
    rw [← List.map_reverse, List.reverse_reverse, hback, Nat.ofDigits_digits]

/-- A number is determined by its digits. -/
theorem decimal_injective (m n : Nat) (h : decimal m = decimal n) : m = n := by
  rw [← decimalValue_decimal m, h, decimalValue_decimal]

/-! ## Digits of one length -/

/-- The characters `isdigit` accepts. -/
def isDigit (byte : UInt8) : Bool := 48 ≤ byte && byte ≤ 57

theorem isDigit_iff (b : UInt8) : isDigit b = true ↔ 48 ≤ b.toNat ∧ b.toNat < 58 := by
  rw [isDigit, Bool.and_eq_true, decide_eq_true_eq, decide_eq_true_eq, UInt8.le_iff_toNat_le,
    UInt8.le_iff_toNat_le]
  exact and_congr Iff.rfl Nat.lt_succ_iff.symm

/-- A number on a fixed count of digits, with zeros in front. -/
def padded (width n : Nat) : Bytes :=
  List.replicate (width - (decimal n).length) 48 ++ decimal n

theorem decimalValue_cons (b : UInt8) (l : Bytes) :
    decimalValue (b :: l) = decimalValue l + 10 ^ l.length * (b.toNat - 48) := by
  rw [decimalValue, List.reverse_cons, List.map_append, Nat.ofDigits_append, List.length_map,
    List.length_reverse, List.map_singleton, Nat.ofDigits_singleton, decimalValue]

theorem decimalValue_lt (l : Bytes) (h : ∀ b ∈ l, isDigit b = true) :
    decimalValue l < 10 ^ l.length := by
  induction l with
  | nil => exact Nat.one_pos
  | cons b l ih =>
      have hb := (isDigit_iff b).mp (h b List.mem_cons_self)
      have hl := ih fun c hc => h c (List.mem_cons_of_mem b hc)
      have hdigit : 10 ^ l.length * (b.toNat - 48) ≤ 10 ^ l.length * 9 :=
        Nat.mul_le_mul_left _ (by omega)
      rw [decimalValue_cons, List.length_cons, pow_succ]
      omega

/-- Strings of digits of one length are in the order of their values. -/
theorem digits_lt_iff (x y : Bytes) (hlen : x.length = y.length)
    (hx : ∀ b ∈ x, isDigit b = true) (hy : ∀ b ∈ y, isDigit b = true) :
    x < y ↔ decimalValue x < decimalValue y := by
  induction x generalizing y with
  | nil =>
      rw [List.length_eq_zero_iff.mp hlen.symm]
      exact iff_of_false (List.not_lt_nil []) (Nat.lt_irrefl _)
  | cons a x ih =>
      cases y with
      | nil => exact absurd hlen (Nat.succ_ne_zero _)
      | cons b y =>
          have hlen' : x.length = y.length := Nat.succ.inj hlen
          have ha := (isDigit_iff a).mp (hx a List.mem_cons_self)
          have hb := (isDigit_iff b).mp (hy b List.mem_cons_self)
          have hxs := decimalValue_lt x fun c hc => hx c (List.mem_cons_of_mem a hc)
          have hys := decimalValue_lt y fun c hc => hy c (List.mem_cons_of_mem b hc)
          rw [List.cons_lt_cons_iff, ih y hlen' (fun c hc => hx c (List.mem_cons_of_mem a hc))
            (fun c hc => hy c (List.mem_cons_of_mem b hc)), decimalValue_cons, decimalValue_cons,
            hlen', UInt8.lt_iff_toNat_lt, ← UInt8.toNat_inj]
          rw [hlen'] at hxs
          -- The first digits decide, unless they are the same.
          rcases Nat.lt_trichotomy a.toNat b.toNat with hlt | heq | hgt
          · have hstep : 10 ^ y.length * (a.toNat - 48 + 1) ≤ 10 ^ y.length * (b.toNat - 48) :=
              Nat.mul_le_mul_left _ (by omega)
            rw [Nat.mul_succ] at hstep
            exact iff_of_true (Or.inl hlt) (by omega)
          · rw [heq]
            constructor
            · rintro (h | h)
              · omega
              · omega
            · exact fun h => Or.inr ⟨rfl, by omega⟩
          · have hstep : 10 ^ y.length * (b.toNat - 48 + 1) ≤ 10 ^ y.length * (a.toNat - 48) :=
              Nat.mul_le_mul_left _ (by omega)
            rw [Nat.mul_succ] at hstep
            exact iff_of_false (by omega) (by omega)

theorem decimalValue_padded (width n : Nat) : decimalValue (padded width n) = n := by
  rw [padded]
  induction width - (decimal n).length with
  | zero => exact decimalValue_decimal n
  | succ k ih =>
      rw [List.replicate_succ, List.cons_append, decimalValue_cons, ih]
      rfl

theorem mem_padded (width n : Nat) : ∀ b ∈ padded width n, isDigit b = true := by
  intro b hb
  rcases List.mem_append.mp hb with hzero | hdigit
  · rw [(List.mem_replicate.mp hzero).2]
    rfl
  · exact (isDigit_iff b).mpr (mem_decimal n b hdigit)

theorem length_padded (width n : Nat) (hwidth : 0 < width) (h : n < 10 ^ width) :
    (padded width n).length = width := by
  have hlen : (decimal n).length ≤ width := by
    unfold decimal
    split
    · exact hwidth
    · rw [List.length_map, List.length_reverse]
      exact (Nat.digits_length_le_iff (by decide) n).mpr h
  rw [padded, List.length_append, List.length_replicate]
  omega

/-- Numbers on a fixed count of digits are in the order of the numbers. -/
theorem padded_lt_iff (width m n : Nat) (hwidth : 0 < width) (hm : m < 10 ^ width)
    (hn : n < 10 ^ width) : padded width m < padded width n ↔ m < n := by
  rw [digits_lt_iff _ _ (by rw [length_padded _ _ hwidth hm, length_padded _ _ hwidth hn])
    (mem_padded width m) (mem_padded width n), decimalValue_padded, decimalValue_padded]

/-! ## Composite keys -/

/-- A part without the separator leaves no room for a second one. -/
theorem cons_sep_inj (c x y : Bytes) (sep : UInt8) (hx : sep ∉ x)
    (h : sep :: x = c ++ sep :: y) : c = [] ∧ x = y := by
  cases c with
  | nil => exact ⟨rfl, (List.cons.inj h).2⟩
  | cons d c =>
      have hmem : sep ∈ x := by
        rw [(List.cons.inj h).2]
        exact List.mem_append_right c List.mem_cons_self
      exact absurd hmem hx

/-- Two keys with the same separator in front of parts that do not contain it
    have the same parts. -/
theorem append_sep_inj (a b x y : Bytes) (sep : UInt8) (hx : sep ∉ x) (hy : sep ∉ y)
    (h : a ++ sep :: x = b ++ sep :: y) : a = b ∧ x = y := by
  -- Whichever first part is longer ends in a piece that holds the other
  -- separator, unless the piece is empty.
  rcases List.append_eq_append_iff.mp h with ⟨c, hb, hc⟩ | ⟨c, ha, hc⟩
  · rcases cons_sep_inj c x y sep hx hc with ⟨rfl, hxy⟩
    exact ⟨(hb.trans (List.append_nil a)).symm, hxy⟩
  · rcases cons_sep_inj c y x sep hy hc with ⟨rfl, hyx⟩
    exact ⟨ha.trans (List.append_nil b), hyx.symm⟩

end MqBroker
