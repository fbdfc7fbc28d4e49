import Mathlib.Logic.Basic

/-!
# The Bytes of One Character

Which byte strings are the UTF-8 encoding of one character.

A character is a Unicode scalar value: a number below 0x110000 that is not a
surrogate. Its encoding writes the number in digits of 64, the first of them
beside a mark that says how many follow. So a first byte and some continuation
bytes always stand for a number, and what is left to say is which numbers are
not written in this way: those that need fewer digits, the surrogates, and
those that are too large. All three show in the second byte already, for four
of the first bytes.

## Main definitions

* `Utf8.Continuation`: A byte that holds a digit behind the first.
* `Utf8.Sequence`: The byte strings of one to four bytes that are left.

## Theorems

* `Utf8.sequence_encode`: The encoding of a character is one of them.
* `Utf8.Sequence.encodes`: Each of them is the encoding of a character.
-/

namespace MqBroker

namespace Utf8

/-- A byte of the form `10xxxxxx`. -/
def Continuation (byte : UInt8) : Prop := 0x80 ≤ byte.toNat ∧ byte.toNat < 0xC0

/-- The byte strings that encode one character, by the first byte. -/
inductive Sequence : List UInt8 → Prop
  | one (a : UInt8) (ha : a.toNat < 0x80) : Sequence [a]
  | two (a b : UInt8) (ha : 0xC2 ≤ a.toNat ∧ a.toNat ≤ 0xDF) (hb : Continuation b) :
      Sequence [a, b]
  | three (a b c : UInt8) (ha : 0xE0 ≤ a.toNat ∧ a.toNat ≤ 0xEF) (hb : Continuation b)
      (hc : Continuation c) (hshort : a.toNat = 0xE0 → 0xA0 ≤ b.toNat)
      (hsurrogate : a.toNat = 0xED → b.toNat < 0xA0) : Sequence [a, b, c]
  | four (a b c d : UInt8) (ha : 0xF0 ≤ a.toNat ∧ a.toNat ≤ 0xF4) (hb : Continuation b)
      (hc : Continuation c) (hd : Continuation d) (hshort : a.toNat = 0xF0 → 0x90 ≤ b.toNat)
      (hlarge : a.toNat = 0xF4 → b.toNat < 0x90) : Sequence [a, b, c, d]

/-- A byte is known by its number. -/
theorem ofNat_eq {n : Nat} (byte : UInt8) (h : n = byte.toNat) : UInt8.ofNat n = byte := by
  rw [h, UInt8.ofNat_toNat]

/-- The number of a byte that is made from a small number. -/
theorem toNat_ofNat {n : Nat} (h : n < 256) : (UInt8.ofNat n).toNat = n :=
  UInt8.toNat_ofNat_of_lt' h

/-- A digit of 64 behind the first is a continuation byte. -/
theorem continuation_digit (n : Nat) : Continuation (UInt8.ofNat (n % 0x40 + 0x80)) := by
  rw [Continuation, toNat_ofNat (by omega)]
  omega

/-- The number of a character: no surrogate, and not too large. -/
theorem toNat_valid (c : Char) :
    c.val.toNat < 0xD800 ∨ 0xDFFF < c.val.toNat ∧ c.val.toNat < 0x110000 := c.valid

/-- The encoding of a character, from the digits of its number. -/
theorem sequence_encode (c : Char) : Sequence (String.utf8EncodeChar c) := by
  have hvalid := toNat_valid c
  simp only [String.utf8EncodeChar]
  generalize c.val.toNat = v at hvalid
  -- Four ranges of numbers, one for each length of a sequence.
  split
  · refine .one _ ?_
    rw [toNat_ofNat (by omega)]
    omega
  · split
    · refine .two _ _ ?_ (continuation_digit v)
      rw [toNat_ofNat (by omega)]
      omega
    · split
      · refine .three _ _ _ ?_ (continuation_digit (v / 64)) (continuation_digit v) ?_ ?_
        · rw [toNat_ofNat (by omega)]
          omega
        · rw [toNat_ofNat (by omega), toNat_ofNat (by omega)]
          omega
        · rw [toNat_ofNat (by omega), toNat_ofNat (by omega)]
          omega
      · refine .four _ _ _ _ ?_ (continuation_digit (v / 4096)) (continuation_digit (v / 64))
          (continuation_digit v) ?_ ?_
        · rw [toNat_ofNat (by omega)]
          omega
        · rw [toNat_ofNat (by omega), toNat_ofNat (by omega)]
          omega
        · rw [toNat_ofNat (by omega), toNat_ofNat (by omega)]
          omega

/-- There is a character with every number that is no surrogate and not too
    large. -/
theorem exists_char {n : Nat} (h : n < 0xD800 ∨ 0xDFFF < n ∧ n < 0x110000) :
    ∃ c : Char, c.val.toNat = n :=
  ⟨Char.ofNatAux n h, rfl⟩

/-- The character that a sequence stands for. -/
theorem Sequence.encodes {bytes : List UInt8} (h : Sequence bytes) :
    ∃ c, String.utf8EncodeChar c = bytes := by
  cases h with
  | one a ha =>
      rcases exists_char (n := a.toNat) (by omega) with ⟨c, hc⟩
      refine ⟨c, ?_⟩
      simp only [String.utf8EncodeChar, hc]
      rw [if_pos (by omega), UInt8.ofNat_toNat]
  | two a b ha hb =>
      rw [Continuation] at hb
      rcases exists_char (n := (a.toNat - 0xC0) * 64 + (b.toNat - 0x80)) (by omega) with ⟨c, hc⟩
      refine ⟨c, ?_⟩
      simp only [String.utf8EncodeChar, hc]
      rw [if_neg (by omega), if_pos (by omega), ofNat_eq a (by omega), ofNat_eq b (by omega)]
  | three a b c ha hb hc hshort hsurrogate =>
      rw [Continuation] at hb hc
      -- It is not a shorter form and not a surrogate because of its second byte.
      have hvalid : ((a.toNat - 0xE0) * 4096 + (b.toNat - 0x80) * 64 + (c.toNat - 0x80)) < 0xD800 ∨
          0xDFFF < ((a.toNat - 0xE0) * 4096 + (b.toNat - 0x80) * 64 + (c.toNat - 0x80)) ∧
          ((a.toNat - 0xE0) * 4096 + (b.toNat - 0x80) * 64 + (c.toNat - 0x80)) < 0x110000 := by
        omega
      rcases exists_char hvalid with ⟨char, hchar⟩
      refine ⟨char, ?_⟩
      simp only [String.utf8EncodeChar, hchar]
      rw [if_neg (by omega), if_neg (by omega), if_pos (by omega), ofNat_eq a (by omega),
        ofNat_eq b (by omega), ofNat_eq c (by omega)]
  | four a b c d ha hb hc hd hshort hlarge =>
      rw [Continuation] at hb hc hd
      rcases exists_char (n := (a.toNat - 0xF0) * 262144 + (b.toNat - 0x80) * 4096 +
        (c.toNat - 0x80) * 64 + (d.toNat - 0x80)) (by omega) with ⟨char, hchar⟩
      refine ⟨char, ?_⟩
      simp only [String.utf8EncodeChar, hchar]
      rw [if_neg (by omega), if_neg (by omega), if_neg (by omega), ofNat_eq a (by omega),
        ofNat_eq b (by omega), ofNat_eq c (by omega), ofNat_eq d (by omega)]

end Utf8

end MqBroker
