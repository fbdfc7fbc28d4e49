import MqBroker.Core.Topic
import MqBroker.Lib.Utf8

/-!
# Topic Names are UTF-8 Strings

The names that pass `IsValidTopicName` are the encodings of strings, apart from
what the length and the file system rule out.

The walk over a name tells the length of a character from its first byte, and
what it checks of the others are the four rules for a sequence of bytes to
encode a character. A turn of the loop therefore takes one character, whatever
stands behind it, and a name that gets to the end is the encodings of
characters, one after the other.

## Main definitions

* `reservedCharacters`: What a file system does not want in a name.

## Theorems

* `isValidUtf8_sequence`, `isValidUtf8_turn`: A turn takes one character.
* `isValidUtf8_iff`: The walk gets to the end of encoded strings.
* `isValidTopicName_iff`: Which names are valid.
-/

namespace MqBroker

open Utf8

theorem isContinuation_iff (byte : UInt8) : isContinuation byte = true ↔ Continuation byte := by
  have hall : ∀ n < 256, n &&& 0xC0 = 0x80 ↔ 0x80 ≤ n ∧ n < 0xC0 := by decide +kernel
  rw [isContinuation, beq_iff_eq, ← UInt8.toNat_inj, UInt8.toNat_and]
  exact hall byte.toNat byte.toNat_lt

theorem badSecond_iff (first second : UInt8) : badSecond first second = false ↔
    (first.toNat = 0xE0 → 0xA0 ≤ second.toNat) ∧ (first.toNat = 0xED → second.toNat < 0xA0) ∧
      (first.toNat = 0xF0 → 0x90 ≤ second.toNat) ∧ (first.toNat = 0xF4 → second.toNat < 0x90) := by
  simp only [badSecond, Bool.or_eq_false_iff, Bool.and_eq_false_iff, beq_eq_false_iff_ne, ne_eq,
    ← UInt8.toNat_inj, decide_eq_false_iff_not, UInt8.lt_iff_toNat_lt, UInt8.le_iff_toNat_le,
    ge_iff_le, UInt8.reduceToNat, imp_iff_not_or, not_lt, not_le, and_assoc]

/-- A turn of the loop goes over one character. -/
theorem isValidUtf8_sequence {front : Bytes} (h : Sequence front) (rest : Bytes) :
    isValidUtf8 (front ++ rest) = isValidUtf8 rest := by
  cases h with
  | one a ha =>
      rw [List.singleton_append]
      conv_lhs => unfold isValidUtf8
      rw [if_pos (UInt8.lt_iff_toNat_lt.mpr ha)]
  | two a b ha hb =>
      -- No lead of two bytes has second bytes of its own.
      have hbad : badSecond a b = false := (badSecond_iff a b).mpr (by omega)
      simp only [List.cons_append, List.nil_append, isValidUtf8, UInt8.lt_iff_toNat_lt,
        UInt8.le_iff_toNat_le, UInt8.reduceToNat, (isContinuation_iff b).mpr hb, hbad,
        Bool.not_false, Bool.true_and]
      rw [if_neg (by omega), if_pos ha]
  | three a b c ha hb hc hshort hsurrogate =>
      -- Of the leads that have, 0xE0 and 0xED are those of three bytes.
      have hbad : badSecond a b = false :=
        (badSecond_iff a b).mpr ⟨hshort, hsurrogate, by omega, by omega⟩
      simp only [List.cons_append, List.nil_append, isValidUtf8, UInt8.lt_iff_toNat_lt,
        UInt8.le_iff_toNat_le, UInt8.reduceToNat, (isContinuation_iff b).mpr hb,
        (isContinuation_iff c).mpr hc, hbad, Bool.not_false, Bool.true_and]
      rw [if_neg (by omega), if_neg (by omega), if_pos ha]
  | four a b c d ha hb hc hd hshort hlarge =>
      have hbad : badSecond a b = false :=
        (badSecond_iff a b).mpr ⟨by omega, by omega, hshort, hlarge⟩
      simp only [List.cons_append, List.nil_append, isValidUtf8, UInt8.lt_iff_toNat_lt,
        UInt8.le_iff_toNat_le, UInt8.reduceToNat, (isContinuation_iff b).mpr hb,
        (isContinuation_iff c).mpr hc, (isContinuation_iff d).mpr hd, hbad, Bool.not_false,
        Bool.true_and]
      rw [if_neg (by omega), if_neg (by omega), if_neg (by omega), if_pos ha]

/-- What the loop goes over in one turn is a character. -/
theorem isValidUtf8_turn {first : UInt8} {bytes : Bytes}
    (h : isValidUtf8 (first :: bytes) = true) :
    ∃ front rest, first :: bytes = front ++ rest ∧ Sequence front ∧ front ≠ [] ∧
      isValidUtf8 rest = true := by
  unfold isValidUtf8 at h
  simp only [UInt8.lt_iff_toNat_lt, UInt8.le_iff_toNat_le, UInt8.reduceToNat] at h
  -- The lead says how many bytes have to follow.
  split at h
  · rename_i hone
    exact ⟨[first], bytes, rfl, .one first hone, List.cons_ne_nil _ _, h⟩
  · split at h
    · rename_i htwo
      split at h
      · rename_i second rest
        simp only [Bool.and_eq_true, Bool.not_eq_true'] at h
        exact ⟨[first, second], rest, rfl,
          .two first second htwo ((isContinuation_iff second).mp h.1.1), List.cons_ne_nil _ _, h.2⟩
      · cases h
    · split at h
      · rename_i hthree
        split at h
        · rename_i second third rest
          simp only [Bool.and_eq_true, Bool.not_eq_true'] at h
          rcases h with ⟨⟨⟨hsecond, hthird⟩, hbad⟩, hrest⟩
          rcases (badSecond_iff first second).mp hbad with ⟨hshort, hsurrogate, _⟩
          exact ⟨[first, second, third], rest, rfl,
            .three first second third hthree ((isContinuation_iff second).mp hsecond)
              ((isContinuation_iff third).mp hthird) hshort hsurrogate, List.cons_ne_nil _ _, hrest⟩
        · cases h
      · split at h
        · rename_i hfour
          split at h
          · rename_i second third fourth rest
            simp only [Bool.and_eq_true, Bool.not_eq_true'] at h
            rcases h with ⟨⟨⟨⟨hsecond, hthird⟩, hfourth⟩, hbad⟩, hrest⟩
            rcases (badSecond_iff first second).mp hbad with ⟨_, _, hshort, hlarge⟩
            exact ⟨[first, second, third, fourth], rest, rfl,
              .four first second third fourth hfour ((isContinuation_iff second).mp hsecond)
                ((isContinuation_iff third).mp hthird) ((isContinuation_iff fourth).mp hfourth)
                hshort hlarge, List.cons_ne_nil _ _, hrest⟩
          · cases h
        · cases h

/-- The walk gets to the end of a byte string if it is an encoded string. -/
theorem isValidUtf8_iff (s : Bytes) :
    isValidUtf8 s = true ↔
      ∃ characters : List Char, s = characters.flatMap String.utf8EncodeChar := by
  constructor
  · -- A turn goes over one byte at least, so what is left is shorter.
    induction hlength : s.length using Nat.strong_induction_on generalizing s with
    | _ n ih =>
      intro h
      cases s with
      | nil => exact ⟨[], rfl⟩
      | cons first bytes =>
          rcases isValidUtf8_turn h with ⟨front, rest, heq, hfront, hne, hrest⟩
          have hpos := List.length_pos_iff.mpr hne
          have hsplit := congrArg List.length heq
          rw [List.length_append] at hsplit
          rcases ih rest.length (by omega) rest rfl hrest with ⟨characters, rfl⟩
          rcases hfront.encodes with ⟨c, rfl⟩
          exact ⟨c :: characters, heq⟩
  · rintro ⟨characters, rfl⟩
    induction characters with
    | nil => rfl
    | cons c characters ih =>
        rw [List.flatMap_cons, isValidUtf8_sequence (sequence_encode c)]
        exact ih

/-- The characters that a file system reserves. -/
def reservedCharacters : Bytes := "/\\:*?\x22<>|".toUTF8.toList

theorem forbiddenTopicByte_iff (byte : UInt8) : forbiddenTopicByte byte = false ↔
    0x20 ≤ byte ∧ byte ∉ reservedCharacters := by
  have hlist : reservedCharacters = [0x2F, 0x5C, 0x3A, 0x2A, 0x3F, 0x22, 0x3C, 0x3E, 0x7C] := by
    decide +kernel
  simp only [hlist, forbiddenTopicByte, Bool.or_eq_false_iff, decide_eq_false_iff_not,
    UInt8.not_lt, beq_eq_false_iff_ne, ne_eq, List.mem_cons, List.not_mem_nil, or_false, not_or,
    and_assoc]

/-- A name is valid if it is an encoded string, of a length from 1 to 64 bytes,
    without control characters and characters that a file system reserves, and
    not one of the two names of directories. -/
theorem isValidTopicName_iff (s : Bytes) : isValidTopicName s = true ↔
    1 ≤ s.length ∧ s.length ≤ 64 ∧ s ≠ ".".toUTF8.toList ∧ s ≠ "..".toUTF8.toList ∧
      (∀ byte ∈ s, 0x20 ≤ byte ∧ byte ∉ reservedCharacters) ∧
      ∃ characters : List Char, s = characters.flatMap String.utf8EncodeChar := by
  have hdot : ".".toUTF8.toList = [0x2E] := by decide +kernel
  have hdots : "..".toUTF8.toList = [0x2E, 0x2E] := by decide +kernel
  have hempty : s.isEmpty = false ↔ 1 ≤ s.length := by
    rw [List.isEmpty_eq_false_iff, ← List.length_pos_iff]
    exact Nat.succ_le_iff.symm
  rw [isValidTopicName, hdot, hdots]
  simp only [Bool.and_eq_true, Bool.not_eq_true', hempty, decide_eq_true_eq, bne_iff_ne,
    List.any_eq_false, Bool.not_eq_true, forbiddenTopicByte_iff, isValidUtf8_iff, and_assoc]

end MqBroker
