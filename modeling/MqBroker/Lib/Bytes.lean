import Mathlib.Tactic.Ring
import Mathlib.Data.List.Induction

/-!
# Byte Strings and Fixed-Width Integers

Byte strings as lists of octets, with the fixed-width integer fields that
binary formats are made of. Nothing here belongs to one format: a record, a
frame and a state file are all concatenations of such fields and of raw
strings, and what their readers need is always the same few facts.

`putBE w v` writes the low `w` bytes of `v`, most significant first, and
`getBE w data pos` reads `w` bytes back from a position. The typed fields
`put16`, `put32`, `put64` and their readers are these at the widths 2, 4 and
8, so one round trip lemma serves the three of them.

A reader is handed a whole buffer and a position, and the buffer is a chain
of appended fields. `getBE_append_right` moves a read past a field whose
length is known and `getBE_append_left` drops whatever follows the field, so
a chain is taken apart one field at a time.

## Main definitions

* `Bytes`: A byte string.
* `ofBE`: The value of a byte string read big-endian.
* `putBE`, `getBE`: A big-endian field of a given width.
* `put16`, `put32`, `put64`, `get16`, `get32`, `get64`: The typed fields.
* `putLE`, `getLE`: The same fields in little-endian order.
* `substr`: A substring given by position and length.

## Theorems

* `ofBE_putBE`: Reading a written field gives the value modulo its width.
* `ofBE_injective`: Two strings of one length with one value are equal.
* `getBE_set_ne`: A different byte inside a field changes its value.
* `get64_put64`, `get32_put32`, `get16_put16`: Round trips of typed fields.
* `put64_get64`, `put32_get32`, `put16_get16`: The bytes a field was read from.
* `getLE_putLE`: Round trip of a little-endian field.
* `getBE_middle`: A field inside the middle part of a buffer.
* `length_flatMap_le`: The size of a list of encoded items.
-/

namespace MqBroker

/-- A byte string: a `std::string` used as a buffer. -/
abbrev Bytes := List UInt8

/-- Every test whether a string is in a list rests on this. -/
instance instLawfulBEqBytes : LawfulBEq Bytes := inferInstance

/-- The value of a byte string, most significant byte first. -/
def ofBE (l : Bytes) : Nat :=
  l.foldl (fun value byte => (value <<< 8) ||| byte.toNat) 0

/-- The low `w` bytes of `v`, most significant byte first. -/
def putBE : Nat → Nat → Bytes
  | 0, _ => []
  | w + 1, v => UInt8.ofNat (v >>> (8 * w)) :: putBE w v

/-- The `w`-byte big-endian field of `data` at `pos`. -/
def getBE (w : Nat) (data : Bytes) (pos : Nat) : Nat :=
  ofBE ((data.drop pos).take w)

/-- The bytes `[pos, pos + len)` of `data`. -/
def substr (data : Bytes) (pos len : Nat) : Bytes :=
  (data.drop pos).take len

/-- A 16-bit big-endian field. -/
def put16 (v : UInt16) : Bytes := putBE 2 v.toNat

/-- A 32-bit big-endian field. -/
def put32 (v : UInt32) : Bytes := putBE 4 v.toNat

/-- A 64-bit big-endian field. -/
def put64 (v : UInt64) : Bytes := putBE 8 v.toNat

/-- Reading a 16-bit big-endian field. -/
def get16 (data : Bytes) (pos : Nat) : UInt16 := UInt16.ofNat (getBE 2 data pos)

/-- Reading a 32-bit big-endian field. -/
def get32 (data : Bytes) (pos : Nat) : UInt32 := UInt32.ofNat (getBE 4 data pos)

/-- Reading a 64-bit big-endian field. -/
def get64 (data : Bytes) (pos : Nat) : UInt64 := UInt64.ofNat (getBE 8 data pos)

/-- The low `w` bytes of `v`, least significant byte first. -/
def putLE (w v : Nat) : Bytes := (putBE w v).reverse

/-- The `w`-byte little-endian field of `data` at `pos`. -/
def getLE (w : Nat) (data : Bytes) (pos : Nat) : Nat :=
  ofBE ((data.drop pos).take w).reverse

/-! ## The value of a byte string -/

theorem shift_or_byte (v : Nat) (b : UInt8) : (v <<< 8) ||| b.toNat = v * 256 + b.toNat := by
  rw [← Nat.shiftLeft_add_eq_or_of_lt (b := b.toNat) (i := 8) b.toNat_lt, Nat.shiftLeft_eq]

theorem ofBE_append_singleton (l : Bytes) (b : UInt8) :
    ofBE (l ++ [b]) = ofBE l * 256 + b.toNat := by
  simp only [ofBE, List.foldl_append, List.foldl_cons, List.foldl_nil, shift_or_byte]

/-- A byte string is worth less than the power of its length, so a field of
    the right width always holds it. -/
theorem ofBE_lt (l : Bytes) : ofBE l < 256 ^ l.length := by
  induction l using List.reverseRecOn with
  | nil => simp only [ofBE, List.foldl_nil, List.length_nil, pow_zero, Nat.lt_one_iff]
  | append_singleton l b ih =>
      rw [ofBE_append_singleton, List.length_append, List.length_singleton, pow_succ]
      -- The last byte is a digit in base 256.
      have hb : b.toNat < 256 := b.toNat_lt
      omega

/-- Two strings of one length and one value are the same string. A single
    changed byte therefore changes the value of the field it is in. -/
theorem ofBE_injective (l m : Bytes) (hlen : l.length = m.length) (h : ofBE l = ofBE m) :
    l = m := by
  induction l using List.reverseRecOn generalizing m with
  | nil => exact (List.length_eq_zero_iff.mp hlen.symm).symm
  | append_singleton l b ih =>
      rcases List.eq_nil_or_concat m with rfl | ⟨m, c, rfl⟩
      · simp only [List.length_append, List.length_singleton, List.length_nil] at hlen
        omega
      · rw [List.concat_eq_append] at hlen h ⊢
        rw [ofBE_append_singleton, ofBE_append_singleton] at h
        -- Both last bytes are digits below the base, so quotient and remainder
        -- agree separately.
        have hb : b.toNat < 256 := b.toNat_lt
        have hc : c.toNat < 256 := c.toNat_lt
        have hbc : b = c := UInt8.toNat_inj.mp (by omega)
        have hlm : l = m := by
          refine ih m ?_ (by omega)
          simpa only [List.length_append, List.length_singleton, Nat.add_right_cancel_iff]
            using hlen
        rw [hbc, hlm]

/-! ## Big-endian fields -/

@[simp] theorem length_putBE (w v : Nat) : (putBE w v).length = w := by
  induction w with
  | zero => rfl
  | succ w ih => simp only [putBE, List.length_cons, ih]

/-- The accumulator form of the round trip, which is what the induction on
    the width needs: the bytes already read sit above the field. -/
theorem foldl_putBE (w v acc : Nat) :
    (putBE w v).foldl (fun value byte => (value <<< 8) ||| byte.toNat) acc
      = acc * 256 ^ w + v % 256 ^ w := by
  induction w generalizing acc with
  | zero => simp only [putBE, List.foldl_nil, pow_zero, Nat.mod_one, Nat.mul_one, Nat.add_zero]
  | succ w ih =>
      -- The shift that `putBE` uses is a division by a power of the base.
      have hpow : 2 ^ (8 * w) = 256 ^ w := by
        rw [pow_mul]
        norm_num
      have hbyte : (UInt8.ofNat (v >>> (8 * w))).toNat = v / 256 ^ w % 256 := by
        rw [UInt8.toNat_ofNat', Nat.shiftRight_eq_div_pow, hpow]
      rw [putBE, List.foldl_cons, shift_or_byte, hbyte, ih, Nat.mod_pow_succ, pow_succ]
      ring

theorem ofBE_putBE (w v : Nat) : ofBE (putBE w v) = v % 256 ^ w := by
  rw [ofBE, foldl_putBE, Nat.zero_mul, Nat.zero_add]

theorem getBE_append_left (w : Nat) (a b : Bytes) (pos : Nat) (h : pos + w ≤ a.length) :
    getBE w (a ++ b) pos = getBE w a pos := by
  rw [getBE, getBE, List.drop_append_of_le_length (by omega),
    List.take_append_of_le_length (by rw [List.length_drop]; omega)]

theorem getBE_append_right (w : Nat) (a b : Bytes) (pos : Nat) (h : a.length ≤ pos) :
    getBE w (a ++ b) pos = getBE w b (pos - a.length) := by
  rw [getBE, getBE, List.drop_append, List.drop_eq_nil_of_le h, List.nil_append]

/-- Reading the field at the head of a buffer that starts with it. -/
theorem getBE_putBE_append (w v : Nat) (b : Bytes) : getBE w (putBE w v ++ b) 0 = v % 256 ^ w := by
  rw [getBE, List.drop_zero, List.take_append_of_le_length (by rw [length_putBE]),
    List.take_of_length_le (by rw [length_putBE]), ofBE_putBE]

/-- A field splits into the field of its high bytes and that of its low
    ones. -/
theorem putBE_add (u w v : Nat) : putBE (u + w) v = putBE u (v >>> (8 * w)) ++ putBE w v := by
  induction u with
  | zero => rw [Nat.zero_add, putBE, List.nil_append]
  | succ u ih =>
      rw [Nat.add_right_comm, putBE, putBE, ih, List.cons_append, ← Nat.shiftRight_add,
        Nat.mul_add, Nat.add_comm (8 * u)]

/-- Reading some of the bytes inside a field. -/
theorem getBE_putBE_inside (t u w v : Nat) (b : Bytes) :
    getBE u (putBE (t + (u + w)) v ++ b) t = (v >>> (8 * w)) % 256 ^ u := by
  rw [putBE_add, putBE_add, List.append_assoc,
    getBE_append_right _ _ _ _ (by rw [length_putBE]), length_putBE, Nat.sub_self,
    List.append_assoc, getBE_putBE_append]

theorem length_substr (data : Bytes) (pos len : Nat) (h : pos + len ≤ data.length) :
    (substr data pos len).length = len := by
  rw [substr, List.length_take, List.length_drop]
  omega

/-- A field that is read and written again gives the bytes it was read from. -/
theorem putBE_getBE (w : Nat) (data : Bytes) (pos : Nat) (h : pos + w ≤ data.length) :
    putBE w (getBE w data pos) = substr data pos w := by
  have hlen : (substr data pos w).length = w := by
    rw [substr, List.length_take, List.length_drop]
    omega
  refine ofBE_injective _ _ (by rw [length_putBE, hlen]) ?_
  rw [ofBE_putBE, getBE, ← substr, Nat.mod_eq_of_lt]
  have hlt := ofBE_lt (substr data pos w)
  rw [hlen] at hlt
  exact hlt

/-- A field and what is behind it. -/
theorem substr_append_drop (data : Bytes) (pos len : Nat) :
    substr data pos len ++ data.drop (pos + len) = data.drop pos := by
  rw [substr, ← List.drop_drop, List.take_append_drop]

/-- Two buffers that agree on the bytes of a field agree on its value. -/
theorem getBE_congr (w : Nat) (a b : Bytes) (pos : Nat)
    (h : a.take (pos + w) = b.take (pos + w)) : getBE w a pos = getBE w b pos := by
  have hdrop : ∀ l : Bytes, (l.drop pos).take w = (l.take (pos + w)).drop pos := by
    intro l
    rw [List.take_drop]
  rw [getBE, getBE, hdrop, hdrop, h]

/-! ## Lists of fields -/

theorem length_flatMap_le {α β : Type} (f : α → List β) (bound : Nat) (l : List α)
    (h : ∀ a ∈ l, (f a).length ≤ bound) : (l.flatMap f).length ≤ bound * l.length := by
  induction l with
  | nil => exact Nat.zero_le _
  | cons a l ih =>
      have hfirst := h a List.mem_cons_self
      have hrest := ih fun b hb => h b (List.mem_cons_of_mem a hb)
      rw [List.flatMap_cons, List.length_append, List.length_cons, Nat.mul_succ]
      omega

/-! ## Order -/

/-- What two strings end in does not matter to their order, if the parts in
    front have one length. -/
theorem append_lt_append_iff (x y t : Bytes) (h : x.length = y.length) :
    x ++ t < y ++ t ↔ x < y := by
  induction x generalizing y with
  | nil =>
      rw [List.length_eq_zero_iff.mp h.symm]
      exact iff_of_false (List.lt_irrefl _) (List.lt_irrefl _)
  | cons a x ih =>
      cases y with
      | nil => exact absurd h (Nat.succ_ne_zero _)
      | cons b y =>
          rw [List.cons_append, List.cons_append, List.cons_lt_cons_iff, List.cons_lt_cons_iff,
            ih y (Nat.succ.inj h)]

/-! ## Changing one byte -/

theorem getBE_set_outside (w : Nat) (data : Bytes) (pos j : Nat) (b : UInt8)
    (h : j < pos ∨ pos + w ≤ j) : getBE w (data.set j b) pos = getBE w data pos := by
  rw [getBE, getBE, List.drop_set]
  rcases h with h | h
  · rw [if_pos h]
  · -- The byte lies behind the field: the write falls outside what is taken.
    rw [if_neg (by omega), List.take_set, List.set_eq_of_length_le]
    rw [List.length_take]
    omega

/-- A different byte inside a field gives the field a different value. -/
theorem getBE_set_ne (w : Nat) (data : Bytes) (pos j : Nat) (b : UInt8) (hj : j < data.length)
    (hb : data[j] ≠ b) (hpos : pos ≤ j) (hw : j < pos + w) :
    getBE w (data.set j b) pos ≠ getBE w data pos := by
  intro h
  have hlen : (((data.set j b).drop pos).take w).length = ((data.drop pos).take w).length := by
    simp only [List.length_take, List.length_drop, List.length_set]
  -- Equal values would make the two fields equal, byte by byte.
  have hfield := ofBE_injective _ _ hlen h
  have hbyte : (((data.set j b).drop pos).take w)[j - pos]? = ((data.drop pos).take w)[j - pos]? :=
    congrArg (fun l : Bytes => l[j - pos]?) hfield
  rw [List.getElem?_take_of_lt (by omega), List.getElem?_take_of_lt (by omega),
    List.getElem?_drop, List.getElem?_drop, Nat.add_sub_cancel' hpos, List.getElem?_set_self hj,
    List.getElem?_eq_getElem hj] at hbyte
  exact hb (Option.some.inj hbyte).symm

/-! ## Typed fields -/

@[simp] theorem length_put16 (v : UInt16) : (put16 v).length = 2 := length_putBE 2 _

@[simp] theorem length_put32 (v : UInt32) : (put32 v).length = 4 := length_putBE 4 _

@[simp] theorem length_put64 (v : UInt64) : (put64 v).length = 8 := length_putBE 8 _

theorem get16_put16 (v : UInt16) (b : Bytes) : get16 (put16 v ++ b) 0 = v := by
  rw [get16, put16, getBE_putBE_append, Nat.mod_eq_of_lt (by exact v.toNat_lt), UInt16.ofNat_toNat]

theorem get32_put32 (v : UInt32) (b : Bytes) : get32 (put32 v ++ b) 0 = v := by
  rw [get32, put32, getBE_putBE_append, Nat.mod_eq_of_lt (by exact v.toNat_lt), UInt32.ofNat_toNat]

theorem get64_put64 (v : UInt64) (b : Bytes) : get64 (put64 v ++ b) 0 = v := by
  rw [get64, put64, getBE_putBE_append, Nat.mod_eq_of_lt (by exact v.toNat_lt), UInt64.ofNat_toNat]

theorem get16_append_right (a b : Bytes) (pos : Nat) (h : a.length ≤ pos) :
    get16 (a ++ b) pos = get16 b (pos - a.length) := by
  rw [get16, get16, getBE_append_right 2 a b pos h]

theorem get32_append_right (a b : Bytes) (pos : Nat) (h : a.length ≤ pos) :
    get32 (a ++ b) pos = get32 b (pos - a.length) := by
  rw [get32, get32, getBE_append_right 4 a b pos h]

theorem get64_append_right (a b : Bytes) (pos : Nat) (h : a.length ≤ pos) :
    get64 (a ++ b) pos = get64 b (pos - a.length) := by
  rw [get64, get64, getBE_append_right 8 a b pos h]

theorem get16_append_left (a b : Bytes) (pos : Nat) (h : pos + 2 ≤ a.length) :
    get16 (a ++ b) pos = get16 a pos := by
  rw [get16, get16, getBE_append_left 2 a b pos h]

theorem get32_append_left (a b : Bytes) (pos : Nat) (h : pos + 4 ≤ a.length) :
    get32 (a ++ b) pos = get32 a pos := by
  rw [get32, get32, getBE_append_left 4 a b pos h]

theorem substr_append_right (a b : Bytes) (pos len : Nat) (h : a.length ≤ pos) :
    substr (a ++ b) pos len = substr b (pos - a.length) len := by
  rw [substr, substr, List.drop_append, List.drop_eq_nil_of_le h, List.nil_append]

/-- A field inside the middle part of a buffer is a field of that part. -/
theorem getBE_middle (w : Nat) (front a back : Bytes) (pos : Nat) (h : pos + w ≤ a.length) :
    getBE w (front ++ (a ++ back)) (front.length + pos) = getBE w a pos := by
  rw [getBE_append_right w front _ _ (Nat.le_add_right _ _), Nat.add_sub_cancel_left,
    getBE_append_left w a back pos h]

theorem get16_middle (front a back : Bytes) (pos : Nat) (h : pos + 2 ≤ a.length) :
    get16 (front ++ (a ++ back)) (front.length + pos) = get16 a pos := by
  rw [get16, get16, getBE_middle 2 front a back pos h]

theorem get32_middle (front a back : Bytes) (pos : Nat) (h : pos + 4 ≤ a.length) :
    get32 (front ++ (a ++ back)) (front.length + pos) = get32 a pos := by
  rw [get32, get32, getBE_middle 4 front a back pos h]

theorem get64_middle (front a back : Bytes) (pos : Nat) (h : pos + 8 ≤ a.length) :
    get64 (front ++ (a ++ back)) (front.length + pos) = get64 a pos := by
  rw [get64, get64, getBE_middle 8 front a back pos h]

theorem substr_middle (front a back : Bytes) (pos len : Nat) (h : pos + len ≤ a.length) :
    substr (front ++ (a ++ back)) (front.length + pos) len = substr a pos len := by
  rw [substr_append_right front _ _ _ (Nat.le_add_right _ _), Nat.add_sub_cancel_left, substr,
    substr, List.drop_append_of_le_length (by omega),
    List.take_append_of_le_length (by rw [List.length_drop]; omega)]

/-- The string at the head of a buffer, read by its length. -/
theorem substr_append_left (a b : Bytes) (len : Nat) (h : len = a.length) :
    substr (a ++ b) 0 len = a := by
  rw [substr, List.drop_zero, h, List.take_left]

theorem getBE_lt (w : Nat) (data : Bytes) (pos : Nat) : getBE w data pos < 256 ^ w :=
  lt_of_lt_of_le (ofBE_lt _) (Nat.pow_le_pow_right (by omega) (List.length_take_le _ _))

/-- A typed field is wide enough for every byte string of its width, so
    reading it forgets nothing. -/
theorem get32_toNat (data : Bytes) (pos : Nat) : (get32 data pos).toNat = getBE 4 data pos := by
  rw [get32, UInt32.toNat_ofNat']
  exact Nat.mod_eq_of_lt (getBE_lt 4 data pos)

theorem get16_toNat (data : Bytes) (pos : Nat) : (get16 data pos).toNat = getBE 2 data pos := by
  rw [get16, UInt16.toNat_ofNat']
  exact Nat.mod_eq_of_lt (getBE_lt 2 data pos)

theorem get64_toNat (data : Bytes) (pos : Nat) : (get64 data pos).toNat = getBE 8 data pos := by
  rw [get64, UInt64.toNat_ofNat']
  exact Nat.mod_eq_of_lt (getBE_lt 8 data pos)

theorem put16_get16 (data : Bytes) (pos : Nat) (h : pos + 2 ≤ data.length) :
    put16 (get16 data pos) = substr data pos 2 := by
  rw [put16, get16_toNat, putBE_getBE 2 data pos h]

theorem put32_get32 (data : Bytes) (pos : Nat) (h : pos + 4 ≤ data.length) :
    put32 (get32 data pos) = substr data pos 4 := by
  rw [put32, get32_toNat, putBE_getBE 4 data pos h]

theorem put64_get64 (data : Bytes) (pos : Nat) (h : pos + 8 ≤ data.length) :
    put64 (get64 data pos) = substr data pos 8 := by
  rw [put64, get64_toNat, putBE_getBE 8 data pos h]

/-! ## Little-endian fields -/

@[simp] theorem length_putLE (w v : Nat) : (putLE w v).length = w := by
  rw [putLE, List.length_reverse, length_putBE]

theorem getLE_putLE (w v : Nat) (b : Bytes) : getLE w (putLE w v ++ b) 0 = v % 256 ^ w := by
  rw [getLE, List.drop_zero, List.take_append_of_le_length (by rw [length_putLE]),
    List.take_of_length_le (by rw [length_putLE]), putLE, List.reverse_reverse, ofBE_putBE]

theorem getLE_append_right (w : Nat) (a b : Bytes) (pos : Nat) (h : a.length ≤ pos) :
    getLE w (a ++ b) pos = getLE w b (pos - a.length) := by
  rw [getLE, getLE, List.drop_append, List.drop_eq_nil_of_le h, List.nil_append]

end MqBroker
