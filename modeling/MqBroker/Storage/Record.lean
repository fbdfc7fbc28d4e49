import MqBroker.Lib.Crc

/-!
# WAL Records

The record format of the write-ahead log, and the reader that recovery runs
over a segment file.

A record is `[CRC32(4)][BodyLen(4)][Body(N)]`, and a body is
`[Offset(8)][Timestamp(8)][KeyLen(2)][Key(N)][ValueLen(4)][Value(M)]`. The
writer builds the two strings by appending big-endian fields; the reader
checks the header, the length bounds, the checksum, the two inner lengths and
finally that the offset is the one the partition expects next. Every failed
check ends the scan of the file in the same way, by leaving the record loop,
so `readRecord` returns nothing for all of them.

Four facts are all that recovery needs. A whole record reads back as the
message it was written from (`readRecord_encodeRecord`). A record that was
cut short is not read (`readRecord_take`). A record whose offset is not the
expected one is not read (`readRecord_offset_ne`). And a record with one
damaged byte is not read, wherever the damage is (`readRecord_set`).

The last one has three cases. Damage to the checksum field or to the body is
seen by the checksum, the CRC being injective in any one byte. Damage to the
length field escapes it: the body that is then checked is a different string
altogether, longer or shorter than what was written, and its checksum may
well match. But the two inner lengths sit in the bytes both strings share, so
they still add up to the length that was written and not to the damaged one.

## Main definitions

* `Message`: A stored message.
* `crc32`: The checksum of a body.
* `encodeBody`, `encodeRecord`: The strings the writer appends.
* `readRecord`: One turn of the recovery loop.
* `Message.Storable`: What the append paths check of a message.
* `Message.Readable`: What the reader accepts of one.

## Theorems

* `readRecord_encodeRecord`: A whole record reads back.
* `readRecord_some`: What is read was written, and is expected.
* `readRecord_offset_ne`: An unexpected offset stops the scan.
* `readRecord_take`: A truncated record stops the scan.
* `readRecord_set`: A record with one damaged byte stops the scan.
-/

namespace MqBroker

/-- `kRecordHeaderSize`: the checksum and the body length. -/
def recordHeaderSize : Nat := 8

/-- `kBodyFixedSize`: the body without its key and value. -/
def bodyFixedSize : Nat := 22

/-- `kMaxMessageBytes`: the largest value of a message. -/
def maxMessageBytes : Nat := 1024 * 1024

/-- A message of the storage engine. -/
structure Message where
  offset : UInt64 := 0
  timestampMs : Int64 := 0
  key : Bytes := []
  value : Bytes := []
deriving DecidableEq, Repr

/-- The argument check `Append` and `AppendReplica` share: a key that fits
    its length field, and a value that is neither empty nor too large. -/
def Message.Storable (m : Message) : Prop :=
  m.key.length ≤ 65535 ∧ m.value ≠ [] ∧ m.value.length ≤ maxMessageBytes

instance (m : Message) : Decidable m.Storable :=
  inferInstanceAs (Decidable (_ ∧ _ ∧ _))

/-- A message whose key and value fit their length fields. -/
def Message.Framed (m : Message) : Prop := m.key.length ≤ 65535 ∧ m.value.length < 2 ^ 32

instance (m : Message) : Decidable m.Framed :=
  inferInstanceAs (Decidable (_ ∧ _))

theorem Message.Storable.framed {m : Message} (h : m.Storable) : m.Framed := by
  have hmax := h.2.2
  rw [maxMessageBytes] at hmax
  exact ⟨h.1, by omega⟩

/-- What the reader accepts of a message: a key that fits its length field, and
    a body that is not longer than the longest body of a storable message. -/
def Message.Readable (m : Message) : Prop :=
  m.key.length ≤ 65535 ∧ m.key.length + m.value.length ≤ 65535 + maxMessageBytes

instance (m : Message) : Decidable m.Readable :=
  inferInstanceAs (Decidable (_ ∧ _))

theorem Message.Storable.readable {m : Message} (h : m.Storable) : m.Readable :=
  ⟨h.1, Nat.add_le_add h.1 h.2.2⟩

theorem Message.Readable.framed {m : Message} (h : m.Readable) : m.Framed := by
  have hmax := h.2
  rw [maxMessageBytes] at hmax
  exact ⟨h.1, by omega⟩

/-- `Crc32`: the reflected CRC with polynomial `0xEDB88320`. -/
def crc32 (data : Bytes) : UInt32 :=
  ⟨~~~ (crcFold 0xEDB88320#32 0xFFFFFFFF#32 data)⟩

/-- The body the append paths serialise. -/
def encodeBody (m : Message) : Bytes :=
  put64 m.offset ++ (put64 m.timestampMs.toUInt64 ++ (put16 (UInt16.ofNat m.key.length) ++
    (m.key ++ (put32 (UInt32.ofNat m.value.length) ++ m.value))))

/-- The record the append paths write. -/
def encodeRecord (m : Message) : Bytes :=
  put32 (crc32 (encodeBody m)) ++ (put32 (UInt32.ofNat (encodeBody m).length) ++ encodeBody m)

/-- The message a body holds, or nothing when the inner lengths do not add up
    to the length of the record header. -/
def parseBody (len : Nat) (body : Bytes) : Option Message :=
  let keyLen := (get16 body 16).toNat
  if 18 + keyLen + 4 > len then none
  else
    let valueLen := (get32 body (18 + keyLen)).toNat
    if 22 + keyLen + valueLen ≠ len then none
    else some
      { offset := get64 body 0
        timestampMs := (get64 body 8).toInt64
        key := substr body 18 keyLen
        value := substr body (22 + keyLen) valueLen }

/-- One turn of the record loop of `Recover`: the message at the head of the
    unread bytes and the length of its record, or nothing when the loop ends
    there. -/
def readRecord (nextOffset : UInt64) (input : Bytes) : Option (Message × Nat) :=
  if input.length < recordHeaderSize then none
  else
    -- `[CRC32(4)][BodyLen(4)]`
    let crc := get32 input 0
    let len := (get32 input 4).toNat
    if len < bodyFixedSize ∨ len > bodyFixedSize + 65535 + maxMessageBytes then none
    else
      -- A short read leaves fewer bytes than the header announces.
      let body := substr input recordHeaderSize len
      if body.length ≠ len ∨ crc32 body ≠ crc then none
      else
        match parseBody len body with
        | none => none
        | some msg => if msg.offset ≠ nextOffset then none else some (msg, recordHeaderSize + len)

/-! ## Lengths -/

theorem length_encodeBody (m : Message) :
    (encodeBody m).length = bodyFixedSize + m.key.length + m.value.length := by
  simp only [encodeBody, List.length_append, length_put64, length_put16, length_put32,
    bodyFixedSize]
  omega

theorem length_encodeRecord (m : Message) :
    (encodeRecord m).length = recordHeaderSize + (encodeBody m).length := by
  simp only [encodeRecord, List.length_append, length_put32, recordHeaderSize]
  omega

/-- Every record takes up room, which is what makes the scan terminate. -/
theorem recordHeaderSize_le_length (m : Message) : recordHeaderSize ≤ (encodeRecord m).length := by
  rw [length_encodeRecord]
  omega

/-! ## Reading back a body -/

theorem get64_encodeBody_offset (m : Message) : get64 (encodeBody m) 0 = m.offset :=
  get64_put64 _ _

theorem get64_encodeBody_timestamp (m : Message) :
    get64 (encodeBody m) 8 = m.timestampMs.toUInt64 := by
  rw [encodeBody, get64_append_right _ _ _ (by rw [length_put64]), length_put64]
  exact get64_put64 _ _

theorem get16_encodeBody_key (m : Message) :
    get16 (encodeBody m) 16 = UInt16.ofNat m.key.length := by
  rw [encodeBody, get16_append_right _ _ _ (by rw [length_put64]; omega), length_put64,
    get16_append_right _ _ _ (by rw [length_put64]), length_put64]
  exact get16_put16 _ _

theorem substr_encodeBody_key (m : Message) :
    substr (encodeBody m) 18 m.key.length = m.key := by
  rw [encodeBody, substr_append_right _ _ _ _ (by rw [length_put64]; omega), length_put64,
    substr_append_right _ _ _ _ (by rw [length_put64]; omega), length_put64,
    substr_append_right _ _ _ _ (by rw [length_put16]), length_put16]
  exact substr_append_left _ _ _ rfl

/-- The tail of a body from its value length on, at the position the reader
    computes from the key length. -/
theorem encodeBody_split (m : Message) :
    ∃ pre : Bytes, pre.length = 18 + m.key.length ∧
      encodeBody m = pre ++ (put32 (UInt32.ofNat m.value.length) ++ m.value) := by
  refine ⟨put64 m.offset ++ put64 m.timestampMs.toUInt64 ++
    put16 (UInt16.ofNat m.key.length) ++ m.key, ?_, ?_⟩
  · simp only [List.length_append, length_put64, length_put16]
  · simp only [encodeBody, List.append_assoc]

theorem get32_encodeBody_value (m : Message) :
    get32 (encodeBody m) (18 + m.key.length) = UInt32.ofNat m.value.length := by
  rcases encodeBody_split m with ⟨pre, hlen, heq⟩
  rw [heq, get32_append_right _ _ _ (by omega), hlen, Nat.sub_self]
  exact get32_put32 _ _

theorem substr_encodeBody_value (m : Message) :
    substr (encodeBody m) (22 + m.key.length) m.value.length = m.value := by
  rcases encodeBody_split m with ⟨pre, hlen, heq⟩
  rw [heq, substr_append_right _ _ _ _ (by omega), hlen,
    substr_append_right _ _ _ _ (by rw [length_put32]; omega), length_put32,
    show 22 + m.key.length - (18 + m.key.length) - 4 = 0 by omega, substr, List.drop_zero,
    List.take_length]

theorem keyLen_toNat (m : Message) (h : m.Framed) :
    (UInt16.ofNat m.key.length).toNat = m.key.length := by
  rw [UInt16.toNat_ofNat']
  exact Nat.mod_eq_of_lt (by have := h.1; omega)

theorem valueLen_toNat (m : Message) (h : m.Framed) :
    (UInt32.ofNat m.value.length).toNat = m.value.length := by
  rw [UInt32.toNat_ofNat']
  exact Nat.mod_eq_of_lt h.2

theorem parseBody_encodeBody (m : Message) (h : m.Framed) :
    parseBody (encodeBody m).length (encodeBody m) = some m := by
  have hlen := length_encodeBody m
  rw [bodyFixedSize] at hlen
  simp only [parseBody, get16_encodeBody_key, keyLen_toNat m h, get32_encodeBody_value,
    valueLen_toNat m h]
  -- Both length checks compare with the length the writer put together.
  rw [if_neg (by omega), if_neg (by omega), get64_encodeBody_offset, get64_encodeBody_timestamp,
    substr_encodeBody_key, substr_encodeBody_value]
  rfl

/-! ## Reading back a record -/

theorem bodyLen_toNat (m : Message) (h : m.Readable) :
    (UInt32.ofNat (encodeBody m).length).toNat = (encodeBody m).length := by
  have hmax := h.2
  rw [maxMessageBytes] at hmax
  rw [UInt32.toNat_ofNat', length_encodeBody, bodyFixedSize]
  exact Nat.mod_eq_of_lt (by omega)

theorem get32_encodeRecord_crc (m : Message) (rest : Bytes) :
    get32 (encodeRecord m ++ rest) 0 = crc32 (encodeBody m) := by
  rw [encodeRecord, List.append_assoc]
  exact get32_put32 _ _

theorem get32_encodeRecord_len (m : Message) (rest : Bytes) :
    get32 (encodeRecord m ++ rest) 4 = UInt32.ofNat (encodeBody m).length := by
  rw [encodeRecord, List.append_assoc, get32_append_right _ _ _ (by rw [length_put32]),
    length_put32, List.append_assoc]
  exact get32_put32 _ _

theorem drop_encodeRecord (m : Message) (rest : Bytes) :
    (encodeRecord m ++ rest).drop recordHeaderSize = encodeBody m ++ rest := by
  have hhead : (put32 (crc32 (encodeBody m)) ++
      put32 (UInt32.ofNat (encodeBody m).length)).length = recordHeaderSize := by
    simp only [List.length_append, length_put32, recordHeaderSize]
  rw [encodeRecord, ← List.append_assoc, List.append_assoc, ← hhead, List.drop_left]

theorem length_body_bounds (m : Message) (h : m.Readable) :
    ¬ ((encodeBody m).length < bodyFixedSize ∨
      (encodeBody m).length > bodyFixedSize + 65535 + maxMessageBytes) := by
  have hmax := h.2
  rw [length_encodeBody]
  omega

/-- What the reader makes of a buffer that starts with a whole record: only
    the offset check is left to decide. -/
theorem readRecord_whole (m : Message) (h : m.Readable) (next : UInt64) (rest : Bytes) :
    readRecord next (encodeRecord m ++ rest)
      = if m.offset ≠ next then none else some (m, (encodeRecord m).length) := by
  have hhead := recordHeaderSize_le_length m
  have hbody : substr (encodeRecord m ++ rest) recordHeaderSize (encodeBody m).length
      = encodeBody m := by
    rw [substr, drop_encodeRecord, List.take_left]
  rw [readRecord, if_neg (by rw [List.length_append]; omega)]
  simp only [get32_encodeRecord_crc, get32_encodeRecord_len, bodyLen_toNat m h, hbody]
  rw [if_neg (length_body_bounds m h), if_neg (by simp only [ne_eq, not_true_eq_false, or_self,
    not_false_eq_true]), parseBody_encodeBody m h.framed, length_encodeRecord]

theorem readRecord_encodeRecord (m : Message) (h : m.Readable) (next : UInt64) (rest : Bytes)
    (hoff : m.offset = next) :
    readRecord next (encodeRecord m ++ rest) = some (m, (encodeRecord m).length) := by
  rw [readRecord_whole m h, if_neg (by rw [hoff]; exact fun hne => hne rfl)]

theorem readRecord_offset_ne (m : Message) (h : m.Readable) (next : UInt64) (rest : Bytes)
    (hoff : m.offset ≠ next) : readRecord next (encodeRecord m ++ rest) = none := by
  rw [readRecord_whole m h, if_pos hoff]

/-! ## What is read was written -/

/-- A body that parses is the body of the message it parses to. -/
theorem parseBody_some {len : Nat} {body : Bytes} {m : Message} (hlen : body.length = len)
    (h : parseBody len body = some m) : m.key.length ≤ 65535 ∧ body = encodeBody m := by
  rw [← hlen] at h
  simp only [parseBody] at h
  split at h
  · cases h
  · rename_i hkey
    split at h
    · cases h
    · rename_i hvalue
      rw [not_not] at hvalue
      rw [← Option.some.inj h]
      have hkeyLen : (substr body 18 (get16 body 16).toNat).length = (get16 body 16).toNat :=
        length_substr _ _ _ (by omega)
      have hvalueLen : (substr body (22 + (get16 body 16).toNat)
          (get32 body (18 + (get16 body 16).toNat)).toNat).length
          = (get32 body (18 + (get16 body 16).toNat)).toNat :=
        length_substr _ _ _ (by omega)
      refine ⟨?_, ?_⟩
      · rw [hkeyLen]
        exact Nat.le_of_lt_succ (get16 body 16).toNat_lt
      · -- Field by field, and then the fields are put together again.
        simp only [encodeBody, hkeyLen, hvalueLen, UInt16.ofNat_toNat, UInt32.ofNat_toNat,
          UInt64.toUInt64_toInt64]
        rw [put64_get64 _ _ (by omega), put64_get64 _ _ (by omega), put16_get16 _ _ (by omega),
          put32_get32 _ _ (by omega)]
        have hlast : substr body (22 + (get16 body 16).toNat)
            (get32 body (18 + (get16 body 16).toNat)).toNat
            = body.drop (22 + (get16 body 16).toNat) := by
          rw [substr, List.take_of_length_le (by rw [List.length_drop]; omega)]
        rw [hlast, show 22 + (get16 body 16).toNat = 18 + (get16 body 16).toNat + 4 by omega,
          substr_append_drop, substr_append_drop, substr_append_drop body 16 2,
          substr_append_drop body 8 8, substr_append_drop body 0 8, List.drop_zero]

/-- A record that is read is the record of its message, and has the expected
    offset. -/
theorem readRecord_some {next : UInt64} {input : Bytes} {m : Message} {len : Nat}
    (h : readRecord next input = some (m, len)) :
    m.Readable ∧ m.offset = next ∧ len = (encodeRecord m).length ∧
      input = encodeRecord m ++ input.drop len := by
  simp only [readRecord] at h
  split at h
  · cases h
  · rename_i hhead
    split at h
    · cases h
    · rename_i hbounds
      split at h
      · cases h
      · rename_i hcheck
        rcases not_or.mp hcheck with ⟨hlen, hcrc⟩
        rw [not_not] at hlen hcrc
        split at h
        · cases h
        · rename_i msg hbody
          split at h
          · cases h
          · rename_i hoffset
            rcases Prod.mk.inj (Option.some.inj h) with ⟨rfl, rfl⟩
            rcases parseBody_some hlen hbody with ⟨hkey, hencode⟩
            have hsize := length_encodeBody msg
            rw [← hencode, hlen] at hsize
            refine ⟨⟨hkey, by omega⟩, not_not.mp hoffset, ?_, ?_⟩
            · rw [length_encodeRecord, ← hencode, hlen]
            · -- The two header fields are those of the body.
              rw [recordHeaderSize] at hhead
              rw [encodeRecord, ← hencode, hlen, hcrc, UInt32.ofNat_toNat,
                put32_get32 _ _ (by omega), put32_get32 _ _ (by omega), List.append_assoc,
                List.append_assoc, recordHeaderSize, substr_append_drop,
                substr_append_drop input 4 4, substr_append_drop input 0 4, List.drop_zero]

/-! ## Truncation -/

/-- Reading a 32-bit field of a buffer that was cut behind the field. -/
theorem get32_take (data : Bytes) (n pos : Nat) (h : pos + 4 ≤ n) :
    get32 (data.take n) pos = get32 data pos := by
  rw [get32, get32]
  refine congrArg _ (getBE_congr 4 _ _ _ ?_)
  rw [List.take_take, Nat.min_eq_left h]

/-- A record cut anywhere before its end is not read. Either the header is
    incomplete, or it is whole and announces more bytes than are left. -/
theorem readRecord_take (m : Message) (h : m.Readable) (next : UInt64) (n : Nat)
    (hn : n < (encodeRecord m).length) : readRecord next ((encodeRecord m).take n) = none := by
  have hlenTake : ((encodeRecord m).take n).length = n := by
    rw [List.length_take]
    omega
  by_cases hhead : n < recordHeaderSize
  · rw [readRecord, if_pos (by omega)]
  · -- The header is whole, so the announced length is still the full one.
    have hlen : (get32 ((encodeRecord m).take n) 4).toNat = (encodeBody m).length := by
      have hfull := get32_encodeRecord_len m []
      rw [List.append_nil] at hfull
      rw [get32_take _ _ _ (by rw [recordHeaderSize] at hhead; omega), hfull, bodyLen_toNat m h]
    rw [length_encodeRecord] at hn
    have hshort : (substr ((encodeRecord m).take n) recordHeaderSize
        (encodeBody m).length).length ≠ (encodeBody m).length := by
      rw [substr, List.length_take, List.length_drop, hlenTake]
      omega
    rw [readRecord, if_neg (by omega)]
    simp only [hlen]
    rw [if_neg (length_body_bounds m h), if_pos (Or.inl hshort)]

/-! ## One damaged byte -/

theorem crc32_set_ne (data : Bytes) (j : Nat) (b : UInt8) (hj : j < data.length)
    (hb : data[j] ≠ b) : crc32 (data.set j b) ≠ crc32 data := by
  intro h
  have hfold : crcFold 0xEDB88320#32 0xFFFFFFFF#32 (data.set j b)
      = crcFold 0xEDB88320#32 0xFFFFFFFF#32 data :=
    BitVec.not_inj.mp (congrArg UInt32.toBitVec h)
  -- Both strings are the same beginning, one byte, and the same end.
  have hsplit : data.take j ++ data[j] :: data.drop (j + 1) = data := by
    rw [List.getElem_cons_drop hj, List.take_append_drop]
  rw [List.set_eq_take_append_cons_drop, if_pos hj] at hfold
  refine crcFold_ne_of_byte_ne 0xEDB88320#32 (by decide) (by decide) 0xFFFFFFFF#32
    (data.take j) (data.drop (j + 1)) b data[j] (Ne.symm hb) ?_
  rw [hfold, hsplit]

/-- A body read under a wrong length is refused. Its inner lengths are the
    ones that were written, because they sit where the two readings agree, and
    they add up to the length that was written. -/
theorem parseBody_wrong_length (m : Message) (h : m.Storable) (len : Nat) (body : Bytes)
    (hmin : bodyFixedSize ≤ len) (hne : len ≠ (encodeBody m).length)
    (hshare : ∀ k, k ≤ len → k ≤ (encodeBody m).length → body.take k = (encodeBody m).take k) :
    parseBody len body = none := by
  have hL := length_encodeBody m
  rw [bodyFixedSize] at hmin hL
  -- The key length sits within the fixed part, which both readings share.
  have hkey : get16 body 16 = UInt16.ofNat m.key.length := by
    rw [← get16_encodeBody_key, get16, get16]
    exact congrArg _ (getBE_congr 2 _ _ _ (hshare 18 (by omega) (by omega)))
  simp only [parseBody, hkey, keyLen_toNat m h.framed]
  by_cases hfit : 18 + m.key.length + 4 > len
  · rw [if_pos hfit]
  · -- So does the value length, once the reading is long enough to hold it.
    have hval : get32 body (18 + m.key.length) = UInt32.ofNat m.value.length := by
      rw [← get32_encodeBody_value, get32, get32]
      exact congrArg _ (getBE_congr 4 _ _ _ (hshare _ (by omega) (by omega)))
    rw [if_neg hfit, hval, valueLen_toNat m h.framed, if_pos (by omega)]

/-- Damage in the checksum field: the body is intact and disagrees with it. -/
theorem readRecord_set_crc (m : Message) (h : m.Storable) (next : UInt64) (rest : Bytes)
    (j : Nat) (b : UInt8) (hj : j < 4)
    (hb : ∀ hlt : j < (encodeRecord m ++ rest).length, (encodeRecord m ++ rest)[j] ≠ b) :
    readRecord next ((encodeRecord m ++ rest).set j b) = none := by
  have hhead := recordHeaderSize_le_length m
  have hlt : j < (encodeRecord m ++ rest).length := by
    rw [List.length_append]
    rw [recordHeaderSize] at hhead
    omega
  have hlen : (get32 ((encodeRecord m ++ rest).set j b) 4).toNat = (encodeBody m).length := by
    rw [get32_toNat, getBE_set_outside 4 _ _ _ _ (Or.inl hj), ← get32_toNat,
      get32_encodeRecord_len, bodyLen_toNat m h.readable]
  have hbody : substr ((encodeRecord m ++ rest).set j b) recordHeaderSize (encodeBody m).length
      = encodeBody m := by
    rw [substr, List.drop_set, if_pos (by rw [recordHeaderSize]; omega), drop_encodeRecord,
      List.take_left]
  -- The stored checksum is no longer that of the body.
  have hcrc : crc32 (encodeBody m) ≠ get32 ((encodeRecord m ++ rest).set j b) 0 := by
    rw [← get32_encodeRecord_crc m rest]
    intro heq
    refine getBE_set_ne 4 _ 0 j b hlt (hb hlt) (Nat.zero_le j) (by omega) ?_
    rw [← get32_toNat, ← get32_toNat, heq]
  rw [readRecord, if_neg (by rw [List.length_set, List.length_append]; omega)]
  simp only [hlen, hbody]
  rw [if_neg (length_body_bounds m h.readable), if_pos (Or.inr hcrc)]

/-- Damage in the length field: whatever body is read under the wrong length,
    its inner lengths still add up to the right one. -/
theorem readRecord_set_len (m : Message) (h : m.Storable) (next : UInt64) (rest : Bytes)
    (j : Nat) (b : UInt8) (hj4 : 4 ≤ j) (hj8 : j < 8)
    (hb : ∀ hlt : j < (encodeRecord m ++ rest).length, (encodeRecord m ++ rest)[j] ≠ b) :
    readRecord next ((encodeRecord m ++ rest).set j b) = none := by
  have hhead := recordHeaderSize_le_length m
  have hlt : j < (encodeRecord m ++ rest).length := by
    rw [List.length_append]
    rw [recordHeaderSize] at hhead
    omega
  have hne : (get32 ((encodeRecord m ++ rest).set j b) 4).toNat ≠ (encodeBody m).length := by
    rw [← bodyLen_toNat m h.readable, ← get32_encodeRecord_len m rest, get32_toNat, get32_toNat]
    exact getBE_set_ne 4 _ 4 j b hlt (hb hlt) hj4 (by omega)
  -- Behind the header nothing has changed.
  have hdrop : ((encodeRecord m ++ rest).set j b).drop recordHeaderSize
      = encodeBody m ++ rest := by
    rw [List.drop_set, if_pos (by rw [recordHeaderSize]; omega), drop_encodeRecord]
  rw [readRecord, if_neg (by rw [List.length_set, List.length_append]; omega)]
  by_cases hbound : (get32 ((encodeRecord m ++ rest).set j b) 4).toNat < bodyFixedSize ∨
      (get32 ((encodeRecord m ++ rest).set j b) 4).toNat > bodyFixedSize + 65535 + maxMessageBytes
  · simp only [if_pos hbound]
  · simp only [if_neg hbound, substr, hdrop]
    rw [parseBody_wrong_length m h _ _ (by omega) hne]
    · -- The checksum may match by chance; the lengths refuse the body anyway.
      exact ite_self none
    · intro k hk hkL
      rw [List.take_take, Nat.min_eq_left hk, List.take_append_of_le_length hkL]

/-- Damage in the body: the checksum field is intact and disagrees with it. -/
theorem readRecord_set_body (m : Message) (h : m.Storable) (next : UInt64) (rest : Bytes)
    (j : Nat) (b : UInt8) (hj8 : 8 ≤ j) (hjl : j < (encodeRecord m).length)
    (hb : ∀ hlt : j < (encodeRecord m ++ rest).length, (encodeRecord m ++ rest)[j] ≠ b) :
    readRecord next ((encodeRecord m ++ rest).set j b) = none := by
  have hhead := recordHeaderSize_le_length m
  have hlt : j < (encodeRecord m ++ rest).length := by
    rw [List.length_append]
    omega
  rw [length_encodeRecord, recordHeaderSize] at hjl
  have hlen : (get32 ((encodeRecord m ++ rest).set j b) 4).toNat = (encodeBody m).length := by
    rw [get32_toNat, getBE_set_outside 4 _ _ _ _ (Or.inr (by omega)), ← get32_toNat,
      get32_encodeRecord_len, bodyLen_toNat m h.readable]
  have hcrc : get32 ((encodeRecord m ++ rest).set j b) 0 = crc32 (encodeBody m) := by
    rw [← get32_encodeRecord_crc m rest, ← UInt32.toNat_inj, get32_toNat, get32_toNat,
      getBE_set_outside 4 _ _ _ _ (Or.inr (by omega))]
  have hbody : substr ((encodeRecord m ++ rest).set j b) recordHeaderSize (encodeBody m).length
      = (encodeBody m).set (j - 8) b := by
    rw [substr, List.drop_set, if_neg (by rw [recordHeaderSize]; omega), drop_encodeRecord,
      List.take_set, List.take_left, recordHeaderSize]
  -- The changed byte is byte `j - 8` of the body.
  have hbyte : (encodeBody m)[j - 8] ≠ b := by
    have hget : (encodeRecord m ++ rest)[j]? = (encodeBody m)[j - 8]? := by
      have hd := congrArg (fun l : Bytes => l[j - 8]?) (drop_encodeRecord m rest)
      simp only [List.getElem?_drop, recordHeaderSize] at hd
      rw [Nat.add_sub_cancel' hj8] at hd
      rw [hd, List.getElem?_append_left (by omega)]
    rw [List.getElem?_eq_getElem hlt, List.getElem?_eq_getElem (by omega)] at hget
    rw [← Option.some.inj hget]
    exact hb hlt
  have hbad : crc32 ((encodeBody m).set (j - 8) b) ≠ crc32 (encodeBody m) :=
    crc32_set_ne _ _ _ (by omega) hbyte
  rw [readRecord, if_neg (by rw [List.length_set, List.length_append]; omega)]
  simp only [hlen, hbody, hcrc]
  rw [if_neg (length_body_bounds m h.readable), if_pos (Or.inr hbad)]

/-- A record with one damaged byte is not read, wherever the damage is and
    whatever follows the record. -/
theorem readRecord_set (m : Message) (h : m.Storable) (next : UInt64) (rest : Bytes)
    (j : Nat) (b : UInt8) (hjl : j < (encodeRecord m).length)
    (hb : ∀ hlt : j < (encodeRecord m ++ rest).length, (encodeRecord m ++ rest)[j] ≠ b) :
    readRecord next ((encodeRecord m ++ rest).set j b) = none := by
  by_cases hj4 : j < 4
  · exact readRecord_set_crc m h next rest j b hj4 hb
  · by_cases hj8 : j < 8
    · exact readRecord_set_len m h next rest j b (by omega) hj8 hb
    · exact readRecord_set_body m h next rest j b (by omega) hjl hb

end MqBroker
