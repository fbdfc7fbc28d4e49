import MqBroker.Lib.Block
import MqBroker.Lib.Runs

/-!
# The Read Buffer

`Buffer` is the bytes of a connection that have arrived and have not been
consumed. It is a block of memory with two positions, and moves its content to
the front when there is room for new bytes, but not behind the write position.
The two tests use different free spaces: `Append` refuses by `capacity_bytes_ -
readable_bytes()` and compacts by `writable_bytes()`.

An operation whose copy would leave the block has no result here.

`ByteQueue` says what the buffer is for: a queue of bytes that never holds more
than its capacity.

## Main definitions

* `Buffer`, `Buffer.create`, `Buffer.exec`: The buffer and its operations.
* `ByteQueue`, `ByteQueue.exec`: A bounded queue of bytes.
* `Buffer.Holds`: A buffer holds what a queue holds.

## Theorems

* `Buffer.Holds.exec`: An operation does to both the same.
* `Buffer.run_holds`: A buffer is a bounded queue of bytes in every run.
-/

namespace MqBroker

/-! ## Queue -/

/-- A queue of at most `capacity` bytes, oldest first. -/
structure ByteQueue (capacity : Nat) where
  bytes : Bytes
  fits : bytes.length ≤ capacity

/-- What is done to a buffer. -/
inductive BufferOp
  | append (data : Bytes)
  | consume (bytes : UInt64)
  | clear

namespace ByteQueue

variable {capacity : Nat}

def empty (capacity : Nat) : ByteQueue capacity := ⟨[], Nat.zero_le _⟩

/-- Bytes enter at the end if all of them fit. -/
def append (q : ByteQueue capacity) (data : Bytes) : ByteQueue capacity × Bool :=
  if h : q.bytes.length + data.length ≤ capacity then
    (⟨q.bytes ++ data, by rw [List.length_append]; exact h⟩, true)
  else (q, false)

/-- Bytes leave at the front, as many as there are. -/
def consume (q : ByteQueue capacity) (n : Nat) : ByteQueue capacity :=
  ⟨q.bytes.drop n, Nat.le_trans (List.drop_sublist n q.bytes).length_le q.fits⟩

/-- What an operation does to a queue, and what it returns. -/
def exec (q : ByteQueue capacity) : BufferOp → ByteQueue capacity × Bool
  | .append data => q.append data
  | .consume n => (q.consume n.toNat, true)
  | .clear => (empty capacity, true)

end ByteQueue

/-! ## Buffer -/

/-- `Buffer`: the block and the two positions. -/
structure Buffer where
  /-- The block at `data_`. -/
  data : Bytes
  capacityBytes : UInt64
  readPosition : UInt64
  writePosition : UInt64

namespace Buffer

/-- The constructor. `block` is what the pool allocates, if it can. -/
def create (ownerThread : Bool) (capacityBytes : UInt64) (block : Option Bytes) : Option Buffer :=
  if capacityBytes = 0 ∨ ownerThread = false then none
  else
    match block with
    | none => none
    | some data => some ⟨data, capacityBytes, 0, 0⟩

def readableBytes (b : Buffer) : UInt64 := b.writePosition - b.readPosition

def writableBytes (b : Buffer) : UInt64 := b.capacityBytes - b.writePosition

/-- `Readable`: the view of the bytes between the positions. -/
def readable (b : Buffer) : Option Bytes :=
  Block.load b.data b.readPosition.toNat b.readableBytes.toNat

def clear (b : Buffer) : Buffer := { b with readPosition := 0, writePosition := 0 }

/-- `Compact`: move the readable bytes to the front. The source may overlap the
    target. -/
def compact (b : Buffer) : Option Buffer := do
  let bytes ← Block.load b.data b.readPosition.toNat b.readableBytes.toNat
  let data ← Block.store b.data 0 bytes
  return { b with data := data, readPosition := 0, writePosition := b.readableBytes }

/-- `Append`. -/
def append (b : Buffer) (data : Bytes) : Option (Buffer × Bool) :=
  if data.length > (b.capacityBytes - b.readableBytes).toNat then some (b, false)
  else do
    let b ← if data.length > b.writableBytes.toNat then b.compact else some b
    let block ← Block.store b.data b.writePosition.toNat data
    return ({ b with data := block, writePosition := b.writePosition + UInt64.ofNat data.length },
      true)

/-- `Consume`. -/
def consume (b : Buffer) (bytes : UInt64) : Buffer :=
  if bytes ≥ b.readableBytes then b.clear
  else { b with readPosition := b.readPosition + bytes }

/-- What an operation does, and what it returns. Only `Append` can fail. -/
def exec (b : Buffer) : BufferOp → Option (Buffer × Bool)
  | .append data => b.append data
  | .consume bytes => some (b.consume bytes, true)
  | .clear => some (b.clear, true)

/-- A sequence of operations. -/
def run (b : Buffer) : List BufferOp → Option (Buffer × List Bool)
  | [] => some (b, [])
  | op :: ops => do
      let (next, answer) ← b.exec op
      let (last, answers) ← next.run ops
      return (last, answer :: answers)

/-! ## Refinement -/

/-- The positions are in order and inside the block. -/
structure Valid (b : Buffer) : Prop where
  block : b.data.length = b.capacityBytes.toNat
  read_le : b.readPosition.toNat ≤ b.writePosition.toNat
  write_le : b.writePosition.toNat ≤ b.capacityBytes.toNat

/-- A buffer holds what a queue of its capacity holds. -/
structure Holds {capacity : Nat} (b : Buffer) (q : ByteQueue capacity) : Prop where
  valid : b.Valid
  capacity_eq : b.capacityBytes.toNat = capacity
  readable_eq : b.readable = some q.bytes

variable {b : Buffer}

/-- The number of readable bytes does not wrap. -/
theorem Valid.readableBytes_toNat (h : b.Valid) :
    b.readableBytes.toNat = b.writePosition.toNat - b.readPosition.toNat :=
  UInt64.toNat_sub_of_le _ _ (UInt64.le_iff_toNat_le.mpr h.read_le)

theorem Valid.writableBytes_toNat (h : b.Valid) :
    b.writableBytes.toNat = b.capacityBytes.toNat - b.writePosition.toNat :=
  UInt64.toNat_sub_of_le _ _ (UInt64.le_iff_toNat_le.mpr h.write_le)

/-- What is free counts what has been consumed. -/
theorem Valid.free_toNat (h : b.Valid) :
    (b.capacityBytes - b.readableBytes).toNat =
      b.capacityBytes.toNat - (b.writePosition.toNat - b.readPosition.toNat) := by
  have hread := h.readableBytes_toNat
  have hle : b.readableBytes ≤ b.capacityBytes := by
    rw [UInt64.le_iff_toNat_le, hread]
    exact Nat.le_trans (Nat.sub_le ..) h.write_le
  rw [UInt64.toNat_sub_of_le _ _ hle, hread]

/-- The view stays inside the block. -/
theorem Valid.readable (h : b.Valid) :
    b.readable = some (substr b.data b.readPosition.toNat
      (b.writePosition.toNat - b.readPosition.toNat)) := by
  have hinside : b.readPosition.toNat + (b.writePosition.toNat - b.readPosition.toNat) ≤
      b.data.length := by
    have hblock := h.block
    have hread := h.read_le
    have hwrite := h.write_le
    omega
  rw [Buffer.readable, h.readableBytes_toNat, Block.load_eq_some hinside]

/-- Compaction keeps what is readable and moves it to the front. -/
theorem Valid.compact (h : b.Valid) {bytes : Bytes} (hread : b.readable = some bytes) :
    ∃ b', b.compact = some b' ∧ b'.Valid ∧ b'.readable = some bytes ∧
      b'.capacityBytes = b.capacityBytes ∧ b'.readPosition = 0 ∧
      b'.writePosition.toNat = bytes.length := by
  have hlength : bytes.length = b.readableBytes.toNat := by
    rw [Valid.readable h] at hread
    rw [← Option.some.inj hread, length_substr, h.readableBytes_toNat]
    have hblock := h.block
    have hwrite := h.write_le
    have hle := h.read_le
    omega
  have hfits : 0 + bytes.length ≤ b.data.length := by
    rw [hlength, h.readableBytes_toNat, h.block]
    have hwrite := h.write_le
    omega
  have hstore := Block.store_eq_some hfits
  refine ⟨⟨Block.stored b.data 0 bytes, b.capacityBytes, 0, b.readableBytes⟩, ?_, ?_, ?_, rfl, rfl,
    hlength.symm⟩
  · unfold Buffer.compact
    unfold Buffer.readable at hread
    rw [hread, Option.bind_eq_bind, Option.bind_some, hstore]
    rfl
  · refine ⟨(Block.length_stored hfits).trans h.block, Nat.zero_le _, ?_⟩
    rw [← hlength, ← h.block]
    omega
  · have hkept := Block.substr_stored hfits (Nat.le_refl 0)
    have hinside : 0 + bytes.length ≤ (Block.stored b.data 0 bytes).length := by
      rw [Block.length_stored hfits]
      exact hfits
    change Block.load _ 0 (b.readableBytes - 0).toNat = some bytes
    rw [UInt64.sub_zero, ← hlength, Block.load_eq_some hinside]
    rw [Nat.sub_self, Nat.zero_add] at hkept
    rw [hkept]
    rfl

/-- New bytes stand behind the readable ones, if there is room for them behind the
    write position. -/
theorem Valid.write (h : b.Valid) {bytes data : Bytes} (hread : b.readable = some bytes)
    (hroom : b.writePosition.toNat + data.length ≤ b.capacityBytes.toNat) :
    ∃ block, Block.store b.data b.writePosition.toNat data = some block ∧
      Valid { b with data := block, writePosition := b.writePosition + UInt64.ofNat data.length } ∧
      Buffer.readable
        { b with data := block, writePosition := b.writePosition + UInt64.ofNat data.length } =
          some (bytes ++ data) := by
  have hfits : b.writePosition.toNat + data.length ≤ b.data.length := by
    rw [h.block]
    exact hroom
  -- The new position is at most the capacity and does not wrap.
  have hnext : (b.writePosition + UInt64.ofNat data.length).toNat =
      b.writePosition.toNat + data.length := by
    have hlt := b.capacityBytes.toNat_lt
    rw [UInt64.toNat_add, UInt64.toNat_ofNat', Nat.mod_eq_of_lt (a := data.length) (by omega),
      Nat.mod_eq_of_lt (by omega)]
  have hvalid : Valid { b with
      data := Block.stored b.data b.writePosition.toNat data
      writePosition := b.writePosition + UInt64.ofNat data.length } := by
    refine ⟨(Block.length_stored hfits).trans h.block, ?_, ?_⟩
    · change b.readPosition.toNat ≤ (b.writePosition + UInt64.ofNat data.length).toNat
      rw [hnext]
      exact Nat.le_add_right_of_le h.read_le
    · change (b.writePosition + UInt64.ofNat data.length).toNat ≤ b.capacityBytes.toNat
      rw [hnext]
      exact hroom
  refine ⟨_, Block.store_eq_some hfits, hvalid, ?_⟩
  have hkept := Block.substr_stored hfits h.read_le
  rw [Valid.readable h] at hread
  rw [Option.some.inj hread] at hkept
  have hlen : b.writePosition.toNat + data.length - b.readPosition.toNat =
      b.writePosition.toNat - b.readPosition.toNat + data.length := by
    have hle := h.read_le
    omega
  rw [Valid.readable hvalid]
  simp only
  rw [hnext, hlen, hkept]

section Operations

variable {capacity : Nat} {q : ByteQueue capacity}

/-- How many bytes are held, from the positions. -/
theorem Holds.length_eq (h : b.Holds q) :
    q.bytes.length = b.writePosition.toNat - b.readPosition.toNat := by
  have hread := h.readable_eq
  rw [Valid.readable h.valid] at hread
  rw [← Option.some.inj hread, length_substr]
  have hblock := h.valid.block
  have hle := h.valid.read_le
  have hwrite := h.valid.write_le
  omega

theorem Holds.append (h : b.Holds q) (data : Bytes) :
    ∃ b', b.append data = some (b', (q.append data).2) ∧ b'.Holds (q.append data).1 := by
  have hlength := h.length_eq
  have hfree := h.valid.free_toNat
  rw [← hlength, h.capacity_eq] at hfree
  have hfits := q.fits
  unfold Buffer.append ByteQueue.append
  rw [hfree]
  by_cases hroom : q.bytes.length + data.length ≤ capacity
  · rw [if_neg (by omega), dif_pos hroom]
    by_cases hcompact : data.length > b.writableBytes.toNat
    · -- Everything that is free lies behind the write position after compaction.
      rcases h.valid.compact h.readable_eq with
        ⟨b', hcompacted, hvalid, hreadable, hcapacity, -, hwrite⟩
      have hcap : b'.capacityBytes.toNat = capacity := hcapacity ▸ h.capacity_eq
      have hroom' : b'.writePosition.toNat + data.length ≤ b'.capacityBytes.toNat := by
        rw [hwrite, hcap]
        exact hroom
      rcases hvalid.write hreadable hroom' with
        ⟨block, hstore, hvalid', hread'⟩
      refine ⟨_, ?_, hvalid', hcap, hread'⟩
      rw [if_pos hcompact, hcompacted, Option.bind_eq_bind, Option.bind_some]
      beta_reduce
      rw [hstore]
      rfl
    · have hspace := h.valid.writableBytes_toNat
      have hwrite := h.valid.write_le
      have hroom' : b.writePosition.toNat + data.length ≤ b.capacityBytes.toNat := by omega
      rcases h.valid.write h.readable_eq hroom' with
        ⟨block, hstore, hvalid', hread'⟩
      refine ⟨_, ?_, hvalid', h.capacity_eq, hread'⟩
      rw [if_neg hcompact, Option.bind_eq_bind, Option.bind_some]
      beta_reduce
      rw [hstore]
      rfl
  · rw [if_pos (by omega), dif_neg hroom]
    exact ⟨b, rfl, h⟩

theorem Holds.clear (h : b.Holds q) : b.clear.Holds (ByteQueue.empty capacity) := by
  have hvalid : b.clear.Valid := ⟨h.valid.block, Nat.le_refl _, Nat.zero_le _⟩
  refine ⟨hvalid, h.capacity_eq, ?_⟩
  rw [hvalid.readable]
  rfl

theorem Holds.consume (h : b.Holds q) (n : UInt64) : (b.consume n).Holds (q.consume n.toNat) := by
  have hreadable := h.valid.readableBytes_toNat
  have hlength := h.length_eq
  unfold Buffer.consume
  by_cases hall : n ≥ b.readableBytes
  · have hle : q.bytes.length ≤ n.toNat := by
      have hnat := UInt64.le_iff_toNat_le.mp hall
      omega
    have hempty : q.consume n.toNat = ByteQueue.empty capacity := by
      unfold ByteQueue.consume ByteQueue.empty
      congr 1
      exact List.drop_eq_nil_of_le hle
    rw [if_pos hall, hempty]
    exact h.clear
  · have hlt : n.toNat < b.readableBytes.toNat :=
      Nat.lt_of_not_le fun hle => hall (UInt64.le_iff_toNat_le.mpr hle)
    rw [if_neg hall]
    have hread := h.valid.read_le
    have hwrite := h.valid.write_le
    have hnext : (b.readPosition + n).toNat = b.readPosition.toNat + n.toNat := by
      have hmax := b.capacityBytes.toNat_lt
      rw [UInt64.toNat_add, Nat.mod_eq_of_lt (by omega)]
    have hvalid : Valid { b with readPosition := b.readPosition + n } := by
      refine ⟨h.valid.block, ?_, hwrite⟩
      change (b.readPosition + n).toNat ≤ b.writePosition.toNat
      omega
    refine ⟨hvalid, h.capacity_eq, ?_⟩
    have hold := h.readable_eq
    rw [Valid.readable h.valid] at hold
    rw [Valid.readable hvalid]
    -- The view starts later and is as much shorter.
    change some (substr b.data (b.readPosition + n).toNat
      (b.writePosition.toNat - (b.readPosition + n).toNat)) = some (q.bytes.drop n.toNat)
    rw [hnext, ← Option.some.inj hold]
    unfold substr
    rw [List.drop_take, List.drop_drop]
    congr 2
    omega

/-- An operation does the same to a buffer and to the queue it holds, and every
    copy stays inside the block. -/
theorem Holds.exec (h : b.Holds q) (op : BufferOp) :
    ∃ b', b.exec op = some (b', (q.exec op).2) ∧ b'.Holds (q.exec op).1 := by
  cases op with
  | append data => exact h.append data
  | consume n => exact ⟨_, rfl, h.consume n⟩
  | clear => exact ⟨_, rfl, h.clear⟩

theorem Holds.run (h : b.Holds q) (ops : List BufferOp) :
    ∃ b', b.run ops = some (b', outputs ByteQueue.exec q ops) ∧
      b'.Holds (ops.foldl (fun q op => (q.exec op).1) q) := by
  induction ops generalizing b q with
  | nil => exact ⟨b, rfl, h⟩
  | cons op ops ih =>
      rcases h.exec op with ⟨next, hstep, hnext⟩
      rcases ih hnext with ⟨last, hrun, hlast⟩
      refine ⟨last, ?_, hlast⟩
      rw [Buffer.run, hstep, Option.bind_eq_bind, Option.bind_some]
      simp only
      rw [hrun]
      rfl

end Operations

theorem Holds.create {capacityBytes : UInt64} {block : Bytes}
    (hblock : block.length = capacityBytes.toNat) {b : Buffer}
    (hb : create true capacityBytes (some block) = some b) :
    b.Holds (ByteQueue.empty capacityBytes.toNat) := by
  unfold Buffer.create at hb
  by_cases hrefused : capacityBytes = 0 ∨ true = false
  · rw [if_pos hrefused] at hb
    exact nomatch hb
  rw [if_neg hrefused] at hb
  obtain rfl := Option.some.inj hb
  have hvalid : Valid ⟨block, capacityBytes, 0, 0⟩ := ⟨hblock, Nat.le_refl _, Nat.zero_le _⟩
  refine ⟨hvalid, rfl, ?_⟩
  rw [hvalid.readable]
  rfl

/-- In every run a buffer answers as a bounded queue of bytes does, what is readable
    is what the queue holds, the positions are in order, and no copy leaves the
    block: the run has a result. -/
theorem run_holds {capacityBytes : UInt64} {block : Bytes}
    (hblock : block.length = capacityBytes.toNat) {b : Buffer}
    (hb : create true capacityBytes (some block) = some b) (ops : List BufferOp) :
    ∃ b', b.run ops = some (b', outputs ByteQueue.exec (.empty capacityBytes.toNat) ops) ∧
      b'.readable = some (ops.foldl (fun q op => (q.exec op).1)
        (ByteQueue.empty capacityBytes.toNat)).bytes ∧
      b'.data.length = capacityBytes.toNat ∧
      b'.readPosition.toNat ≤ b'.writePosition.toNat ∧
      b'.writePosition.toNat ≤ capacityBytes.toNat := by
  rcases (Holds.create hblock hb).run ops with ⟨b', hrun, hholds⟩
  exact ⟨b', hrun, hholds.readable_eq, hholds.valid.block.trans hholds.capacity_eq,
    hholds.valid.read_le, Nat.le_trans hholds.valid.write_le (Nat.le_of_eq hholds.capacity_eq)⟩

/-- Five bytes in a block of eight, three consumed, four more: the second append
    compacts. -/
theorem run_holds_compacting :
    ∃ b b', create true 8 (some (List.replicate 8 0)) = some b ∧
      b.run [.append [1, 2, 3, 4, 5], .consume 3, .append [6, 7, 8, 9], .append [10, 11, 12]] =
        some (b', [true, true, true, false]) ∧
      b'.readable = some [4, 5, 6, 7, 8, 9] := by
  have hblock : (List.replicate 8 0 : Bytes).length = (8 : UInt64).toNat := rfl
  rcases run_holds hblock rfl
    [.append [1, 2, 3, 4, 5], .consume 3, .append [6, 7, 8, 9], .append [10, 11, 12]] with
    ⟨b', hrun, hread, -⟩
  exact ⟨_, b', rfl, hrun.trans rfl, hread.trans rfl⟩

end Buffer

end MqBroker
