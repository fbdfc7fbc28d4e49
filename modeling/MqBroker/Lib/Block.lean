import MqBroker.Lib.Bytes

/-!
# Blocks of Memory

A block is the bytes it holds. Reading and writing a part of it is partial: a copy
that would leave the block has no result. What a program reads after it has
written is then a matter of lists.

## Main definitions

* `load`, `store`: Copies out of and into a block.

## Theorems

* `store_eq_some`: A copy that stays inside the block.
* `substr_store`: What was there, followed by what was written.
-/

namespace MqBroker.Block

/-- Copy `n` bytes from position `p` out of a block. -/
def load (block : Bytes) (p n : Nat) : Option Bytes :=
  if p + n ≤ block.length then some (substr block p n) else none

/-- The block after bytes were copied to position `p`. -/
def stored (block : Bytes) (p : Nat) (data : Bytes) : Bytes :=
  block.take p ++ data ++ block.drop (p + data.length)

/-- Copy bytes to position `p` of a block. -/
def store (block : Bytes) (p : Nat) (data : Bytes) : Option Bytes :=
  if p + data.length ≤ block.length then some (stored block p data) else none

theorem load_eq_some {block : Bytes} {p n : Nat} (h : p + n ≤ block.length) :
    load block p n = some (substr block p n) := if_pos h

theorem store_eq_some {block : Bytes} {p : Nat} {data : Bytes}
    (h : p + data.length ≤ block.length) : store block p data = some (stored block p data) :=
  if_pos h

theorem length_stored {block : Bytes} {p : Nat} {data : Bytes}
    (h : p + data.length ≤ block.length) : (stored block p data).length = block.length := by
  unfold stored
  rw [List.length_append, List.length_append, List.length_take, List.length_drop]
  omega

/-- What stands before the written bytes is kept. -/
theorem substr_stored {block : Bytes} {p r : Nat} {data : Bytes}
    (h : p + data.length ≤ block.length) (hr : r ≤ p) :
    substr (stored block p data) r (p - r + data.length) = substr block r (p - r) ++ data := by
  unfold substr stored
  have hp : p ≤ block.length := by omega
  have hlen : (block.take p).length = p := List.length_take_of_le hp
  rw [List.append_assoc, List.drop_append_of_le_length (by omega), List.drop_take]
  have hfront : ((block.drop r).take (p - r)).length = p - r := by
    rw [List.length_take, List.length_drop]
    omega
  rw [List.take_append, List.take_append, hfront]
  have hkeep : p - r + data.length - (p - r) = data.length := by omega
  rw [hkeep, List.take_length, Nat.sub_self, List.take_zero, List.append_nil,
    List.take_of_length_le (by omega)]

end MqBroker.Block
