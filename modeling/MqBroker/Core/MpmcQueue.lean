import MqBroker.Lib.BitFill
import Mathlib.Logic.Function.Basic

/-!
# The Multi-Producer Multi-Consumer Queue

`MpmcQueue` is a ring of cells with a sequence number each. A thread in
`TryEmplace` or `TryDequeue` reads a position and the sequence number of its
cell, and takes the position with a compare-exchange if the number is the right
one. Then it works on the cell and stores the next number.

A thread's `QueuePoint` is the place in the two functions it has reached, with
the local variables it still needs. Each atomic load, compare-exchange and store
is a step of its own, and so are the construction of an element and its move out
of the cell, which are no atomic operations. A compare-exchange that is weak may
fail for no reason, which the event says.

`enqueued` and `dequeued` are not fields of the source. They record which element
was constructed in, and moved out of, the cell of which position.

## Main definitions

* `normalizeCapacity`: The capacity rounded up.
* `MpmcQueue`, `MpmcQueue.init`: The queue with the threads that use it.
* `MpmcQueue.advance`, `MpmcQueue.exec`: One step of one thread.

## Theorems

* `normalizeCapacity_toNat`: The rounded capacity as a power of two.
* `normalizeCapacity_le`: No rounded capacity exceeds `2 ^ 63`.
* `normalizeCapacity_isLeast`: It is the least one that is large enough, and its
  mask takes positions modulo it.
-/

namespace MqBroker

/-! ## Capacity -/

/-- The loop of `NormalizeCapacity`. Its counter doubles, so it leaves the word
    in fewer rounds than a word has bits. -/
def fillBits : Nat → UInt64 → UInt64 → UInt64
  | 0, _, capacity => capacity
  | rounds + 1, shift, capacity =>
      if shift < 64 then fillBits rounds (shift <<< 1) (capacity ||| capacity >>> shift)
      else capacity

/-- `NormalizeCapacity`: the capacity rounded up to a power of two, at least 2. -/
def normalizeCapacity (capacity : UInt64) : UInt64 :=
  if capacity < 2 then 2 else fillBits 64 1 (capacity - 1) + 1

/-- The loop ends with a counter of 64 or more, and then as many bits are set. -/
theorem fillBits_filled (h : Nat) (rounds : Nat) (shift capacity : UInt64)
    (hfilled : Filled h shift.toNat capacity.toNat) (hpos : 0 < shift.toNat)
    (hrounds : 64 ≤ shift.toNat * 2 ^ rounds) :
    ∃ w, 64 ≤ w ∧ Filled h w (fillBits rounds shift capacity).toNat := by
  induction rounds generalizing shift capacity with
  | zero => exact ⟨shift.toNat, by simpa using hrounds, hfilled⟩
  | succ rounds ih =>
      rw [fillBits]
      by_cases hshift : shift < 64
      · rw [if_pos hshift]
        have hlt : shift.toNat < 64 := hshift
        have hdouble : (shift <<< 1).toNat = 2 * shift.toNat := by
          rw [UInt64.toNat_shiftLeft, Nat.shiftLeft_eq]
          have hone : (1 : UInt64).toNat % 64 = 1 := rfl
          rw [hone, Nat.mod_eq_of_lt (by omega)]
          omega
        have hor : (capacity ||| capacity >>> shift).toNat =
            capacity.toNat ||| capacity.toNat >>> shift.toNat := by
          rw [UInt64.toNat_or, UInt64.toNat_shiftRight, Nat.mod_eq_of_lt hlt]
        refine ih (shift <<< 1) _ ?_ (by omega) ?_
        · rw [hdouble, hor]
          exact hfilled.or_shiftRight
        · rw [hdouble, Nat.mul_assoc, Nat.mul_left_comm, ← Nat.pow_succ']
          exact hrounds
      · rw [if_neg hshift]
        exact ⟨shift.toNat, Nat.le_of_not_lt hshift, hfilled⟩

/-- The loop sets every bit below the highest one of a number that is not zero. -/
theorem fillBits_toNat (capacity : UInt64) (hc : capacity.toNat ≠ 0) :
    (fillBits 64 1 capacity).toNat = 2 ^ (capacity.toNat.log2 + 1) - 1 := by
  have hlog : capacity.toNat.log2 < 64 := (Nat.log2_lt hc).mpr capacity.toNat_lt
  rcases fillBits_filled capacity.toNat.log2 64 1 capacity (filled_log2 hc) (by decide)
    (by decide) with ⟨w, hw, hfilled⟩
  exact hfilled.eq_two_pow_sub_one (by omega)

theorem toNat_sub_one {capacity : UInt64} (h : 1 ≤ capacity.toNat) :
    (capacity - 1).toNat = capacity.toNat - 1 :=
  UInt64.toNat_sub_of_le _ _ (UInt64.le_iff_toNat_le.mpr h)

/-- The rounded capacity. The decrement is what keeps a power of two. -/
theorem normalizeCapacity_toNat (capacity : UInt64) (hc : capacity.toNat ≤ 2 ^ 63) :
    (normalizeCapacity capacity).toNat = 2 ^ ((max capacity.toNat 2 - 1).log2 + 1) := by
  rw [normalizeCapacity]
  by_cases hsmall : capacity < 2
  · have hle : capacity.toNat ≤ 2 := Nat.le_of_lt hsmall
    rw [if_pos hsmall, Nat.max_eq_right hle]
    rfl
  · have htwo : 2 ≤ capacity.toNat := Nat.le_of_not_lt hsmall
    have hpred := toNat_sub_one (Nat.le_of_succ_le htwo)
    have hne : capacity.toNat - 1 ≠ 0 := by omega
    have hlog : (capacity.toNat - 1).log2 < 63 := (Nat.log2_lt hne).mpr (by omega)
    have hle : 2 ^ ((capacity.toNat - 1).log2 + 1) ≤ 2 ^ 63 :=
      Nat.pow_le_pow_right (by omega) (by omega)
    have hpos := Nat.two_pow_pos ((capacity.toNat - 1).log2 + 1)
    have hone : (1 : UInt64).toNat = 1 := rfl
    rw [if_neg hsmall, Nat.max_eq_left htwo, UInt64.toNat_add,
      fillBits_toNat _ (hpred ▸ hne), hpred, hone, Nat.sub_add_cancel hpos, Nat.mod_eq_of_lt]
    exact Nat.lt_of_le_of_lt hle (by decide)

/-- A capacity above `2 ^ 63` wraps to 0, so that no capacity exceeds `2 ^ 63`. -/
theorem normalizeCapacity_le (capacity : UInt64) : (normalizeCapacity capacity).toNat ≤ 2 ^ 63 := by
  by_cases hc : capacity.toNat ≤ 2 ^ 63
  · rw [normalizeCapacity_toNat capacity hc]
    have hne : max capacity.toNat 2 - 1 ≠ 0 := by omega
    have hlog : (max capacity.toNat 2 - 1).log2 < 63 := (Nat.log2_lt hne).mpr (by omega)
    exact Nat.pow_le_pow_right (by omega) hlog
  · have hlarge : ¬ capacity < 2 := by
      intro hlt
      have hsmall : capacity.toNat < 2 := hlt
      omega
    have hpred := toNat_sub_one (show 1 ≤ capacity.toNat by omega)
    have hlt := capacity.toNat_lt
    have hlog : (capacity.toNat - 1).log2 = 63 :=
      (Nat.log2_eq_iff (by omega)).mpr ⟨by omega, by omega⟩
    have hfull : (fillBits 64 1 (capacity - 1)).toNat = 2 ^ 64 - 1 := by
      rw [fillBits_toNat _ (by omega), hpred, hlog]
    have hone : (1 : UInt64).toNat = 1 := rfl
    rw [normalizeCapacity, if_neg hlarge, UInt64.toNat_add, hfull, hone]
    decide

/-- The mask of a power of two takes positions modulo it. -/
theorem and_mask_toNat {capacity : UInt64} {k : Nat} (hc : capacity.toNat = 2 ^ k)
    (position : UInt64) :
    (position &&& (capacity - 1)).toNat = position.toNat % capacity.toNat := by
  have hpos := Nat.two_pow_pos k
  rw [UInt64.toNat_and, toNat_sub_one (by omega), hc, Nat.and_two_pow_sub_one_eq_mod]

/-- The rounded capacity is the least power of two that is at least the capacity
    and 2, and the mask takes positions modulo it. -/
theorem normalizeCapacity_isLeast (capacity : UInt64) (hc : capacity.toNat ≤ 2 ^ 63) :
    IsLeast {p | (∃ k, p = 2 ^ k) ∧ max capacity.toNat 2 ≤ p} (normalizeCapacity capacity).toNat ∧
      ∀ position, position &&& (normalizeCapacity capacity - 1) =
        position % normalizeCapacity capacity := by
  have hcap := normalizeCapacity_toNat capacity hc
  constructor
  · have hne : max capacity.toNat 2 - 1 ≠ 0 := by omega
    have hset : {p | (∃ k, p = 2 ^ k) ∧ max capacity.toNat 2 ≤ p} =
        {p | (∃ k, p = 2 ^ k) ∧ max capacity.toNat 2 - 1 < p} := by
      ext p
      exact and_congr_right fun _ => by omega
    rw [hcap, hset]
    exact least_two_pow hne
  · intro position
    apply UInt64.toNat_inj.mp
    rw [and_mask_toNat hcap, UInt64.toNat_mod]

/-- At the largest capacity neither the decrement nor the increment wraps. -/
theorem normalizeCapacity_isLeast_two_pow_63 :
    IsLeast {p | (∃ k, p = 2 ^ k) ∧ max (9223372036854775808 : UInt64).toNat 2 ≤ p}
        (normalizeCapacity 9223372036854775808).toNat ∧
      ∀ position, position &&& (normalizeCapacity 9223372036854775808 - 1) =
        position % normalizeCapacity 9223372036854775808 :=
  normalizeCapacity_isLeast 9223372036854775808 (by decide)

/-! ## Queue -/

/-- `MpmcQueue::Cell`: the sequence number and the storage, which may hold an
    element. -/
structure Cell (T : Type) where
  sequence : UInt64
  storage : Option T

/-- Where a thread is in `TryEmplace` or `TryDequeue`, with the local variables it
    needs from there on. -/
inductive QueuePoint (T : Type)
  /-- No call has been made yet. -/
  | outside
  /-- About to load `enqueue_position_`. -/
  | emplaceLoad (value : T)
  /-- About to load the sequence number of the cell. -/
  | emplaceCheck (value : T) (position : UInt64)
  /-- About to compare and exchange `enqueue_position_`. -/
  | emplaceClaim (value : T) (position : UInt64)
  /-- About to construct the element in the cell. -/
  | emplaceConstruct (value : T) (position : UInt64)
  /-- About to store the sequence number `position + 1`. -/
  | emplaceStore (value : T) (position : UInt64)
  /-- `TryEmplace` has returned. -/
  | emplaced (result : Bool)
  /-- About to load `dequeue_position_`. -/
  | dequeueLoad
  /-- About to load the sequence number of the cell. -/
  | dequeueCheck (position : UInt64)
  /-- About to compare and exchange `dequeue_position_`. -/
  | dequeueClaim (position : UInt64)
  /-- About to move the element out of the cell and destroy it. -/
  | dequeueMove (position : UInt64)
  /-- About to store the sequence number `position + capacity_`. -/
  | dequeueStore (value : T) (position : UInt64)
  /-- `TryDequeue` has returned, with an element unless the queue was empty. -/
  | dequeued (result : Option T)

/-- `MpmcQueue`, and the threads `θ` that use it. -/
structure MpmcQueue (θ T : Type) where
  capacity : UInt64
  mask : UInt64
  /-- The array of cells. Its indices are `position & mask_`, which is less than
      the capacity. -/
  cells : UInt64 → Cell T
  enqueuePosition : UInt64
  dequeuePosition : UInt64
  point : θ → QueuePoint T
  /-- The elements constructed so far, with their positions. -/
  enqueued : List (UInt64 × T)
  /-- The elements moved out so far, with the positions they were taken from. -/
  dequeued : List (UInt64 × T)

/-- What happens next: a thread that is in no call makes one, or a thread in a
    call takes its next step. A compare-exchange may fail spuriously. -/
inductive QueueEvent (θ T : Type)
  | tryEmplace (thread : θ) (value : T)
  | tryDequeue (thread : θ)
  | advance (thread : θ) (spurious : Bool)

namespace MpmcQueue

variable {θ T : Type}

/-- The constructor: every cell is free for the position of its index. -/
def init (θ T : Type) (capacity : UInt64) : MpmcQueue θ T where
  capacity := normalizeCapacity capacity
  mask := normalizeCapacity capacity - 1
  cells := fun index => ⟨index, none⟩
  enqueuePosition := 0
  dequeuePosition := 0
  point := fun _ => .outside
  enqueued := []
  dequeued := []

variable [DecidableEq θ]

/-- Thread `t` has reached another point. -/
def goto (q : MpmcQueue θ T) (t : θ) (point : QueuePoint T) : MpmcQueue θ T :=
  { q with point := Function.update q.point t point }

/-- The cell of a position. -/
def cell (q : MpmcQueue θ T) (position : UInt64) : Cell T := q.cells (position &&& q.mask)

/-- Write the cell of a position. -/
def setCell (q : MpmcQueue θ T) (position : UInt64) (cell : Cell T) : MpmcQueue θ T :=
  { q with cells := Function.update q.cells (position &&& q.mask) cell }

/-- The signed difference of two positions, `static_cast<std::intptr_t>` of both. -/
def difference (sequence position : UInt64) : Int64 := sequence.toInt64 - position.toInt64

/-- The next step of thread `t`. -/
def advance (q : MpmcQueue θ T) (t : θ) (spurious : Bool) : MpmcQueue θ T :=
  match q.point t with
  | .outside | .emplaced _ | .dequeued _ => q
  | .emplaceLoad value => q.goto t (.emplaceCheck value q.enqueuePosition)
  | .emplaceCheck value position =>
      if difference (q.cell position).sequence position = 0 then
        q.goto t (.emplaceClaim value position)
      else if difference (q.cell position).sequence position < 0 then
        q.goto t (.emplaced false)
      else
        q.goto t (.emplaceLoad value)
  | .emplaceClaim value position =>
      if q.enqueuePosition = position ∧ spurious = false then
        { q with enqueuePosition := position + 1 }.goto t (.emplaceConstruct value position)
      else
        -- The failed exchange has loaded the present value into `position`.
        q.goto t (.emplaceCheck value q.enqueuePosition)
  | .emplaceConstruct value position =>
      ({ q with enqueued := q.enqueued ++ [(position, value)] }.setCell position
        { q.cell position with storage := some value }).goto t (.emplaceStore value position)
  | .emplaceStore _ position =>
      (q.setCell position { q.cell position with sequence := position + 1 }).goto t (.emplaced true)
  | .dequeueLoad => q.goto t (.dequeueCheck q.dequeuePosition)
  | .dequeueCheck position =>
      if difference (q.cell position).sequence (position + 1) = 0 then
        q.goto t (.dequeueClaim position)
      else if difference (q.cell position).sequence (position + 1) < 0 then
        q.goto t (.dequeued none)
      else
        q.goto t .dequeueLoad
  | .dequeueClaim position =>
      if q.dequeuePosition = position ∧ spurious = false then
        { q with dequeuePosition := position + 1 }.goto t (.dequeueMove position)
      else
        q.goto t (.dequeueCheck q.dequeuePosition)
  | .dequeueMove position =>
      match (q.cell position).storage with
      | some value =>
          ({ q with dequeued := q.dequeued ++ [(position, value)] }.setCell position
            { q.cell position with storage := none }).goto t (.dequeueStore value position)
      -- The source would move from storage that holds no element, which has no
      -- meaning. The thread is stuck here.
      | none => q
  | .dequeueStore value position =>
      (q.setCell position { q.cell position with sequence := position + q.capacity }).goto t
        (.dequeued (some value))

/-- Thread `t` is in neither function. -/
def Outside (q : MpmcQueue θ T) (t : θ) : Bool :=
  match q.point t with
  | .outside | .emplaced _ | .dequeued _ => true
  | _ => false

/-- What one event does. A thread makes one call at a time. -/
def exec (q : MpmcQueue θ T) : QueueEvent θ T → MpmcQueue θ T
  | .tryEmplace t value => if q.Outside t then q.goto t (.emplaceLoad value) else q
  | .tryDequeue t => if q.Outside t then q.goto t .dequeueLoad else q
  | .advance t spurious => q.advance t spurious

end MpmcQueue

end MqBroker
