import Mathlib.Data.Finset.Card
import Mathlib.Data.List.Nodup
import Mathlib.Logic.Function.Basic

/-!
# Rings of Numbered Slots

A bounded queue without locks, over an arbitrary type of threads. Positions
count up without end and go round a fixed number of slots. A slot carries a
sequence number: position `p` may be filled when it is `p`, emptied when it is
`p + 1`, and it becomes `p + size` when the slot is handed on to the next round.

A thread first looks at a slot, then claims the position it looked at by moving
the counter, and only then touches what the slot holds. Between the look and the
claim anything may happen, and a claim that finds the counter elsewhere is given
up. `TicketRing.Step` says no more than that: which thread moves, how often it
looks and when it gives up are all open, so an implementation has little to
match.

`Inv` ties the slots, the two counters and the places of all threads together.
A slot is in turn for exactly one position, by `turn`, and that position is less
than `size` ahead of the last one emptied. A claimed position therefore belongs
to one thread, and the slot is in the state its claimant looked at.

## Main definitions

* `Wheel`: Positions going round a number of slots.
* `TicketRing`, `TicketRing.Step`: The queue and its moves.
* `Inv`: The invariant of the ring.

## Theorems

* `Inv.start`: An empty ring has the invariant.
* `Inv.step`: Every move keeps it.
* `Inv.content_none`: Whoever fills a slot finds it empty.
* `Inv.content_some`: Whoever empties a slot finds what entered there.
* `Inv.held_le`: No more is held than there are slots.
-/

namespace MqBroker.TicketRing

/-- Positions that go round a number of slots. Two positions in one round never
    share a slot. -/
structure Wheel (ι : Type) where
  size : Nat
  slotOf : Nat → ι
  two_le_size : 2 ≤ size
  slotOf_add_size : ∀ p, slotOf (p + size) = slotOf p
  eq_of_near : ∀ p q, slotOf p = slotOf q → p ≤ q → q < p + size → p = q

/-- Where a thread is: it may have seen a free or a full slot for a position, it
    may have claimed the position, and it may have done its work on the slot. -/
inductive Stage (α : Type)
  | away
  | sawFree (p : Nat)
  | filling (p : Nat) (x : α)
  | filled (p : Nat) (x : α)
  | sawFull (p : Nat)
  | emptying (p : Nat)
  | emptied (p : Nat) (x : α)

/-- A slot: its sequence number and what it holds. -/
structure Slot (α : Type) where
  sequence : Nat
  content : Option α

end TicketRing

/-- The ring. `entered` and `left` record what was put into and taken out of
    which position. No step reads them. -/
structure TicketRing (ι θ α : Type) where
  slot : ι → TicketRing.Slot α
  /-- The next position to fill. -/
  head : Nat
  /-- The next position to empty. -/
  tail : Nat
  stage : θ → TicketRing.Stage α
  entered : List (Nat × α)
  left : List (Nat × α)

namespace TicketRing

variable {ι θ α : Type} [DecidableEq ι] [DecidableEq θ]

/-- The ring after thread `t` has moved to another stage. -/
def goto (r : TicketRing ι θ α) (t : θ) (s : Stage α) : TicketRing ι θ α :=
  { r with stage := Function.update r.stage t s }

/-- The ring after one slot has been written. -/
def write (r : TicketRing ι θ α) (i : ι) (s : Slot α) : TicketRing ι θ α :=
  { r with slot := Function.update r.slot i s }

/-- Position `p` is claimed for an element that is to enter. -/
def claimFree (r : TicketRing ι θ α) (t : θ) (p : Nat) (x : α) : TicketRing ι θ α :=
  { r with head := p + 1 }.goto t (.filling p x)

/-- The element is put into the slot. -/
def fill (w : Wheel ι) (r : TicketRing ι θ α) (t : θ) (p : Nat) (x : α) : TicketRing ι θ α :=
  ({ r with entered := r.entered ++ [(p, x)] }.write (w.slotOf p)
    { r.slot (w.slotOf p) with content := some x }).goto t (.filled p x)

/-- The slot is marked full. -/
def publish (w : Wheel ι) (r : TicketRing ι θ α) (t : θ) (p : Nat) : TicketRing ι θ α :=
  (r.write (w.slotOf p) { r.slot (w.slotOf p) with sequence := p + 1 }).goto t .away

/-- Position `p` is claimed to be emptied. -/
def claimFull (r : TicketRing ι θ α) (t : θ) (p : Nat) : TicketRing ι θ α :=
  { r with tail := p + 1 }.goto t (.emptying p)

/-- The element is taken out of the slot. -/
def take (w : Wheel ι) (r : TicketRing ι θ α) (t : θ) (p : Nat) (x : α) : TicketRing ι θ α :=
  ({ r with left := r.left ++ [(p, x)] }.write (w.slotOf p)
    { r.slot (w.slotOf p) with content := none }).goto t (.emptied p x)

/-- The slot is handed on to the next round. -/
def release (w : Wheel ι) (r : TicketRing ι θ α) (t : θ) (p : Nat) : TicketRing ι θ α :=
  (r.write (w.slotOf p) { r.slot (w.slotOf p) with sequence := p + w.size }).goto t .away

/-- One step of one thread. -/
inductive Step (w : Wheel ι) : TicketRing ι θ α → TicketRing ι θ α → Prop
  /-- A look is given up, or a thread that has claimed nothing goes on. -/
  | leave {r} (t : θ) : Step w r (r.goto t .away)
  | seeFree {r} (t : θ) (p : Nat) (hseq : (r.slot (w.slotOf p)).sequence = p) :
      Step w r (r.goto t (.sawFree p))
  | claimFree {r} (t : θ) (p : Nat) (x : α) (hstage : r.stage t = .sawFree p)
      (hhead : r.head = p) : Step w r (r.claimFree t p x)
  | fill {r} (t : θ) (p : Nat) (x : α) (hstage : r.stage t = .filling p x) :
      Step w r (r.fill w t p x)
  | publish {r} (t : θ) (p : Nat) (x : α) (hstage : r.stage t = .filled p x) :
      Step w r (r.publish w t p)
  | seeFull {r} (t : θ) (p : Nat) (hseq : (r.slot (w.slotOf p)).sequence = p + 1) :
      Step w r (r.goto t (.sawFull p))
  | claimFull {r} (t : θ) (p : Nat) (hstage : r.stage t = .sawFull p) (htail : r.tail = p) :
      Step w r (r.claimFull t p)
  | take {r} (t : θ) (p : Nat) (x : α) (hstage : r.stage t = .emptying p)
      (hcontent : (r.slot (w.slotOf p)).content = some x) : Step w r (r.take w t p x)
  | release {r} (t : θ) (p : Nat) (x : α) (hstage : r.stage t = .emptied p x) :
      Step w r (r.release w t p)

/-! ## Slots -/

section Wheel

omit [DecidableEq ι]

theorem Wheel.slotOf_add_mul (w : Wheel ι) (p k : Nat) :
    w.slotOf (p + k * w.size) = w.slotOf p := by
  induction k with
  | zero => rw [Nat.zero_mul, Nat.add_zero]
  | succ k ih => rw [Nat.succ_mul, ← Nat.add_assoc, w.slotOf_add_size, ih]

theorem Wheel.slotOf_mod (w : Wheel ι) (p : Nat) : w.slotOf (p % w.size) = w.slotOf p := by
  have h := w.slotOf_add_mul (p % w.size) (p / w.size)
  rwa [Nat.mod_add_div', eq_comm] at h

/-- A position and the next one have different slots, as there are two. -/
theorem Wheel.slotOf_succ_ne (w : Wheel ι) (p : Nat) : w.slotOf (p + 1) ≠ w.slotOf p := by
  intro h
  have htwo := w.two_le_size
  have heq := w.eq_of_near p (p + 1) h.symm (by omega) (by omega)
  omega

end Wheel

/-! ## The invariant -/

/-- The positions something was put into. -/
def enteredAt (r : TicketRing ι θ α) : List Nat := r.entered.map Prod.fst

/-- The positions something was taken out of. -/
def leftAt (r : TicketRing ι θ α) : List Nat := r.left.map Prod.fst

/-- A slot is in turn for position `q`: free and empty, unless it is being
    filled, or full, unless it is being emptied. -/
def InTurn (r : TicketRing ι θ α) (q : Nat) (s : Slot α) : Prop :=
  (s.sequence = q ∧ (r.head ≤ q → s.content = none)) ∨
    (s.sequence = q + 1 ∧ q < r.head ∧ (r.tail ≤ q → q ∈ r.enteredAt))

/-- What the slots, the counters and the records say about each other. -/
structure Sound (w : Wheel ι) (r : TicketRing ι θ α) : Prop where
  tail_le_head : r.tail ≤ r.head
  head_le : r.head ≤ r.tail + w.size
  turn : ∀ p, ∃ q, w.slotOf q = w.slotOf p ∧ q < r.tail + w.size ∧ r.InTurn q (r.slot (w.slotOf p))
  entered_nodup : r.enteredAt.Nodup
  entered_lt : ∀ p ∈ r.enteredAt, p < r.head
  left_nodup : r.leftAt.Nodup
  left_lt : ∀ p ∈ r.leftAt, p < r.tail
  left_subset : r.left ⊆ r.entered
  held : ∀ e ∈ r.entered, e.1 ∉ r.leftAt → (r.slot (w.slotOf e.1)).content = some e.2 ∧
    ((r.slot (w.slotOf e.1)).sequence = e.1 ∨ (r.slot (w.slotOf e.1)).sequence = e.1 + 1)

/-- The position a thread has claimed to fill. -/
def Stage.fills : Stage α → Option Nat
  | .filling p _ => some p
  | .filled p _ => some p
  | _ => none

/-- The position a thread has claimed to empty. -/
def Stage.empties : Stage α → Option Nat
  | .emptying p => some p
  | .emptied p _ => some p
  | _ => none

/-- What a thread at this stage relies on. A look may be out of date: sequence
    numbers only grow. A claim is exact. -/
def Stands (w : Wheel ι) (r : TicketRing ι θ α) : Stage α → Prop
  | .away => True
  | .sawFree p => p ≤ (r.slot (w.slotOf p)).sequence
  | .filling p _ => p < r.head ∧ (r.slot (w.slotOf p)).sequence = p ∧
      (r.slot (w.slotOf p)).content = none ∧ p ∉ r.enteredAt
  | .filled p _ => p < r.head ∧ (r.slot (w.slotOf p)).sequence = p ∧ p ∈ r.enteredAt
  | .sawFull p => p + 1 ≤ (r.slot (w.slotOf p)).sequence
  | .emptying p => p < r.tail ∧ (r.slot (w.slotOf p)).sequence = p + 1 ∧
      p ∈ r.enteredAt ∧ p ∉ r.leftAt
  | .emptied p _ => p < r.tail ∧ (r.slot (w.slotOf p)).sequence = p + 1 ∧
      (r.slot (w.slotOf p)).content = none ∧ p ∈ r.leftAt

/-- Every thread can rely on what it saw or claimed, and no position is claimed
    twice. -/
structure Placed (w : Wheel ι) (r : TicketRing ι θ α) : Prop where
  stands : ∀ t, r.Stands w (r.stage t)
  fills_one : ∀ t u p, (r.stage t).fills = some p → (r.stage u).fills = some p → t = u
  empties_one : ∀ t u p, (r.stage t).empties = some p → (r.stage u).empties = some p → t = u

/-- The invariant of the ring. -/
structure Inv (w : Wheel ι) (r : TicketRing ι θ α) : Prop where
  sound : r.Sound w
  placed : r.Placed w

variable {w : Wheel ι} {r r' : TicketRing ι θ α}

omit [DecidableEq ι] [DecidableEq θ]

/-! ### Frames -/

/-- A thread that fills position `p`. -/
theorem Stands.of_fills {s : Stage α} {p : Nat} (h : r.Stands w s) (hs : s.fills = some p) :
    p < r.head ∧ (r.slot (w.slotOf p)).sequence = p := by
  cases s with
  | filling q x =>
      obtain rfl : q = p := Option.some.inj hs
      exact ⟨h.1, h.2.1⟩
  | filled q x =>
      obtain rfl : q = p := Option.some.inj hs
      exact ⟨h.1, h.2.1⟩
  | _ => cases hs

/-- A thread that empties position `p`. -/
theorem Stands.of_empties {s : Stage α} {p : Nat} (h : r.Stands w s) (hs : s.empties = some p) :
    p < r.tail ∧ (r.slot (w.slotOf p)).sequence = p + 1 := by
  cases s with
  | emptying q =>
      obtain rfl : q = p := Option.some.inj hs
      exact ⟨h.1, h.2.1⟩
  | emptied q x =>
      obtain rfl : q = p := Option.some.inj hs
      exact ⟨h.1, h.2.1⟩
  | _ => cases hs

/-- A thread holds a position it has claimed. -/
def Stage.Holds (s : Stage α) (p : Nat) : Prop := s.fills = some p ∨ s.empties = some p

/-- Two threads never hold positions of one slot: what both know of its sequence
    number gives one position, and a position is claimed once. -/
theorem Placed.slot_ne (h : r.Placed w) {t u : θ} {p q : Nat} (hne : u ≠ t)
    (ht : (r.stage t).Holds p) (hu : (r.stage u).Holds q) : w.slotOf q ≠ w.slotOf p := by
  intro hslot
  rcases ht with ht | ht <;> rcases hu with hu | hu
  · have hp := ((h.stands t).of_fills ht).2
    have hq := ((h.stands u).of_fills hu).2
    rw [hslot, hp] at hq
    exact hne (h.fills_one u t p (hq ▸ hu) ht)
  · have hp := ((h.stands t).of_fills ht).2
    have hq := ((h.stands u).of_empties hu).2
    rw [hslot, hp] at hq
    exact w.slotOf_succ_ne q (hq ▸ hslot.symm)
  · have hp := ((h.stands t).of_empties ht).2
    have hq := ((h.stands u).of_fills hu).2
    rw [hslot, hp] at hq
    exact w.slotOf_succ_ne p (hq ▸ hslot)
  · have hp := ((h.stands t).of_empties ht).2
    have hq := ((h.stands u).of_empties hu).2
    rw [hslot, hp] at hq
    have heq : q = p := by omega
    exact hne (h.empties_one u t p (heq ▸ hu) ht)

/-- Counters, sequence numbers and records only grow. -/
structure Grows (r r' : TicketRing ι θ α) : Prop where
  sequence_le : ∀ i, (r.slot i).sequence ≤ (r'.slot i).sequence
  head_le : r.head ≤ r'.head
  tail_le : r.tail ≤ r'.tail
  entered_subset : r.entered ⊆ r'.entered
  left_subset : r.left ⊆ r'.left

theorem Grows.enteredAt_subset (h : Grows r r') : r.enteredAt ⊆ r'.enteredAt :=
  List.map_subset _ h.entered_subset

theorem Grows.leftAt_subset (h : Grows r r') : r.leftAt ⊆ r'.leftAt :=
  List.map_subset _ h.left_subset

/-- Nothing has happened at position `p` or to its slot. -/
structure Untouched (w : Wheel ι) (r r' : TicketRing ι θ α) (p : Nat) : Prop where
  slot_eq : r'.slot (w.slotOf p) = r.slot (w.slotOf p)
  entered : p ∈ r'.enteredAt → p ∈ r.enteredAt
  left : p ∈ r'.leftAt → p ∈ r.leftAt

/-- A thread stands as it did where its own position is untouched. -/
theorem Stands.frame {s : Stage α} (h : r.Stands w s) (hgrows : Grows r r')
    (hown : ∀ p, s.Holds p → Untouched w r r' p) : r'.Stands w s := by
  cases s with
  | away => trivial
  | sawFree p => exact Nat.le_trans h (hgrows.sequence_le _)
  | filling p x =>
      have hp := hown p (Or.inl rfl)
      rcases h with ⟨hlt, hseq, hcontent, hfresh⟩
      refine ⟨Nat.lt_of_lt_of_le hlt hgrows.head_le, ?_, ?_, fun hin => hfresh (hp.entered hin)⟩
      · rw [hp.slot_eq, hseq]
      · rw [hp.slot_eq, hcontent]
  | filled p x =>
      have hp := hown p (Or.inl rfl)
      rcases h with ⟨hlt, hseq, hin⟩
      refine ⟨Nat.lt_of_lt_of_le hlt hgrows.head_le, ?_, hgrows.enteredAt_subset hin⟩
      rw [hp.slot_eq, hseq]
  | sawFull p => exact Nat.le_trans h (hgrows.sequence_le _)
  | emptying p =>
      have hp := hown p (Or.inr rfl)
      rcases h with ⟨hlt, hseq, hin, hfresh⟩
      refine ⟨Nat.lt_of_lt_of_le hlt hgrows.tail_le, ?_, hgrows.enteredAt_subset hin,
        fun hin => hfresh (hp.left hin)⟩
      rw [hp.slot_eq, hseq]
  | emptied p x =>
      have hp := hown p (Or.inr rfl)
      rcases h with ⟨hlt, hseq, hcontent, hin⟩
      refine ⟨Nat.lt_of_lt_of_le hlt hgrows.tail_le, ?_, ?_, hgrows.leftAt_subset hin⟩
      · rw [hp.slot_eq, hseq]
      · rw [hp.slot_eq, hcontent]

/-- A slot that is not written stays in turn. -/
theorem InTurn.frame {q : Nat} {s : Slot α} (h : r.InTurn q s) (hgrows : Grows r r') :
    r'.InTurn q s := by
  rcases h with ⟨hseq, hcontent⟩ | ⟨hseq, hlt, hin⟩
  · exact Or.inl ⟨hseq, fun hle => hcontent (Nat.le_trans hgrows.head_le hle)⟩
  · exact Or.inr ⟨hseq, Nat.lt_of_lt_of_le hlt hgrows.head_le,
      fun hle => hgrows.enteredAt_subset (hin (Nat.le_trans hgrows.tail_le hle))⟩

/-- What only one thread has, only one thread has after a thread has moved to a
    stage where it has nothing that another one has. -/
theorem one_of_update [DecidableEq θ] {f : Stage α → Option Nat} {stage : θ → Stage α} {t : θ}
    {s : Stage α} (hone : ∀ u v p, f (stage u) = some p → f (stage v) = some p → u = v)
    (hnew : ∀ u, u ≠ t → ∀ p, f s = some p → f (stage u) ≠ some p) (u v : θ) (p : Nat)
    (hu : f (Function.update stage t s u) = some p)
    (hv : f (Function.update stage t s v) = some p) : u = v := by
  by_cases hut : u = t <;> by_cases hvt : v = t
  · rw [hut, hvt]
  · rw [hut, Function.update_self] at hu
    rw [Function.update_of_ne hvt] at hv
    exact absurd hv (hnew v hvt p hu)
  · rw [hvt, Function.update_self] at hv
    rw [Function.update_of_ne hut] at hu
    exact absurd hu (hnew u hut p hv)
  · rw [Function.update_of_ne hut] at hu
    rw [Function.update_of_ne hvt] at hv
    exact hone u v p hu hv

/-- Thread `t` moves on. What it claims, if it claims anything new, is claimed at
    a counter, and nobody has claimed that yet. -/
theorem Placed.move [DecidableEq θ] (h : r.Placed w) (hgrows : Grows r r') {t : θ} {s : Stage α}
    (hstage : r'.stage = Function.update r.stage t s) (hs : r'.Stands w s)
    (hother : ∀ u, u ≠ t → ∀ p, (r.stage u).Holds p → Untouched w r r' p)
    (hfills : ∀ p, s.fills = some p → (r.stage t).fills = some p ∨ r.head ≤ p)
    (hempties : ∀ p, s.empties = some p → (r.stage t).empties = some p ∨ r.tail ≤ p) :
    r'.Placed w := by
  constructor
  · intro u
    rw [hstage]
    by_cases hu : u = t
    · rw [hu, Function.update_self]
      exact hs
    · rw [Function.update_of_ne hu]
      exact (h.stands u).frame hgrows (hother u hu)
  · rw [hstage]
    refine one_of_update h.fills_one fun u hu p hsp hup => ?_
    rcases hfills p hsp with htp | hle
    · exact hu (h.fills_one u t p hup htp)
    · have hlt := ((h.stands u).of_fills hup).1
      omega
  · rw [hstage]
    refine one_of_update h.empties_one fun u hu p hsp hup => ?_
    rcases hempties p hsp with htp | hle
    · exact hu (h.empties_one u t p hup htp)
    · have hlt := ((h.stands u).of_empties hup).1
      omega

/-! ### Claims -/

/-- A thread that saw a slot free for the position the counter still shows. The
    slot cannot have gone round since: its next turn comes when the position it
    was free for has been emptied. -/
theorem Sound.free_of_le (h : r.Sound w) {p : Nat}
    (hsaw : p ≤ (r.slot (w.slotOf p)).sequence) (hhead : r.head = p) :
    (r.slot (w.slotOf p)).sequence = p ∧ (r.slot (w.slotOf p)).content = none ∧
      p < r.tail + w.size := by
  rcases h.turn p with ⟨q, hslot, hlt, ⟨hseq, hcontent⟩ | ⟨hseq, hq, -⟩⟩
  · -- `q` is not behind `p` and less than a round ahead of it.
    have hle := h.tail_le_head
    have heq := w.eq_of_near p q hslot.symm (by omega) (by omega)
    refine ⟨by omega, hcontent (by omega), by omega⟩
  · -- A slot that is full is so for a position the counter has passed.
    have heq : p = q + 1 := by omega
    rw [heq] at hslot
    exact absurd hslot.symm (w.slotOf_succ_ne q)

/-- A thread that saw a slot full for the position the counter still shows. -/
theorem Sound.full_of_le (h : r.Sound w) {p : Nat}
    (hsaw : p + 1 ≤ (r.slot (w.slotOf p)).sequence) (htail : r.tail = p) :
    (r.slot (w.slotOf p)).sequence = p + 1 ∧ p < r.head ∧ p ∈ r.enteredAt ∧ p ∉ r.leftAt := by
  rcases h.turn p with ⟨q, hslot, hlt, ⟨hseq, -⟩ | ⟨hseq, hq, hin⟩⟩
  · have heq := w.eq_of_near p q hslot.symm (by omega) (by omega)
    omega
  · have heq := w.eq_of_near p q hslot.symm (by omega) (by omega)
    have hfresh : p ∉ r.leftAt := by
      intro hleft
      have hlt := h.left_lt p hleft
      omega
    exact ⟨by omega, by omega, heq ▸ hin (by omega), hfresh⟩

/-- What is held in the slot of `p` while that is in turn for `p` was put into
    `p`. -/
theorem Sound.held_at (h : r.Sound w) {e : Nat × α} (he : e ∈ r.entered) (hleft : e.1 ∉ r.leftAt)
    {p : Nat} (hslot : w.slotOf e.1 = w.slotOf p)
    (hseq : (r.slot (w.slotOf p)).sequence = p ∨ (r.slot (w.slotOf p)).sequence = p + 1) :
    e.1 = p := by
  have hheld := (h.held e he hleft).2
  rw [hslot] at hheld
  -- The sequence number leaves three positions, and neighbours differ in their slots.
  have hcases : e.1 = p ∨ e.1 = p + 1 ∨ e.1 + 1 = p := by omega
  rcases hcases with heq | heq | heq
  · exact heq
  · rw [heq] at hslot
    exact absurd hslot (w.slotOf_succ_ne p)
  · rw [← heq] at hslot
    exact absurd hslot.symm (w.slotOf_succ_ne e.1)

/-- Every slot is in turn after one has been written for position `q`. -/
theorem Sound.turn_write (h : r.Sound w) (hgrows : Grows r r') {p q : Nat}
    (hother : ∀ i, i ≠ w.slotOf p → r'.slot i = r.slot i) (hslot : w.slotOf q = w.slotOf p)
    (hlt : q < r'.tail + w.size) (hturn : r'.InTurn q (r'.slot (w.slotOf p))) (p' : Nat) :
    ∃ q', w.slotOf q' = w.slotOf p' ∧ q' < r'.tail + w.size ∧
      r'.InTurn q' (r'.slot (w.slotOf p')) := by
  by_cases hp : w.slotOf p' = w.slotOf p
  · rw [hp]
    exact ⟨q, hslot, hlt, hturn⟩
  · rw [hother _ hp]
    rcases h.turn p' with ⟨q', hslot', hlt', hturn'⟩
    exact ⟨q', hslot', Nat.lt_of_lt_of_le hlt' (Nat.add_le_add_right hgrows.tail_le _),
      hturn'.frame hgrows⟩

/-- Writing the slot of a position `t` holds leaves the positions the other
    threads hold untouched. -/
theorem Placed.untouched (h : r.Placed w) {t : θ} {p : Nat} (ht : (r.stage t).Holds p)
    (hother : ∀ i, i ≠ w.slotOf p → r'.slot i = r.slot i)
    (hentered : ∀ q, q ≠ p → q ∈ r'.enteredAt → q ∈ r.enteredAt)
    (hleft : ∀ q, q ≠ p → q ∈ r'.leftAt → q ∈ r.leftAt) :
    ∀ u, u ≠ t → ∀ q, (r.stage u).Holds q → Untouched w r r' q := by
  intro u hu q hq
  have hslot := h.slot_ne hu ht hq
  have hne : q ≠ p := fun heq => hslot (congrArg w.slotOf heq)
  exact ⟨hother _ hslot, hentered q hne, hleft q hne⟩

/-- Whoever is about to fill a slot finds it empty. -/
theorem Inv.content_none (h : r.Inv w) {t : θ} {p : Nat} {x : α}
    (hstage : r.stage t = .filling p x) : (r.slot (w.slotOf p)).content = none := by
  have hstands := h.placed.stands t
  rw [hstage] at hstands
  exact hstands.2.2.1

/-- Whoever is about to empty a slot finds what was put into its position. -/
theorem Inv.content_some (h : r.Inv w) {t : θ} {p : Nat} (hstage : r.stage t = .emptying p) :
    ∃ x, (r.slot (w.slotOf p)).content = some x ∧ (p, x) ∈ r.entered := by
  have hstands := h.placed.stands t
  rw [hstage] at hstands
  rcases List.mem_map.mp hstands.2.2.1 with ⟨e, he, rfl⟩
  exact ⟨e.2, (h.sound.held e he hstands.2.2.2).1, he⟩

/-! ## Steps -/

section Steps

variable [DecidableEq θ]

/-- Looking at a slot and giving up claims nothing. -/
theorem Inv.look (h : r.Inv w) {s : Stage α} (t : θ) (hs : r.Stands w s) (hfills : s.fills = none)
    (hempties : s.empties = none) : (r.goto t s).Inv w := by
  have hgrows : Grows r (r.goto t s) :=
    ⟨fun _ => Nat.le_refl _, Nat.le_refl _, Nat.le_refl _, List.Subset.refl _, List.Subset.refl _⟩
  constructor
  · exact ⟨h.sound.tail_le_head, h.sound.head_le, h.sound.turn, h.sound.entered_nodup,
      h.sound.entered_lt, h.sound.left_nodup, h.sound.left_lt, h.sound.left_subset, h.sound.held⟩
  · refine h.placed.move hgrows rfl ?_ (fun _ _ _ _ => ⟨rfl, id, id⟩) ?_ ?_
    · cases s <;> exact hs
    · rw [hfills]
      exact fun _ hp => nomatch hp
    · rw [hempties]
      exact fun _ hp => nomatch hp

theorem Inv.claimFree (h : r.Inv w) {t : θ} {p : Nat} (x : α) (hstage : r.stage t = .sawFree p)
    (hhead : r.head = p) : (r.claimFree t p x).Inv w := by
  have hsaw := h.placed.stands t
  rw [hstage] at hsaw
  rcases h.sound.free_of_le hsaw hhead with ⟨hseq, hcontent, hroom⟩
  have hle : r.head ≤ p + 1 := by omega
  have hgrows : Grows r (r.claimFree t p x) :=
    ⟨fun _ => Nat.le_refl _, hle, Nat.le_refl _, List.Subset.refl _, List.Subset.refl _⟩
  -- Nothing has entered at the counter yet.
  have hfresh : p ∉ r.enteredAt := by
    intro hin
    have hlt := h.sound.entered_lt p hin
    omega
  constructor
  · refine ⟨Nat.le_trans h.sound.tail_le_head hle, hroom, ?_, h.sound.entered_nodup, ?_,
      h.sound.left_nodup, h.sound.left_lt, h.sound.left_subset, h.sound.held⟩
    · intro p'
      rcases h.sound.turn p' with ⟨q, hslot, hlt, hturn⟩
      exact ⟨q, hslot, hlt, hturn.frame hgrows⟩
    · intro q hq
      exact Nat.lt_of_lt_of_le (h.sound.entered_lt q hq) hle
  · refine h.placed.move hgrows rfl ⟨Nat.lt_succ_self p, hseq, hcontent, hfresh⟩
      (fun _ _ _ _ => ⟨rfl, id, id⟩) ?_ (fun _ hq => nomatch hq)
    intro q hq
    obtain rfl : p = q := Option.some.inj hq
    exact Or.inr (Nat.le_of_eq hhead)

theorem Inv.claimFull (h : r.Inv w) {t : θ} {p : Nat} (hstage : r.stage t = .sawFull p)
    (htail : r.tail = p) : (r.claimFull t p).Inv w := by
  have hsaw := h.placed.stands t
  rw [hstage] at hsaw
  rcases h.sound.full_of_le hsaw htail with ⟨hseq, hlt, hin, hfresh⟩
  have hle : r.tail ≤ p + 1 := by omega
  have hgrows : Grows r (r.claimFull t p) :=
    ⟨fun _ => Nat.le_refl _, Nat.le_refl _, hle, List.Subset.refl _, List.Subset.refl _⟩
  constructor
  · refine ⟨hlt, Nat.le_trans h.sound.head_le (Nat.add_le_add_right hle _), ?_,
      h.sound.entered_nodup, h.sound.entered_lt, h.sound.left_nodup, ?_, h.sound.left_subset,
      h.sound.held⟩
    · intro p'
      rcases h.sound.turn p' with ⟨q, hslot, hqlt, hturn⟩
      exact ⟨q, hslot, Nat.lt_of_lt_of_le hqlt (Nat.add_le_add_right hle _), hturn.frame hgrows⟩
    · intro q hq
      exact Nat.lt_of_lt_of_le (h.sound.left_lt q hq) hle
  · refine h.placed.move hgrows rfl ⟨Nat.lt_succ_self p, hseq, hin, hfresh⟩
      (fun _ _ _ _ => ⟨rfl, id, id⟩) (fun _ hq => nomatch hq) ?_
    intro q hq
    obtain rfl : p = q := Option.some.inj hq
    exact Or.inr (Nat.le_of_eq htail)

variable [DecidableEq ι]

theorem Inv.fill (h : r.Inv w) {t : θ} {p : Nat} {x : α} (hstage : r.stage t = .filling p x) :
    (r.fill w t p x).Inv w := by
  have hstands := h.placed.stands t
  rw [hstage] at hstands
  rcases hstands with ⟨hlt, hseq, hcontent, hfresh⟩
  have hself : (r.fill w t p x).slot (w.slotOf p) = ⟨(r.slot (w.slotOf p)).sequence, some x⟩ :=
    Function.update_self ..
  have hother : ∀ i, i ≠ w.slotOf p → (r.fill w t p x).slot i = r.slot i :=
    fun i hi => Function.update_of_ne hi ..
  have hat : (r.fill w t p x).enteredAt = r.enteredAt ++ [p] := List.map_append
  have hgrows : Grows r (r.fill w t p x) := by
    refine ⟨fun i => ?_, Nat.le_refl _, Nat.le_refl _, List.subset_append_left _ _,
      List.Subset.refl _⟩
    by_cases hi : i = w.slotOf p
    · rw [hi, hself]
    · rw [hother i hi]
  constructor
  · refine ⟨h.sound.tail_le_head, h.sound.head_le, ?_, ?_, ?_, h.sound.left_nodup,
      h.sound.left_lt, fun e he => List.mem_append_left _ (h.sound.left_subset he), ?_⟩
    · -- The slot is in turn for `p`, which is no longer free.
      refine h.sound.turn_write hgrows hother rfl ?_ (Or.inl ⟨?_, fun hle => ?_⟩)
      · exact Nat.lt_of_lt_of_le hlt h.sound.head_le
      · rw [hself, hseq]
      · exact absurd hlt (Nat.not_lt.mpr hle)
    · rw [hat]
      exact h.sound.entered_nodup.append (List.nodup_singleton p)
        (fun q hq hq' => hfresh (List.mem_singleton.mp hq' ▸ hq))
    · intro q hq
      rw [hat, List.mem_append, List.mem_singleton] at hq
      rcases hq with hq | rfl
      · exact h.sound.entered_lt q hq
      · exact hlt
    · intro e he hleft
      rcases List.mem_append.mp he with he | he
      · have hne : w.slotOf e.1 ≠ w.slotOf p := by
          intro hslot
          have heq := h.sound.held_at he hleft hslot (Or.inl hseq)
          exact hfresh (heq ▸ List.mem_map_of_mem he)
        rw [hother _ hne]
        exact h.sound.held e he hleft
      · rw [List.mem_singleton.mp he, hself]
        exact ⟨rfl, Or.inl hseq⟩
  · refine h.placed.move hgrows rfl ⟨hlt, ?_, ?_⟩
      (h.placed.untouched (Or.inl (by rw [hstage]; rfl)) hother ?_ (fun _ _ => id)) ?_
      (fun _ hq => nomatch hq)
    · rw [hself, hseq]
    · rw [hat]
      exact List.mem_append_right _ (List.mem_singleton_self p)
    · intro q hq hin
      rw [hat, List.mem_append, List.mem_singleton] at hin
      exact hin.resolve_right hq
    · rw [hstage]
      exact fun q hq => Or.inl hq

theorem Inv.publish (h : r.Inv w) {t : θ} {p : Nat} {x : α} (hstage : r.stage t = .filled p x) :
    (r.publish w t p).Inv w := by
  have hstands := h.placed.stands t
  rw [hstage] at hstands
  rcases hstands with ⟨hlt, hseq, hin⟩
  have hself : (r.publish w t p).slot (w.slotOf p) = ⟨p + 1, (r.slot (w.slotOf p)).content⟩ :=
    Function.update_self ..
  have hother : ∀ i, i ≠ w.slotOf p → (r.publish w t p).slot i = r.slot i :=
    fun i hi => Function.update_of_ne hi ..
  have hgrows : Grows r (r.publish w t p) := by
    refine ⟨fun i => ?_, Nat.le_refl _, Nat.le_refl _, List.Subset.refl _, List.Subset.refl _⟩
    by_cases hi : i = w.slotOf p
    · rw [hi, hself, hseq]
      exact Nat.le_succ p
    · rw [hother i hi]
  constructor
  · refine ⟨h.sound.tail_le_head, h.sound.head_le, ?_, h.sound.entered_nodup, h.sound.entered_lt,
      h.sound.left_nodup, h.sound.left_lt, h.sound.left_subset, ?_⟩
    · refine h.sound.turn_write hgrows hother rfl ?_ (Or.inr ⟨?_, hlt, fun _ => hin⟩)
      · exact Nat.lt_of_lt_of_le hlt h.sound.head_le
      · rw [hself]
    · intro e he hleft
      by_cases hslot : w.slotOf e.1 = w.slotOf p
      · -- What is held in this slot was put into `p`.
        have heq := h.sound.held_at he hleft hslot (Or.inl hseq)
        rw [hslot, hself]
        refine ⟨?_, Or.inr (congrArg Nat.succ heq.symm)⟩
        rw [← hslot]
        exact (h.sound.held e he hleft).1
      · rw [hother _ hslot]
        exact h.sound.held e he hleft
  · exact h.placed.move hgrows rfl trivial
      (h.placed.untouched (Or.inl (by rw [hstage]; rfl)) hother (fun _ _ => id) (fun _ _ => id))
      (fun _ hq => nomatch hq) (fun _ hq => nomatch hq)

theorem Inv.take (h : r.Inv w) {t : θ} {p : Nat} {x : α} (hstage : r.stage t = .emptying p)
    (hcontent : (r.slot (w.slotOf p)).content = some x) : (r.take w t p x).Inv w := by
  have hstands := h.placed.stands t
  rw [hstage] at hstands
  rcases hstands with ⟨hlt, hseq, hin, hfresh⟩
  have hself : (r.take w t p x).slot (w.slotOf p) = ⟨(r.slot (w.slotOf p)).sequence, none⟩ :=
    Function.update_self ..
  have hother : ∀ i, i ≠ w.slotOf p → (r.take w t p x).slot i = r.slot i :=
    fun i hi => Function.update_of_ne hi ..
  have hat : (r.take w t p x).leftAt = r.leftAt ++ [p] := List.map_append
  have hgrows : Grows r (r.take w t p x) := by
    refine ⟨fun i => ?_, Nat.le_refl _, Nat.le_refl _, List.Subset.refl _,
      List.subset_append_left _ _⟩
    by_cases hi : i = w.slotOf p
    · rw [hi, hself]
    · rw [hother i hi]
  -- What the slot holds is what was put into `p`.
  have hentered : (p, x) ∈ r.entered := by
    rcases h.content_some hstage with ⟨y, hy, he⟩
    rw [hcontent] at hy
    exact Option.some.inj hy ▸ he
  constructor
  · refine ⟨h.sound.tail_le_head, h.sound.head_le, ?_, h.sound.entered_nodup, h.sound.entered_lt,
      ?_, ?_, ?_, ?_⟩
    · refine h.sound.turn_write hgrows hother rfl (Nat.lt_add_right _ hlt) (Or.inr ⟨?_, ?_, ?_⟩)
      · rw [hself, hseq]
      · exact Nat.lt_of_lt_of_le hlt h.sound.tail_le_head
      · exact fun hle => absurd hlt (Nat.not_lt.mpr hle)
    · rw [hat]
      exact h.sound.left_nodup.append (List.nodup_singleton p)
        (fun q hq hq' => hfresh (List.mem_singleton.mp hq' ▸ hq))
    · intro q hq
      rw [hat, List.mem_append, List.mem_singleton] at hq
      rcases hq with hq | rfl
      · exact h.sound.left_lt q hq
      · exact hlt
    · intro e he
      rcases List.mem_append.mp he with he | he
      · exact h.sound.left_subset he
      · rw [List.mem_singleton.mp he]
        exact hentered
    · intro e he hleft
      rw [hat, List.mem_append, not_or, List.mem_singleton] at hleft
      have hne : w.slotOf e.1 ≠ w.slotOf p :=
        fun hslot => hleft.2 (h.sound.held_at he hleft.1 hslot (Or.inr hseq))
      rw [hother _ hne]
      exact h.sound.held e he hleft.1
  · refine h.placed.move hgrows rfl ⟨hlt, ?_, ?_, ?_⟩
      (h.placed.untouched (Or.inr (by rw [hstage]; rfl)) hother (fun _ _ => id) ?_)
      (fun _ hq => nomatch hq) ?_
    · rw [hself, hseq]
    · rw [hself]
    · rw [hat]
      exact List.mem_append_right _ (List.mem_singleton_self p)
    · intro q hq hin
      rw [hat, List.mem_append, List.mem_singleton] at hin
      exact hin.resolve_right hq
    · rw [hstage]
      exact fun q hq => Or.inl hq

theorem Inv.release (h : r.Inv w) {t : θ} {p : Nat} {x : α} (hstage : r.stage t = .emptied p x) :
    (r.release w t p).Inv w := by
  have hstands := h.placed.stands t
  rw [hstage] at hstands
  rcases hstands with ⟨hlt, hseq, hcontent, hin⟩
  have htwo := w.two_le_size
  have hself : (r.release w t p).slot (w.slotOf p) =
      ⟨p + w.size, (r.slot (w.slotOf p)).content⟩ := Function.update_self ..
  have hother : ∀ i, i ≠ w.slotOf p → (r.release w t p).slot i = r.slot i :=
    fun i hi => Function.update_of_ne hi ..
  have hgrows : Grows r (r.release w t p) := by
    refine ⟨fun i => ?_, Nat.le_refl _, Nat.le_refl _, List.Subset.refl _, List.Subset.refl _⟩
    by_cases hi : i = w.slotOf p
    · rw [hi, hself, hseq]
      exact Nat.add_le_add_left (by omega) p
    · rw [hother i hi]
  constructor
  · refine ⟨h.sound.tail_le_head, h.sound.head_le, ?_, h.sound.entered_nodup, h.sound.entered_lt,
      h.sound.left_nodup, h.sound.left_lt, h.sound.left_subset, ?_⟩
    · -- The next turn of the slot is a round later, and `p` has been emptied.
      refine h.sound.turn_write hgrows hother (w.slotOf_add_size p)
        (Nat.add_lt_add_right hlt _) (Or.inl ⟨?_, fun _ => ?_⟩)
      · rw [hself]
      · rw [hself]
        exact hcontent
    · intro e he hleft
      have hne : w.slotOf e.1 ≠ w.slotOf p := by
        intro hslot
        have heq := h.sound.held_at he hleft hslot (Or.inr hseq)
        exact hleft (heq ▸ hin)
      rw [hother _ hne]
      exact h.sound.held e he hleft
  · exact h.placed.move hgrows rfl trivial
      (h.placed.untouched (Or.inr (by rw [hstage]; rfl)) hother (fun _ _ => id) (fun _ _ => id))
      (fun _ hq => nomatch hq) (fun _ hq => nomatch hq)

/-- Every move keeps the invariant. -/
theorem Inv.step (h : r.Inv w) (hstep : Step w r r') : r'.Inv w := by
  cases hstep with
  | leave t => exact h.look t trivial rfl rfl
  | seeFree t p hseq => exact h.look t (Nat.le_of_eq hseq.symm) rfl rfl
  | claimFree t p x hstage hhead => exact h.claimFree x hstage hhead
  | fill t p x hstage => exact h.fill hstage
  | publish t p x hstage => exact h.publish hstage
  | seeFull t p hseq => exact h.look t (Nat.le_of_eq hseq.symm) rfl rfl
  | claimFull t p hstage htail => exact h.claimFull hstage htail
  | take t p x hstage hcontent => exact h.take hstage hcontent
  | release t p x hstage => exact h.release hstage

end Steps

/-! ## What the invariant says -/

/-- A ring where nothing has happened yet. -/
theorem Inv.start (hslot : ∀ p, p < w.size → r.slot (w.slotOf p) = ⟨p, none⟩) (hhead : r.head = 0)
    (htail : r.tail = 0) (hstage : ∀ t, r.stage t = .away) (hentered : r.entered = [])
    (hleft : r.left = []) : r.Inv w := by
  have hat : r.enteredAt = [] := by rw [enteredAt, hentered, List.map_nil]
  have hat' : r.leftAt = [] := by rw [leftAt, hleft, List.map_nil]
  have hpos : 0 < w.size := Nat.lt_of_lt_of_le Nat.zero_lt_two w.two_le_size
  constructor
  · refine ⟨by omega, by omega, fun p => ?_, ?_, ?_, ?_, ?_, ?_, ?_⟩
    · have hlt := Nat.mod_lt p hpos
      refine ⟨p % w.size, w.slotOf_mod p, by omega, Or.inl ?_⟩
      rw [← w.slotOf_mod p, hslot _ hlt]
      exact ⟨rfl, fun _ => rfl⟩
    · rw [hat]
      exact List.nodup_nil
    · rw [hat]
      exact fun _ hp => nomatch hp
    · rw [hat']
      exact List.nodup_nil
    · rw [hat']
      exact fun _ hp => nomatch hp
    · rw [hleft]
      exact List.nil_subset _
    · rw [hentered]
      exact fun _ he => nomatch he
  · refine ⟨fun t => ?_, fun t u p ht _ => ?_, fun t u p ht _ => ?_⟩
    · rw [hstage t]
      trivial
    · rw [hstage t] at ht
      exact nomatch ht
    · rw [hstage t] at ht
      exact nomatch ht

/-- No more is held than there are slots: what is held at two positions is held in
    two slots. -/
theorem Inv.held_le (h : r.Inv w) : r.entered.length ≤ r.left.length + w.size := by
  have hpos : 0 < w.size := Nat.lt_of_lt_of_le Nat.zero_lt_two w.two_le_size
  have hheld : (r.enteredAt.toFinset \ r.leftAt.toFinset).card ≤ (Finset.range w.size).card := by
    refine Finset.card_le_card_of_injOn (· % w.size)
      (fun p _ => Finset.mem_coe.mpr (Finset.mem_range.mpr (Nat.mod_lt p hpos))) ?_
    intro p hp q hq hmod
    have hslot : w.slotOf p = w.slotOf q := by
      rw [← w.slotOf_mod p, ← w.slotOf_mod q]
      exact congrArg w.slotOf hmod
    rw [Finset.mem_coe, Finset.mem_sdiff, List.mem_toFinset, List.mem_toFinset] at hp hq
    rcases List.mem_map.mp hp.1 with ⟨e, he, rfl⟩
    rcases List.mem_map.mp hq.1 with ⟨e', he', rfl⟩
    exact h.sound.held_at he hp.2 hslot (h.sound.held e' he' hq.2).2
  -- Positions that were filled are those that were emptied and those that are held.
  have hcard := Finset.card_le_card_sdiff_add_card (s := r.enteredAt.toFinset)
    (t := r.leftAt.toFinset)
  rw [List.toFinset_card_of_nodup h.sound.entered_nodup,
    List.toFinset_card_of_nodup h.sound.left_nodup] at hcard
  rw [Finset.card_range] at hheld
  have hlen : r.enteredAt.length = r.entered.length := List.length_map ..
  have hlen' : r.leftAt.length = r.left.length := List.length_map ..
  omega

end TicketRing

end MqBroker
