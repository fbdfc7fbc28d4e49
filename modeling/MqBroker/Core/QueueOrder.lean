import MqBroker.Core.MpmcQueue
import MqBroker.Lib.Runs
import MqBroker.Lib.TicketRing
import Mathlib.Data.Nat.ModEq

/-!
# The Order of the Multi-Producer Multi-Consumer Queue

The queue is a ring of numbered slots. `MpmcQueue.ring` reads it as one: 64-bit
positions become numbers, the index of a cell becomes its slot, and a thread
that has neither seen a free or full cell nor claimed a position is away.
`ring_exec` says that every step of the code is a step of that ring, or none,
as long as positions are below `2 ^ 63` and so do not wrap.

What the queue promises then follows from the invariant of the ring. Nothing is
assumed about who runs when, how many threads there are or how often the ring
has gone round.

## Main definitions

* `wheel`: The cells as slots of a ring.
* `MpmcQueue.ring`: The queue read as a ring.
* `MpmcQueue.Small`: The positions are below `2 ^ 63`.
* `MpmcQueue.Refines`: The invariant of the queue.
* `MpmcQueue.Fifo`: What the queue promises.

## Theorems

* `MpmcQueue.ring_exec`: A step of the queue is a step of the ring.
* `MpmcQueue.Refines.exec`: Every step keeps the invariant.
* `MpmcQueue.always_fifo`: The queue is a bounded queue in every run.
-/

namespace MqBroker

open TicketRing

/-! ## Cells as slots -/

/-- A position and the index of its cell. -/
theorem slot_toNat {capacity : UInt64} (hc : capacity.toNat ≤ 2 ^ 63) (p : Nat) :
    (UInt64.ofNat p &&& (normalizeCapacity capacity - 1)).toNat =
      p % (normalizeCapacity capacity).toNat := by
  have hcap := normalizeCapacity_toNat capacity hc
  have hlt := (normalizeCapacity capacity).toNat_lt
  rw [and_mask_toNat hcap, UInt64.toNat_ofNat', Nat.mod_mod_of_dvd]
  rw [hcap] at hlt ⊢
  exact Nat.pow_dvd_pow 2 (Nat.le_of_lt ((Nat.pow_lt_pow_iff_right (by omega)).mp hlt))

/-- The cells of a queue as the slots of a ring. -/
def wheel (capacity : UInt64) (hc : capacity.toNat ≤ 2 ^ 63) : Wheel UInt64 where
  size := (normalizeCapacity capacity).toNat
  slotOf := fun p => UInt64.ofNat p &&& (normalizeCapacity capacity - 1)
  two_le_size := by
    rw [normalizeCapacity_toNat capacity hc, Nat.pow_succ]
    have hpos := Nat.two_pow_pos (max capacity.toNat 2 - 1).log2
    omega
  slotOf_add_size := by
    intro p
    apply UInt64.toNat_inj.mp
    rw [slot_toNat hc, slot_toNat hc, Nat.add_mod_right]
  eq_of_near := by
    intro p q hslot hle hlt
    have hmod := congrArg UInt64.toNat hslot
    rw [slot_toNat hc, slot_toNat hc] at hmod
    have hdvd := (Nat.modEq_iff_dvd' hle).mp hmod
    have hzero := Nat.eq_zero_of_dvd_of_lt hdvd (by omega)
    omega

theorem wheel_slotOf {capacity : UInt64} (hc : capacity.toNat ≤ 2 ^ 63) (position : UInt64) :
    (wheel capacity hc).slotOf position.toNat = position &&& (normalizeCapacity capacity - 1) := by
  have hof : UInt64.ofNat position.toNat = position := UInt64.ofNat_toNat
  exact congrArg (· &&& (normalizeCapacity capacity - 1)) hof

/-- Two positions differ by nothing exactly when they are equal. The sign of other
    differences only decides whether a thread gives up or looks again. -/
theorem difference_zero_iff (sequence position : UInt64) :
    MpmcQueue.difference sequence position = 0 ↔ sequence = position := by
  rw [MpmcQueue.difference, Int64.sub_eq_iff_eq_add, Int64.zero_add]
  exact ⟨fun h => congrArg Int64.toUInt64 h, fun h => congrArg UInt64.toInt64 h⟩

/-! ## The queue as a ring -/

/-- What a thread at this point has seen or claimed. -/
def QueuePoint.stage {T : Type} : QueuePoint T → Stage T
  | .emplaceClaim _ position => .sawFree position.toNat
  | .emplaceConstruct value position => .filling position.toNat value
  | .emplaceStore value position => .filled position.toNat value
  | .dequeueClaim position => .sawFull position.toNat
  | .dequeueMove position => .emptying position.toNat
  | .dequeueStore value position => .emptied position.toNat value
  | _ => .away

/-- A cell as a slot. -/
def Cell.slot {T : Type} (cell : Cell T) : Slot T := ⟨cell.sequence.toNat, cell.storage⟩

/-- A recorded element with its position as a number. -/
def recordAt {T : Type} (e : UInt64 × T) : Nat × T := (e.1.toNat, e.2)

namespace MpmcQueue

variable {θ T : Type}

/-- The queue read as a ring of numbered slots. -/
def ring (q : MpmcQueue θ T) : TicketRing UInt64 θ T where
  slot := Cell.slot ∘ q.cells
  head := q.enqueuePosition.toNat
  tail := q.dequeuePosition.toNat
  stage := QueuePoint.stage ∘ q.point
  entered := q.enqueued.map recordAt
  left := q.dequeued.map recordAt

/-- The positions are below `2 ^ 63`. -/
def Small (q : MpmcQueue θ T) : Prop :=
  q.enqueuePosition.toNat < 2 ^ 63 ∧ q.dequeuePosition.toNat < 2 ^ 63

instance (q : MpmcQueue θ T) : Decidable q.Small :=
  inferInstanceAs (Decidable (q.enqueuePosition.toNat < 2 ^ 63 ∧ q.dequeuePosition.toNat < 2 ^ 63))

/-- The invariant of a queue of this capacity. A thread in `TryDequeue` looks at
    positions that do not wrap when one is added. -/
structure Refines (capacity : UInt64) (hc : capacity.toNat ≤ 2 ^ 63) (q : MpmcQueue θ T) :
    Prop where
  capacity_eq : q.capacity = normalizeCapacity capacity
  mask_eq : q.mask = normalizeCapacity capacity - 1
  ring_inv : q.ring.Inv (wheel capacity hc)
  looks_small : ∀ t position, q.point t = .dequeueCheck position → position.toNat < 2 ^ 63

variable {capacity : UInt64} {hc : capacity.toNat ≤ 2 ^ 63} {q : MpmcQueue θ T}

/-- The cell of a position is its slot. -/
theorem Refines.slot_eq (h : q.Refines capacity hc) (position : UInt64) :
    q.ring.slot ((wheel capacity hc).slotOf position.toNat) = (q.cell position).slot := by
  rw [wheel_slotOf, ← h.mask_eq]
  rfl

variable [DecidableEq θ]

theorem ring_goto (q : MpmcQueue θ T) (t : θ) (point : QueuePoint T) :
    (q.goto t point).ring = q.ring.goto t point.stage := by
  unfold ring goto TicketRing.goto
  rw [Function.comp_update]

omit [DecidableEq θ] in
theorem ring_setCell (hc : capacity.toNat ≤ 2 ^ 63)
    (hmask : q.mask = normalizeCapacity capacity - 1) (position : UInt64) (cell : Cell T) :
    (q.setCell position cell).ring =
      q.ring.write ((wheel capacity hc).slotOf position.toNat) cell.slot := by
  rw [wheel_slotOf, ← hmask]
  unfold ring setCell TicketRing.write
  rw [Function.comp_update]

/-! ## Steps -/

/-- A position below `2 ^ 63` has a next one. -/
theorem toNat_add_one {position : UInt64} (h : position.toNat < 2 ^ 63) :
    (position + 1).toNat = position.toNat + 1 := by
  have hone : (1 : UInt64).toNat = 1 := rfl
  rw [UInt64.toNat_add, hone, Nat.mod_eq_of_lt (by omega)]

theorem ring_emplaceClaim (hsmall : q.Small) {t : θ} {value : T}
    {position : UInt64} (spurious : Bool) (hpoint : q.point t = .emplaceClaim value position) :
    Step (wheel capacity hc) q.ring (q.advance t spurious).ring := by
  have hstage : q.ring.stage t = .sawFree position.toNat := congrArg QueuePoint.stage hpoint
  simp only [advance, hpoint]
  by_cases hexchange : q.enqueuePosition = position ∧ spurious = false
  · rw [if_pos hexchange, ring_goto]
    have hnext := toNat_add_one hsmall.1
    rw [hexchange.1] at hnext
    have hring : ({ q with enqueuePosition := position + 1 } : MpmcQueue θ T).ring =
        { q.ring with head := position.toNat + 1 } := by rw [← hnext]; rfl
    rw [hring]
    exact .claimFree t position.toNat value hstage (congrArg UInt64.toNat hexchange.1)
  · rw [if_neg hexchange, ring_goto]
    exact .leave t

theorem ring_dequeueClaim (hsmall : q.Small) {t : θ}
    {position : UInt64} (spurious : Bool) (hpoint : q.point t = .dequeueClaim position) :
    Step (wheel capacity hc) q.ring (q.advance t spurious).ring := by
  have hstage : q.ring.stage t = .sawFull position.toNat := congrArg QueuePoint.stage hpoint
  simp only [advance, hpoint]
  by_cases hexchange : q.dequeuePosition = position ∧ spurious = false
  · rw [if_pos hexchange, ring_goto]
    have hnext := toNat_add_one hsmall.2
    rw [hexchange.1] at hnext
    have hring : ({ q with dequeuePosition := position + 1 } : MpmcQueue θ T).ring =
        { q.ring with tail := position.toNat + 1 } := by rw [← hnext]; rfl
    rw [hring]
    exact .claimFull t position.toNat hstage (congrArg UInt64.toNat hexchange.1)
  · rw [if_neg hexchange, ring_goto]
    exact .leave t

theorem ring_emplaceConstruct (h : q.Refines capacity hc) {t : θ} {value : T} {position : UInt64}
    (spurious : Bool) (hpoint : q.point t = .emplaceConstruct value position) :
    Step (wheel capacity hc) q.ring (q.advance t spurious).ring := by
  have hstage : q.ring.stage t = .filling position.toNat value := congrArg QueuePoint.stage hpoint
  simp only [advance, hpoint]
  have hmask : ({ q with enqueued := q.enqueued ++ [(position, value)] } : MpmcQueue θ T).mask =
      normalizeCapacity capacity - 1 := h.mask_eq
  rw [ring_goto, ring_setCell hc hmask]
  have hfill := Step.fill (w := wheel capacity hc) t position.toNat value hstage
  rw [fill, h.slot_eq] at hfill
  have hring : ({ q with enqueued := q.enqueued ++ [(position, value)] } : MpmcQueue θ T).ring =
      { q.ring with entered := q.ring.entered ++ [(position.toNat, value)] } := by
    unfold ring
    rw [List.map_append]
    rfl
  rw [hring]
  exact hfill

theorem ring_emplaceStore (h : q.Refines capacity hc) (hsmall : q.Small) {t : θ} {value : T}
    {position : UInt64} (spurious : Bool) (hpoint : q.point t = .emplaceStore value position) :
    Step (wheel capacity hc) q.ring (q.advance t spurious).ring := by
  have hstage : q.ring.stage t = .filled position.toNat value := congrArg QueuePoint.stage hpoint
  -- A claimed position is behind the counter, so the next one does not wrap.
  have hlt := ((h.ring_inv.placed.stands t).of_fills (by rw [hstage]; rfl)).1
  have hnext : (position + 1).toNat = position.toNat + 1 :=
    toNat_add_one (Nat.lt_trans hlt hsmall.1)
  simp only [advance, hpoint]
  rw [ring_goto, ring_setCell hc h.mask_eq]
  have hpublish := Step.publish (w := wheel capacity hc) t position.toNat value hstage
  rw [publish, h.slot_eq, ← hnext] at hpublish
  exact hpublish

theorem ring_dequeueMove (h : q.Refines capacity hc) {t : θ} {position : UInt64}
    (spurious : Bool) (hpoint : q.point t = .dequeueMove position) :
    Step (wheel capacity hc) q.ring (q.advance t spurious).ring := by
  have hstage : q.ring.stage t = .emptying position.toNat := congrArg QueuePoint.stage hpoint
  rcases h.ring_inv.content_some hstage with ⟨value, hcontent, -⟩
  -- The invariant says that there is something in the cell.
  have htake := Step.take t position.toNat value hstage hcontent
  rw [h.slot_eq] at hcontent
  have hstorage : (q.cell position).storage = some value := hcontent
  simp only [advance, hpoint, hstorage]
  have hmask : ({ q with dequeued := q.dequeued ++ [(position, value)] } : MpmcQueue θ T).mask =
      normalizeCapacity capacity - 1 := h.mask_eq
  rw [ring_goto, ring_setCell hc hmask]
  rw [TicketRing.take, h.slot_eq] at htake
  have hring : ({ q with dequeued := q.dequeued ++ [(position, value)] } : MpmcQueue θ T).ring =
      { q.ring with left := q.ring.left ++ [(position.toNat, value)] } := by
    unfold ring
    rw [List.map_append]
    rfl
  rw [hring]
  exact htake

theorem ring_dequeueStore (h : q.Refines capacity hc) (hsmall : q.Small) {t : θ} {value : T}
    {position : UInt64} (spurious : Bool) (hpoint : q.point t = .dequeueStore value position) :
    Step (wheel capacity hc) q.ring (q.advance t spurious).ring := by
  have hstage : q.ring.stage t = .emptied position.toNat value := congrArg QueuePoint.stage hpoint
  have hlt := ((h.ring_inv.placed.stands t).of_empties (by rw [hstage]; rfl)).1
  have hposition : position.toNat < 2 ^ 63 := Nat.lt_trans hlt hsmall.2
  -- Neither does the position of the next round: both terms are at most `2 ^ 63`.
  have hround : (position + q.capacity).toNat = position.toNat + (wheel capacity hc).size := by
    have hle := normalizeCapacity_le capacity
    rw [UInt64.toNat_add, h.capacity_eq, Nat.mod_eq_of_lt (by omega)]
    rfl
  simp only [advance, hpoint]
  rw [ring_goto, ring_setCell hc h.mask_eq]
  have hrelease := Step.release (w := wheel capacity hc) t position.toNat value hstage
  rw [release, h.slot_eq, ← hround] at hrelease
  exact hrelease

/-- A thread that has neither seen nor claimed anything after its step. -/
theorem ring_goto_away (w : Wheel UInt64) (t : θ) {point : QueuePoint T}
    (haway : point.stage = .away) : Step w q.ring (q.goto t point).ring := by
  rw [ring_goto, haway]
  exact .leave t

theorem ring_emplaceCheck (h : q.Refines capacity hc) {t : θ} {value : T} {position : UInt64}
    (spurious : Bool) (hpoint : q.point t = .emplaceCheck value position) :
    Step (wheel capacity hc) q.ring (q.advance t spurious).ring := by
  simp only [advance, hpoint]
  split_ifs with hzero hneg
  · have hseq : (q.cell position).slot.sequence = position.toNat :=
      congrArg UInt64.toNat ((difference_zero_iff _ _).mp hzero)
    rw [← h.slot_eq] at hseq
    rw [ring_goto]
    exact .seeFree t position.toNat hseq
  · exact ring_goto_away _ t rfl
  · exact ring_goto_away _ t rfl

theorem ring_dequeueCheck (h : q.Refines capacity hc) {t : θ} {position : UInt64}
    (spurious : Bool) (hpoint : q.point t = .dequeueCheck position) :
    Step (wheel capacity hc) q.ring (q.advance t spurious).ring := by
  have hnext := toNat_add_one (h.looks_small t position hpoint)
  simp only [advance, hpoint]
  split_ifs with hzero hneg
  · have hseq : (q.cell position).slot.sequence = position.toNat + 1 :=
      (congrArg UInt64.toNat ((difference_zero_iff _ _).mp hzero)).trans hnext
    rw [← h.slot_eq] at hseq
    rw [ring_goto]
    exact .seeFull t position.toNat hseq
  · exact ring_goto_away _ t rfl
  · exact ring_goto_away _ t rfl

/-- A step of the code is a step of the ring, or none. -/
theorem ring_exec (h : q.Refines capacity hc) (hsmall : q.Small) (e : QueueEvent θ T) :
    (q.exec e).ring = q.ring ∨ Step (wheel capacity hc) q.ring (q.exec e).ring := by
  cases e with
  | tryEmplace t value =>
      simp only [exec]
      split_ifs with houtside
      · exact Or.inr (ring_goto_away _ t rfl)
      · exact Or.inl rfl
  | tryDequeue t =>
      simp only [exec]
      split_ifs with houtside
      · exact Or.inr (ring_goto_away _ t rfl)
      · exact Or.inl rfl
  | advance t spurious =>
      simp only [exec]
      cases hpoint : q.point t with
      | outside => exact Or.inl (by simp only [advance, hpoint])
      | emplaceLoad value =>
          simp only [advance, hpoint]
          exact Or.inr (ring_goto_away _ t rfl)
      | emplaceCheck value position => exact Or.inr (ring_emplaceCheck h spurious hpoint)
      | emplaceClaim value position => exact Or.inr (ring_emplaceClaim hsmall spurious hpoint)
      | emplaceConstruct value position => exact Or.inr (ring_emplaceConstruct h spurious hpoint)
      | emplaceStore value position => exact Or.inr (ring_emplaceStore h hsmall spurious hpoint)
      | emplaced result => exact Or.inl (by simp only [advance, hpoint])
      | dequeueLoad =>
          simp only [advance, hpoint]
          exact Or.inr (ring_goto_away _ t rfl)
      | dequeueCheck position => exact Or.inr (ring_dequeueCheck h spurious hpoint)
      | dequeueClaim position => exact Or.inr (ring_dequeueClaim hsmall spurious hpoint)
      | dequeueMove position => exact Or.inr (ring_dequeueMove h spurious hpoint)
      | dequeueStore value position => exact Or.inr (ring_dequeueStore h hsmall spurious hpoint)
      | dequeued result => exact Or.inl (by simp only [advance, hpoint])

/-- What a step leaves alone: the capacity and the mask, and the points of the
    other threads. A thread gets to look at a position from the counter only. -/
structure Kept (q q' : MpmcQueue θ T) : Prop where
  capacity_eq : q'.capacity = q.capacity
  mask_eq : q'.mask = q.mask
  looks : ∀ t position, q'.point t = .dequeueCheck position →
    q.point t = .dequeueCheck position ∨ position = q.dequeuePosition

omit [DecidableEq θ] in
theorem Kept.refl (q : MpmcQueue θ T) : Kept q q := ⟨rfl, rfl, fun _ _ h => Or.inl h⟩

/-- A thread moves on, and what else changes are cells, counters and records. -/
theorem Kept.goto {q q' : MpmcQueue θ T} (hcapacity : q'.capacity = q.capacity)
    (hmask : q'.mask = q.mask) (hpoints : q'.point = q.point) (t : θ) {point : QueuePoint T}
    (hlook : ∀ position, point = .dequeueCheck position → position = q.dequeuePosition) :
    Kept q (q'.goto t point) := by
  refine ⟨hcapacity, hmask, fun u position hu => ?_⟩
  have hupdate : Function.update q.point t point u = .dequeueCheck position := hpoints ▸ hu
  by_cases hut : u = t
  · rw [hut, Function.update_self] at hupdate
    exact Or.inr (hlook position hupdate)
  · rw [Function.update_of_ne hut] at hupdate
    exact Or.inl hupdate

theorem exec_kept (q : MpmcQueue θ T) (e : QueueEvent θ T) : Kept q (q.exec e) := by
  have hother : ∀ {point : QueuePoint T}, (∀ position, point ≠ .dequeueCheck position) →
      ∀ position, point = .dequeueCheck position → position = q.dequeuePosition :=
    fun hne position heq => absurd heq (hne position)
  cases e with
  | tryEmplace t value =>
      simp only [exec]
      split_ifs with houtside
      · exact .goto (by rfl) (by rfl) (by rfl) t (hother (by nofun))
      · exact .refl q
  | tryDequeue t =>
      simp only [exec]
      split_ifs with houtside
      · exact .goto (by rfl) (by rfl) (by rfl) t (hother (by nofun))
      · exact .refl q
  | advance t spurious =>
      simp only [exec]
      cases hpoint : q.point t with
      | outside | emplaced _ | dequeued _ =>
          simp only [advance, hpoint]
          exact .refl q
      | emplaceLoad _ | emplaceConstruct _ _ | emplaceStore _ _ | dequeueStore _ _ =>
          simp only [advance, hpoint]
          exact .goto (by rfl) (by rfl) (by rfl) t (hother (by nofun))
      | emplaceCheck _ _ | emplaceClaim _ _ | dequeueCheck _ =>
          simp only [advance, hpoint]
          split_ifs <;> exact .goto (by rfl) (by rfl) (by rfl) t (hother (by nofun))
      | dequeueLoad =>
          simp only [advance, hpoint]
          exact .goto (by rfl) (by rfl) (by rfl) t
            fun position heq => (QueuePoint.dequeueCheck.inj heq).symm
      | dequeueClaim position =>
          simp only [advance, hpoint]
          split_ifs
          · exact .goto (by rfl) (by rfl) (by rfl) t (hother (by nofun))
          · exact .goto (by rfl) (by rfl) (by rfl) t
              fun position heq => (QueuePoint.dequeueCheck.inj heq).symm
      | dequeueMove position =>
          cases hstorage : (q.cell position).storage with
          | none =>
              simp only [advance, hpoint, hstorage]
              exact .refl q
          | some value =>
              simp only [advance, hpoint, hstorage]
              exact .goto (by rfl) (by rfl) (by rfl) t (hother (by nofun))

/-- Every step keeps the invariant. -/
theorem Refines.exec (h : q.Refines capacity hc) (hsmall : q.Small) (e : QueueEvent θ T) :
    (q.exec e).Refines capacity hc := by
  have hkept := exec_kept q e
  refine ⟨hkept.capacity_eq.trans h.capacity_eq, hkept.mask_eq.trans h.mask_eq, ?_, ?_⟩
  · -- The ring stands still, or makes one of its moves.
    rcases ring_exec h hsmall e with heq | hstep
    · rw [heq]
      exact h.ring_inv
    · exact h.ring_inv.step hstep
  · intro t position hpoint
    rcases hkept.looks t position hpoint with hold | rfl
    · exact h.looks_small t position hold
    · exact hsmall.2

omit [DecidableEq θ] in
theorem Refines.init (hc : capacity.toNat ≤ 2 ^ 63) :
    (MpmcQueue.init θ T capacity).Refines capacity hc := by
  refine ⟨rfl, rfl, Inv.start (fun p hp => ?_) rfl rfl (fun _ => rfl) rfl rfl, fun _ _ h => ?_⟩
  · have hslot : ((wheel capacity hc).slotOf p).toNat = p := by
      exact (slot_toNat hc p).trans (Nat.mod_eq_of_lt hp)
    change Slot.mk ((wheel capacity hc).slotOf p).toNat none = _
    rw [hslot]
  · exact nomatch h

/-! ## Order -/

/-- What the queue promises. An element is recorded with its position when it is
    constructed and when it is moved out. -/
structure Fifo (capacity : UInt64) (q : MpmcQueue θ T) : Prop where
  /-- A position is given to one element. -/
  enqueued_once : (q.enqueued.map Prod.fst).Nodup
  /-- A position is taken once. -/
  dequeued_once : (q.dequeued.map Prod.fst).Nodup
  /-- What is taken from a position is what was put there. -/
  dequeued_subset : q.dequeued ⊆ q.enqueued
  /-- An element is only constructed in a cell that holds none. -/
  constructs_empty : ∀ t value position, q.point t = .emplaceConstruct value position →
    (q.cell position).storage = none
  /-- An element is only moved out of a cell that holds the one of this position. -/
  moves_full : ∀ t position, q.point t = .dequeueMove position →
    ∃ value, (q.cell position).storage = some value ∧ (position, value) ∈ q.enqueued
  /-- At most `capacity` positions are given and not taken. -/
  positions : q.dequeuePosition.toNat ≤ q.enqueuePosition.toNat ∧
    q.enqueuePosition.toNat ≤ q.dequeuePosition.toNat + (normalizeCapacity capacity).toNat
  /-- At most `capacity` elements are held. -/
  held : q.enqueued.length ≤ q.dequeued.length + (normalizeCapacity capacity).toNat
  /-- The cells are those of the array. -/
  inside : ∀ position, (position &&& q.mask).toNat < (normalizeCapacity capacity).toNat

omit [DecidableEq θ] in
/-- The positions of the records, as numbers. -/
theorem nodup_of_ring {l : List (UInt64 × T)} (h : ((l.map recordAt).map Prod.fst).Nodup) :
    (l.map Prod.fst).Nodup := by
  refine List.Nodup.of_map UInt64.toNat ?_
  rw [List.map_map] at h ⊢
  exact h

omit [DecidableEq θ] in
theorem recordAt_injective : Function.Injective (recordAt (T := T)) := by
  rintro ⟨p, x⟩ ⟨p', x'⟩ heq
  rw [recordAt, recordAt, Prod.mk.injEq, UInt64.toNat_inj] at heq
  exact Prod.ext heq.1 heq.2

omit [DecidableEq θ] in
theorem Refines.fifo (h : q.Refines capacity hc) : q.Fifo capacity := by
  have hsound := h.ring_inv.sound
  have hsize : (wheel capacity hc).size = (normalizeCapacity capacity).toNat := rfl
  refine ⟨nodup_of_ring hsound.entered_nodup, nodup_of_ring hsound.left_nodup, ?_, ?_, ?_,
    ⟨hsound.tail_le_head, hsound.head_le⟩, ?_, ?_⟩
  · intro e he
    have hin := hsound.left_subset (List.mem_map_of_mem he)
    exact (List.mem_map_of_injective recordAt_injective).mp hin
  · intro t value position hpoint
    have hstage : q.ring.stage t = .filling position.toNat value :=
      congrArg QueuePoint.stage hpoint
    have hnone := h.ring_inv.content_none hstage
    rw [h.slot_eq] at hnone
    exact hnone
  · intro t position hpoint
    have hstage : q.ring.stage t = .emptying position.toNat := congrArg QueuePoint.stage hpoint
    rcases h.ring_inv.content_some hstage with ⟨value, hsome, hin⟩
    rw [h.slot_eq] at hsome
    exact ⟨value, hsome, (List.mem_map_of_injective recordAt_injective).mp hin⟩
  · have hheld := h.ring_inv.held_le
    have henqueued : q.ring.entered.length = q.enqueued.length := List.length_map ..
    have hdequeued : q.ring.left.length = q.dequeued.length := List.length_map ..
    omega
  · intro position
    have hcap := normalizeCapacity_toNat capacity hc
    rw [h.mask_eq, and_mask_toNat hcap]
    exact Nat.mod_lt _ (by rw [hcap]; exact Nat.two_pow_pos _)

/-- In every run, for every number of threads and every order of their steps, the
    queue is a bounded queue, as long as positions stay below `2 ^ 63`. -/
theorem always_fifo (capacity : UInt64) (hc : capacity.toNat ≤ 2 ^ 63)
    (events : List (QueueEvent θ T))
    (hsmall : Always exec Small (MpmcQueue.init θ T capacity) events) :
    Always exec (Fifo capacity) (MpmcQueue.init θ T capacity) events := by
  have hrun : Always exec (Refines capacity hc) (MpmcQueue.init θ T capacity) events :=
    Always.of_along (fun q e h hgood => h.exec hgood e) (Refines.init hc) hsmall.along
  exact hrun.mono fun q h => h.fifo

/-- Thread `true` takes the position thread `false` puts an element into, and a
    compare-exchange fails for no reason. -/
def handover : List (QueueEvent Bool Nat) :=
  [.tryDequeue true, .tryEmplace false 7, .advance false false, .advance true false,
    .advance false false, .advance false true, .advance false false, .advance false false,
    .advance false false, .advance false false, .advance true false, .advance true false,
    .advance true false, .advance true false]

theorem handover_fifo :
    (handover.foldl exec (MpmcQueue.init Bool Nat 3)).dequeued = [(0, 7)] ∧
      Always exec (Fifo 3) (MpmcQueue.init Bool Nat 3) handover :=
  ⟨by decide +kernel, always_fifo 3 (by decide) handover (by decide +kernel)⟩

end MpmcQueue

end MqBroker
