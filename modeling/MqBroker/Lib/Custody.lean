import Mathlib.Algebra.BigOperators.Group.Finset.Piecewise
import Mathlib.Data.Fintype.BigOperators
import Mathlib.Algebra.Order.BigOperators.Group.Finset

/-!
# Custody

What many threads hold together. A lock is held by at most one: `Exclusive` says
that the threads which believe they hold it are exactly its owner. Anything else
is counted: `tally` adds up what every thread holds, and changing one thread
changes the sum by what that thread gained and lost.

## Main definitions

* `Exclusive`: A lock and the threads that hold it agree.
* `tally`: What all threads hold.

## Theorems

* `Exclusive.keep`, `Exclusive.acquire`, `Exclusive.release`: The moves of a lock.
* `tally_update`: One thread's holding changes.
-/

namespace MqBroker

variable {θ P : Type} [DecidableEq θ]

/-- The threads that hold a lock are its owner. -/
def Exclusive (locked : θ → Bool) (owner : Option θ) : Prop :=
  ∀ t, locked t = true ↔ owner = some t

section Exclusive

variable {locked : θ → Bool} {owner : Option θ} {t : θ}

omit [DecidableEq θ] in
/-- Nobody else holds what `t` holds. -/
theorem Exclusive.eq (h : Exclusive locked owner) {u : θ} (ht : locked t = true)
    (hu : locked u = true) : u = t := by
  have hown := (h t).mp ht
  rw [(h u).mp hu] at hown
  exact Option.some.inj hown

theorem Exclusive.keep (h : Exclusive locked owner) {b : Bool} (hb : b = locked t) :
    Exclusive (Function.update locked t b) owner := by
  rw [hb, Function.update_eq_self]
  exact h

theorem Exclusive.acquire (h : Exclusive locked owner) (howner : owner = none) :
    Exclusive (Function.update locked t true) (some t) := by
  intro u
  by_cases hu : u = t
  · rw [hu, Function.update_self]
    exact iff_of_true rfl rfl
  · rw [Function.update_of_ne hu, h u, howner]
    exact iff_of_false (by nofun) fun heq => hu (Option.some.inj heq).symm

theorem Exclusive.release (h : Exclusive locked owner) (ht : locked t = true) :
    Exclusive (Function.update locked t false) none := by
  intro u
  by_cases hu : u = t
  · rw [hu, Function.update_self]
    exact iff_of_false (by nofun) (by nofun)
  · rw [Function.update_of_ne hu]
    exact iff_of_false (fun hlocked => hu (h.eq ht hlocked)) (by nofun)

end Exclusive

variable [Fintype θ]

/-- What all threads hold, when one at `p` holds `g p`. -/
def tally (g : P → Nat) (point : θ → P) : Nat := ∑ t, g (point t)

/-- The sum changes by what one thread gained and lost. -/
theorem tally_update (g : P → Nat) (point : θ → P) (t : θ) (p : P) :
    tally g (Function.update point t p) + g (point t) = tally g point + g p := by
  have hrest : ∑ u ∈ Finset.univ.erase t, g (Function.update point t p u) =
      ∑ u ∈ Finset.univ.erase t, g (point u) := by
    refine Finset.sum_congr rfl fun u hu => ?_
    rw [Function.update_of_ne (Finset.ne_of_mem_erase hu)]
  have hnew := Finset.add_sum_erase Finset.univ (fun u => g (Function.update point t p u))
    (Finset.mem_univ t)
  have hold := Finset.add_sum_erase Finset.univ (fun u => g (point u)) (Finset.mem_univ t)
  simp only [Function.update_self, hrest] at hnew
  unfold tally
  omega

omit [DecidableEq θ] in
/-- Where no thread holds more than one. -/
theorem tally_le_card {g : P → Nat} (hg : ∀ p, g p ≤ 1) (point : θ → P) :
    tally g point ≤ Fintype.card θ :=
  (Finset.sum_le_sum fun t _ => hg (point t)).trans (Finset.card_eq_sum_ones Finset.univ).ge

end MqBroker
