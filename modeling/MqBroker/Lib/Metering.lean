import Mathlib.Algebra.BigOperators.Group.List.Basic
import Mathlib.Algebra.Order.BigOperators.Group.List
import Mathlib.Algebra.Order.Group.Nat
import Mathlib.Algebra.GroupWithZero.Nat
import Mathlib.Data.List.Infix

/-!
# Amounts over Time

Amounts that are let through at moments of time, and how much of them falls
into an interval.

An interval is given by its two ends, and of the entries only those times
matter that there are: an interval that contains the same ones holds the same.

## Main definitions

* `amountIn`: The amount in an interval.
* `totalAmount`: The amount of all entries.
* `BoundedWithin`: No interval of a width holds more than a bound.

## Theorems

* `amountIn_mono`: An interval that contains another one holds no less.
* `amountIn_initial`: Entries in order that are not too late come first.
-/

namespace MqBroker

/-- The amount in an interval of time, both ends included. -/
def amountIn (first last : Int) (entries : List (Int × Nat)) : Nat :=
  (entries.map fun e => if first ≤ e.1 ∧ e.1 ≤ last then e.2 else 0).sum

/-- The amount of all entries. -/
def totalAmount (entries : List (Int × Nat)) : Nat := (entries.map Prod.snd).sum

/-- No interval that is shorter than a width holds more than a bound. -/
def BoundedWithin (width : Int) (bound : Nat) (entries : List (Int × Nat)) : Prop :=
  ∀ first last, last - first < width → amountIn first last entries ≤ bound

theorem amountIn_cons (first last : Int) (e : Int × Nat) (entries : List (Int × Nat)) :
    amountIn first last (e :: entries)
      = (if first ≤ e.1 ∧ e.1 ≤ last then e.2 else 0) + amountIn first last entries := by
  rw [amountIn, List.map_cons, List.sum_cons, amountIn]

theorem totalAmount_cons (e : Int × Nat) (entries : List (Int × Nat)) :
    totalAmount (e :: entries) = e.2 + totalAmount entries := by
  rw [totalAmount, List.map_cons, List.sum_cons, totalAmount]

theorem amountIn_append (first last : Int) (a b : List (Int × Nat)) :
    amountIn first last (a ++ b) = amountIn first last a + amountIn first last b := by
  rw [amountIn, List.map_append, List.sum_append, amountIn, amountIn]

theorem amountIn_reverse (first last : Int) (entries : List (Int × Nat)) :
    amountIn first last entries.reverse = amountIn first last entries := by
  rw [amountIn, List.map_reverse, List.sum_reverse, amountIn]

/-- An interval that contains, of the times there are, all that another one
    does holds no less. -/
theorem amountIn_mono {first last first' last' : Int} {entries : List (Int × Nat)}
    (h : ∀ e ∈ entries, first ≤ e.1 → e.1 ≤ last → first' ≤ e.1 ∧ e.1 ≤ last') :
    amountIn first last entries ≤ amountIn first' last' entries := by
  refine List.sum_le_sum fun e he => ?_
  by_cases hin : first ≤ e.1 ∧ e.1 ≤ last
  · rw [if_pos hin, if_pos (h e he hin.1 hin.2)]
  · rw [if_neg hin]
    exact Nat.zero_le _

/-- An interval none of the times is in holds nothing. -/
theorem amountIn_eq_zero {first last : Int} {entries : List (Int × Nat)}
    (h : ∀ e ∈ entries, ¬ (first ≤ e.1 ∧ e.1 ≤ last)) : amountIn first last entries = 0 := by
  refine List.sum_eq_zero fun n hn => ?_
  rcases List.mem_map.mp hn with ⟨e, he, rfl⟩
  exact if_neg (h e he)

theorem amountIn_le_total (first last : Int) (entries : List (Int × Nat)) :
    amountIn first last entries ≤ totalAmount entries := by
  refine List.sum_le_sum fun e _ => ?_
  split
  · exact le_refl _
  · exact Nat.zero_le _

/-- An interval that all the entries are in holds all of them. -/
theorem amountIn_eq_total {first last : Int} {entries : List (Int × Nat)}
    (h : ∀ e ∈ entries, first ≤ e.1 ∧ e.1 ≤ last) :
    amountIn first last entries = totalAmount entries := by
  refine congrArg List.sum (List.map_congr_left fun e he => ?_)
  exact if_pos (h e he)

/-- Of entries in the order of their times, those up to the end of an interval
    come first. -/
theorem amountIn_initial (last : Int) {entries : List (Int × Nat)}
    (hordered : entries.Pairwise fun e e' => e.1 ≤ e'.1) :
    ∃ taken, taken <+: entries ∧ (∀ e ∈ taken, e.1 ≤ last) ∧
      ∀ first, amountIn first last entries ≤ amountIn first last taken := by
  induction entries with
  | nil => exact ⟨[], List.prefix_rfl, fun e he => absurd he List.not_mem_nil, fun _ => le_refl _⟩
  | cons e entries ih =>
      rcases List.pairwise_cons.mp hordered with ⟨hfirst, hrest⟩
      by_cases hle : e.1 ≤ last
      · rcases ih hrest with ⟨taken, hpre, htaken, hamount⟩
        refine ⟨e :: taken, (List.prefix_cons_inj e).mpr hpre,
          List.forall_mem_cons.mpr ⟨hle, htaken⟩, fun first => ?_⟩
        rw [amountIn_cons, amountIn_cons]
        exact Nat.add_le_add_left (hamount first) _
      · -- From here on they are all too late.
        refine ⟨[], List.nil_prefix, fun e he => absurd he List.not_mem_nil, fun first => ?_⟩
        rw [amountIn_eq_zero]
        · exact Nat.zero_le _
        · rintro e' he' ⟨_, hlast⟩
          rcases List.mem_cons.mp he' with rfl | he'
          · exact hle hlast
          · exact hle ((hfirst e' he').trans hlast)

theorem boundedWithin_nil (width : Int) (bound : Nat) : BoundedWithin width bound [] :=
  fun _ _ _ => Nat.zero_le bound

theorem BoundedWithin.of_append {width : Int} {bound : Nat} {a b : List (Int × Nat)}
    (h : BoundedWithin width bound (a ++ b)) :
    BoundedWithin width bound a ∧ BoundedWithin width bound b := by
  constructor
  · intro first last hshort
    have hboth := h first last hshort
    rw [amountIn_append] at hboth
    omega
  · intro first last hshort
    have hboth := h first last hshort
    rw [amountIn_append] at hboth
    omega

end MqBroker
