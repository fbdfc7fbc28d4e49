import Mathlib.Data.List.Infix
import Mathlib.Algebra.BigOperators.Group.List.Basic
import Mathlib.Algebra.GroupWithZero.Nat

/-!
# What Fits

The longest beginning of a list whose items fit into a given room together.

Items are taken from the front as long as there is room for the next one. That
this gives the longest beginning that fits, and not only one that cannot be
made longer by one item, is because sizes are never negative: a beginning that
does not fit stays too large however it goes on.

## Main definitions

* `fitting`: The items that are taken.
* `LongestFitting`: The longest beginning that fits.

## Theorems

* `fitting_longest`: What is taken is the longest beginning that fits.
* `LongestFitting.unique`: There is only one.
* `fitting_all`: If there is room for all of them, none is left.
* `head?_fitting`: The first item is taken if there is room for it alone.
-/

namespace MqBroker

variable {α : Type*}

/-- Items from the front, as long as there is room. -/
def fitting (size : α → Nat) : Nat → List α → List α
  | _, [] => []
  | room, a :: l => if size a ≤ room then a :: fitting size (room - size a) l else []

/-- The longest beginning of a list that fits. -/
structure LongestFitting (size : α → Nat) (room : Nat) (l taken : List α) : Prop where
  initial : taken <+: l
  fits : (taken.map size).sum ≤ room
  longest : ∀ other, other <+: l → (other.map size).sum ≤ room → other <+: taken

theorem fitting_initial (size : α → Nat) (room : Nat) (l : List α) :
    fitting size room l <+: l := by
  induction l generalizing room with
  | nil => exact List.prefix_rfl
  | cons a l ih =>
      rw [fitting]
      split
      · exact (List.prefix_cons_inj a).mpr (ih _)
      · exact List.nil_prefix

theorem fitting_fits (size : α → Nat) (room : Nat) (l : List α) :
    ((fitting size room l).map size).sum ≤ room := by
  induction l generalizing room with
  | nil => exact Nat.zero_le room
  | cons a l ih =>
      rw [fitting]
      split
      · have hrest := ih (room - size a)
        rw [List.map_cons, List.sum_cons]
        omega
      · exact Nat.zero_le room

/-- What is taken is the longest beginning that fits. -/
theorem fitting_longest (size : α → Nat) (room : Nat) (l : List α) :
    LongestFitting size room l (fitting size room l) := by
  refine ⟨fitting_initial size room l, fitting_fits size room l, fun other hother hsum => ?_⟩
  induction l generalizing room other with
  | nil => exact hother
  | cons a l ih =>
      cases other with
      | nil => exact List.nil_prefix
      | cons b other =>
          rcases List.cons_prefix_cons.mp hother with ⟨rfl, hrest⟩
          rw [List.map_cons, List.sum_cons] at hsum
          rw [fitting, if_pos (by omega)]
          exact (List.prefix_cons_inj b).mpr (ih (room - size b) other hrest (by omega))

theorem LongestFitting.unique {size : α → Nat} {room : Nat} {l a b : List α}
    (ha : LongestFitting size room l a) (hb : LongestFitting size room l b) : a = b :=
  (hb.longest a ha.initial ha.fits).eq_of_length_le
    (ha.longest b hb.initial hb.fits).length_le

theorem fitting_all {size : α → Nat} {room : Nat} {l : List α} (h : (l.map size).sum ≤ room) :
    fitting size room l = l :=
  (fitting_longest size room l).unique ⟨List.prefix_rfl, h, fun _ hother _ => hother⟩

theorem head?_fitting (size : α → Nat) (room : Nat) (l : List α) :
    (fitting size room l).head? = l.head?.filter (fun a => size a ≤ room) := by
  cases l with
  | nil => rfl
  | cons a l =>
      rw [fitting, List.head?_cons, Option.filter_some]
      simp only [decide_eq_true_eq]
      split
      · rfl
      · rfl

theorem fitting_ne_nil_iff (size : α → Nat) (room : Nat) (l : List α) :
    fitting size room l ≠ [] ↔ ∃ a, l.head? = some a ∧ size a ≤ room := by
  rw [ne_eq, ← List.head?_eq_none_iff, head?_fitting, ← ne_eq, Option.ne_none_iff_exists']
  simp only [Option.filter_eq_some_iff, decide_eq_true_eq]

end MqBroker
