import Mathlib.Data.List.Nodup

/-!
# Dealing Out a List

A list dealt out like cards: with `step` hands, hand `start` gets the entries
at `start`, `start + step`, `start + 2 * step` and so on. Everything about the
hands follows from where their entries stand in the list, so the hands are
described by that (`getElem?_everyNth`) and their definition is not looked at
again: no entry is dealt twice because a position is never in two residue
classes, none is left out because it is in one, and the hands are of equal
size up to one because the residue classes are.

What is dealt out here is a sorted list, and a sorted list without duplicates
is determined by its entries (`eq_of_sorted_nodup`).

## Main definitions

* `everyNth`: A hand.

## Theorems

* `getElem?_everyNth`: The entries of a hand.
* `everyNth_disjoint`, `everyNth_cover`, `everyNth_length_le`: The hands have
  nothing in common, leave nothing out and are of almost the same size.
* `eq_of_sorted_nodup`: Sorted lists with the same entries are the same.
-/

namespace MqBroker

variable {α : Type}

/-- Every `step`-th entry of a list, from the one at a given index on. -/
def everyNth (step : Nat) : Nat → List α → List α
  | _, [] => []
  | 0, a :: l => a :: everyNth step (step - 1) l
  | index + 1, _ :: l => everyNth step index l

/-- Entry `k` of a hand is `k` steps behind its first one. -/
theorem getElem?_everyNth (step : Nat) (hstep : 0 < step) (index k : Nat) (l : List α) :
    (everyNth step index l)[k]? = l[index + k * step]? := by
  induction l generalizing index k with
  | nil => simp only [everyNth, List.getElem?_nil]
  | cons a l ih =>
      cases index with
      | zero =>
          cases k with
          | zero => simp only [everyNth, Nat.zero_mul, Nat.add_zero, List.getElem?_cons_zero]
          | succ k =>
              have hnext : 0 + (k + 1) * step = step - 1 + k * step + 1 := by
                rw [Nat.succ_mul]
                omega
              rw [everyNth, List.getElem?_cons_succ, ih, hnext, List.getElem?_cons_succ]
      | succ index =>
          rw [everyNth, ih, Nat.add_right_comm, List.getElem?_cons_succ]

theorem everyNth_sublist (step index : Nat) (l : List α) : (everyNth step index l).Sublist l := by
  induction l generalizing index with
  | nil => exact List.Sublist.refl []
  | cons a l ih =>
      cases index with
      | zero => exact (ih (step - 1)).cons_cons a
      | succ index => exact (ih index).cons a

section Hands

variable {step : Nat} (hstep : 0 < step) (l : List α)

include hstep

theorem mem_everyNth (index : Nat) (a : α) :
    a ∈ everyNth step index l ↔ ∃ k, l[index + k * step]? = some a := by
  rw [List.mem_iff_getElem?]
  simp only [getElem?_everyNth step hstep]

theorem lt_length_everyNth (index k : Nat) :
    k < (everyNth step index l).length ↔ index + k * step < l.length := by
  rw [← not_iff_not, Nat.not_lt, Nat.not_lt, ← List.getElem?_eq_none_iff,
    getElem?_everyNth step hstep, List.getElem?_eq_none_iff]

/-- Every entry is dealt to somebody. -/
theorem everyNth_cover (a : α) (h : a ∈ l) : ∃ index < step, a ∈ everyNth step index l := by
  rcases List.mem_iff_getElem?.mp h with ⟨i, hi⟩
  refine ⟨i % step, Nat.mod_lt i hstep, (mem_everyNth hstep l _ a).mpr ⟨i / step, ?_⟩⟩
  rw [Nat.mod_add_div', hi]

/-- No entry is dealt to two. -/
theorem everyNth_disjoint (hl : l.Nodup) (i j : Nat) (hi : i < step) (hj : j < step) (h : i ≠ j) :
    (everyNth step i l).Disjoint (everyNth step j l) := by
  intro a ha hb
  rcases (mem_everyNth hstep l i a).mp ha with ⟨k, hk⟩
  rcases (mem_everyNth hstep l j a).mp hb with ⟨k', hk'⟩
  have hlt := (List.getElem?_eq_some_iff.mp hk).1
  have hpos := (List.getElem?_inj hlt hl).mp (hk.trans hk'.symm)
  -- The hand is the remainder of the position.
  have hmod := congrArg (· % step) hpos
  simp only [Nat.add_mul_mod_self_right, Nat.mod_eq_of_lt hi, Nat.mod_eq_of_lt hj] at hmod
  exact h hmod

/-- One hand has at most one entry more than another. -/
theorem everyNth_length_le (i j : Nat) (hj : j < step) :
    (everyNth step i l).length ≤ (everyNth step j l).length + 1 := by
  by_contra hlong
  rw [Nat.not_le] at hlong
  have hin := (lt_length_everyNth hstep l i _).mp hlong
  have hout := (not_congr (lt_length_everyNth hstep l j _)).mp (Nat.lt_irrefl _)
  rw [Nat.succ_mul] at hin
  omega

end Hands

/-- A sorted list without duplicates is determined by its entries. -/
theorem eq_of_sorted_nodup {le : α → α → Prop} (hle : ∀ a b, le a b → le b a → a = b)
    {l l' : List α} (hs : l.Pairwise le) (hs' : l'.Pairwise le) (hn : l.Nodup) (hn' : l'.Nodup)
    (h : ∀ a, a ∈ l ↔ a ∈ l') : l = l' :=
  ((List.perm_ext_iff_of_nodup hn hn').mpr h).eq_of_pairwise (fun a b _ _ => hle a b) hs hs'

end MqBroker
