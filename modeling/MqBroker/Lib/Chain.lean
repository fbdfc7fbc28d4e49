import Mathlib.Data.List.Infix
import Mathlib.Data.Set.Basic

/-!
# Chains of Lists

A family of lists in which of any two one is the beginning of the other, as
the copies of one log are as long as they only differ in how far they got.

A family stays a chain in two ways of growing. A list that is at least as long
as all the others may grow freely, because the others are all beginnings of it.
And any list may grow towards another one, by what the other has next.

## Main definitions

* `PrefixChain`: Any two lists of a family are comparable.

## Theorems

* `PrefixChain.prefix_of_le`: The shorter list is the beginning of the longer.
* `PrefixChain.grow`: The longest list may grow freely.
* `PrefixChain.copy`: Any list may grow towards another one.
-/

namespace MqBroker

variable {ι α : Type}

/-- Of any two lists of the family one is the beginning of the other. -/
def PrefixChain (S : Set ι) (f : ι → List α) : Prop :=
  ∀ i ∈ S, ∀ j ∈ S, f i <+: f j ∨ f j <+: f i

section Chain

variable {S : Set ι} {f g : ι → List α}

theorem PrefixChain.prefix_of_le (h : PrefixChain S f) {i j : ι} (hi : i ∈ S) (hj : j ∈ S)
    (hle : (f i).length ≤ (f j).length) : f i <+: f j := by
  rcases h i hi j hj with hij | hji
  · exact hij
  · rw [hji.eq_of_length_le hle]

/-- It is enough to compare the one list that has changed with the others. -/
theorem PrefixChain.of_changed (h : PrefixChain S f) (i : ι) (hothers : ∀ k, k ≠ i → g k = f k)
    (hi : ∀ k ∈ S, k ≠ i → g i <+: f k ∨ f k <+: g i) : PrefixChain S g := by
  intro j hj k hk
  -- A pair in which neither list has changed is compared as before.
  by_cases hji : j = i
  · by_cases hki : k = i
    · rw [hji, hki]
      exact Or.inl List.prefix_rfl
    · rw [hji, hothers k hki]
      exact hi k hk hki
  · by_cases hki : k = i
    · rw [hki, hothers j hji]
      exact (hi j hj hji).symm
    · rw [hothers j hji, hothers k hki]
      exact h j hj k hk

theorem PrefixChain.grow (h : PrefixChain S f) {i : ι} (hi : i ∈ S)
    (hlongest : ∀ k ∈ S, (f k).length ≤ (f i).length) (l : List α) (hgrown : g i = f i ++ l)
    (hothers : ∀ k, k ≠ i → g k = f k) : PrefixChain S g := by
  refine h.of_changed i hothers ?_
  intro k hk _
  right
  rw [hgrown]
  exact (h.prefix_of_le hk hi (hlongest k hk)).trans (List.prefix_append (f i) l)

theorem PrefixChain.copy (h : PrefixChain S f) {i j : ι} (hj : j ∈ S) (l : List α)
    (htowards : f i ++ l <+: f j) (hgrown : g i = f i ++ l) (hothers : ∀ k, k ≠ i → g k = f k) :
    PrefixChain S g := by
  refine h.of_changed i hothers ?_
  intro k hk _
  rw [hgrown]
  -- The grown list is still a beginning of `f j`, and so comparable with
  -- whatever `f j` is comparable with.
  rcases h k hk j hj with hkj | hjk
  · exact List.prefix_or_prefix_of_prefix htowards hkj
  · exact Or.inl (htowards.trans hjk)

end Chain

end MqBroker
