import Mathlib.Data.List.Basic

/-!
# Records with Keys

A list of records that each have a key, searched from the front. A record is
written over the first one with its key, or at the end when there is none. Such
a list is a map from keys to records as long as it is only changed this way, and
the lemmas here say what each change is for the map.

Nothing is asked of the list. Records behind the first one with their key are
never found, so two of them do no harm; they only take up room.

## Main definitions

* `findKey`: The first record with a key.
* `upsert`: A record is written.

## Theorems

* `findKey_upsert`: What is found after a record was written.
* `length_upsert`: How long the list is then.
* `findKey_filter_keep`, `findKey_filter_drop`: What is found after records were
  dropped by their keys.
-/

namespace MqBroker

variable {α κ : Type} [DecidableEq κ] (key : α → κ)

/-- The first record with a key. -/
def findKey (k : κ) (l : List α) : Option α := l.find? (fun a => key a = k)

/-- A record is written over the first one with its key, or at the end. -/
def upsert (x : α) : List α → List α
  | [] => [x]
  | a :: l => if key a = key x then x :: l else a :: upsert x l

variable {key}

theorem findKey_cons (k : κ) (a : α) (l : List α) :
    findKey key k (a :: l) = if key a = k then some a else findKey key k l := by
  unfold findKey
  by_cases h : key a = k
  · rw [if_pos h]
    exact List.find?_cons_of_pos (decide_eq_true h)
  · rw [if_neg h]
    exact List.find?_cons_of_neg fun hk => h (of_decide_eq_true hk)

theorem findKey_some {k : κ} {a : α} {l : List α} (h : findKey key k l = some a) :
    a ∈ l ∧ key a = k := by
  have hk : decide (key a = k) = true := List.find?_some (p := fun a => decide (key a = k)) h
  exact ⟨List.mem_of_find?_eq_some h, of_decide_eq_true hk⟩

/-- A record that was written is found, and every other one is found as before. -/
theorem findKey_upsert (x : α) (l : List α) (k : κ) :
    findKey key k (upsert key x l) = if key x = k then some x else findKey key k l := by
  induction l with
  | nil => exact findKey_cons k x []
  | cons a l ih =>
      rw [upsert]
      by_cases ha : key a = key x
      · rw [if_pos ha, findKey_cons, findKey_cons, ha]
        -- The record that is written over is found with no other key.
        by_cases hk : key x = k
        · rw [if_pos hk, if_pos hk]
        · rw [if_neg hk, if_neg hk, if_neg hk]
      · rw [if_neg ha, findKey_cons, findKey_cons, ih]
        by_cases hk : key a = k
        · rw [if_pos hk, if_pos hk, if_neg fun hx => ha (hk.trans hx.symm)]
        · rw [if_neg hk, if_neg hk]

/-- The list gets longer when the key is new, and only then. -/
theorem length_upsert (x : α) (l : List α) :
    (upsert key x l).length
      = if findKey key (key x) l = none then l.length + 1 else l.length := by
  induction l with
  | nil => rfl
  | cons a l ih =>
      rw [upsert, findKey_cons]
      by_cases ha : key a = key x
      · rw [if_pos ha, if_pos ha, if_neg (Option.some_ne_none a), List.length_cons,
          List.length_cons]
      · rw [if_neg ha, if_neg ha, List.length_cons, List.length_cons, ih]
        split <;> rfl

theorem mem_upsert {x a : α} {l : List α} (h : a ∈ upsert key x l) : a = x ∨ a ∈ l := by
  induction l with
  | nil => exact Or.inl (List.mem_singleton.mp h)
  | cons b l ih =>
      rw [upsert] at h
      split at h
      · exact (List.mem_cons.mp h).imp_right (List.mem_cons_of_mem b)
      · rcases List.mem_cons.mp h with hb | hrest
        · exact Or.inr (List.mem_cons.mpr (Or.inl hb))
        · exact (ih hrest).imp_right (List.mem_cons_of_mem b)

/-- Dropping records with other keys changes nothing for a key. -/
theorem findKey_filter_keep {p : α → Bool} {k : κ} (h : ∀ a, key a = k → p a = true)
    (l : List α) : findKey key k (l.filter p) = findKey key k l := by
  induction l with
  | nil => rfl
  | cons a l ih =>
      by_cases hp : p a = true
      · rw [List.filter_cons_of_pos hp, findKey_cons, findKey_cons, ih]
      · rw [List.filter_cons_of_neg hp, findKey_cons, if_neg fun hk => hp (h a hk), ih]

/-- Dropping all records with a key leaves none to find. -/
theorem findKey_filter_drop {p : α → Bool} {k : κ} (h : ∀ a, key a = k → p a = false)
    (l : List α) : findKey key k (l.filter p) = none := by
  refine List.find?_eq_none.mpr fun a ha hk => ?_
  have hp := (List.mem_filter.mp ha).2
  rw [h a (of_decide_eq_true hk)] at hp
  cases hp

end MqBroker
