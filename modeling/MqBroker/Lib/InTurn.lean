import Mathlib.Data.List.Forall2

/-!
# Inputs in Turn

A list of inputs is worked off one by one, and the first answer that is not
good ends it. Every answer up to then is kept, the bad one too.

Two systems that work off the same list can be compared step by step. The
relation between their states may speak of the inputs that are still to come,
since that is where a plan that one of them has made in advance meets what the
other one finds when it gets there.

## Main definitions

* `inTurn`: The state and the answers.

## Theorems

* `inTurn_cases`: All answers are good, or all but the last.
* `inTurn_related`: Two systems that stay related answer alike.
-/

namespace MqBroker

section InTurn

variable {σ σ' ι κ ο ο' : Type}

/-- Inputs are taken one after the other, up to the first whose answer is not
    good. -/
def inTurn (act : σ → ι → σ × ο) (good : ο → Bool) : σ → List ι → σ × List ο
  | s, [] => (s, [])
  | s, i :: rest =>
      let next := act s i
      if good next.2 then
        let final := inTurn act good next.1 rest
        (final.1, next.2 :: final.2)
      else (next.1, [next.2])

variable {act : σ → ι → σ × ο} {good : ο → Bool}

theorem inTurn_cons_good {s : σ} {i : ι} (rest : List ι) (h : good (act s i).2 = true) :
    inTurn act good s (i :: rest)
      = ((inTurn act good (act s i).1 rest).1,
          (act s i).2 :: (inTurn act good (act s i).1 rest).2) := by
  rw [inTurn, if_pos h]

theorem inTurn_cons_bad {s : σ} {i : ι} (rest : List ι) (h : ¬ good (act s i).2 = true) :
    inTurn act good s (i :: rest) = ((act s i).1, [(act s i).2]) := by
  rw [inTurn, if_neg h]

/-- Either every input is answered well, or all up to one that is not. -/
theorem inTurn_cases (act : σ → ι → σ × ο) (good : ο → Bool) (s : σ) (inputs : List ι) :
    ((inTurn act good s inputs).2.length = inputs.length ∧
      ∀ o ∈ (inTurn act good s inputs).2, good o = true) ∨
    ∃ done failed, (inTurn act good s inputs).2 = done ++ [failed] ∧
      (∀ o ∈ done, good o = true) ∧ good failed = false := by
  induction inputs generalizing s with
  | nil => exact Or.inl ⟨rfl, fun _ h => absurd h List.not_mem_nil⟩
  | cons i rest ih =>
      by_cases hgood : good (act s i).2 = true
      · rw [inTurn_cons_good rest hgood]
        rcases ih (act s i).1 with ⟨hlength, hall⟩ | ⟨done, failed, hanswers, hdone, hfailed⟩
        · exact Or.inl ⟨congrArg Nat.succ hlength, List.forall_mem_cons.mpr ⟨hgood, hall⟩⟩
        · refine Or.inr ⟨(act s i).2 :: done, failed, ?_,
            List.forall_mem_cons.mpr ⟨hgood, hdone⟩, hfailed⟩
          rw [hanswers, List.cons_append]
      · rw [inTurn_cons_bad rest hgood]
        exact Or.inr ⟨[], (act s i).2, rfl, fun _ h => absurd h List.not_mem_nil,
          Bool.eq_false_iff.mpr hgood⟩

/-- Inputs may be translated before they are taken. -/
theorem inTurn_map (act : σ → ι → σ × ο) (good : ο → Bool) (f : κ → ι) (s : σ) (inputs : List κ) :
    inTurn act good s (inputs.map f) = inTurn (fun s k => act s (f k)) good s inputs := by
  induction inputs generalizing s with
  | nil => rfl
  | cons k rest ih => simp only [List.map_cons, inTurn, ih]

/-- Where a first step goes is all that counts of the state it is taken in. -/
theorem inTurn_congr_start {s s' : σ} {i : ι} (rest : List ι) (h : act s i = act s' i) :
    inTurn act good s (i :: rest) = inTurn act good s' (i :: rest) := by
  rw [inTurn, inTurn, h]

/-- If a step keeps two systems related as long as it is answered well, and
    leaves them alike in any case, then they are alike at the end, and so are
    their answers. -/
theorem inTurn_related {act' : σ' → ι → σ' × ο'} {good' : ο' → Bool}
    (R : List ι → σ → σ' → Prop) (alike : σ → σ' → Prop) (same : ο → ο' → Prop)
    (hgood : ∀ o o', same o o' → good o = good' o')
    (hdone : ∀ s s', R [] s s' → alike s s')
    (hstep : ∀ i rest s s', R (i :: rest) s s' →
      same (act s i).2 (act' s' i).2 ∧ alike (act s i).1 (act' s' i).1 ∧
        (good (act s i).2 = true → R rest (act s i).1 (act' s' i).1))
    {s : σ} {s' : σ'} {inputs : List ι} (h : R inputs s s') :
    alike (inTurn act good s inputs).1 (inTurn act' good' s' inputs).1 ∧
      List.Forall₂ same (inTurn act good s inputs).2 (inTurn act' good' s' inputs).2 := by
  induction inputs generalizing s s' with
  | nil => exact ⟨hdone s s' h, List.Forall₂.nil⟩
  | cons i rest ih =>
      rcases hstep i rest s s' h with ⟨hsame, halike, hnext⟩
      by_cases hanswer : good (act s i).2 = true
      · rw [inTurn_cons_good rest hanswer,
          inTurn_cons_good rest ((hgood _ _ hsame).symm.trans hanswer)]
        rcases ih (hnext hanswer) with ⟨hfinal, hrest⟩
        exact ⟨hfinal, List.Forall₂.cons hsame hrest⟩
      · rw [inTurn_cons_bad rest hanswer,
          inTurn_cons_bad rest (fun h => hanswer ((hgood _ _ hsame).trans h))]
        exact ⟨halike, List.Forall₂.cons hsame List.Forall₂.nil⟩

end InTurn

end MqBroker
