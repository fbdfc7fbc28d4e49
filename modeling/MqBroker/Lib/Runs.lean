import Mathlib.Logic.Basic

/-!
# Runs

A system is a function that takes a state and an event to the next state, and
a run is a start and a list of events. `Always` says that a property holds in
every state of a run, `Along` that a condition holds of every event in the
state it happens in.

Where a condition on events is what keeps a property, the two go together.
`Always.of_along` is the usual rule for invariants, and `always_iff_along` its
exact form: if an event keeps the property just when the condition holds, so
does a run.

## Main definitions

* `Always`: A property of all states of a run.
* `Along`: A condition on all events of a run.
* `outputs`: The answers in a run.
* `stepBoth`: Two states that take the same input.

## Theorems

* `Always.of_along`: A property that every good event keeps.
* `always_iff_along`: A property that exactly the good events keep.
* `outputs_eq_of_along`: Two runs with the same answers.
-/

namespace MqBroker

variable {σ ε : Type} (step : σ → ε → σ)

/-- A property holds in every state of a run. -/
def Always (P : σ → Prop) : σ → List ε → Prop
  | s, [] => P s
  | s, e :: es => P s ∧ Always P (step s e) es

/-- A condition holds of every event of a run, in the state before it. -/
def Along (good : σ → ε → Prop) : σ → List ε → Prop
  | _, [] => True
  | s, e :: es => good s e ∧ Along good (step s e) es

section Decidable

/-- Whether a property holds throughout is decided state by state. -/
def decidableAlways (P : σ → Prop) [DecidablePred P] : (s : σ) → (es : List ε) →
    Decidable (Always step P s es)
  | s, [] => inferInstanceAs (Decidable (P s))
  | s, e :: es =>
      have := decidableAlways P (step s e) es
      inferInstanceAs (Decidable (P s ∧ Always step P (step s e) es))

/-- Whether a condition holds throughout is decided event by event. -/
def decidableAlong (good : σ → ε → Prop) [∀ s e, Decidable (good s e)] : (s : σ) → (es : List ε) →
    Decidable (Along step good s es)
  | _, [] => isTrue trivial
  | s, e :: es =>
      have := decidableAlong good (step s e) es
      inferInstanceAs (Decidable (good s e ∧ Along step good (step s e) es))

instance (P : σ → Prop) [DecidablePred P] (s : σ) (es : List ε) : Decidable (Always step P s es) :=
  decidableAlways step P s es

instance (good : σ → ε → Prop) [∀ s e, Decidable (good s e)] (s : σ) (es : List ε) :
    Decidable (Along step good s es) :=
  decidableAlong step good s es

end Decidable

variable {step} {P Q : σ → Prop} {good : σ → ε → Prop}

theorem Always.start {s : σ} {es : List ε} (h : Always step P s es) : P s := by
  cases es with
  | nil => exact h
  | cons e es => exact h.1

theorem Always.last {s : σ} {es : List ε} (h : Always step P s es) : P (es.foldl step s) := by
  induction es generalizing s with
  | nil => exact h
  | cons e es ih => exact ih h.2

/-- A run in two parts. -/
theorem always_append {s : σ} {es es' : List ε} :
    Always step P s (es ++ es') ↔ Always step P s es ∧ Always step P (es.foldl step s) es' := by
  induction es generalizing s with
  | nil => exact (and_iff_right_of_imp Always.start).symm
  | cons e es ih => exact (and_congr_right fun _ => ih).trans and_assoc.symm

theorem Always.mono {s : σ} {es : List ε} (hPQ : ∀ s, P s → Q s) (h : Always step P s es) :
    Always step Q s es := by
  induction es generalizing s with
  | nil => exact hPQ s h
  | cons e es ih => exact ⟨hPQ s h.1, ih h.2⟩

/-- What holds in every state holds in the states before the events. -/
theorem Always.along {s : σ} {es : List ε} (h : Always step P s es) :
    Along step (fun s _ => P s) s es := by
  induction es generalizing s with
  | nil => trivial
  | cons e es ih => exact ⟨h.1, ih h.2⟩

/-- A condition that always holds. -/
theorem Along.of_forall (h : ∀ s e, good s e) (s : σ) (es : List ε) : Along step good s es := by
  induction es generalizing s with
  | nil => trivial
  | cons e es ih => exact ⟨h s e, ih _⟩

theorem along_append {s : σ} {es es' : List ε} :
    Along step good s (es ++ es') ↔ Along step good s es ∧ Along step good (es.foldl step s) es' := by
  induction es generalizing s with
  | nil => exact (and_iff_right trivial).symm
  | cons e es ih => exact (and_congr_right fun _ => ih).trans and_assoc.symm

theorem Along.mono {good' : σ → ε → Prop} {s : σ} {es : List ε}
    (h : ∀ s e, good s e → good' s e) (hgood : Along step good s es) : Along step good' s es := by
  induction es generalizing s with
  | nil => trivial
  | cons e es ih => exact ⟨h s e hgood.1, ih hgood.2⟩

theorem Along.and {good good' : σ → ε → Prop} {s : σ} {es : List ε} (h : Along step good s es)
    (h' : Along step good' s es) : Along step (fun s e => good s e ∧ good' s e) s es := by
  induction es generalizing s with
  | nil => trivial
  | cons e es ih => exact ⟨⟨h.1, h'.1⟩, ih h.2 h'.2⟩

/-- Two conditions that say the same of an event wherever an invariant holds say
    the same of a run. -/
theorem along_congr {good' : σ → ε → Prop} (hinv : ∀ s e, Q s → Q (step s e))
    (h : ∀ s e, Q s → (good s e ↔ good' s e)) {s : σ} (es : List ε) (hQ : Q s) :
    Along step good s es ↔ Along step good' s es := by
  induction es generalizing s with
  | nil => exact Iff.rfl
  | cons e es ih => exact and_congr (h s e hQ) (ih (hinv s e hQ))

/-- The same where the invariant and the two conditions rest on a property of all
    states of the run. -/
theorem along_congr_of_always {good' : σ → ε → Prop}
    (hinv : ∀ s e, Q s → P s → P (step s e) → Q (step s e))
    (h : ∀ s e, Q s → P s → P (step s e) → (good s e ↔ good' s e)) {s : σ} {es : List ε}
    (hQ : Q s) (hP : Always step P s es) : Along step good s es ↔ Along step good' s es := by
  induction es generalizing s with
  | nil => exact Iff.rfl
  | cons e es ih =>
      have hnext := hP.2.start
      exact and_congr (h s e hQ hP.1 hnext) (ih (hinv s e hQ hP.1 hnext) hP.2)

/-- A property that every good event keeps holds in all states of a run of
    good events. -/
theorem Always.of_along (hstep : ∀ s e, P s → good s e → P (step s e)) {s : σ} {es : List ε}
    (hs : P s) (h : Along step good s es) : Always step P s es := by
  induction es generalizing s with
  | nil => exact hs
  | cons e es ih => exact ⟨hs, ih (hstep s e hs h.1) h.2⟩

/-- The same where the property rests on another one of all states of the run. -/
theorem Always.of_along_always
    (hstep : ∀ s e, Q s → P s → P (step s e) → good s e → Q (step s e)) {s : σ} {es : List ε}
    (hQ : Q s) (hP : Always step P s es) (h : Along step good s es) : Always step Q s es := by
  induction es generalizing s with
  | nil => exact hQ
  | cons e es ih => exact ⟨hQ, ih (hstep s e hQ hP.1 hP.2.start h.1) hP.2 h.2⟩

/-- If, under an invariant, an event keeps a property exactly when it is good,
    then the property holds in all states of a run exactly when all events are
    good. -/
theorem always_iff_along (hinv : ∀ s e, Q s → Q (step s e))
    (hstep : ∀ s e, Q s → P s → (P (step s e) ↔ good s e)) {s : σ} (es : List ε) (hQ : Q s)
    (hP : P s) : Always step P s es ↔ Along step good s es := by
  induction es generalizing s with
  | nil => exact iff_of_true hP trivial
  | cons e es ih =>
      constructor
      · intro h
        have hnext := h.2.start
        exact ⟨(hstep s e hQ hP).mp hnext, (ih (hinv s e hQ) hnext).mp h.2⟩
      · intro h
        have hnext := (hstep s e hQ hP).mpr h.1
        exact ⟨hP, (ih (hinv s e hQ) hnext).mpr h.2⟩

/-! ## Two runs -/

section TwoRuns

variable {ι ο : Type} (act : σ → ι → σ × ο)

/-- What a system answers in a run. -/
def outputs : σ → List ι → List ο
  | _, [] => []
  | s, i :: is => (act s i).2 :: outputs (act s i).1 is

theorem outputs_length (s : σ) (is : List ι) : (outputs act s is).length = is.length := by
  induction is generalizing s with
  | nil => rfl
  | cons i is ih => rw [outputs, List.length_cons, List.length_cons, ih]

/-- A run in two parts. -/
theorem outputs_append (s : σ) (is js : List ι) :
    outputs act s (is ++ js) =
      outputs act s is ++ outputs act (is.foldl (fun s i => (act s i).1) s) js := by
  induction is generalizing s with
  | nil => rfl
  | cons first is ih =>
      rw [List.cons_append, outputs, ih]
      rfl

/-- Two states that take the same input. -/
def stepBoth (p : σ × σ) (i : ι) : σ × σ := ((act p.1 i).1, (act p.2 i).1)

variable {act}

/-- If good inputs keep two states related, and related states answer them alike,
    then two runs of good inputs have the same answers. -/
theorem outputs_eq_of_along {R : σ → σ → Prop} {alike : σ × σ → ι → Prop}
    (hstep : ∀ s s' i, R s s' → alike (s, s') i →
      R (act s i).1 (act s' i).1 ∧ (act s' i).2 = (act s i).2)
    {s s' : σ} {is : List ι} (hR : R s s') (h : Along (stepBoth act) alike (s, s') is) :
    outputs act s' is = outputs act s is := by
  induction is generalizing s s' with
  | nil => rfl
  | cons i is ih =>
      rcases hstep s s' i hR h.1 with ⟨hnext, hanswer⟩
      rw [outputs, outputs, hanswer, ih hnext h.2]

end TwoRuns

end MqBroker
