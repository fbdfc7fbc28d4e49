import Mathlib.Logic.Basic

/-!
# Early Return

A function that changes a state in several stages and may return at any of them
is an `Except σ σ`, with the state on both sides: `.error s` when it has returned,
`.ok s` when it goes on. `do` puts the stages behind one another.

What is proved of such a function has two parts, what holds if it returns and
what holds if it goes on. `Early.Holds` says both, and has a rule for each way to
go on.

## Main definitions

* `Early.result`: The state at the end.
* `Early.Holds`: What holds after a stage.

## Theorems

* `Early.Holds.bind`: One stage after the other.
* `Early.Holds.result`: The end of the function.
-/

namespace MqBroker

namespace Early

variable {σ : Type}

/-- The state at the end, however it was reached. -/
def result : Except σ σ → σ
  | .error s => s
  | .ok s => s

/-- `P` holds if the function has returned, and `Q` if it goes on. -/
def Holds (P Q : σ → Prop) : Except σ σ → Prop
  | .error s => P s
  | .ok s => Q s

variable {P Q Q' : σ → Prop} {r : Except σ σ}

@[simp] theorem holds_error {s : σ} : Holds P Q (.error s) ↔ P s := Iff.rfl

@[simp] theorem holds_ok {s : σ} : Holds P Q (.ok s) ↔ Q s := Iff.rfl

theorem Holds.bind {f : σ → Except σ σ} (h : Holds P Q r)
    (hf : ∀ s, Q s → Holds P Q' (f s)) : Holds P Q' (r >>= f) := by
  cases r with
  | error s => exact h
  | ok s => exact hf s h

theorem Holds.result (h : Holds P P r) : P (result r) := by
  cases r with
  | error s => exact h
  | ok s => exact h

end Early

end MqBroker
