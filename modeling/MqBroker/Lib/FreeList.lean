import Mathlib.Logic.Function.Basic
import Mathlib.Data.List.Nodup

/-!
# Intrusive Lists

A list that is threaded through its own nodes: `next` says where each node
points, and only the head is kept. `Threaded` reads the list off. What a node
outside the list points to does not matter, which is what lets a free list live
in memory that its users write to.

## Main definitions

* `Threaded`: The nodes from a head on.

## Theorems

* `Threaded.pop`, `Threaded.push`: Taking a node off and putting one on.
* `Threaded.frame`: Writes outside the list.
-/

namespace MqBroker

variable {ν : Type} {next : ν → Option ν} {head : Option ν} {l : List ν}

/-- The nodes met by following `next` from a head to the end. -/
def Threaded (next : ν → Option ν) : Option ν → List ν → Prop
  | head, [] => head = none
  | head, node :: rest => head = some node ∧ Threaded next (next node) rest

/-- The first node is the head, and the rest is threaded from where it points. -/
theorem Threaded.pop {node : ν} (h : Threaded next (some node) l) :
    ∃ rest, l = node :: rest ∧ Threaded next (next node) rest := by
  cases l with
  | nil => exact nomatch h
  | cons node' rest =>
      obtain rfl := Option.some.inj h.1
      exact ⟨rest, rfl, h.2⟩

variable [DecidableEq ν]

/-- Writing a node that is not in the list leaves the list alone. -/
theorem Threaded.frame (h : Threaded next head l) {node : ν} (hnode : node ∉ l) (link : Option ν) :
    Threaded (Function.update next node link) head l := by
  induction l generalizing head with
  | nil => exact h
  | cons first rest ih =>
      rw [List.mem_cons, not_or] at hnode
      refine ⟨h.1, ?_⟩
      rw [Function.update_of_ne (Ne.symm hnode.1)]
      exact ih h.2 hnode.2

/-- A node that is not in the list is put in front. -/
theorem Threaded.push (h : Threaded next head l) {node : ν} (hnode : node ∉ l) :
    Threaded (Function.update next node head) (some node) (node :: l) := by
  refine ⟨rfl, ?_⟩
  rw [Function.update_self]
  exact h.frame hnode head

end MqBroker
