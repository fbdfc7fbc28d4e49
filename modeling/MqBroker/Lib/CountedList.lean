import MqBroker.Lib.Traced

/-!
# Lists with their Length in Front

A payload that is a number of items and then the items, each as long as its own
length fields say. The parser reads the number, then an item at a time, where each
item tells the position of the next, and in the end looks whether that is the end
of the payload.

What the items are does not matter here. If a parsed item is what stands at its
position, the items of a whole payload are the payload: between the items, in front
of them and behind them there is nothing else.

## Main definitions

* `Traced.readMany`: The loop over the items.
* `Traced.Spells`: A parsed item is what stands at its position.
* `counted`: A list with its length in front.

## Theorems

* `Traced.inBounds_readMany_check`, `Traced.result_readMany_check`: The loop and a check
  of its end.
* `Traced.Spells.readMany`: The items of the loop.
* `Traced.Spells.counted`: The items of a whole payload.
-/

namespace MqBroker

variable {α ε : Type}

/-- A list with its length in front. -/
def counted (encode : α → Bytes) (items : List α) : Bytes :=
  put32 (UInt32.ofNat items.length) ++ items.flatMap encode

namespace Traced

/-- The loop over the items, with the position behind them. -/
def readMany (item : Nat → Traced ε (α × Nat)) : Nat → Nat → Traced ε (List α × Nat)
  | 0, position => pure ([], position)
  | count + 1, position => do
      let first ← item position
      let rest ← readMany item count first.2
      return (first.1 :: rest.1, rest.2)

/-- Steps may be grouped in either way. -/
theorem bind_assoc {β γ : Type} (t : Traced ε α) (f : α → Traced ε β) (g : β → Traced ε γ) :
    t >>= f >>= g = t >>= fun a => f a >>= g := by
  rcases t with ⟨reads, e | a⟩
  · rfl
  · simp only [bind]
    rcases hfirst : f a with ⟨reads', e | b⟩
    · rfl
    · simp only [List.append_assoc]

/-- A value that is there already is handed on. -/
theorem pure_bind (a : α) {β : Type} (f : α → Traced ε β) : (pure a : Traced ε α) >>= f = f a := by
  simp only [bind, pure, List.nil_append]

theorem inBounds_readMany {item : Nat → Traced ε (α × Nat)}
    (h : ∀ position, (item position).InBounds) (count position : Nat) :
    (readMany item count position).InBounds := by
  induction count generalizing position with
  | zero => exact (inBounds_pure _).mpr trivial
  | succ count ih =>
      rw [readMany, inBounds_bind]
      refine ⟨h position, fun first _ => ?_⟩
      exact (inBounds_bind _ _).mpr ⟨ih first.2, fun rest _ => (inBounds_pure _).mpr trivial⟩

section Ending

variable {β : Type} {item : Nat → Traced ε (α × Nat)} {ends : List α × Nat → Prop}
  [DecidablePred ends] {error : ε} {value : List α × Nat → β}

/-- The loop, and a check of where it ends. -/
theorem inBounds_readMany_check (h : ∀ position, (item position).InBounds)
    (count position : Nat) :
    (readMany item count position >>= fun found =>
      check (ends found) error >>= fun _ => (pure (value found) : Traced ε β)).InBounds := by
  refine (inBounds_bind _ _).mpr ⟨inBounds_readMany h count position, fun found _ => ?_⟩
  rw [inBounds_check_bind]
  exact fun _ => (inBounds_pure _).mpr trivial

theorem result_readMany_check {count position : Nat} {b : β}
    (h : (readMany item count position >>= fun found =>
      check (ends found) error >>= fun _ => (pure (value found) : Traced ε β)).result = .ok b) :
    ∃ found, (readMany item count position).result = .ok found ∧ ends found ∧ b = value found := by
  obtain ⟨found, hfound, h⟩ := result_bind_eq_ok h
  rw [result_check_bind] at h
  split_ifs at h with hend
  exact ⟨found, hfound, hend, (Except.ok.inj h).symm⟩

end Ending

/-- A parsed item is what stands at its position, up to the position behind it, and
    its fields hold its lengths. -/
def Spells (payload : Bytes) (encode : α → Bytes) (framed : α → Prop)
    (item : Nat → Traced ε (α × Nat)) : Prop :=
  ∀ position found, (item position).result = .ok found →
    framed found.1 ∧ payload.drop position = encode found.1 ++ payload.drop found.2

variable {payload : Bytes} {encode : α → Bytes} {framed : α → Prop}
  {item : Nat → Traced ε (α × Nat)}

/-- The items of the loop, by induction on their number: the first one is in front of
    the others. -/
theorem Spells.readMany (h : Spells payload encode framed item) {count position : Nat}
    {found : List α × Nat} (hread : (readMany item count position).result = .ok found) :
    found.1.length = count ∧ (∀ x ∈ found.1, framed x) ∧
      payload.drop position = found.1.flatMap encode ++ payload.drop found.2 := by
  induction count generalizing position found with
  | zero =>
      cases hread
      exact ⟨rfl, fun x hx => (nomatch hx), rfl⟩
  | succ count ih =>
      rw [Traced.readMany] at hread
      obtain ⟨first, hfirst, hread⟩ := result_bind_eq_ok hread
      obtain ⟨rest, hrest, hread⟩ := result_bind_eq_ok hread
      cases hread
      obtain ⟨hframed, hitem⟩ := h position first hfirst
      obtain ⟨hlength, hall, hrest⟩ := ih hrest
      refine ⟨congrArg (· + 1) hlength, ?_, ?_⟩
      · intro x hx
        rcases List.mem_cons.mp hx with rfl | hx
        · exact hframed
        · exact hall x hx
      · rw [hitem, hrest, List.flatMap_cons, List.append_assoc]

/-- If the loop ends where the payload ends, the payload is the items with their
    number in front. -/
theorem Spells.counted (h : Spells payload encode framed item) {found : List α × Nat}
    (hlength : 4 ≤ payload.length) (hend : found.2 = payload.length)
    (hread : (Traced.readMany item (get32 payload 0).toNat 4).result = .ok found) :
    found.1.length < 2 ^ 32 ∧ (∀ x ∈ found.1, framed x) ∧
      payload = MqBroker.counted encode found.1 := by
  obtain ⟨hcount, hall, hitems⟩ := h.readMany hread
  refine ⟨hcount ▸ UInt32.toNat_lt _, hall, ?_⟩
  rw [hend, List.drop_length, List.append_nil] at hitems
  rw [MqBroker.counted, hcount, UInt32.ofNat_toNat, put32_get32 payload 0 hlength, ← hitems]
  exact (substr_append_drop payload 0 4).symm

end Traced

end MqBroker
