import Mathlib.Data.List.Basic
import Mathlib.Order.Basic

/-!
# Incremental Parsing

A stream of items that arrives in chunks, and a parser that takes an item off
the front whenever a whole one is there.

The parser is a function from the bytes at hand to one of three answers: there
is not enough yet, there is an item with something behind it, or it will never
be an item. `Incremental` says that the last two are not taken back when more
bytes arrive. That is all it takes for the chunks to be of no importance:
`feed_eq_drain` says that chunk by chunk the same comes out as at once.

## Main definitions

* `Front`: What is at the front of the input.
* `Incremental`: Answers that are not taken back.
* `drain`: All items at the front.
* `feed`: Chunk by chunk, with what is left over in between.

## Theorems

* `drain_append`: Going on where something was left over.
* `feed_eq_drain`: Chunks do not matter.
* `items_cut`: Where a row of items can be cut.
* `drain_prefix`: What has arrived of a row of items.
-/

namespace MqBroker

/-- What is at the front of some input. -/
inductive Front (α β ε : Type)
  /-- Not enough to tell. -/
  | more
  /-- An item, and what is behind it. -/
  | item (b : β) (rest : List α)
  /-- No item, whatever comes. -/
  | bad (e : ε)
deriving DecidableEq, Repr

variable {α β ε : Type}

/-- More input does not change what is at the front. -/
structure Incremental (next : List α → Front α β ε) : Prop where
  shorter : ∀ {l b rest}, next l = .item b rest → rest.length < l.length
  item : ∀ {l b rest} (more : List α), next l = .item b rest →
    next (l ++ more) = .item b (rest ++ more)
  bad : ∀ {l e} (more : List α), next l = .bad e → next (l ++ more) = .bad e

/-- Take items off the front. Every turn shortens the input, so as many turns
    as it is long are enough. -/
def drainLoop (next : List α → Front α β ε) : Nat → List α → List β × Except ε (List α)
  | 0, l => ([], .ok l)
  | fuel + 1, l =>
      match next l with
      | .more => ([], .ok l)
      | .bad e => ([], .error e)
      | .item b rest => (b :: (drainLoop next fuel rest).1, (drainLoop next fuel rest).2)

/-- All items at the front, and then what is left over or what is wrong. -/
def drain (next : List α → Front α β ε) (l : List α) : List β × Except ε (List α) :=
  drainLoop next (l.length + 1) l

/-- Chunk by chunk. What is left over of one chunk is put in front of the
    next. -/
def feed (next : List α → Front α β ε) : List α → List (List α) → List β × Except ε (List α)
  | buffer, [] => ([], .ok buffer)
  | buffer, chunk :: chunks =>
      match drain next (buffer ++ chunk) with
      | (items, .error e) => (items, .error e)
      | (items, .ok rest) => (items ++ (feed next rest chunks).1, (feed next rest chunks).2)

section Draining

variable {next : List α → Front α β ε}

/-- Turns beyond the length of the input do nothing. -/
theorem drainLoop_enough (h : Incremental next) {fuel fuel' : Nat} {l : List α}
    (hfuel : l.length < fuel) (hfuel' : l.length < fuel') :
    drainLoop next fuel l = drainLoop next fuel' l := by
  induction fuel generalizing fuel' l with
  | zero => exact absurd hfuel (Nat.not_lt_zero _)
  | succ fuel ih =>
      cases fuel' with
      | zero => exact absurd hfuel' (Nat.not_lt_zero _)
      | succ fuel' =>
          cases hnext : next l with
          | more => simp only [drainLoop, hnext]
          | bad e => simp only [drainLoop, hnext]
          | item b rest =>
              have hrest := h.shorter hnext
              have hsame : drainLoop next fuel rest = drainLoop next fuel' rest :=
                ih (by omega) (by omega)
              simp only [drainLoop, hnext, hsame]

theorem drain_more {l : List α} (hnext : next l = .more) : drain next l = ([], .ok l) := by
  simp only [drain, drainLoop, hnext]

theorem drain_bad {l : List α} {e : ε} (hnext : next l = .bad e) :
    drain next l = ([], .error e) := by
  simp only [drain, drainLoop, hnext]

theorem drain_item (h : Incremental next) {l rest : List α} {b : β}
    (hnext : next l = .item b rest) :
    drain next l = (b :: (drain next rest).1, (drain next rest).2) := by
  have hrest := h.shorter hnext
  have hsame : drainLoop next l.length rest = drainLoop next (rest.length + 1) rest :=
    drainLoop_enough h hrest (Nat.lt_succ_self _)
  rw [drain, drainLoop, hnext]
  simp only [hsame]
  rfl

/-- The rule for `drain`: what holds of an input with nothing to take, and is
    kept by an item in front, holds of all inputs. -/
theorem drain_induction (h : Incremental next) {P : List α → Prop}
    (more : ∀ l, next l = .more → P l) (bad : ∀ l e, next l = .bad e → P l)
    (item : ∀ l b rest, next l = .item b rest → P rest → P l) (l : List α) : P l := by
  induction hn : l.length using Nat.strongRecOn generalizing l with
  | ind n ih =>
      cases hnext : next l with
      | more => exact more l hnext
      | bad e => exact bad l e hnext
      | item b rest =>
          have hrest := h.shorter hnext
          exact item l b rest hnext (ih rest.length (by omega) rest rfl)

/-- What is left over is not enough. -/
theorem drain_leftover (h : Incremental next) {l rest : List α} {items : List β}
    (hdrain : drain next l = (items, .ok rest)) : next rest = .more := by
  induction l using drain_induction h generalizing items with
  | more l hnext =>
      rw [drain_more hnext] at hdrain
      cases hdrain
      exact hnext
  | bad l e hnext =>
      rw [drain_bad hnext] at hdrain
      cases hdrain
  | item l b behind hnext ih =>
      rw [drain_item h hnext] at hdrain
      rw [Prod.mk.injEq] at hdrain
      exact ih (Prod.ext rfl hdrain.2)

/-- With more input one can go on where something was left over. -/
theorem drain_append (h : Incremental next) (l more : List α) :
    drain next (l ++ more)
      = match drain next l with
        | (items, .error e) => (items, .error e)
        | (items, .ok rest) =>
            (items ++ (drain next (rest ++ more)).1, (drain next (rest ++ more)).2) := by
  induction l using drain_induction h with
  | more l hnext =>
      rw [drain_more hnext]
      rfl
  | bad l e hnext => rw [drain_bad hnext, drain_bad (h.bad more hnext)]
  | item l b rest hnext ih =>
      rw [drain_item h hnext, drain_item h (h.item more hnext), ih]
      cases drain next rest with
      | mk items outcome =>
          cases outcome with
          | error e => rfl
          | ok left => rfl

/-- Chunk by chunk the same comes out as at once. -/
theorem feed_eq_drain (h : Incremental next) (chunks : List (List α)) {buffer : List α}
    (hbuffer : next buffer = .more) :
    feed next buffer chunks = drain next (buffer ++ chunks.flatten) := by
  induction chunks generalizing buffer with
  | nil =>
      rw [List.flatten_nil, List.append_nil, drain_more hbuffer]
      rfl
  | cons chunk chunks ih =>
      rw [List.flatten_cons, ← List.append_assoc, drain_append h, feed]
      cases hdrain : drain next (buffer ++ chunk) with
      | mk items outcome =>
          cases outcome with
          | error e => rfl
          | ok rest =>
              simp only
              rw [ih (drain_leftover h hdrain)]

/-- A part of an item is not enough. -/
theorem Incremental.more_of_part (h : Incremental next) {part more : List α} {b : β}
    (hitem : next (part ++ more) = .item b []) (hmore : more ≠ []) : next part = .more := by
  cases hnext : next part with
  | more => rfl
  | bad e =>
      rw [h.bad more hnext] at hitem
      cases hitem
  | item b' rest =>
      rw [h.item more hnext] at hitem
      injection hitem with _ hrest
      exact absurd (List.append_eq_nil_iff.mp hrest).2 hmore

end Draining

/-- A row of items is cut between two of them, or inside of one. -/
theorem items_cut {encode : β → List α} (items : List β) (done rest : List α)
    (h : items.flatMap encode = done ++ rest) :
    (done = items.flatMap encode ∧ rest = []) ∨
    ∃ front b back part more, items = front ++ b :: back ∧ done = front.flatMap encode ++ part ∧
      encode b = part ++ more ∧ more ≠ [] ∧ rest = more ++ back.flatMap encode := by
  induction items generalizing done with
  | nil =>
      rw [List.flatMap_nil] at h
      rcases List.append_eq_nil_iff.mp h.symm with ⟨rfl, rfl⟩
      exact Or.inl ⟨rfl, rfl⟩
  | cons b items ih =>
      rw [List.flatMap_cons] at h
      rcases List.append_eq_append_iff.mp h with ⟨behind, rfl, hrest⟩ | ⟨more, hencode, hrest⟩
      · rcases ih behind hrest with ⟨hdone, hnil⟩ | ⟨front, b', back, part, more, rfl, hdone, hrest⟩
        · left
          rw [hdone, List.flatMap_cons]
          exact ⟨rfl, hnil⟩
        · right
          refine ⟨b :: front, b', back, part, more, rfl, ?_, hrest⟩
          rw [hdone, List.flatMap_cons, List.append_assoc]
      · by_cases hmore : more = []
        · rw [hmore, List.append_nil] at hencode
          rw [hmore, List.nil_append] at hrest
          cases items with
          | nil =>
              left
              rw [hrest, List.flatMap_cons, List.flatMap_nil, List.append_nil, hencode]
              exact ⟨rfl, rfl⟩
          | cons b' items =>
              rcases ih [] (by rw [hrest, List.nil_append]) with ⟨hdone, hnil⟩ |
                ⟨front, b'', back, part, more', heq, hdone, hrest'⟩
              · left
                rw [hnil] at hrest
                rw [List.flatMap_cons, ← hrest, hnil, List.append_nil, hencode]
                exact ⟨rfl, rfl⟩
              · right
                refine ⟨b :: front, b'', back, part, more', by rw [heq, List.cons_append], ?_,
                  hrest'⟩
                rw [List.flatMap_cons, List.append_assoc, ← hdone, List.append_nil, hencode]
        · right
          exact ⟨[], b, items, done, more, rfl, rfl, hencode, hmore, hrest⟩

/-- A row of items is taken apart into the items, and a part of another one is left
    over. -/
theorem drain_items {next : List α → Front α β ε} (h : Incremental next) {encode : β → List α}
    {items : List β} (hitems : ∀ b ∈ items, next (encode b) = .item b []) {part : List α}
    (hpart : next part = .more) :
    drain next (items.flatMap encode ++ part) = (items, .ok part) := by
  induction items with
  | nil => exact drain_more hpart
  | cons b items ih =>
      have hfirst := h.item (items.flatMap encode ++ part) (hitems b List.mem_cons_self)
      rw [List.nil_append] at hfirst
      rw [List.flatMap_cons, List.append_assoc, drain_item h hfirst,
        ih fun b' hmem => hitems b' (List.mem_cons_of_mem b hmem)]

/-- What has arrived of a row of items are the first ones, and perhaps a part of the
    next. -/
theorem drain_prefix {next : List α → Front α β ε} (h : Incremental next) {encode : β → List α}
    {items : List β} (hitems : ∀ b ∈ items, next (encode b) = .item b [])
    (hnil : next [] = .more) {done : List α} (hdone : done <+: items.flatMap encode) :
    ∃ front part, front <+: items ∧ done = front.flatMap encode ++ part ∧
      drain next done = (front, .ok part) := by
  obtain ⟨rest, hrest⟩ := hdone
  rcases items_cut items done rest hrest.symm with
    ⟨hall, -⟩ | ⟨front, b, back, part, more, heq, hcut, hencode, hmore, -⟩
  · refine ⟨items, [], List.prefix_refl items, by rw [hall, List.append_nil], ?_⟩
    rw [hall, ← List.append_nil (items.flatMap encode)]
    exact drain_items h hitems hnil
  · have hpart : next part = .more := by
      refine h.more_of_part (b := b) ?_ hmore
      rw [← hencode]
      exact hitems b (heq ▸ List.mem_append_right front List.mem_cons_self)
    refine ⟨front, part, heq ▸ List.prefix_append front (b :: back), hcut, ?_⟩
    rw [hcut]
    exact drain_items h (fun b' hmem => hitems b' (heq ▸ List.mem_append_left _ hmem)) hpart

end MqBroker
