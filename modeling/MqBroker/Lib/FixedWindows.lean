import Mathlib.Data.List.Chain
import MqBroker.Lib.Metering

/-!
# Fixed Windows

A meter that bounds what it takes in windows of time that follow one another.

Entries that come in the order of their times are cut into windows: one begins
with the first entry that is a width or more behind the beginning of the one
before. In each window the entries are taken as long as there is room for them.
How they are cut depends on their times alone, and what is taken of a window on
the amounts in it alone.

A window bounds itself, and an interval that is shorter than the width meets at
most two windows, which follow one another. So the bound holds of every such
interval exactly when it holds across two neighbours (`Cut.bounded_iff`):
each time the second takes an entry, what the first has taken less than a width
before that fits in with what the second has taken.

## Main definitions

* `takeRoom`: The entries for which there is room.
* `windows`: Entries cut into windows.
* `FitsBehind`: A window keeps to the bound together with the one before.

## Theorems

* `windows_cut`: The windows of entries that come in order.
* `Cut.bounded_iff`: Windows keep to a bound when neighbours do.
-/

namespace MqBroker

/-- The entries for which there is room when they are taken one by one. -/
def takeRoom : Nat → List (Int × Nat) → List (Int × Nat)
  | _, [] => []
  | room, e :: entries =>
      if e.2 ≤ room then e :: takeRoom (room - e.2) entries else takeRoom room entries

/-- Entries cut in two: those that are in the window that has begun at a time,
    and the windows behind it. -/
def cutWindows (width : Int) : Int → List (Int × Nat) →
    List (Int × Nat) × List (List (Int × Nat))
  | _, [] => ([], [])
  | start, e :: entries =>
      if e.1 - start ≥ width then
        ([], (e :: (cutWindows width e.1 entries).1) :: (cutWindows width e.1 entries).2)
      else (e :: (cutWindows width start entries).1, (cutWindows width start entries).2)

/-- Entries cut into windows. -/
def windows (width : Int) : List (Int × Nat) → List (List (Int × Nat))
  | [] => []
  | e :: entries => (e :: (cutWindows width e.1 entries).1) :: (cutWindows width e.1 entries).2

/-- Each time a window takes an entry, what the window before it has taken less
    than a width ago fits in with what it has taken itself. -/
def FitsBehind (width : Int) (bound : Nat) (before window : List (Int × Nat)) : Prop :=
  ∀ taken ∈ (takeRoom bound window).inits, ∀ e ∈ taken.getLast?,
    amountIn (e.1 - width + 1) e.1 (takeRoom bound before) + totalAmount taken ≤ bound

instance decidableFitsBehind (width : Int) (bound : Nat) (before window : List (Int × Nat)) :
    Decidable (FitsBehind width bound before window) :=
  inferInstanceAs (Decidable (∀ taken ∈ _, ∀ e ∈ _, _))

/-! ## Entries that are taken -/

theorem takeRoom_sublist (room : Nat) (entries : List (Int × Nat)) :
    (takeRoom room entries).Sublist entries := by
  induction entries generalizing room with
  | nil => exact List.Sublist.refl _
  | cons e entries ih =>
      rw [takeRoom]
      split
      · exact (ih _).cons_cons e
      · exact (ih room).cons e

/-- There is room for what is taken. -/
theorem takeRoom_total (room : Nat) (entries : List (Int × Nat)) :
    totalAmount (takeRoom room entries) ≤ room := by
  induction entries generalizing room with
  | nil => exact Nat.zero_le room
  | cons e entries ih =>
      rw [takeRoom]
      split
      · have hrest := ih (room - e.2)
        rw [totalAmount_cons]
        omega
      · exact ih room

/-! ## Windows -/

/-- Windows from a time on: each has a beginning, its entries are in order and
    less than a width behind that, and the next window begins later. -/
def Cut (width : Int) : Int → List (List (Int × Nat)) → Prop
  | _, [] => True
  | earliest, window :: others =>
      ∃ start, earliest ≤ start ∧ (∀ e ∈ window, start ≤ e.1 ∧ e.1 < start + width) ∧
        (window.Pairwise fun e e' => e.1 ≤ e'.1) ∧ Cut width (start + width) others

theorem cutWindows_cut {width : Int} {start : Int} {entries : List (Int × Nat)}
    (hordered : entries.Pairwise fun e e' => e.1 ≤ e'.1) (hstart : ∀ e ∈ entries, start ≤ e.1)
    (hwidth : 0 < width) :
    (∀ e ∈ (cutWindows width start entries).1, start ≤ e.1 ∧ e.1 < start + width) ∧
      ((cutWindows width start entries).1.Pairwise fun e e' => e.1 ≤ e'.1) ∧
      (cutWindows width start entries).1 ⊆ entries ∧
      Cut width (start + width) (cutWindows width start entries).2 := by
  induction entries generalizing start with
  | nil => exact ⟨fun e he => absurd he List.not_mem_nil, .nil, List.Subset.refl _, trivial⟩
  | cons e entries ih =>
      rcases List.pairwise_cons.mp hordered with ⟨hfirst, hrest⟩
      rw [cutWindows]
      split
      · -- A window begins with this entry.
        rename_i hover
        rcases ih hrest hfirst with ⟨hwithin, hpairwise, hsubset, hcut⟩
        refine ⟨fun e he => absurd he List.not_mem_nil, .nil, List.nil_subset _, ?_⟩
        refine ⟨e.1, by omega, ?_, ?_, hcut⟩
        · exact List.forall_mem_cons.mpr ⟨⟨le_refl _, by omega⟩, hwithin⟩
        · exact List.pairwise_cons.mpr ⟨fun e' he' => hfirst e' (hsubset he'), hpairwise⟩
      · rename_i hopen
        rcases ih hrest fun e' he' => hstart e' (List.mem_cons_of_mem e he') with
          ⟨hwithin, hpairwise, hsubset, hcut⟩
        refine ⟨?_, ?_, ?_, hcut⟩
        · exact List.forall_mem_cons.mpr ⟨⟨hstart e List.mem_cons_self, by omega⟩, hwithin⟩
        · exact List.pairwise_cons.mpr ⟨fun e' he' => hfirst e' (hsubset he'), hpairwise⟩
        · exact List.cons_subset_cons e hsubset

/-- The windows of entries that come in the order of their times. -/
theorem windows_cut (width : Int) {entries : List (Int × Nat)}
    (hordered : entries.Pairwise fun e e' => e.1 ≤ e'.1) (hwidth : 0 < width) :
    ∃ earliest, Cut width earliest (windows width entries) := by
  cases entries with
  | nil => exact ⟨0, trivial⟩
  | cons e entries =>
      rcases List.pairwise_cons.mp hordered with ⟨hfirst, hrest⟩
      rcases cutWindows_cut hrest hfirst hwidth with ⟨hwithin, hpairwise, hsubset, hcut⟩
      refine ⟨e.1, e.1, le_refl _, ?_, ?_, hcut⟩
      · exact List.forall_mem_cons.mpr ⟨⟨le_refl _, by omega⟩, hwithin⟩
      · exact List.pairwise_cons.mpr ⟨fun e' he' => hfirst e' (hsubset he'), hpairwise⟩

/-- All windows are behind the earliest time. -/
theorem Cut.le {width earliest : Int} {others : List (List (Int × Nat))}
    (h : Cut width earliest others) (hwidth : 0 < width) :
    ∀ window ∈ others, ∀ e ∈ window, earliest ≤ e.1 := by
  induction others generalizing earliest with
  | nil => exact fun window hwindow => absurd hwindow List.not_mem_nil
  | cons window others ih =>
      rcases h with ⟨start, hle, hwithin, _, hcut⟩
      refine List.forall_mem_cons.mpr ⟨fun e he => hle.trans (hwithin e he).1, ?_⟩
      intro window' hwindow' e he
      have hbehind := ih hcut window' hwindow' e he
      omega

/-- What is taken of windows from a time on is outside an interval before it. -/
theorem Cut.amountIn_eq_zero {width earliest : Int} {others : List (List (Int × Nat))}
    (h : Cut width earliest others) (hwidth : 0 < width) (bound : Nat) {first last : Int}
    (hlast : last < earliest) : amountIn first last (others.flatMap (takeRoom bound)) = 0 := by
  refine MqBroker.amountIn_eq_zero fun e he hin => ?_
  rcases List.mem_flatMap.mp he with ⟨window, hwindow, he⟩
  have hle := h.le hwidth window hwindow e ((takeRoom_sublist bound window).subset he)
  omega

/-- Two neighbours keep to the bound when the second fits in behind the first. -/
theorem FitsBehind.amountIn_le {width start : Int} {bound : Nat}
    {before window : List (Int × Nat)} (h : FitsBehind width bound before window)
    (hbefore : ∀ e ∈ before, e.1 < start) (hwindow : ∀ e ∈ window, start ≤ e.1)
    (hordered : window.Pairwise fun e e' => e.1 ≤ e'.1) {first last : Int}
    (hshort : last - first < width) :
    amountIn first last (takeRoom bound before) + amountIn first last (takeRoom bound window)
      ≤ bound := by
  rcases amountIn_initial last (hordered.sublist (takeRoom_sublist bound window)) with
    ⟨taken, hpre, htaken, hamount⟩
  have hle := (hamount first).trans (amountIn_le_total first last taken)
  rcases List.eq_nil_or_concat taken with rfl | ⟨front, e, rfl⟩
  · -- Nothing of the second is in the interval, and the first keeps to the bound.
    have htotal := takeRoom_total bound before
    have hfirst := amountIn_le_total first last (takeRoom bound before)
    have hzero : totalAmount [] = 0 := rfl
    omega
  · rw [List.concat_eq_append] at hpre htaken hle
    have hmem : e ∈ front ++ [e] := List.mem_concat_self
    have hfits := h _ ((List.mem_inits _ _).mpr hpre) e
      (by rw [List.getLast?_concat]; exact rfl)
    have hlast := htaken e hmem
    have hlater := hwindow e ((takeRoom_sublist bound window).subset (hpre.subset hmem))
    -- The interval that ends with the last entry holds no less of the first window.
    have hmono : amountIn first last (takeRoom bound before)
        ≤ amountIn (e.1 - width + 1) e.1 (takeRoom bound before) := by
      refine amountIn_mono fun e' he' hin _ => ⟨by omega, ?_⟩
      have hearlier := hbefore e' ((takeRoom_sublist bound before).subset he')
      omega
    omega

/-- A bound on the neighbours is what makes the second fit in. -/
theorem fitsBehind_of_bounded {width start : Int} {bound : Nat}
    {before window : List (Int × Nat)}
    (h : BoundedWithin width bound (takeRoom bound before ++ takeRoom bound window))
    (hwindow : ∀ e ∈ window, start ≤ e.1 ∧ e.1 < start + width)
    (hordered : window.Pairwise fun e e' => e.1 ≤ e'.1) : FitsBehind width bound before window := by
  intro taken htaken e he
  have hpre := (List.mem_inits _ _).mp htaken
  rcases hpre with ⟨back, hback⟩
  have hinterval := h (e.1 - width + 1) e.1 (by omega)
  rw [amountIn_append, ← hback, amountIn_append] at hinterval
  -- All that was taken so far is in the interval.
  have hall : amountIn (e.1 - width + 1) e.1 taken = totalAmount taken := by
    refine amountIn_eq_total fun e' he' => ?_
    rcases List.getLast?_eq_some_iff.mp he with ⟨front, rfl⟩
    have hsub := takeRoom_sublist bound window
    rw [← hback] at hsub
    have hmem : ∀ x ∈ front ++ [e], x ∈ window :=
      fun x hx => hsub.subset (List.mem_append_left _ hx)
    have hlast := hwindow e (hmem e List.mem_concat_self)
    have hfirst := hwindow e' (hmem e' he')
    have hpairwise := (hordered.sublist hsub).sublist (List.sublist_append_left _ _)
    rcases List.mem_append.mp he' with hfront | hlast'
    · exact ⟨by omega, (List.pairwise_append.mp hpairwise).2.2 e' hfront e List.mem_cons_self⟩
    · rw [List.mem_singleton.mp hlast']
      exact ⟨by omega, le_refl _⟩
  omega

/-- What is taken keeps to the bound in every interval that is shorter than the
    width exactly when every window fits in behind the one before it. -/
theorem Cut.bounded_iff {width : Int} {bound : Nat} (hwidth : 0 < width) {earliest : Int}
    {ws : List (List (Int × Nat))} (h : Cut width earliest ws) :
    BoundedWithin width bound (ws.flatMap (takeRoom bound)) ↔
      ws.IsChain (FitsBehind width bound) := by
  induction ws generalizing earliest with
  | nil => exact iff_of_true (boundedWithin_nil _ _) List.isChain_nil
  | cons before ws ih =>
      rcases h with ⟨start, _, hbefore, _, hcut⟩
      cases ws with
      | nil =>
          refine iff_of_true (fun first last _ => ?_) (List.isChain_singleton _)
          rw [List.flatMap_singleton]
          exact (amountIn_le_total first last _).trans (takeRoom_total bound before)
      | cons window others =>
          rw [List.isChain_cons_cons, ← ih hcut, List.flatMap_cons]
          rcases hcut with ⟨start', hle, hwindow, hordered, hcut⟩
          rw [List.flatMap_cons]
          constructor
          · intro hbounded
            refine ⟨fitsBehind_of_bounded ?_ hwindow hordered, hbounded.of_append.2⟩
            rw [← List.append_assoc] at hbounded
            exact hbounded.of_append.1
          · rintro ⟨hfits, hrest⟩ first last hshort
            by_cases hempty : amountIn first last (takeRoom bound before) = 0
            · rw [amountIn_append, hempty, Nat.zero_add]
              exact hrest first last hshort
            · -- The interval begins before the first of the two ends, so it ends before the others.
              have hmeets : ∃ e ∈ takeRoom bound before, first ≤ e.1 ∧ e.1 ≤ last := by
                by_contra hnone
                exact hempty (MqBroker.amountIn_eq_zero fun e he hin => hnone ⟨e, he, hin⟩)
              rcases hmeets with ⟨e, he, hin⟩
              have hspan := hbefore e ((takeRoom_sublist bound before).subset he)
              rw [amountIn_append, amountIn_append,
                hcut.amountIn_eq_zero hwidth bound (by omega), Nat.add_zero]
              exact hfits.amountIn_le (fun e' he' => by have := hbefore e' he'; omega)
                (fun e' he' => (hwindow e' he').1) hordered hshort

end MqBroker
