import Mathlib.Data.List.AList
import Mathlib.Data.Finset.Card
import Mathlib.Order.MinMax

/-!
# Finite Tables

Hash tables as association lists without duplicate keys. The iteration order
of a hash table is not specified, and nothing computed from one here depends
on it: the folds are maxima and counts.

`Table.get` is the lookup that creates a default entry in the source and is
read without creating it here; the entry that is created is always the one an
`insert` writes back.

The maximum of a field over a table starts from a given value, as the loops
that compute it do, and is pinned down by its two bounds.

## Main definitions

* `Table`: A finite map.
* `Table.get`: Lookup with a default.
* `Table.values`, `Table.mapValues`, `Table.mapEntries`, `Table.filterValues`:
  The values, and mapping and filtering them.
* `Table.filterKeys`: The entries of some keys.
* `Table.maxOf`: The maximum of a field over the values.

## Theorems

* `Table.le_maxOf`: The maximum is above every value.
* `Table.maxOf_le`: A bound on all values bounds the maximum.
* `Table.card_keys`: The number of keys is the number of entries.
* `Table.size_le`: More keys, more entries.
* `Table.mapValues_insert`, `Table.mapValues_filterValues`: Mapping commutes with
  writing and filtering.
* `Table.countP_values_le`: Counting the values of two tables key by key.
-/

namespace MqBroker

/-- Machine integers are linearly ordered by their value. -/
instance instLinearOrderUInt64 : LinearOrder UInt64 where
  le_refl := UInt64.le_refl
  le_trans := @UInt64.le_trans
  le_antisymm := @UInt64.le_antisymm
  lt_iff_le_not_ge := by
    intro a b
    rw [UInt64.lt_iff_toNat_lt, UInt64.le_iff_toNat_le, UInt64.le_iff_toNat_le]
    omega
  le_total := UInt64.le_total
  toDecidableLE := inferInstance
  toDecidableLT := inferInstance
  toDecidableEq := inferInstance

/-- A finite map with the values all of one type. -/
abbrev Table (α β : Type) := AList (fun _ : α => β)

namespace Table

variable {α β γ : Type} [DecidableEq α]

/-- The value at a key, or the default. -/
def get [Inhabited β] (t : Table α β) (k : α) : β := (t.lookup k).getD default

/-- The values of a table, in its iteration order. -/
def values (t : Table α β) : List β := t.entries.map Sigma.snd

/-- The number of entries. -/
def size (t : Table α β) : Nat := t.entries.length

omit [DecidableEq α] in
/-- A function of the entries leaves the keys the same list, so they still have
    no duplicates. -/
theorem nodupKeys_map (f : α → β → γ) (t : Table α β) :
    (t.entries.map (fun e => (⟨e.1, f e.1 e.2⟩ : Sigma fun _ : α => γ))).NodupKeys := by
  have h : (t.entries.map (fun e => (⟨e.1, f e.1 e.2⟩ : Sigma fun _ : α => γ))).keys
      = t.entries.keys := by
    simp only [List.keys, List.map_map, Function.comp_def]
  rw [List.NodupKeys, h]
  exact t.nodupKeys

/-- The table with a function applied to every value. -/
def mapValues (f : β → γ) (t : Table α β) : Table α γ :=
  ⟨t.entries.map (fun e => ⟨e.1, f e.2⟩), nodupKeys_map (fun _ => f) t⟩

/-- The table with a function applied to every entry. -/
def mapEntries (f : α → β → γ) (t : Table α β) : Table α γ :=
  ⟨t.entries.map (fun e => ⟨e.1, f e.1 e.2⟩), nodupKeys_map f t⟩

/-- The entries whose value passes a test. -/
def filterValues (keep : β → Bool) (t : Table α β) : Table α β :=
  ⟨t.entries.filter (fun e => keep e.2), t.nodupKeys.sublist List.filter_sublist⟩

/-- The entries whose key passes a test. -/
def filterKeys (keep : α → Bool) (t : Table α β) : Table α β :=
  ⟨t.entries.filter (fun e => keep e.1), t.nodupKeys.sublist List.filter_sublist⟩

/-- The maximum of a field over the values, starting from `start`. -/
def maxOf [LinearOrder γ] (f : β → γ) (start : γ) (t : Table α β) : γ :=
  t.values.foldl (fun result v => max result (f v)) start

/-! ## Lookups -/

theorem mem_values_of_lookup (t : Table α β) (k : α) (v : β) (h : t.lookup k = some v) :
    v ∈ t.values :=
  List.mem_map.mpr ⟨⟨k, v⟩, AList.mem_lookup_iff.mp (Option.mem_def.mpr h), rfl⟩

theorem lookup_of_mem_values (t : Table α β) (v : β) (h : v ∈ t.values) :
    ∃ k, t.lookup k = some v := by
  rcases List.mem_map.mp h with ⟨⟨k, w⟩, hmem, rfl⟩
  exact ⟨k, AList.mem_lookup_iff.mpr hmem⟩

theorem lookup_insert_eq_none {t : Table α β} {k k' : α} {v : β} :
    (t.insert k v).lookup k' = none ↔ k' ≠ k ∧ t.lookup k' = none := by
  by_cases h : k' = k
  · subst h
    simp only [AList.lookup_insert, reduceCtorEq, ne_eq, not_true_eq_false, false_and]
  · simp only [AList.lookup_insert_ne h, ne_eq, h, not_false_eq_true, true_and]

theorem lookup_erase_eq_some {t : Table α β} {k k' : α} {v : β} :
    (t.erase k).lookup k' = some v ↔ k' ≠ k ∧ t.lookup k' = some v := by
  by_cases h : k' = k
  · subst h
    simp only [AList.lookup_erase, reduceCtorEq, ne_eq, not_true_eq_false, false_and]
  · simp only [AList.lookup_erase_ne h, ne_eq, h, not_false_eq_true, true_and]

@[simp] theorem get_insert_self [Inhabited β] (t : Table α β) (k : α) (v : β) :
    get (t.insert k v) k = v := by
  rw [get, AList.lookup_insert, Option.getD_some]

@[simp] theorem get_insert_ne [Inhabited β] (t : Table α β) (k k' : α) (v : β) (h : k' ≠ k) :
    get (t.insert k v) k' = get t k' := by
  rw [get, AList.lookup_insert_ne h, get]

/-- Filtering a table filters every lookup. -/
theorem lookup_filterValues (keep : β → Bool) (t : Table α β) (k : α) :
    (filterValues keep t).lookup k = (t.lookup k).filter keep := by
  ext v
  rw [Option.filter_eq_some_iff, ← Option.mem_def, AList.mem_lookup_iff, ← Option.mem_def,
    AList.mem_lookup_iff]
  exact List.mem_filter

theorem lookup_filterKeys (keep : α → Bool) (t : Table α β) (k : α) :
    (filterKeys keep t).lookup k = if keep k then t.lookup k else none := by
  ext v
  rw [← Option.mem_def, AList.mem_lookup_iff]
  simp only [filterKeys, List.mem_filter]
  split
  · rename_i hkeep
    rw [← Option.mem_def, AList.mem_lookup_iff]
    exact ⟨fun h => h.1, fun h => ⟨h, hkeep⟩⟩
  · rename_i hkeep
    exact ⟨fun h => absurd h.2 hkeep, fun h => nomatch h⟩

/-- Mapping the entries of a table maps every lookup. -/
theorem lookup_mapEntries (f : α → β → γ) (t : Table α β) (k : α) :
    (mapEntries f t).lookup k = (t.lookup k).map (f k) := by
  ext v
  rw [← Option.mem_def, AList.mem_lookup_iff, Option.map_eq_some_iff]
  simp only [mapEntries, List.mem_map, Sigma.mk.injEq, heq_eq_eq]
  constructor
  · rintro ⟨⟨k', w⟩, hmem, rfl, rfl⟩
    exact ⟨w, AList.mem_lookup_iff.mpr hmem, rfl⟩
  · rintro ⟨w, hw, rfl⟩
    exact ⟨⟨k, w⟩, AList.mem_lookup_iff.mp hw, rfl, rfl⟩

theorem lookup_mapValues (f : β → γ) (t : Table α β) (k : α) :
    (mapValues f t).lookup k = (t.lookup k).map f :=
  lookup_mapEntries (fun _ => f) t k

theorem card_keys (t : Table α β) : t.keys.toFinset.card = t.size := by
  rw [List.toFinset_card_of_nodup t.keys_nodup, AList.keys, List.keys, List.length_map, size]

/-- A table whose keys another one has is no larger. -/
theorem size_le (t : Table α β) (t' : Table α γ) (h : ∀ k, k ∈ t → k ∈ t') :
    t.size ≤ t'.size := by
  rw [← card_keys, ← card_keys]
  refine Finset.card_le_card fun k hk => ?_
  rw [List.mem_toFinset, ← AList.mem_keys] at hk ⊢
  exact h k hk

theorem size_insert_le (t : Table α β) (k : α) (v : β) : size (t.insert k v) ≤ t.size + 1 := by
  rw [← card_keys, ← card_keys]
  refine (Finset.card_le_card fun k' hk => ?_).trans (Finset.card_insert_le k t.keys.toFinset)
  rw [List.mem_toFinset, ← AList.mem_keys, AList.mem_insert] at hk
  rw [Finset.mem_insert, List.mem_toFinset, ← AList.mem_keys]
  exact hk

/-- A new entry makes a table larger by one. -/
theorem size_insert_of_new {t : Table α β} {k : α} (h : t.lookup k = none) (v : β) :
    size (t.insert k v) = t.size + 1 := by
  rw [size, AList.entries_insert_of_notMem (AList.lookup_eq_none.mp h), List.length_cons]
  rfl

theorem size_erase_le (t : Table α β) (k : α) : size (t.erase k) ≤ t.size :=
  size_le _ _ fun _ hk => ((AList.mem_erase).mp hk).2

/-! ## Mapping, filtering and counting -/

/-- Mapping the values commutes with writing one. -/
theorem mapValues_insert (f : β → γ) (t : Table α β) (k : α) (v : β) :
    mapValues f (t.insert k v) = (mapValues f t).insert k (f v) := by
  have herase : ∀ entries : List (Sigma fun _ : α => β),
      (entries.kerase k).map (fun e => (⟨e.1, f e.2⟩ : Sigma fun _ : α => γ))
        = (entries.map (fun e => (⟨e.1, f e.2⟩ : Sigma fun _ : α => γ))).kerase k := by
    intro entries
    induction entries with
    | nil => rfl
    | cons entry rest ih =>
        by_cases h : k = entry.1
        · rw [List.kerase_cons_eq h, List.map_cons]
          exact (List.kerase_cons_eq (β := fun _ => γ) h).symm
        · rw [List.kerase_cons_ne h, List.map_cons, List.map_cons, ih]
          exact (List.kerase_cons_ne (β := fun _ => γ) h).symm
  refine AList.ext ?_
  rw [AList.entries_insert]
  change (t.insert k v).entries.map (fun e => (⟨e.1, f e.2⟩ : Sigma fun _ : α => γ)) = _
  rw [AList.entries_insert, List.map_cons, herase]
  rfl

omit [DecidableEq α] in
theorem mapValues_filterValues (f : β → γ) (keep : γ → Bool) (t : Table α β) :
    mapValues f (filterValues (fun v => keep (f v)) t) = filterValues keep (mapValues f t) := by
  refine AList.ext ?_
  simp only [mapValues, filterValues, List.filter_map, Function.comp_def]

omit [DecidableEq α] in
theorem mapValues_id (t : Table α β) : mapValues (fun v => v) t = t :=
  AList.ext (List.map_id' t.entries)

omit [DecidableEq α] in
theorem filterValues_of_all {keep : β → Bool} {t : Table α β}
    (h : ∀ v ∈ t.values, keep v = true) : filterValues keep t = t := by
  refine AList.ext (List.filter_eq_self.mpr fun e he => h e.2 ?_)
  exact List.mem_map.mpr ⟨e, he, rfl⟩

omit [DecidableEq α] in
theorem filterValues_congr {keep keep' : β → Bool} {t : Table α β}
    (h : ∀ v ∈ t.values, keep v = keep' v) : filterValues keep t = filterValues keep' t :=
  AList.ext (List.filter_congr fun e he => h e.2 (List.mem_map.mpr ⟨e, he, rfl⟩))

omit [DecidableEq α] in
theorem countP_values (p : β → Bool) (t : Table α β) :
    t.values.countP p = (filterValues p t).size := by
  rw [values, List.countP_map, List.countP_eq_length_filter, size, filterValues]
  rfl

/-- If all values that pass a test have a value at the same key that passes
    another test, then at least as many pass the other test. -/
theorem countP_values_le {t : Table α β} {t' : Table α γ} {p : β → Bool} {q : γ → Bool}
    (h : ∀ k v, t.lookup k = some v → p v = true → ∃ v', t'.lookup k = some v' ∧ q v' = true) :
    t.values.countP p ≤ t'.values.countP q := by
  rw [countP_values, countP_values]
  refine size_le _ _ fun k hk => ?_
  rcases Option.isSome_iff_exists.mp (AList.lookup_isSome.mpr hk) with ⟨v, hv⟩
  rw [lookup_filterValues, Option.filter_eq_some_iff] at hv
  rcases h k v hv.1 hv.2 with ⟨v', hv', hq⟩
  refine AList.lookup_isSome.mp ?_
  rw [lookup_filterValues, hv', Option.filter_some, if_pos hq]
  rfl

/-! ## Maxima -/

section Maxima

variable [LinearOrder γ] (f : β → γ)

theorem foldl_max_le_iff (l : List β) (start bound : γ) :
    l.foldl (fun result v => max result (f v)) start ≤ bound
      ↔ start ≤ bound ∧ ∀ v ∈ l, f v ≤ bound := by
  induction l generalizing start with
  | nil => simp only [List.foldl_nil, List.not_mem_nil, false_implies, implies_true, and_true]
  | cons v l ih =>
      rw [List.foldl_cons, ih, max_le_iff, List.forall_mem_cons, and_assoc]

omit [DecidableEq α] in
theorem maxOf_le_iff (t : Table α β) (start bound : γ) :
    maxOf f start t ≤ bound ↔ start ≤ bound ∧ ∀ v ∈ t.values, f v ≤ bound :=
  foldl_max_le_iff f t.values start bound

theorem le_maxOf (t : Table α β) (start : γ) (k : α) (v : β) (h : t.lookup k = some v) :
    f v ≤ maxOf f start t :=
  ((maxOf_le_iff f t start _).mp le_rfl).2 v (mem_values_of_lookup t k v h)

theorem maxOf_le (t : Table α β) (start bound : γ) (hs : start ≤ bound)
    (h : ∀ k v, t.lookup k = some v → f v ≤ bound) : maxOf f start t ≤ bound := by
  refine (maxOf_le_iff f t start bound).mpr ⟨hs, ?_⟩
  intro v hv
  -- Every value is found under its key.
  rcases lookup_of_mem_values t v hv with ⟨k, hk⟩
  exact h k v hk

end Maxima

end Table

end MqBroker
