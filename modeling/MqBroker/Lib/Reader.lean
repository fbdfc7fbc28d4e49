import MqBroker.Lib.Bytes

/-!
# Reading from a Stream

Readers that take bytes from the front of a stream, and fail when there are too
few of them.

Most formats are written field by field and read in the same order, so that a
reader is made of smaller ones and its round trip follows from theirs. `Yields`
is what a round trip has to say for this: a reader finds a value in front of
anything else and leaves the rest alone. It also says that a part of the bytes
is not enough, as that follows in the same way.

## Main definitions

* `Reader`: A reader.
* `Reader.bytes`, `Reader.u16`, `Reader.u32`, `Reader.u64`: Some bytes, and the
  numbers made of them.
* `Reader.check`: A condition on what was read.
* `Reader.many`: A number of items.
* `Reader.Yields`: A reader finds a value in its encoding, and nothing in less.

## Theorems

* `Reader.Yields.bind`: One reader after the other.
* `Reader.Yields.many`: A list of items.
-/

namespace MqBroker

/-- A reader returns a value and the bytes that are left, or fails. -/
abbrev Reader (α : Type) := StateT Bytes Option α

namespace Reader

variable {α β : Type}

/-- The next bytes. -/
def bytes (n : Nat) : Reader Bytes := fun data =>
  if n ≤ data.length then some (data.take n, data.drop n) else none

/-- The next 16-bit number. -/
def u16 : Reader UInt16 := (fun field => get16 field 0) <$> bytes 2

/-- The next 32-bit number. -/
def u32 : Reader UInt32 := (fun field => get32 field 0) <$> bytes 4

/-- The next 64-bit number. -/
def u64 : Reader UInt64 := (fun field => get64 field 0) <$> bytes 8

/-- The reader goes on only under a condition. -/
def check (p : Prop) [Decidable p] : Reader Unit := fun data =>
  if p then some ((), data) else none

/-- A number of items, one after the other. -/
def many (item : Reader α) : Nat → Reader (List α)
  | 0 => pure []
  | count + 1 => do
      let first ← item
      let rest ← many item count
      return first :: rest

/-- The value a reader finds in a whole file. What stands behind it is not
    looked at. -/
def value (r : Reader α) (file : Bytes) : Option α := (r.run file).map Prod.fst

/-- A reader finds a value in its encoding, whatever stands behind it, and
    fails when the encoding is cut short. -/
structure Yields (r : Reader α) (front : Bytes) (a : α) : Prop where
  whole : ∀ rest, r.run (front ++ rest) = some (a, rest)
  cut : ∀ part, part <+: front → part ≠ front → r.run part = none

theorem Yields.value {r : Reader α} {front : Bytes} {a : α} (h : r.Yields front a) :
    r.value front = some a := by
  have hwhole := h.whole []
  rw [List.append_nil] at hwhole
  rw [Reader.value, hwhole]
  rfl

theorem Yields.value_cut {r : Reader α} {front part : Bytes} {a : α} (h : r.Yields front a)
    (hpart : part <+: front) (hne : part ≠ front) : r.value part = none := by
  rw [Reader.value, h.cut part hpart hne]
  rfl

/-! ## One reader after the other -/

theorem Yields.bind {r : Reader α} {f : α → Reader β} {front back : Bytes} {a : α} {b : β}
    (h : r.Yields front a) (hf : (f a).Yields back b) : (r >>= f).Yields (front ++ back) b := by
  have hafter : ∀ rest, (r >>= f).run (front ++ rest) = (f a).run rest := by
    intro rest
    rw [StateT.run_bind, h.whole rest]
    rfl
  refine ⟨fun rest => ?_, fun part hpart hne => ?_⟩
  · rw [List.append_assoc, hafter, hf.whole]
  · -- The cut is in the first encoding or in the second.
    by_cases hsplit : front <+: part
    · rcases hsplit with ⟨part', rfl⟩
      rw [hafter]
      refine hf.cut part' ((List.prefix_append_right_inj front).mp hpart) fun hback => hne ?_
      rw [hback]
    · have hfirst : part <+: front :=
        (List.prefix_or_prefix_of_prefix hpart (List.prefix_append front back)).resolve_right hsplit
      rw [StateT.run_bind, h.cut part hfirst fun hall => hsplit (hall ▸ List.prefix_rfl)]
      rfl

theorem yields_pure (a : α) : (pure a : Reader α).Yields [] a :=
  ⟨fun _ => rfl, fun _ hpart hne => absurd (List.prefix_nil.mp hpart) hne⟩

/-- A condition that holds is passed over. -/
theorem Yields.check_bind {p : Prop} [Decidable p] {f : Unit → Reader β} {back : Bytes} {b : β}
    (h : p) (hf : (f ()).Yields back b) : (check p >>= f).Yields back b := by
  have hcheck : (check p).Yields [] () :=
    ⟨fun _ => if_pos h, fun _ hpart hne => absurd (List.prefix_nil.mp hpart) hne⟩
  exact hcheck.bind hf

/-- The last reader only puts together what was read. -/
theorem Yields.map_bind {r : Reader α} {front : Bytes} {a : α} (h : r.Yields front a)
    (f : α → β) : (r >>= fun a => pure (f a)).Yields front (f a) := by
  have hbind := h.bind (f := fun a => pure (f a)) (yields_pure (f a))
  rwa [List.append_nil] at hbind

theorem Yields.map {r : Reader α} {front : Bytes} {a : α} (h : r.Yields front a) (f : α → β) :
    (f <$> r).Yields front (f a) := by
  rw [map_eq_pure_bind]
  exact h.map_bind f

/-! ## Fields -/

theorem yields_bytes (l : Bytes) : (bytes l.length).Yields l l := by
  refine ⟨fun rest => ?_, fun part hpart hne => ?_⟩
  · rw [StateT.run, bytes, if_pos (by rw [List.length_append]; omega), List.take_left,
      List.drop_left]
  · refine if_neg fun hlength => hne ?_
    exact hpart.eq_of_length_le hlength

theorem yields_u16 (v : UInt16) : u16.Yields (put16 v) v := by
  have h := (yields_bytes (put16 v)).map (fun field => get16 field 0)
  rwa [length_put16, ← List.append_nil (put16 v), get16_put16, List.append_nil] at h

theorem yields_u32 (v : UInt32) : u32.Yields (put32 v) v := by
  have h := (yields_bytes (put32 v)).map (fun field => get32 field 0)
  rwa [length_put32, ← List.append_nil (put32 v), get32_put32, List.append_nil] at h

theorem yields_u64 (v : UInt64) : u64.Yields (put64 v) v := by
  have h := (yields_bytes (put64 v)).map (fun field => get64 field 0)
  rwa [length_put64, ← List.append_nil (put64 v), get64_put64, List.append_nil] at h

/-- A string with its length in front of it. -/
theorem yields_string (l : Bytes) (h : l.length ≤ 65535) :
    (u16 >>= fun size => bytes size.toNat).Yields (put16 (UInt16.ofNat l.length) ++ l) l := by
  refine (yields_u16 _).bind ?_
  rw [UInt16.toNat_ofNat_of_lt' (Nat.lt_succ_of_le h)]
  exact yields_bytes l

/-- A list of items. -/
theorem Yields.many {item : Reader α} {encode : α → Bytes} (l : List α)
    (h : ∀ a ∈ l, item.Yields (encode a) a) :
    (Reader.many item l.length).Yields (l.flatMap encode) l := by
  induction l with
  | nil => exact yields_pure []
  | cons a l ih =>
      have hrest := ih fun b hb => h b (List.mem_cons_of_mem a hb)
      rw [List.flatMap_cons]
      exact (h a List.mem_cons_self).bind (hrest.map_bind (fun rest => a :: rest))

end Reader

end MqBroker
