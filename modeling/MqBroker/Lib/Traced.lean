import MqBroker.Lib.Bytes

/-!
# Recorded Reads

Parsers that record where they read.

A parser of untrusted bytes checks a length, reads, checks again what the read
has told, and so on. Reading behind the end has no meaning in a list model,
where it gives some value, and is a fault in the program that is modelled. So
the reads are recorded: a `Traced` computation is its result together with the
reads it has made, and `InBounds` says that they were all inside their buffer.

The rules go from the back to the front, one for each kind of step, and are
equivalences. Rewriting with them turns the bounds of a parser into a
condition on lengths alone, with nothing lost on the way.

## Main definitions

* `Read`: A read of some bytes of a buffer.
* `Traced`: A result that may be an error, and the reads made for it.
* `Traced.check`, `Traced.read16`, `Traced.read32`, `Traced.read64`,
  `Traced.copy`: The steps of a parser.
* `Traced.InBounds`: All reads are inside their buffer.

## Theorems

* `Traced.inBounds_bind`: One step after the other.
* `Traced.result_bind`: The result without the reads.
-/

namespace MqBroker

/-- A read of `size` bytes of `data` from `position` on. -/
structure Read where
  data : Bytes
  position : Nat
  size : Nat
deriving DecidableEq, Repr

/-- A read is inside its buffer. -/
def Read.InBounds (r : Read) : Prop := r.position + r.size ≤ r.data.length

instance (r : Read) : Decidable r.InBounds :=
  inferInstanceAs (Decidable (r.position + r.size ≤ r.data.length))

/-- A computation that may fail, with the reads it has made. -/
structure Traced (ε α : Type) where
  reads : List Read
  result : Except ε α

namespace Traced

variable {ε α β : Type}

instance : Monad (Traced ε) where
  pure a := ⟨[], .ok a⟩
  bind t f :=
    match t.result with
    | .error e => ⟨t.reads, .error e⟩
    | .ok a => ⟨t.reads ++ (f a).reads, (f a).result⟩

/-- The computation fails. -/
def fail (e : ε) : Traced ε α := ⟨[], .error e⟩

/-- The computation goes on only under a condition. -/
def check (p : Prop) [Decidable p] (e : ε) : Traced ε Unit :=
  ⟨[], if p then .ok () else .error e⟩

/-- A 16-bit number is read. -/
def read16 (data : Bytes) (position : Nat) : Traced ε UInt16 :=
  ⟨[⟨data, position, 2⟩], .ok (get16 data position)⟩

/-- A 32-bit number is read. -/
def read32 (data : Bytes) (position : Nat) : Traced ε UInt32 :=
  ⟨[⟨data, position, 4⟩], .ok (get32 data position)⟩

/-- A 64-bit number is read. -/
def read64 (data : Bytes) (position : Nat) : Traced ε UInt64 :=
  ⟨[⟨data, position, 8⟩], .ok (get64 data position)⟩

/-- A part of the buffer is copied. -/
def copy (data : Bytes) (position size : Nat) : Traced ε Bytes :=
  ⟨[⟨data, position, size⟩], .ok (substr data position size)⟩

/-- All reads are inside their buffer. -/
def InBounds (t : Traced ε α) : Prop := ∀ r ∈ t.reads, r.InBounds

/-! ## Results -/

@[simp] theorem result_pure (a : α) : (pure a : Traced ε α).result = .ok a := rfl

@[simp] theorem result_fail (e : ε) : (fail e : Traced ε α).result = .error e := rfl

@[simp] theorem result_bind (t : Traced ε α) (f : α → Traced ε β) :
    (t >>= f).result = (t.result >>= fun a => (f a).result) := by
  rcases t with ⟨reads, _ | _⟩ <;> rfl

theorem result_bind_of_ok {t : Traced ε α} {a : α} (h : t.result = .ok a) (f : α → Traced ε β) :
    (t >>= f).result = (f a).result := by
  rw [result_bind, h]
  rfl

theorem result_bind_of_error {t : Traced ε α} {e : ε} (h : t.result = .error e)
    (f : α → Traced ε β) : (t >>= f).result = .error e := by
  rw [result_bind, h]
  rfl

/-- A sequence with a result has one for its first part. -/
theorem result_bind_eq_ok {t : Traced ε α} {f : α → Traced ε β} {b : β}
    (h : (t >>= f).result = .ok b) : ∃ a, t.result = .ok a ∧ (f a).result = .ok b := by
  cases ht : t.result with
  | error e =>
      rw [result_bind_of_error ht] at h
      cases h
  | ok a =>
      rw [result_bind_of_ok ht] at h
      exact ⟨a, rfl, h⟩

theorem result_check_bind (p : Prop) [Decidable p] (e : ε) (f : Unit → Traced ε β) :
    (check p e >>= f).result = if p then (f ()).result else .error e := by
  rw [result_bind, check]
  split <;> rfl

theorem result_read16_bind (data : Bytes) (position : Nat) (f : UInt16 → Traced ε β) :
    (read16 data position >>= f).result = (f (get16 data position)).result := rfl

theorem result_read32_bind (data : Bytes) (position : Nat) (f : UInt32 → Traced ε β) :
    (read32 data position >>= f).result = (f (get32 data position)).result := rfl

theorem result_read64_bind (data : Bytes) (position : Nat) (f : UInt64 → Traced ε β) :
    (read64 data position >>= f).result = (f (get64 data position)).result := rfl

theorem result_copy_bind (data : Bytes) (position size : Nat) (f : Bytes → Traced ε β) :
    (copy data position size >>= f).result = (f (substr data position size)).result := rfl

/-! ## Bounds -/

theorem inBounds_pure (a : α) : (pure a : Traced ε α).InBounds ↔ True :=
  iff_true_intro fun _ hr => absurd hr List.not_mem_nil

theorem inBounds_fail (e : ε) : (fail e : Traced ε α).InBounds ↔ True :=
  iff_true_intro fun _ hr => absurd hr List.not_mem_nil

/-- One step after the other: the second one counts only if the first does not
    fail. -/
theorem inBounds_bind (t : Traced ε α) (f : α → Traced ε β) :
    (t >>= f).InBounds ↔ t.InBounds ∧ ∀ a, t.result = .ok a → (f a).InBounds := by
  rcases t with ⟨reads, e | a⟩
  · constructor
    · intro h
      exact ⟨h, fun a ha => nomatch ha⟩
    · intro h
      exact h.1
  · constructor
    · intro h
      refine ⟨fun r hr => h r (List.mem_append_left _ hr), fun b hb r hr => ?_⟩
      cases hb
      exact h r (List.mem_append_right _ hr)
    · intro h r hr
      rcases List.mem_append.mp hr with hfirst | hsecond
      · exact h.1 r hfirst
      · exact h.2 a rfl r hsecond

theorem inBounds_check (p : Prop) [Decidable p] (e : ε) : (check p e).InBounds :=
  fun _ hr => absurd hr List.not_mem_nil

theorem inBounds_check_bind (p : Prop) [Decidable p] (e : ε) (f : Unit → Traced ε β) :
    (check p e >>= f).InBounds ↔ (p → (f ()).InBounds) := by
  rw [inBounds_bind]
  constructor
  · intro h hp
    exact h.2 () (if_pos hp)
  · intro h
    refine ⟨inBounds_check p e, fun a ha => ?_⟩
    by_cases hp : p
    · exact h hp
    · rw [check, if_neg hp] at ha
      cases ha

/-- A step that makes one read and does not fail. -/
theorem inBounds_single_bind (r : Read) (a : α) (f : α → Traced ε β) :
    ((⟨[r], .ok a⟩ : Traced ε α) >>= f).InBounds ↔ r.InBounds ∧ (f a).InBounds := by
  rw [inBounds_bind]
  constructor
  · intro h
    exact ⟨h.1 r List.mem_cons_self, h.2 a rfl⟩
  · intro h
    refine ⟨fun s hs => ?_, fun b hb => ?_⟩
    · rw [List.mem_singleton.mp hs]
      exact h.1
    · cases hb
      exact h.2

theorem inBounds_read16_bind (data : Bytes) (position : Nat) (f : UInt16 → Traced ε β) :
    (read16 data position >>= f).InBounds
      ↔ position + 2 ≤ data.length ∧ (f (get16 data position)).InBounds :=
  inBounds_single_bind _ _ f

theorem inBounds_read32_bind (data : Bytes) (position : Nat) (f : UInt32 → Traced ε β) :
    (read32 data position >>= f).InBounds
      ↔ position + 4 ≤ data.length ∧ (f (get32 data position)).InBounds :=
  inBounds_single_bind _ _ f

theorem inBounds_read64_bind (data : Bytes) (position : Nat) (f : UInt64 → Traced ε β) :
    (read64 data position >>= f).InBounds
      ↔ position + 8 ≤ data.length ∧ (f (get64 data position)).InBounds :=
  inBounds_single_bind _ _ f

theorem inBounds_copy_bind (data : Bytes) (position size : Nat) (f : Bytes → Traced ε β) :
    (copy data position size >>= f).InBounds
      ↔ position + size ≤ data.length ∧ (f (substr data position size)).InBounds :=
  inBounds_single_bind _ _ f

end Traced

end MqBroker
