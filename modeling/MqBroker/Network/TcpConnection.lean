import MqBroker.Lib.Bytes
import MqBroker.Lib.Runs

/-!
# The Write Queue of a Connection

What a connection has to send is a list of chunks, one for each `Send`, an offset
into the first chunk and a count of all bytes. The reactor takes the bytes of the
first chunk from `Writable` and reports with `ConsumeWritten` how many of them the
socket took. The calls here are those of the owner thread.

`Send` accepts an empty byte string and queues an empty chunk for it. When that
chunk comes to the front, `Writable` is empty although bytes are pending behind
it, and the reactor takes an empty view for the end of the output.

`accepted` and `consumed` are not fields of the source. They record the bytes
that `Send` accepted and the bytes that were reported as written.

## Main definitions

* `TcpConnection`, `TcpConnection.exec`: The write side of a connection.
* `TcpConnection.ByteStream`: The queue is a stream of bytes.
* `TcpConnection.NoEmptyFront`: What keeps an empty chunk from the front.

## Theorems

* `TcpConnection.Sound.exec`: The bytes, the count and the bound always hold.
* `TcpConnection.always_byteStream_iff`: When the whole promise holds in a run.
* `TcpConnection.stalled_by_empty_send`: A run in which it does not.
-/

namespace MqBroker

/-- The write side of `TcpConnection`. -/
structure TcpConnection where
  isOpen : Bool
  writeQueue : List Bytes
  frontWriteOffset : UInt64
  queuedWriteBytes : UInt64
  writeCapacity : UInt64
  /-- The bytes of all accepted sends. -/
  accepted : Bytes
  /-- The bytes reported as written. -/
  consumed : Bytes

/-- A call on the owner thread. -/
inductive ConnectionCall
  | send (bytes : Bytes)
  | consumeWritten (bytes : UInt64)
  | close

namespace TcpConnection

/-- The constructor. -/
def create (writeCapacity : UInt64) : TcpConnection where
  isOpen := true
  writeQueue := []
  frontWriteOffset := 0
  queuedWriteBytes := 0
  writeCapacity := writeCapacity
  accepted := []
  consumed := []

/-- `AppendWrite`. -/
def appendWrite (s : TcpConnection) (bytes : Bytes) : TcpConnection × Bool :=
  if s.isOpen = false then (s, false)
  else if s.queuedWriteBytes > s.writeCapacity ∨
      bytes.length > (s.writeCapacity - s.queuedWriteBytes).toNat then (s, false)
  else
    ({ s with
      writeQueue := s.writeQueue ++ [bytes]
      queuedWriteBytes := s.queuedWriteBytes + UInt64.ofNat bytes.length
      accepted := s.accepted ++ bytes }, true)

/-- `Send` on the owner thread. -/
def send (s : TcpConnection) (bytes : Bytes) : TcpConnection × Bool :=
  if s.isOpen = false then (s, false) else s.appendWrite bytes

/-- `Writable`: the unwritten bytes of the first chunk. -/
def writable (s : TcpConnection) : Bytes :=
  match s.writeQueue with
  | [] => []
  | front :: _ => front.drop s.frontWriteOffset.toNat

/-- `ConsumeWritten`, which throws for more bytes than the first chunk has left. -/
def consumeWritten (s : TcpConnection) (bytes : UInt64) : Except String TcpConnection :=
  match s.writeQueue with
  | [] => .error "written bytes exceed pending output"
  | front :: rest =>
      if bytes > UInt64.ofNat front.length - s.frontWriteOffset then
        .error "written bytes exceed pending output"
      else if s.frontWriteOffset + bytes = UInt64.ofNat front.length then
        -- The first chunk is done, and the next one is taken from its first byte on.
        .ok { s with
          writeQueue := rest
          frontWriteOffset := 0
          queuedWriteBytes := s.queuedWriteBytes - bytes
          consumed := s.consumed ++ s.writable.take bytes.toNat }
      else
        .ok { s with
          frontWriteOffset := s.frontWriteOffset + bytes
          queuedWriteBytes := s.queuedWriteBytes - bytes
          consumed := s.consumed ++ s.writable.take bytes.toNat }

/-- `Close`. -/
def close (s : TcpConnection) : TcpConnection :=
  if s.isOpen = false then s
  else
    { s with isOpen := false, writeQueue := [], queuedWriteBytes := 0, frontWriteOffset := 0 }

/-- What a call does. One that throws changes nothing. -/
def exec (s : TcpConnection) : ConnectionCall → TcpConnection
  | .send bytes => (s.send bytes).1
  | .consumeWritten bytes =>
      match s.consumeWritten bytes with
      | .ok next => next
      | .error _ => s
  | .close => s.close

/-! ## Bytes -/

/-- The bytes that are still to be written. -/
def pending (s : TcpConnection) : Bytes := s.writeQueue.flatten.drop s.frontWriteOffset.toNat

/-- What always holds of the chunks, the offset and the counter. The offset is
    inside the first chunk, or at its end if that is empty. -/
structure Sound (s : TcpConnection) : Prop where
  offset_nil : s.writeQueue = [] → s.frontWriteOffset = 0
  offset_front : ∀ front rest, s.writeQueue = front :: rest →
    s.frontWriteOffset.toNat < front.length ∨ (front = [] ∧ s.frontWriteOffset = 0)
  chunk_le : ∀ chunk ∈ s.writeQueue, chunk.length ≤ s.writeCapacity.toNat
  counted : s.queuedWriteBytes.toNat = s.pending.length
  bounded : s.pending.length ≤ s.writeCapacity.toNat
  stream : s.isOpen = true → s.consumed ++ s.pending = s.accepted
  closed : s.isOpen = false → s.writeQueue = []

/-- What the queue promises while the connection is open. -/
def ByteStream (s : TcpConnection) : Prop :=
  s.isOpen = true →
    s.consumed ++ s.pending = s.accepted ∧
    s.queuedWriteBytes.toNat = s.pending.length ∧
    s.pending.length ≤ s.writeCapacity.toNat ∧
    (s.writable = [] ↔ s.pending = [])

/-- An open connection accepts bytes that fit. -/
def Accepts (s : TcpConnection) (bytes : Bytes) : Prop :=
  s.isOpen = true ∧ bytes.length + s.queuedWriteBytes.toNat ≤ s.writeCapacity.toNat

/-- No bytes are put behind an empty chunk at the front, and no empty chunk in front
    of other bytes comes to the front. -/
def NoEmptyFront (s : TcpConnection) : ConnectionCall → Prop
  | .send bytes => s.Accepts bytes → bytes ≠ [] → s.writeQueue.head? ≠ some []
  | .consumeWritten bytes => ∀ front rest, s.writeQueue = front :: rest →
      s.frontWriteOffset.toNat + bytes.toNat = front.length →
      rest.head? = some [] → rest.flatten = []
  | .close => True

variable {s : TcpConnection}

theorem Sound.create (writeCapacity : UInt64) : (create writeCapacity).Sound :=
  ⟨fun _ => rfl, by nofun, by nofun, rfl, Nat.zero_le _, fun _ => rfl, by nofun⟩

/-- The offset is not behind the end of the first chunk. -/
theorem Sound.offset_le (h : s.Sound) {front : Bytes} {rest : List Bytes}
    (hqueue : s.writeQueue = front :: rest) : s.frontWriteOffset.toNat ≤ front.length := by
  rcases h.offset_front front rest hqueue with hlt | ⟨-, hzero⟩
  · exact Nat.le_of_lt hlt
  · rw [hzero]
    exact Nat.zero_le _

/-- What is pending starts with what is writable. -/
theorem Sound.pending_cons (h : s.Sound) {front : Bytes} {rest : List Bytes}
    (hqueue : s.writeQueue = front :: rest) : s.pending = s.writable ++ rest.flatten := by
  unfold pending writable
  rw [hqueue, List.flatten_cons, List.drop_append_of_le_length (h.offset_le hqueue)]

/-- Nothing is writable exactly when the first chunk is empty. -/
theorem Sound.writable_nil_iff (h : s.Sound) {front : Bytes} {rest : List Bytes}
    (hqueue : s.writeQueue = front :: rest) : s.writable = [] ↔ front = [] := by
  unfold writable
  rw [hqueue]
  simp only [List.drop_eq_nil_iff]
  rcases h.offset_front front rest hqueue with hlt | ⟨hnil, hzero⟩
  · refine iff_of_false (by omega) fun hnil => ?_
    rw [hnil] at hlt
    exact Nat.not_lt_zero _ hlt
  · rw [hnil]
    exact iff_of_true (Nat.zero_le _) rfl

/-- The test of `AppendWrite`. -/
theorem Sound.refuses_iff (h : s.Sound) (bytes : Bytes) :
    (s.queuedWriteBytes > s.writeCapacity ∨
      bytes.length > (s.writeCapacity - s.queuedWriteBytes).toNat) ↔
      ¬ bytes.length + s.queuedWriteBytes.toNat ≤ s.writeCapacity.toNat := by
  have hle : s.queuedWriteBytes.toNat ≤ s.writeCapacity.toNat := by
    rw [h.counted]
    exact h.bounded
  have hfree := UInt64.toNat_sub_of_le _ _ (UInt64.le_iff_toNat_le.mpr hle)
  have hfull : ¬ s.queuedWriteBytes > s.writeCapacity :=
    fun hlt => Nat.not_lt.mpr hle (UInt64.lt_iff_toNat_lt.mp hlt)
  rw [or_iff_right hfull, hfree]
  omega

/-- A send that is accepted. -/
theorem Sound.send_eq (h : s.Sound) {bytes : Bytes} (haccepts : s.Accepts bytes) :
    s.send bytes = ({ s with
      writeQueue := s.writeQueue ++ [bytes]
      queuedWriteBytes := s.queuedWriteBytes + UInt64.ofNat bytes.length
      accepted := s.accepted ++ bytes }, true) := by
  have hopen : ¬ s.isOpen = false := by
    rw [haccepts.1]
    exact Bool.noConfusion
  unfold send appendWrite
  rw [if_neg hopen, if_neg hopen, if_neg]
  exact fun hrefuses => (h.refuses_iff bytes).mp hrefuses haccepts.2

/-- Any other send changes nothing. -/
theorem Sound.send_refused (h : s.Sound) {bytes : Bytes} (haccepts : ¬ s.Accepts bytes) :
    s.send bytes = (s, false) := by
  unfold send appendWrite
  by_cases hopen : s.isOpen = false
  · rw [if_pos hopen]
  · rw [if_neg hopen, if_neg hopen, if_pos]
    refine (h.refuses_iff bytes).mpr fun hfits => haccepts ⟨?_, hfits⟩
    exact Bool.eq_true_of_not_eq_false hopen

/-- The size of the first chunk is a 64-bit number. -/
theorem Sound.size_toNat (h : s.Sound) {front : Bytes} {rest : List Bytes}
    (hqueue : s.writeQueue = front :: rest) : (UInt64.ofNat front.length).toNat = front.length := by
  have hle := h.chunk_le front (hqueue ▸ List.mem_cons_self)
  have hlt := s.writeCapacity.toNat_lt
  rw [UInt64.toNat_ofNat', Nat.mod_eq_of_lt (by omega)]

/-- The test of `ConsumeWritten`. -/
theorem Sound.exceeds_iff (h : s.Sound) {front : Bytes} {rest : List Bytes}
    (hqueue : s.writeQueue = front :: rest) (n : UInt64) :
    n > UInt64.ofNat front.length - s.frontWriteOffset ↔
      ¬ s.frontWriteOffset.toNat + n.toNat ≤ front.length := by
  have hsize := h.size_toNat hqueue
  have hle := h.offset_le hqueue
  have hleft : (UInt64.ofNat front.length - s.frontWriteOffset).toNat =
      front.length - s.frontWriteOffset.toNat := by
    rw [UInt64.toNat_sub_of_le _ _ (UInt64.le_iff_toNat_le.mpr (by rw [hsize]; exact hle)), hsize]
  rw [gt_iff_lt, UInt64.lt_iff_toNat_lt, hleft]
  omega

/-- The test for the end of the first chunk. -/
theorem Sound.ends_iff (h : s.Sound) {front : Bytes} {rest : List Bytes}
    (hqueue : s.writeQueue = front :: rest) {n : UInt64}
    (hn : s.frontWriteOffset.toNat + n.toNat ≤ front.length) :
    s.frontWriteOffset + n = UInt64.ofNat front.length ↔
      s.frontWriteOffset.toNat + n.toNat = front.length := by
  have hsize := h.size_toNat hqueue
  have hlt := (UInt64.ofNat front.length).toNat_lt
  rw [← UInt64.toNat_inj, UInt64.toNat_add, hsize, Nat.mod_eq_of_lt (by omega)]

/-- More than the first chunk has left is not accepted. -/
theorem Sound.exec_consume_refused (h : s.Sound) {front : Bytes} {rest : List Bytes}
    (hqueue : s.writeQueue = front :: rest) {n : UInt64}
    (hn : ¬ s.frontWriteOffset.toNat + n.toNat ≤ front.length) :
    s.exec (.consumeWritten n) = s := by
  simp only [exec, consumeWritten, hqueue]
  rw [if_pos ((h.exceeds_iff hqueue n).mpr hn)]

/-- A part of the first chunk is written. -/
theorem Sound.exec_consume_part (h : s.Sound) {front : Bytes} {rest : List Bytes}
    (hqueue : s.writeQueue = front :: rest) {n : UInt64}
    (hn : s.frontWriteOffset.toNat + n.toNat < front.length) :
    s.exec (.consumeWritten n) = { s with
      frontWriteOffset := s.frontWriteOffset + n
      queuedWriteBytes := s.queuedWriteBytes - n
      consumed := s.consumed ++ s.writable.take n.toNat } := by
  have hle := Nat.le_of_lt hn
  have hends := (h.ends_iff hqueue hle).not.mpr (Nat.ne_of_lt hn)
  simp only [exec, consumeWritten, hqueue]
  rw [if_neg fun hex => (h.exceeds_iff hqueue n).mp hex hle, if_neg hends]

/-- The rest of the first chunk is written. -/
theorem Sound.exec_consume_all (h : s.Sound) {front : Bytes} {rest : List Bytes}
    (hqueue : s.writeQueue = front :: rest) {n : UInt64}
    (hn : s.frontWriteOffset.toNat + n.toNat = front.length) :
    s.exec (.consumeWritten n) = { s with
      writeQueue := rest
      frontWriteOffset := 0
      queuedWriteBytes := s.queuedWriteBytes - n
      consumed := s.consumed ++ s.writable.take n.toNat } := by
  have hle := Nat.le_of_eq hn
  have hends := (h.ends_iff hqueue hle).mpr hn
  simp only [exec, consumeWritten, hqueue]
  rw [if_neg fun hex => (h.exceeds_iff hqueue n).mp hex hle, if_pos hends]

theorem exec_consume_nil (hqueue : s.writeQueue = []) (n : UInt64) :
    s.exec (.consumeWritten n) = s := by
  simp only [exec, consumeWritten, hqueue]

/-- How much of the first chunk is writable. -/
theorem length_writable {front : Bytes} {rest : List Bytes}
    (hqueue : s.writeQueue = front :: rest) :
    s.writable.length = front.length - s.frontWriteOffset.toNat := by
  unfold writable
  rw [hqueue, List.length_drop]

/-! ## Calls -/

theorem Sound.send (h : s.Sound) {bytes : Bytes} (haccepts : s.Accepts bytes) :
    (s.exec (.send bytes)).Sound ∧ (s.exec (.send bytes)).pending = s.pending ++ bytes := by
  simp only [exec]
  rw [h.send_eq haccepts]
  have hmax := s.writeCapacity.toNat_lt
  have hfits := haccepts.2
  have hcounted := h.counted
  have hpending : ((s.writeQueue ++ [bytes]).flatten).drop s.frontWriteOffset.toNat =
      s.pending ++ bytes := by
    unfold pending
    have hle : s.frontWriteOffset.toNat ≤ s.writeQueue.flatten.length := by
      cases hqueue : s.writeQueue with
      | nil =>
          rw [h.offset_nil hqueue]
          exact Nat.zero_le _
      | cons front rest =>
          rw [List.flatten_cons, List.length_append]
          exact Nat.le_add_right_of_le (h.offset_le hqueue)
    rw [List.flatten_append, List.flatten_singleton, List.drop_append_of_le_length hle]
  refine ⟨⟨?_, ?_, ?_, ?_, ?_, ?_, ?_⟩, hpending⟩
  · intro hnil
    exact absurd hnil (by simp)
  · intro front rest hqueue
    cases hold : s.writeQueue with
    | nil =>
        have hcons : [bytes] = front :: rest := by simpa only [hold, List.nil_append] using hqueue
        obtain rfl := (List.cons.inj hcons).1
        have hzero := h.offset_nil hold
        simp only [hzero]
        by_cases hnil : bytes = []
        · exact Or.inr ⟨hnil, trivial⟩
        · exact Or.inl (List.length_pos_iff.mpr hnil)
    | cons front' rest' =>
        have hcons : front' :: (rest' ++ [bytes]) = front :: rest := by
          simpa only [hold, List.cons_append] using hqueue
        obtain rfl := (List.cons.inj hcons).1
        exact h.offset_front front' rest' hold
  · intro chunk hchunk
    rcases List.mem_append.mp hchunk with hold | hnew
    · exact h.chunk_le chunk hold
    · rw [List.mem_singleton.mp hnew]
      simp only
      omega
  · change (s.queuedWriteBytes + UInt64.ofNat bytes.length).toNat = _
    unfold pending
    simp only
    rw [hpending, List.length_append, ← hcounted, UInt64.toNat_add, UInt64.toNat_ofNat',
      Nat.mod_eq_of_lt (a := bytes.length) (by omega), Nat.mod_eq_of_lt (by omega)]
  · unfold pending
    simp only
    rw [hpending, List.length_append]
    omega
  · intro hopen
    unfold pending
    simp only
    rw [hpending, ← h.stream hopen, List.append_assoc]
  · intro hclosed
    have hopen := haccepts.1
    rw [show s.isOpen = false from hclosed] at hopen
    exact nomatch hopen

/-- Taking bytes from the front of the writable ones leaves the rest pending. -/
theorem Sound.take_drop (h : s.Sound) {front : Bytes} {rest : List Bytes}
    (hqueue : s.writeQueue = front :: rest) {n : Nat}
    (hn : s.frontWriteOffset.toNat + n ≤ front.length) :
    s.writable.take n ++ s.pending.drop n = s.pending := by
  have hlength := length_writable hqueue
  have hle : n ≤ s.writable.length := by omega
  rw [h.pending_cons hqueue, List.drop_append_of_le_length hle, ← List.append_assoc,
    List.take_append_drop]

/-- The counter after bytes of the first chunk were written. -/
theorem Sound.counted_sub (h : s.Sound) {front : Bytes} {rest : List Bytes}
    (hqueue : s.writeQueue = front :: rest) {n : UInt64}
    (hn : s.frontWriteOffset.toNat + n.toNat ≤ front.length) :
    (s.queuedWriteBytes - n).toNat = (s.pending.drop n.toNat).length := by
  have hlength := length_writable hqueue
  have hpending : s.writable.length ≤ s.pending.length := by
    rw [h.pending_cons hqueue, List.length_append]
    exact Nat.le_add_right _ _
  have hle : n.toNat ≤ s.queuedWriteBytes.toNat := by
    rw [h.counted]
    omega
  rw [UInt64.toNat_sub_of_le _ _ (UInt64.le_iff_toNat_le.mpr hle), h.counted, List.length_drop]

theorem Sound.consume_part (h : s.Sound) {front : Bytes} {rest : List Bytes}
    (hqueue : s.writeQueue = front :: rest) {n : UInt64}
    (hn : s.frontWriteOffset.toNat + n.toNat < front.length) :
    (s.exec (.consumeWritten n)).Sound ∧ (s.exec (.consumeWritten n)).writable ≠ [] := by
  rw [h.exec_consume_part hqueue hn]
  have hle := Nat.le_of_lt hn
  have hchunk := h.chunk_le front (hqueue ▸ List.mem_cons_self)
  have hmax := s.writeCapacity.toNat_lt
  have hnext : (s.frontWriteOffset + n).toNat = s.frontWriteOffset.toNat + n.toNat := by
    rw [UInt64.toNat_add, Nat.mod_eq_of_lt (by omega)]
  have hpending : s.writeQueue.flatten.drop (s.frontWriteOffset + n).toNat =
      s.pending.drop n.toNat := by
    rw [hnext, pending, List.drop_drop]
  have hinside : ∀ front' rest', s.writeQueue = front' :: rest' →
      (s.frontWriteOffset + n).toNat < front'.length := by
    intro front' rest' hqueue'
    rw [hqueue] at hqueue'
    rw [← (List.cons.inj hqueue').1, hnext]
    exact hn
  refine ⟨⟨?_, ?_, h.chunk_le, ?_, ?_, ?_, h.closed⟩, ?_⟩
  · intro hnil
    rw [show s.writeQueue = [] from hnil] at hqueue
    exact nomatch hqueue
  · exact fun front' rest' hqueue' => Or.inl (hinside front' rest' hqueue')
  · exact (h.counted_sub hqueue hle).trans (congrArg List.length hpending.symm)
  · unfold pending
    simp only
    rw [hpending, List.length_drop]
    exact Nat.le_trans (Nat.sub_le ..) h.bounded
  · intro hopen
    unfold pending
    simp only
    rw [hpending, List.append_assoc, h.take_drop hqueue hle]
    exact h.stream hopen
  · unfold writable
    simp only [hqueue]
    intro hnil
    have hdone := List.drop_eq_nil_iff.mp hnil
    have hlt := hinside front rest hqueue
    omega

theorem Sound.consume_all (h : s.Sound) {front : Bytes} {rest : List Bytes}
    (hqueue : s.writeQueue = front :: rest) {n : UInt64}
    (hn : s.frontWriteOffset.toNat + n.toNat = front.length) :
    (s.exec (.consumeWritten n)).Sound ∧ (s.exec (.consumeWritten n)).writeQueue = rest := by
  rw [h.exec_consume_all hqueue hn]
  have hle := Nat.le_of_eq hn
  have hlength := length_writable hqueue
  have hpending : rest.flatten = s.pending.drop n.toNat := by
    have hall : s.writable.length = n.toNat := by omega
    rw [h.pending_cons hqueue, ← hall, List.drop_left]
  have hzero : rest.flatten.drop (0 : UInt64).toNat = s.pending.drop n.toNat := hpending
  refine ⟨⟨fun _ => rfl, ?_, ?_, ?_, ?_, ?_, ?_⟩, rfl⟩
  · intro front' rest' _
    by_cases hnil : front' = []
    · exact Or.inr ⟨hnil, rfl⟩
    · exact Or.inl (List.length_pos_iff.mpr hnil)
  · exact fun chunk hchunk => h.chunk_le chunk (hqueue ▸ List.mem_cons_of_mem front hchunk)
  · exact (h.counted_sub hqueue hle).trans (congrArg List.length hzero.symm)
  · unfold pending
    simp only
    rw [hzero, List.length_drop]
    exact Nat.le_trans (Nat.sub_le ..) h.bounded
  · intro hopen
    unfold pending
    simp only
    rw [hzero, List.append_assoc, h.take_drop hqueue hle]
    exact h.stream hopen
  · intro hclosed
    have hnil := h.closed hclosed
    rw [hqueue] at hnil
    exact nomatch hnil

theorem Sound.close (h : s.Sound) : s.close.Sound := by
  unfold TcpConnection.close
  by_cases hopen : s.isOpen = false
  · rw [if_pos hopen]
    exact h
  · rw [if_neg hopen]
    exact ⟨fun _ => rfl, by nofun, by nofun, rfl, Nat.zero_le _, by nofun, fun _ => rfl⟩

/-- Every call keeps the bytes, the count and the bound. -/
theorem Sound.exec (h : s.Sound) (call : ConnectionCall) : (s.exec call).Sound := by
  cases call with
  | send bytes =>
      by_cases haccepts : s.Accepts bytes
      · exact (h.send haccepts).1
      · simp only [TcpConnection.exec]
        rw [h.send_refused haccepts]
        exact h
  | consumeWritten n =>
      cases hqueue : s.writeQueue with
      | nil =>
          rw [exec_consume_nil hqueue]
          exact h
      | cons front rest =>
          rcases Nat.lt_trichotomy (s.frontWriteOffset.toNat + n.toNat) front.length with
            hlt | heq | hgt
          · exact (h.consume_part hqueue hlt).1
          · exact (h.consume_all hqueue heq).1
          · rw [h.exec_consume_refused hqueue (Nat.not_le.mpr hgt)]
            exact h
  | close => exact h.close

/-! ## The stream -/

/-- All that can go wrong is the view. -/
theorem Sound.byteStream_iff (h : s.Sound) :
    s.ByteStream ↔ (s.isOpen = true → (s.writable = [] ↔ s.pending = [])) :=
  ⟨fun hstream hopen => (hstream hopen).2.2.2,
    fun hview hopen => ⟨h.stream hopen, h.counted, h.bounded, hview hopen⟩⟩

/-- The view is right where the first chunk is not empty. -/
theorem Sound.view_cons (h : s.Sound) {front : Bytes} {rest : List Bytes}
    (hqueue : s.writeQueue = front :: rest) :
    (s.writable = [] ↔ s.pending = []) ↔ (front = [] → rest.flatten = []) := by
  have hwritable := h.writable_nil_iff hqueue
  rw [h.pending_cons hqueue, List.append_eq_nil_iff]
  tauto

theorem view_nil (hqueue : s.writeQueue = []) : s.writable = [] ↔ s.pending = [] := by
  unfold writable pending
  rw [hqueue]
  exact iff_of_true rfl List.drop_nil

theorem isOpen_of_cons (h : s.Sound) {front : Bytes} {rest : List Bytes}
    (hqueue : s.writeQueue = front :: rest) : s.isOpen = true := by
  by_contra hopen
  rw [h.closed (Bool.eq_false_iff.mpr hopen)] at hqueue
  exact nomatch hqueue

/-- A send keeps the view right exactly when it puts no bytes behind an empty chunk
    at the front. -/
theorem Sound.byteStream_send_iff (h : s.Sound) (hstream : s.ByteStream) (bytes : Bytes) :
    (s.exec (.send bytes)).ByteStream ↔ s.NoEmptyFront (.send bytes) := by
  by_cases haccepts : s.Accepts bytes
  · have hsound := (h.send haccepts).1
    have hexec : s.exec (.send bytes) = (s.send bytes).1 := rfl
    rw [h.send_eq haccepts] at hexec
    have hopen : (s.exec (.send bytes)).isOpen = true := by
      rw [hexec]
      exact haccepts.1
    rw [hsound.byteStream_iff, imp_iff_right hopen, NoEmptyFront, imp_iff_right haccepts]
    cases hqueue : s.writeQueue with
    | nil =>
        have hqueue' : (s.exec (.send bytes)).writeQueue = [bytes] := by
          rw [hexec, hqueue]
          rfl
        rw [hsound.view_cons hqueue']
        exact iff_of_true (fun _ => rfl) (by nofun)
    | cons front rest =>
        have hqueue' : (s.exec (.send bytes)).writeQueue = front :: (rest ++ [bytes]) := by
          rw [hexec, hqueue]
          rfl
        have hview := (h.view_cons hqueue).mp (hstream haccepts.1).2.2.2
        rw [hsound.view_cons hqueue', List.flatten_append, List.flatten_singleton,
          List.append_eq_nil_iff, List.head?_cons]
        simp only [ne_eq, Option.some.injEq]
        tauto
  · have hexec : s.exec (.send bytes) = s := by
      simp only [TcpConnection.exec]
      rw [h.send_refused haccepts]
    rw [hexec]
    exact iff_of_true hstream fun hyes => absurd hyes haccepts

/-- A report keeps the view right exactly when no empty chunk in front of other
    bytes comes to the front. -/
theorem Sound.byteStream_consume_iff (h : s.Sound) (hstream : s.ByteStream) (n : UInt64) :
    (s.exec (.consumeWritten n)).ByteStream ↔ s.NoEmptyFront (.consumeWritten n) := by
  cases hqueue : s.writeQueue with
  | nil =>
      rw [exec_consume_nil hqueue]
      refine iff_of_true hstream fun front rest hcons => ?_
      rw [hqueue] at hcons
      exact nomatch hcons
  | cons front rest =>
      -- Only a report that uses up the first chunk can change the front.
      have hvacuous : s.frontWriteOffset.toNat + n.toNat ≠ front.length →
          s.NoEmptyFront (.consumeWritten n) := by
        intro hne front' rest' hcons heq
        rw [hqueue] at hcons
        rw [← (List.cons.inj hcons).1] at heq
        exact absurd heq hne
      rcases Nat.lt_trichotomy (s.frontWriteOffset.toNat + n.toNat) front.length with
        hlt | heq | hgt
      · rcases h.consume_part hqueue hlt with ⟨hsound, hne⟩
        have hqueue' : (s.exec (.consumeWritten n)).writeQueue = front :: rest := by
          rw [h.exec_consume_part hqueue hlt]
          exact hqueue
        refine iff_of_true (hsound.byteStream_iff.mpr fun _ => (hsound.view_cons hqueue').mpr ?_)
          (hvacuous (Nat.ne_of_lt hlt))
        exact fun hnil => absurd ((hsound.writable_nil_iff hqueue').mpr hnil) hne
      · rcases h.consume_all hqueue heq with ⟨hsound, hqueue'⟩
        have hcond : s.NoEmptyFront (.consumeWritten n) ↔ (rest.head? = some [] →
            rest.flatten = []) := by
          refine ⟨fun hno => hno front rest hqueue heq, fun hno front' rest' hcons _ => ?_⟩
          rw [hqueue] at hcons
          rw [← (List.cons.inj hcons).2]
          exact hno
        rw [hsound.byteStream_iff, hcond]
        cases rest with
        | nil => exact iff_of_true (fun _ => view_nil hqueue') fun _ => rfl
        | cons next rest =>
            rw [imp_iff_right (isOpen_of_cons hsound hqueue'), hsound.view_cons hqueue',
              List.head?_cons, Option.some.injEq, List.flatten_cons, List.append_eq_nil_iff]
            tauto
      · rw [h.exec_consume_refused hqueue (Nat.not_le.mpr hgt)]
        exact iff_of_true hstream (hvacuous (Nat.ne_of_gt hgt))

/-- In a run the queue is a stream of bytes throughout exactly when no empty chunk
    gets to the front with bytes behind it. -/
theorem always_byteStream_iff (writeCapacity : UInt64) (calls : List ConnectionCall) :
    Always exec ByteStream (create writeCapacity) calls ↔
      Along exec NoEmptyFront (create writeCapacity) calls := by
  refine always_iff_along (Q := Sound) (fun _ call h => h.exec call) (fun s call h hstream => ?_)
    calls (Sound.create writeCapacity)
    ((Sound.create writeCapacity).byteStream_iff.mpr fun _ => view_nil rfl)
  cases call with
  | send bytes => exact h.byteStream_send_iff hstream bytes
  | consumeWritten n => exact h.byteStream_consume_iff hstream n
  | close =>
      have hclosed : (s.exec .close).isOpen = false := by
        simp only [exec, close]
        split_ifs with hopen
        · exact hopen
        · rfl
      refine iff_of_true (fun hopen => ?_) trivial
      rw [hclosed] at hopen
      exact nomatch hopen

/-- An empty reply between two others: once the first is written, the second is not
    seen. -/
theorem stalled_by_empty_send :
    ¬ ∀ writeCapacity calls, Always exec ByteStream (create writeCapacity) calls := by
  intro h
  have hlast := (h 16 [.send [97], .send [], .send [98], .consumeWritten 1]).last
  have hview := (hlast rfl).2.2.2
  exact nomatch hview.mp rfl

end TcpConnection

end MqBroker
