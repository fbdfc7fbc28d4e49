import MqBroker.Client.Endpoints

/-!
# What a Client Has Sent

All that a client does with its connections, from one call to the next.

Every attempt has an id of its own, and the ids go up. A response is taken only if it
has the id of the request that was sent last, and then nothing but its frame was read
from the connection. So what was read on a connection are the frames of the
responses that were taken there, in the order of the requests.

The counter of the ids has 64 bits. A client that made 2^64 attempts would begin
again.

## Main definitions

* `ClientOp`: What is done with a client.
* `MqProducer.Impl.Sound`: What holds of the record of a client.
* `MqProducer.Impl.sentOn`, `MqProducer.Impl.readOn`: The bytes on a connection.

## Theorems

* `Sound.turn`: An attempt.
* `sound_run`: What holds after any calls.
* `Sound.readOn`: What was read on a connection.
-/

namespace MqBroker

/-- What is done with a client. -/
inductive ClientOp
  | connectHost (host : Bytes) (port : UInt16) (reach : Nat → ConnectOutcome)
  | connectEndpoints (endpoints : List (Bytes × UInt16)) (reach : Nat → ConnectOutcome)
  | close
  | setAuthToken (token : Bytes)
  | call (request : Request) (attempts : List Attempt)
  | sendWithoutResponse (request : Request) (a : Attempt)

/-- How many ids an operation can use. -/
def ClientOp.turns : ClientOp → Nat
  | .call _ attempts => attempts.length
  | .sendWithoutResponse _ _ => 1
  | _ => 0

namespace MqProducer.Impl

/-- `setAuthToken`. -/
def setAuthToken (c : MqProducer.Impl) (token : Bytes) : MqProducer.Impl :=
  if token.length > 65535 then { c with error := "auth token exceeds protocol limit" }
  else { c with authToken := token }

/-- What an operation does. -/
def exec (c : MqProducer.Impl) : ClientOp → MqProducer.Impl
  | .connectHost host port reach => (c.connectHost host port reach).1
  | .connectEndpoints endpoints reach => (c.connectEndpoints endpoints reach).1
  | .close => c.close
  | .setAuthToken token => c.setAuthToken token
  | .call request attempts => (c.call request attempts).1
  | .sendWithoutResponse request a => (c.sendWithoutResponse request a).1

/-- The exchanges on a connection. -/
def on (c : MqProducer.Impl) (socket : Nat) : List Exchange :=
  c.exchanges.filter (·.socket = socket)

/-- The frames that were given to a connection. -/
def sentOn (c : MqProducer.Impl) (socket : Nat) : Bytes :=
  (c.on socket).flatMap fun x => requestFrame x.request

/-- The bytes that were taken off a connection for responses. -/
def readOn (c : MqProducer.Impl) (socket : Nat) : Bytes := (c.on socket).flatMap Exchange.answer

end MqProducer.Impl

/-- What was read for a request is the frame of its response. -/
structure Exchange.Sound (x : Exchange) : Prop where
  framed : encodeRequest x.request = .ok (requestFrame x.request)
  taken : ∀ response, x.response = some response → x.answer = responseFrame response ∧
    nextResponse (responseFrame response) = .item response [] ∧
    response.requestId = x.request.requestId
  untaken : x.response = none → x.answer = []

namespace MqProducer.Impl

/-- The ids go up, and every exchange is what it should be. -/
structure Sound (c : MqProducer.Impl) : Prop where
  ids : c.exchanges.Pairwise fun x y => x.request.requestId.toNat < y.request.requestId.toNat
  below : ∀ x ∈ c.exchanges, x.request.requestId.toNat < c.requestId.toNat
  exchange : ∀ x ∈ c.exchanges, x.Sound

variable {c c' : MqProducer.Impl}

/-- Ids and exchanges are the same. -/
theorem Sound.congr (h : c.Sound) (hid : c'.requestId = c.requestId)
    (hexchanges : c'.exchanges = c.exchanges) : c'.Sound := by
  refine ⟨?_, ?_, ?_⟩
  · rw [hexchanges]
    exact h.ids
  · rw [hexchanges, hid]
    exact h.below
  · rw [hexchanges]
    exact h.exchange

theorem connect_kept (c : MqProducer.Impl) (reach : Nat → ConnectOutcome) :
    c.Kept (c.connect reach).1 := by
  by_cases hsocket : c.socket.isSome = true
  · unfold connect
    rw [if_pos hsocket]
    exact ⟨rfl, rfl, rfl, rfl⟩
  · obtain ⟨c₁, hc₁⟩ : ∃ c₁, c₁ =
        if c.endpoints = [] ∧ c.host ≠ [] then { c with endpoints := [(c.host, c.port)] } else c :=
      ⟨_, rfl⟩
    have hlist : c.Kept c₁ := by
      rw [hc₁]
      split_ifs <;> exact ⟨rfl, rfl, rfl, rfl⟩
    unfold connect
    simp only [if_neg hsocket, ← hc₁]
    split_ifs
    · exact hlist
    · exact hlist.trans (connectLoop_cases 0 _).1

theorem Sound.connect (h : c.Sound) (reach : Nat → ConnectOutcome) :
    (c.connect reach).1.Sound :=
  have hkept := connect_kept c reach
  h.congr hkept.requestId hkept.exchanges

/-- A frame with the next id is given to a connection. -/
theorem Sound.record (h : c.Sound) {request : RawRequest} (answer : Bytes)
    (response : Option RawResponse) (hid : c.requestId.toNat + 1 < 2 ^ 64)
    (hnext : request.requestId = c.requestId) (hx : ∀ socket,
      Exchange.Sound ⟨socket, c.endpointIndex, request, answer, response⟩) :
    ({ c with requestId := c.requestId + 1 }.record request answer response).Sound := by
  have hup : (c.requestId + 1).toNat = c.requestId.toNat + 1 := by
    rw [UInt64.toNat_add]
    exact Nat.mod_eq_of_lt hid
  rcases Option.eq_none_or_eq_some c.socket with hsocket | ⟨socket, hsocket⟩
  · unfold MqProducer.Impl.record
    simp only [hsocket]
    refine ⟨h.ids, fun x hmem => ?_, h.exchange⟩
    exact hup ▸ Nat.lt_succ_of_lt (h.below x hmem)
  · rw [record_eq (c := { c with requestId := c.requestId + 1 }) hsocket]
    refine ⟨?_, fun x hmem => ?_, fun x hmem => ?_⟩
    · rw [List.pairwise_append]
      refine ⟨h.ids, List.pairwise_singleton _ _, fun x hmem y hy => ?_⟩
      rw [List.mem_singleton.mp hy, hnext]
      exact h.below x hmem
    · simp only [hup]
      rcases List.mem_append.mp hmem with hold | hlast
      · exact Nat.lt_succ_of_lt (h.below x hold)
      · rw [List.mem_singleton.mp hlast, hnext]
        exact Nat.lt_succ_self _
    · rcases List.mem_append.mp hmem with hold | hlast
      · exact h.exchange x hold
      · rw [List.mem_singleton.mp hlast]
        exact hx socket

/-- An id is used, and at most one. -/
structure Used (c c' : MqProducer.Impl) (n : Nat) : Prop where
  sound : c'.Sound
  ids : c'.requestId.toNat ≤ c.requestId.toNat + n

theorem Used.close {n : Nat} (h : c.Used c' n) : c.Used c'.close n :=
  ⟨h.sound.congr rfl rfl, h.ids⟩

theorem Used.congr {c'' : MqProducer.Impl} {n : Nat} (h : c.Used c' n)
    (hid : c''.requestId = c'.requestId) (hexchanges : c''.exchanges = c'.exchanges) :
    c.Used c'' n :=
  ⟨h.sound.congr hid hexchanges, hid ▸ h.ids⟩

theorem record_requestId (request : RawRequest) (answer : Bytes) (response : Option RawResponse) :
    (c.record request answer response).requestId = c.requestId := by
  unfold record
  split <;> rfl

/-- What `Call` makes of the bytes that arrive. -/
theorem Sound.receive (h : c.Sound) {request : RawRequest} (a : Attempt)
    (hid : c.requestId.toNat + 1 < 2 ^ 64) (hnext : request.requestId = c.requestId)
    (hframe : encodeRequest request = .ok (requestFrame request)) :
    c.Used ({ c with requestId := c.requestId + 1 }.receive request a).1 1 := by
  have hup : (c.requestId + 1).toNat = c.requestId.toNat + 1 := by
    rw [UInt64.toNat_add]
    exact Nat.mod_eq_of_lt hid
  have hrecord : ∀ answer response, (∀ socket,
      Exchange.Sound ⟨socket, c.endpointIndex, request, answer, response⟩) →
      c.Used ({ c with requestId := c.requestId + 1 }.record request answer response) 1 := by
    intro answer response hx
    refine ⟨h.record answer response hid hnext hx, ?_⟩
    rw [record_requestId]
    exact hup.le
  have hnothing : c.Used ({ c with requestId := c.requestId + 1 }.record request [] none) 1 := by
    refine hrecord [] none fun socket => ⟨hframe, ?_, fun _ => rfl⟩
    rintro response ⟨⟩
  unfold MqProducer.Impl.receive
  split
  · exact hnothing.congr rfl rfl
  · exact hnothing.congr rfl rfl
  · rename_i response rest hitem
    split_ifs with hother
    · exact hnothing.congr rfl rfl
    · obtain ⟨harrived, halone⟩ := nextResponse_item hitem
      have hread : a.arrived.take (a.arrived.length - rest.length) = responseFrame response := by
        rw [harrived, List.length_append, Nat.add_sub_cancel, List.take_left]
      have htaken := hrecord (a.arrived.take (a.arrived.length - rest.length)) (some response)
        fun socket => ⟨hframe, fun _ heq => ?_, ?_⟩
      · simp only
        split_ifs <;> exact htaken.congr rfl rfl
      · obtain rfl := Option.some.inj heq
        exact ⟨hread, halone, not_not.mp hother⟩
      · rintro ⟨⟩

/-- A frame is the one of its request. -/
theorem encodeRequest_eq {request : RawRequest} {frame : Bytes}
    (h : encodeRequest request = .ok frame) : encodeRequest request = .ok (requestFrame request) := by
  unfold encodeRequest at h ⊢
  split_ifs at h ⊢
  rfl

/-- An id is used where it is counted, and nothing is sent with it. -/
theorem Sound.skip (h : c.Sound) (hid : c.requestId.toNat + 1 < 2 ^ 64) :
    c.Used { c with requestId := c.requestId + 1 } 1 := by
  have hup : (c.requestId + 1).toNat = c.requestId.toNat + 1 := by
    rw [UInt64.toNat_add]
    exact Nat.mod_eq_of_lt hid
  refine ⟨⟨h.ids, fun x hmem => ?_, h.exchange⟩, hup.le⟩
  exact hup ▸ Nat.lt_succ_of_lt (h.below x hmem)

/-- An attempt uses one id at most. -/
theorem Sound.turn (h : c.Sound) (request : RawRequest) (a : Attempt)
    (hid : c.requestId.toNat + 1 < 2 ^ 64) : c.Used (c.turn request a).1 1 := by
  have hkept := connect_kept c a.reach
  have hconnect := h.connect a.reach
  unfold MqProducer.Impl.turn
  split
  · rename_i c₁ heq
    rw [heq] at hconnect hkept
    exact ⟨hconnect.congr rfl rfl, hkept.requestId.symm ▸ Nat.le_succ _⟩
  · rename_i c₁ heq
    rw [heq] at hconnect hkept
    have hid₁ : c₁.requestId.toNat + 1 < 2 ^ 64 := hkept.requestId.symm ▸ hid
    have hused : ∀ {c' : MqProducer.Impl}, c₁.Used c' 1 → c.Used c' 1 :=
      fun h' => ⟨h'.sound, hkept.requestId ▸ h'.ids⟩
    simp only
    split
    · exact hused ((hconnect.skip hid₁).congr rfl rfl)
    · rename_i frame hframe
      split_ifs
      · have hrecord := hconnect.record [] none hid₁
          (show (c₁.numbered request).requestId = c₁.requestId from rfl)
          fun socket => ⟨encodeRequest_eq hframe, by rintro response ⟨⟩, fun _ => rfl⟩
        refine hused ⟨hrecord.congr rfl rfl, ?_⟩
        have hskip := (hconnect.skip hid₁).ids
        simp only [close, report, record_requestId]
        exact hskip
      · exact hused (hconnect.receive a hid₁ rfl (encodeRequest_eq hframe))

/-- The attempts of a call. -/
theorem Sound.callLoop (request : RawRequest) (attempts : List Attempt) (h : c.Sound)
    (hid : c.requestId.toNat + attempts.length < 2 ^ 64) :
    c.Used (callLoop request c attempts).1 attempts.length := by
  induction attempts generalizing c with
  | nil => exact ⟨h.congr rfl rfl, Nat.le_refl _⟩
  | cons a rest ih =>
      rw [List.length_cons] at hid ⊢
      have hturn := h.turn request a (by omega)
      have hids := hturn.ids
      unfold MqProducer.Impl.callLoop
      split
      · rename_i c₁ response heq
        rw [heq] at hturn hids
        exact ⟨hturn.sound, by simp only at hids ⊢; omega⟩
      · rename_i c₁ heq
        rw [heq] at hturn hids
        simp only at hids
        have hrest := ih hturn.sound (by simp only; omega)
        have hids' := hrest.ids
        exact ⟨hrest.sound, by simp only at hids' ⊢; omega⟩

theorem Sound.sendWithoutResponse (h : c.Sound) (request : Request) (a : Attempt)
    (hid : c.requestId.toNat + 1 < 2 ^ 64) :
    c.Used (c.sendWithoutResponse request a).1 1 := by
  unfold MqProducer.Impl.sendWithoutResponse
  split
  · exact ⟨h.congr rfl rfl, Nat.le_succ _⟩
  · rename_i sent _
    have hkept := connect_kept c a.reach
    have hconnect := h.connect a.reach
    split
    · rename_i c₁ heq
      rw [heq] at hconnect hkept
      exact ⟨hconnect, hkept.requestId.symm ▸ Nat.le_succ _⟩
    · rename_i c₁ heq
      rw [heq] at hconnect hkept
      have hid₁ : c₁.requestId.toNat + 1 < 2 ^ 64 := hkept.requestId.symm ▸ hid
      have hused : ∀ {c' : MqProducer.Impl}, c₁.Used c' 1 → c.Used c' 1 :=
        fun h' => ⟨h'.sound, hkept.requestId ▸ h'.ids⟩
      simp only
      split
      · exact hused ((hconnect.skip hid₁).congr rfl rfl)
      · rename_i frame hframe
        have hrecord := hconnect.record [] none hid₁
          (show (c₁.numbered sent.raw).requestId = c₁.requestId from rfl)
          fun socket => ⟨encodeRequest_eq hframe, by rintro response ⟨⟩, fun _ => rfl⟩
        have hskip := (hconnect.skip hid₁).ids
        split_ifs
        · refine hused ⟨hrecord.congr rfl rfl, ?_⟩
          simp only [close, record_requestId]
          exact hskip
        · refine hused ⟨hrecord.congr rfl rfl, ?_⟩
          simp only [close, report, record_requestId]
          exact hskip

/-- An operation. -/
theorem Sound.exec (h : c.Sound) (op : ClientOp) (hid : c.requestId.toNat + op.turns < 2 ^ 64) :
    c.Used (c.exec op) op.turns := by
  cases op with
  | connectHost host port reach =>
      have hstart : Sound ({ c with host := host, port := port }.close) := h.congr rfl rfl
      have hkept := connect_kept ({ c with host := host, port := port }.close) reach
      exact ⟨hstart.connect reach, (congrArg UInt64.toNat hkept.requestId).le⟩
  | connectEndpoints endpoints reach =>
      simp only [MqProducer.Impl.exec, MqProducer.Impl.connectEndpoints]
      split_ifs
      · exact ⟨h, Nat.le_refl _⟩
      · have hstart : Sound ({ c with endpoints := endpoints, endpointIndex := 0 }.close) :=
          h.congr rfl rfl
        have hkept := connect_kept ({ c with endpoints := endpoints, endpointIndex := 0 }.close) reach
        exact ⟨hstart.connect reach, (congrArg UInt64.toNat hkept.requestId).le⟩
  | close => exact ⟨h.congr rfl rfl, Nat.le_refl _⟩
  | setAuthToken token =>
      simp only [MqProducer.Impl.exec, MqProducer.Impl.setAuthToken]
      split_ifs <;> exact ⟨h.congr rfl rfl, Nat.le_refl _⟩
  | call request attempts =>
      simp only [MqProducer.Impl.exec, MqProducer.Impl.call]
      split
      · exact ⟨h.congr rfl rfl, Nat.le_add_right _ _⟩
      · exact Sound.callLoop _ attempts h hid
  | sendWithoutResponse request a => exact h.sendWithoutResponse request a hid

theorem Sound.run (ops : List ClientOp) (h : c.Sound)
    (hid : c.requestId.toNat + (ops.map ClientOp.turns).sum < 2 ^ 64) :
    (ops.foldl MqProducer.Impl.exec c).Sound := by
  induction ops generalizing c with
  | nil => exact h
  | cons op ops ih =>
      rw [List.map_cons, List.sum_cons] at hid
      have hexec := h.exec op (by omega)
      have hids := hexec.ids
      exact ih hexec.sound (by omega)

/-- What holds after any calls, as long as there are ids. -/
theorem sound_run (ops : List ClientOp) (hid : (ops.map ClientOp.turns).sum < 2 ^ 64 - 1) :
    (ops.foldl MqProducer.Impl.exec {}).Sound := by
  refine Sound.run ops ⟨List.Pairwise.nil, ?_, ?_⟩ ?_
  · rintro x ⟨⟩
  · rintro x ⟨⟩
  · have hone : ({} : MqProducer.Impl).requestId.toNat = 1 := rfl
    omega

/-- What was read on a connection are the frames of the responses that were taken. -/
theorem Sound.readOn (h : c.Sound) (socket : Nat) :
    c.readOn socket = ((c.on socket).filterMap Exchange.response).flatMap responseFrame := by
  have hon : ∀ x ∈ c.on socket, x.Sound := fun x hx => h.exchange x (List.mem_of_mem_filter hx)
  unfold MqProducer.Impl.readOn
  generalize c.on socket = xs at hon
  induction xs with
  | nil => rfl
  | cons x xs ih =>
      have hrest := ih fun y hy => hon y (List.mem_cons_of_mem x hy)
      have hx := hon x List.mem_cons_self
      rw [List.flatMap_cons, hrest]
      cases hresponse : x.response with
      | none => rw [List.filterMap_cons_none hresponse, hx.untaken hresponse, List.nil_append]
      | some response =>
          rw [List.filterMap_cons_some hresponse, List.flatMap_cons,
            (hx.taken response hresponse).1]

end MqProducer.Impl

end MqBroker
