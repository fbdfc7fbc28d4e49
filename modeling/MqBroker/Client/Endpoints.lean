import MqBroker.Client.Call
import MqBroker.Lib.Rotation
import MqBroker.Protocol.Responses

/-!
# Calls that Are Tried Again

`MqProducer::Impl` with its list of brokers, and the loop of `Call`. A consumer has
the same, since its `Impl` is derived from that one.

`Connect` goes around the list from where it was last, and stays with the first
broker that it can connect to. `Call` gives its request a new id for every attempt.
An attempt that fails closes the connection, and so does the answer that the broker
is not the leader, if there are others: then the next attempt begins one place
further. Between two attempts without a connection it sleeps, twice as long each
time.

What a network does comes with each attempt: which brokers can be reached, whether
the frame could be sent, and which bytes have arrived before the connection ended or
the time was up. A `Call` has as many attempts as the clock allows.

`socket` is the number of a connection, and numbers are not used again. `exchanges`
is not in the source. It records what was sent and what was read.

## Main definitions

* `MqProducer.Impl`: What a client keeps between its calls.
* `MqProducer.Impl.connect`, `MqProducer.Impl.callLoop`, `MqProducer.Impl.call`: Its functions.
* `Fleet`: Brokers that are there or not, and answer or send the client on.
* `Attempt.In`: An attempt in such surroundings.

## Theorems

* `connectLoop_cases`: Where `Connect` stays.
* `turn_in`: An attempt, in given surroundings.
* `call_reaches_leader`: A call finds the leader.
-/

namespace MqBroker

/-- What comes of a try to connect. TLS may have left a text when it fails. -/
inductive ConnectOutcome
  | connected
  | failed (text : Option String)

/-- What the surroundings have for an attempt. -/
structure Attempt where
  /-- What a try to connect comes to, by the number of the broker. -/
  reach : Nat → ConnectOutcome
  /-- `SendAllData`. -/
  sent : Bool
  /-- What arrives as long as `ReceiveAllData` waits. -/
  arrived : Bytes
  /-- The text that TLS has left when sending or receiving fails. -/
  text : Option String

/-- A request that was given to a connection, and what came back. -/
structure Exchange where
  socket : Nat
  /-- The number of the broker. -/
  endpoint : Nat
  request : RawRequest
  /-- What was read, if it was taken for the response. -/
  answer : Bytes
  response : Option RawResponse

/-- The part of `MqProducer::Impl` that is about connections. -/
structure MqProducer.Impl where
  socket : Option Nat := none
  host : Bytes := []
  port : UInt16 := 0
  endpoints : List (Bytes × UInt16) := []
  endpointIndex : Nat := 0
  requestId : UInt64 := 1
  /-- In milliseconds. -/
  backoff : Nat := 100
  error : String := ""
  authToken : Bytes := []
  /-- How many connections there were. -/
  sockets : Nat := 0
  exchanges : List Exchange := []

namespace MqProducer.Impl

/-- `Close`. -/
def close (c : MqProducer.Impl) : MqProducer.Impl := { c with socket := none }

/-- A text that TLS may have left. -/
def report (c : MqProducer.Impl) (text : Option String) : MqProducer.Impl :=
  { c with error := text.getD c.error }

/-- The loop of `Connect` over the brokers, from a number of tries on. -/
def connectLoop (reach : Nat → ConnectOutcome) :
    MqProducer.Impl → Nat → Nat → MqProducer.Impl × Bool
  | c, _, 0 => ({ c with endpointIndex := (c.endpointIndex + 1) % c.endpoints.length }, false)
  | c, attempt, left + 1 =>
      let index := (c.endpointIndex + attempt) % c.endpoints.length
      let address := c.endpoints.getD index (c.host, c.port)
      let c := { c with host := address.1, port := address.2 }
      match reach index with
      | .connected =>
          ({ c with socket := some c.sockets, sockets := c.sockets + 1, endpointIndex := index },
            true)
      | .failed text => connectLoop reach (c.report text) (attempt + 1) left

/-- `Connect`. -/
def connect (c : MqProducer.Impl) (reach : Nat → ConnectOutcome) : MqProducer.Impl × Bool :=
  if c.socket.isSome then (c, true)
  else
    let c := if c.endpoints = [] ∧ c.host ≠ [] then { c with endpoints := [(c.host, c.port)] } else c
    if c.endpoints = [] then (c, false) else connectLoop reach c 0 c.endpoints.length

/-- The request of an attempt, with its id. -/
def numbered (c : MqProducer.Impl) (request : RawRequest) : RawRequest :=
  { request with requestId := c.requestId }

/-- A frame is given to the connection, and something is read or not. -/
def record (c : MqProducer.Impl) (request : RawRequest) (answer : Bytes)
    (response : Option RawResponse) : MqProducer.Impl :=
  match c.socket with
  | none => c
  | some socket =>
      { c with exchanges := c.exchanges ++ [⟨socket, c.endpointIndex, request, answer, response⟩] }

/-- The part of `Call` that receives a response to a request. If there is none the loop
    goes on. -/
def receive (c : MqProducer.Impl) (request : RawRequest) (a : Attempt) :
    MqProducer.Impl × Option RawResponse :=
  match nextResponse a.arrived with
  | .more => (((c.record request [] none).report a.text).close, none)
  | .bad e => (({ c.record request [] none with error := e.text }).close, none)
  | .item response rest =>
      if response.requestId ≠ request.requestId then
        ({ c.record request [] none with error := "response request_id mismatch" }.close, none)
      else
        let c := c.record request (a.arrived.take (a.arrived.length - rest.length)) (some response)
        if response.status = Status.notLeader.code ∧ c.endpoints.length > 1 then
          ({ c.close with endpointIndex := (c.endpointIndex + 1) % c.endpoints.length }, none)
        else ({ c with backoff := 100 }, some response)

/-- A turn of the loop of `Call`. -/
def turn (c : MqProducer.Impl) (request : RawRequest) (a : Attempt) :
    MqProducer.Impl × Option RawResponse :=
  match c.connect a.reach with
  | (c, false) =>
      ({ c with backoff := if c.backoff * 2 < 30000 then c.backoff * 2 else 30000 }, none)
  | (c, true) =>
      let request := c.numbered request
      let c := { c with requestId := c.requestId + 1 }
      match encodeRequest request with
      | .error _ => (c.close, none)
      | .ok _ =>
          if a.sent = false then (((c.record request [] none).report a.text).close, none)
          else c.receive request a

/-- The loop of `Call`, until the time is up. -/
def callLoop (request : RawRequest) :
    MqProducer.Impl → List Attempt → MqProducer.Impl × Option RawResponse
  | c, [] => ({ c with error := "request timeout" }, none)
  | c, a :: rest =>
      match c.turn request a with
      | (c, some response) => (c, some response)
      | (c, none) => callLoop request c rest

/-- `Call`. -/
def call (c : MqProducer.Impl) (request : Request) (attempts : List Attempt) :
    MqProducer.Impl × Option RawResponse :=
  match clientCall c.authToken request.requestId request with
  | none => ({ c with error := "auth token exceeds protocol limit" }, none)
  | some request => callLoop request.raw c attempts

/-- `SendWithoutResponse`. -/
def sendWithoutResponse (c : MqProducer.Impl) (request : Request) (a : Attempt) :
    MqProducer.Impl × Bool :=
  match clientCall c.authToken request.requestId request with
  | none => ({ c with error := "auth token exceeds protocol limit" }, false)
  | some request =>
      match c.connect a.reach with
      | (c, false) => (c, false)
      | (c, true) =>
          let request := c.numbered request.raw
          let c := { c with requestId := c.requestId + 1 }
          match encodeRequest request with
          | .error _ => (c.close, false)
          | .ok _ =>
              let c := c.record request [] none
              (if a.sent then c.close else (c.report a.text).close, a.sent)

/-- `connect` with one broker. The list is as it was, if there is one. -/
def connectHost (c : MqProducer.Impl) (host : Bytes) (port : UInt16)
    (reach : Nat → ConnectOutcome) : MqProducer.Impl × Bool :=
  { c with host := host, port := port }.close.connect reach

/-- `connect` with a list of brokers. -/
def connectEndpoints (c : MqProducer.Impl) (endpoints : List (Bytes × UInt16))
    (reach : Nat → ConnectOutcome) : MqProducer.Impl × Bool :=
  if endpoints = [] then (c, false)
  else { c with endpoints := endpoints, endpointIndex := 0 }.close.connect reach

/-! ## Connecting -/

/-- What connecting leaves alone. -/
structure Kept (c c' : MqProducer.Impl) : Prop where
  requestId : c'.requestId = c.requestId
  backoff : c'.backoff = c.backoff
  authToken : c'.authToken = c.authToken
  exchanges : c'.exchanges = c.exchanges

theorem Kept.trans {c c' c'' : MqProducer.Impl} (h : c.Kept c') (h' : c'.Kept c'') : c.Kept c'' :=
  ⟨h'.requestId.trans h.requestId, h'.backoff.trans h.backoff, h'.authToken.trans h.authToken,
    h'.exchanges.trans h.exchanges⟩

/-- A connection to a broker was made. -/
structure Connected (c c' : MqProducer.Impl) (index : Nat) : Prop where
  socket : c'.socket = some c.sockets
  sockets : c'.sockets = c.sockets + 1
  endpoints : c'.endpoints = c.endpoints
  endpointIndex : c'.endpointIndex = index

variable {c : MqProducer.Impl} {reach : Nat → ConnectOutcome}

/-- The loop stays with the first broker it can connect to. If there is none, the next
    call begins one place further. -/
theorem connectLoop_cases (attempt left : Nat) :
    c.Kept (connectLoop reach c attempt left).1 ∧
    ((∃ k < left, reach ((c.endpointIndex + (attempt + k)) % c.endpoints.length) = .connected ∧
        (∀ j < k, reach ((c.endpointIndex + (attempt + j)) % c.endpoints.length) ≠ .connected) ∧
        (connectLoop reach c attempt left).2 = true ∧
        c.Connected (connectLoop reach c attempt left).1
          ((c.endpointIndex + (attempt + k)) % c.endpoints.length)) ∨
      ((∀ j < left, reach ((c.endpointIndex + (attempt + j)) % c.endpoints.length) ≠ .connected) ∧
        (connectLoop reach c attempt left).2 = false ∧
        (connectLoop reach c attempt left).1.socket = c.socket ∧
        (connectLoop reach c attempt left).1.sockets = c.sockets ∧
        (connectLoop reach c attempt left).1.endpoints = c.endpoints ∧
        (connectLoop reach c attempt left).1.endpointIndex =
          (c.endpointIndex + 1) % c.endpoints.length)) := by
  induction left generalizing c attempt with
  | zero =>
      refine ⟨⟨rfl, rfl, rfl, rfl⟩, Or.inr ⟨fun j hj => absurd hj (Nat.not_lt_zero j), rfl, rfl, rfl,
        rfl, rfl⟩⟩
  | succ left ih =>
      cases hreach : reach ((c.endpointIndex + attempt) % c.endpoints.length) with
      | connected =>
          simp only [connectLoop, hreach]
          refine ⟨⟨rfl, rfl, rfl, rfl⟩, Or.inl ⟨0, Nat.succ_pos left, hreach, ?_, trivial,
            ⟨rfl, rfl, rfl, rfl⟩⟩⟩
          exact fun j hj => absurd hj (Nat.not_lt_zero j)
      | failed text =>
          simp only [connectLoop, hreach]
          have hfirst : ∀ j, (∀ i < j,
              reach ((c.endpointIndex + (attempt + 1 + i)) % c.endpoints.length) ≠ .connected) →
              ∀ i < j + 1, reach ((c.endpointIndex + (attempt + i)) % c.endpoints.length) ≠
                .connected := by
            intro j hrest i hi
            cases i with
            | zero =>
                rw [Nat.add_zero, hreach]
                rintro ⟨⟩
            | succ i =>
                have := hrest i (by omega)
                rwa [show attempt + 1 + i = attempt + (i + 1) by omega] at this
          set address := c.endpoints.getD ((c.endpointIndex + attempt) % c.endpoints.length)
            (c.host, c.port)
          set c' := { c with host := address.1, port := address.2 }.report text
          have hstart : c.Kept c' := ⟨rfl, rfl, rfl, rfl⟩
          obtain ⟨hkept, hcases⟩ := @ih c' (attempt + 1)
          refine ⟨hstart.trans hkept, ?_⟩
          rcases hcases with ⟨k, hk, hup, hdown, htrue, hsocket⟩ | ⟨hdown, hrest⟩
          · refine Or.inl ⟨k + 1, by omega, ?_, hfirst k hdown, htrue, ?_⟩
            · rw [show attempt + (k + 1) = attempt + 1 + k by omega]
              exact hup
            · rw [show attempt + (k + 1) = attempt + 1 + k by omega]
              exact ⟨hsocket.socket, hsocket.sockets, hsocket.endpoints, hsocket.endpointIndex⟩
          · exact Or.inr ⟨hfirst left hdown, hrest⟩

theorem connect_eq (hne : c.endpoints ≠ []) :
    c.connect reach =
      if c.socket.isSome then (c, true) else connectLoop reach c 0 c.endpoints.length := by
  have hhost : ¬ (c.endpoints = [] ∧ c.host ≠ []) := fun h => hne h.1
  unfold connect
  simp only [if_neg hhost, if_neg hne]

end MqProducer.Impl

/-! ## Finding the leader -/

/-- Brokers that are there or not, and what they answer. -/
structure Fleet where
  up : Nat → Bool
  answer : Nat → RawRequest → RawResponse

/-- One of the first `n` brokers is the leader, and the others know that they are not. -/
structure Fleet.LedBy (w : Fleet) (n leader : Nat) : Prop where
  listed : leader < n
  there : w.up leader = true
  framed : ∀ i r, encodeResponse (w.answer i r) = .ok (responseFrame (w.answer i r))
  sameId : ∀ i r, (w.answer i r).requestId = r.requestId
  leads : ∀ r, (w.answer leader r).status ≠ Status.notLeader.code
  follows : ∀ i < n, i ≠ leader → ∀ r, (w.answer i r).status = Status.notLeader.code

/-- The surroundings of an attempt are these brokers. -/
structure Attempt.In (a : Attempt) (w : Fleet) (c : MqProducer.Impl) (request : RawRequest) :
    Prop where
  reach : ∀ i, a.reach i = .connected ↔ w.up i = true
  sent : a.sent = true
  arrived : ∃ more, a.arrived =
    responseFrame (w.answer (c.connect a.reach).1.endpointIndex
      ((c.connect a.reach).1.numbered request)) ++ more

namespace MqProducer.Impl

/-- All attempts of a call are made in the same surroundings. -/
def AllIn (w : Fleet) (request : RawRequest) : MqProducer.Impl → List Attempt → Prop
  | _, [] => True
  | c, a :: rest =>
      a.In w c request ∧ ((c.turn request a).2 = none → AllIn w request (c.turn request a).1 rest)

variable {c : MqProducer.Impl} {w : Fleet} {leader : Nat}

/-- With a leader that is there, `Connect` has a connection, and does not pass over the
    leader. -/
theorem connect_in {a : Attempt} (hreach : ∀ i, a.reach i = .connected ↔ w.up i = true)
    (hleader : w.LedBy c.endpoints.length leader)
    (hindex : c.endpointIndex < c.endpoints.length) :
    ∃ k ≤ ahead c.endpoints.length c.endpointIndex leader,
      (c.connect a.reach).2 = true ∧ c.Kept (c.connect a.reach).1 ∧
      (c.connect a.reach).1.socket.isSome ∧ (c.connect a.reach).1.endpoints = c.endpoints ∧
      (c.connect a.reach).1.endpointIndex = (c.endpointIndex + k) % c.endpoints.length := by
  have hlisted := hleader.listed
  have hne : c.endpoints ≠ [] := List.length_pos_iff.mp (by omega)
  rw [connect_eq hne]
  split_ifs with hsocket
  · refine ⟨0, Nat.zero_le _, rfl, ⟨rfl, rfl, rfl, rfl⟩, hsocket, rfl, ?_⟩
    exact (Nat.mod_eq_of_lt hindex).symm
  · obtain ⟨hkept, hcases⟩ :=
      @connectLoop_cases c a.reach 0 c.endpoints.length
    have hend := forward_ahead hindex hlisted
    have hway : ahead c.endpoints.length c.endpointIndex leader < c.endpoints.length :=
      ahead_lt (by omega)
    have hup : a.reach leader = .connected := (hreach leader).mpr hleader.there
    rcases hcases with ⟨k, hk, -, hdown, htrue, hconnected⟩ | ⟨hdown, -⟩
    · refine ⟨k, ?_, htrue, hkept, ?_, hconnected.endpoints, ?_⟩
      · -- What is behind the leader was not tried.
        by_contra hlt
        refine hdown _ (not_le.mp hlt) ?_
        rw [Nat.zero_add, hend]
        exact hup
      · rw [hconnected.socket]
        rfl
      · rw [hconnected.endpointIndex, Nat.zero_add]
    · refine absurd ?_ (hdown _ hway)
      rw [Nat.zero_add, hend]
      exact hup

theorem record_eq {socket : Nat} (hsocket : c.socket = some socket) (request : RawRequest)
    (answer : Bytes) (response : Option RawResponse) :
    c.record request answer response =
      { c with
        exchanges := c.exchanges ++ [⟨socket, c.endpointIndex, request, answer, response⟩] } := by
  unfold record
  rw [hsocket]

/-- The response of the broker is the one that was sent, behind everything else. -/
theorem receive_in {request : RawRequest} {a : Attempt} {response : RawResponse} {more : Bytes}
    {socket : Nat} (hsocket : c.socket = some socket)
    (hframe : encodeResponse response = .ok (responseFrame response))
    (hid : response.requestId = request.requestId)
    (harrived : a.arrived = responseFrame response ++ more) :
    (c.receive request a).1.exchanges = c.exchanges ++
        [⟨socket, c.endpointIndex, request, responseFrame response, some response⟩] ∧
      (c.receive request a).1.endpoints = c.endpoints ∧
      (response.status = Status.notLeader.code ∧ c.endpoints.length > 1 →
        (c.receive request a).2 = none ∧
          (c.receive request a).1.endpointIndex = (c.endpointIndex + 1) % c.endpoints.length) ∧
      (response.status ≠ Status.notLeader.code → (c.receive request a).2 = some response) := by
  have hnext : nextResponse a.arrived = .item response more := by
    rw [harrived, nextResponse_incremental.item more (nextResponse_frame hframe), List.nil_append]
  have hread : a.arrived.take (a.arrived.length - more.length) = responseFrame response := by
    rw [harrived, List.length_append, Nat.add_sub_cancel, List.take_left]
  unfold receive
  simp only [hnext, hread, ne_eq, hid, not_true_eq_false, if_false, record_eq hsocket]
  split_ifs with hleads
  · exact ⟨rfl, rfl, fun _ => ⟨rfl, rfl⟩, fun h => absurd hleads.1 h⟩
  · exact ⟨rfl, rfl, fun h => absurd h hleads, fun _ => rfl⟩

/-- An attempt comes to a broker on the way to the leader. It ends the call at the
    leader, and elsewhere the next one begins behind it. -/
theorem turn_in {request : RawRequest} {a : Attempt} (ha : a.In w c request)
    (hleader : w.LedBy c.endpoints.length leader)
    (hindex : c.endpointIndex < c.endpoints.length)
    (hrequest : ∀ id, ∃ frame, encodeRequest { request with requestId := id } = .ok frame) :
    ∃ k ≤ ahead c.endpoints.length c.endpointIndex leader, ∃ x : Exchange,
      x.endpoint = (c.endpointIndex + k) % c.endpoints.length ∧
      x.request = c.numbered request ∧
      (c.turn request a).1.exchanges = c.exchanges ++ [x] ∧
      (c.turn request a).1.endpoints = c.endpoints ∧
      ((x.endpoint = leader ∧ (c.turn request a).2 = some (w.answer leader x.request)) ∨
        (x.endpoint ≠ leader ∧ (c.turn request a).2 = none ∧
          (c.turn request a).1.endpointIndex = (x.endpoint + 1) % c.endpoints.length)) := by
  obtain ⟨k, hk, htrue, hkept, hopen, hendpoints, hplace⟩ := connect_in ha.reach hleader hindex
  obtain ⟨more, harrived⟩ := ha.arrived
  obtain ⟨socket, hsocket⟩ := Option.isSome_iff_exists.mp hopen
  set c₁ := (c.connect a.reach).1 with hc₁
  have hconnect : c.connect a.reach = (c₁, true) := Prod.ext rfl htrue
  have hnumbered : c₁.numbered request = c.numbered request := by
    unfold numbered
    rw [hkept.requestId]
  rw [hnumbered] at harrived
  obtain ⟨frame, hframe⟩ := hrequest c.requestId
  set index := (c.endpointIndex + k) % c.endpoints.length with hindex'
  have hlt : index < c.endpoints.length := Nat.mod_lt _ (by omega)
  set response := w.answer index (c.numbered request) with hresponse
  rw [hplace] at harrived
  have hturn : c.turn request a =
      { c₁ with requestId := c₁.requestId + 1 }.receive (c.numbered request) a := by
    unfold turn
    simp only [hconnect, hnumbered]
    have hencode : encodeRequest (c.numbered request) = .ok frame := hframe
    simp only [hencode, ha.sent, Bool.true_eq_false, if_false]
  have hreceive := @receive_in { c₁ with requestId := c₁.requestId + 1 } (c.numbered request) a
    response more socket hsocket (hleader.framed index _) (hleader.sameId index _) harrived
  rw [← hturn] at hreceive
  simp only [hplace, hkept.exchanges, hendpoints] at hreceive
  obtain ⟨hexchanges, hlist, hfollows, hleads⟩ := hreceive
  refine ⟨k, hk, ⟨socket, index, c.numbered request, responseFrame response, some response⟩, rfl,
    rfl, hexchanges, hlist, ?_⟩
  by_cases heq : index = leader
  · refine Or.inl ⟨heq, ?_⟩
    rw [hleads (by rw [hresponse, heq]; exact hleader.leads _), hresponse, heq]
  · have hmany : c.endpoints.length > 1 := by
      have hlisted := hleader.listed
      omega
    exact Or.inr ⟨heq, hfollows ⟨hleader.follows index hlt heq _, hmany⟩⟩

/-- The attempts of a call go on towards the leader, and end there. -/
theorem callLoop_in {request : RawRequest} {attempts : List Attempt}
    (hin : AllIn w request c attempts) (hleader : w.LedBy c.endpoints.length leader)
    (hindex : c.endpointIndex < c.endpoints.length)
    (hrequest : ∀ id, ∃ frame, encodeRequest { request with requestId := id } = .ok frame)
    (henough : ahead c.endpoints.length c.endpointIndex leader < attempts.length) :
    ∃ (visited : List Exchange) (last : Exchange),
      (callLoop request c attempts).1.exchanges = c.exchanges ++ (visited ++ [last]) ∧
      (visited ++ [last]).Pairwise (fun x y =>
        ahead c.endpoints.length y.endpoint leader < ahead c.endpoints.length x.endpoint leader) ∧
      (∀ x ∈ visited ++ [last], x.endpoint < c.endpoints.length ∧
        ahead c.endpoints.length x.endpoint leader ≤
          ahead c.endpoints.length c.endpointIndex leader) ∧
      last.endpoint = leader ∧ (∃ id, last.request = { request with requestId := id }) ∧
      (callLoop request c attempts).2 = some (w.answer leader last.request) := by
  induction attempts generalizing c with
  | nil => exact absurd henough (Nat.not_lt_zero _)
  | cons a rest ih =>
      obtain ⟨k, hk, x, hplace, hx, hexchanges, hendpoints, hcases⟩ :=
        turn_in hin.1 hleader hindex hrequest
      have hnear : ahead c.endpoints.length x.endpoint leader =
          ahead c.endpoints.length c.endpointIndex leader - k := by
        rw [hplace]
        exact ahead_forward hindex hleader.listed hk
      have hlt : x.endpoint < c.endpoints.length := by
        rw [hplace]
        exact Nat.mod_lt _ (by omega)
      rcases hcases with ⟨hthere, hresponse⟩ | ⟨hne, hnone, hnext⟩
      · have hloop : callLoop request c (a :: rest) = c.turn request a := by
          rw [callLoop, ← Prod.mk.eta (p := c.turn request a), hresponse]
        rw [hloop]
        refine ⟨[], x, hexchanges, List.pairwise_singleton _ _, ?_, hthere, ⟨_, hx⟩, hresponse⟩
        intro y hy
        rw [List.mem_singleton.mp hy, hnear]
        exact ⟨hlt, Nat.sub_le _ _⟩
      · have hloop : callLoop request c (a :: rest) = callLoop request (c.turn request a).1 rest := by
          rw [callLoop, ← Prod.mk.eta (p := c.turn request a), hnone]
        -- The next attempt begins nearer to the leader.
        have hless : ahead c.endpoints.length ((x.endpoint + 1) % c.endpoints.length) leader <
            ahead c.endpoints.length x.endpoint leader := by
          rw [hnear, hplace]
          refine ahead_forward_lt hindex hleader.listed hk ?_
          rw [← hplace]
          exact hne
        have hrest := ih (hin.2 hnone) (hendpoints.symm ▸ hleader)
          (by rw [hendpoints, hnext]; exact Nat.mod_lt _ (by omega))
          (by
            rw [hendpoints, hnext]
            rw [List.length_cons] at henough
            omega)
        rw [hendpoints, hnext, hexchanges] at hrest
        obtain ⟨visited, last, hvisited, hpairs, hbound, hlast⟩ := hrest
        rw [hloop]
        refine ⟨x :: visited, last, ?_, ?_, ?_, hlast⟩
        · rw [hvisited]
          simp only [List.append_assoc, List.cons_append, List.nil_append]
        · rw [List.cons_append, List.pairwise_cons]
          refine ⟨fun y hy => ?_, hpairs⟩
          exact Nat.lt_of_le_of_lt (hbound y hy).2 hless
        · intro y hy
          rw [List.cons_append, List.mem_cons] at hy
          rcases hy with rfl | hy
          · rw [hnear]
            exact ⟨hlt, Nat.sub_le _ _⟩
          · obtain ⟨hplaced, hle⟩ := hbound y hy
            exact ⟨hplaced, by omega⟩

/-- Whether a request fits into a frame does not depend on its id. -/
theorem encodeRequest_numbered {request : RawRequest} {frame : Bytes}
    (h : encodeRequest request = .ok frame) (id : UInt64) :
    ∃ frame, encodeRequest { request with requestId := id } = .ok frame := by
  unfold encodeRequest at h
  split_ifs at h with hversion htopic hpayload
  refine ⟨requestFrame { request with requestId := id }, ?_⟩
  unfold encodeRequest
  rw [if_neg hversion, if_neg htopic, if_neg hpayload]

/-- Whatever the client was connected to before, a call finds a leader that is there
    if it has time for the way. All brokers that it asks are on this way, it asks none
    twice, and what it returns is what the leader has answered. -/
theorem call_reaches_leader (w : Fleet) (leader : Nat) (c : MqProducer.Impl) (request : Request)
    {sent : Request} {frame : Bytes} (attempts : List Attempt)
    (hcall : clientCall c.authToken request.requestId request = some sent)
    (hframe : encodeRequest sent.raw = .ok frame) (hleader : w.LedBy c.endpoints.length leader)
    (hindex : c.endpointIndex < c.endpoints.length) (hin : AllIn w sent.raw c attempts)
    (henough : ahead c.endpoints.length c.endpointIndex leader < attempts.length) :
    ∃ (visited : List Exchange) (last : Exchange),
      (c.call request attempts).1.exchanges = c.exchanges ++ (visited ++ [last]) ∧
      (∀ x ∈ visited ++ [last], x.endpoint < c.endpoints.length ∧
        ahead c.endpoints.length x.endpoint leader ≤
          ahead c.endpoints.length c.endpointIndex leader) ∧
      ((visited ++ [last]).map Exchange.endpoint).Nodup ∧ last.endpoint = leader ∧
      (∃ id, last.request = { sent.raw with requestId := id }) ∧
      (c.call request attempts).2 = some (w.answer leader last.request) := by
  have hloop : c.call request attempts = callLoop sent.raw c attempts := by
    unfold call
    rw [hcall]
  obtain ⟨visited, last, hexchanges, hpairs, hway, hlast, hid, hresponse⟩ :=
    callLoop_in hin hleader hindex (encodeRequest_numbered hframe) henough
  rw [hloop]
  refine ⟨visited, last, hexchanges, hway, ?_, hlast, hid, hresponse⟩
  rw [List.nodup_iff_pairwise_ne, List.pairwise_map]
  refine hpairs.imp fun {x y} hless heq => ?_
  rw [heq] at hless
  exact absurd hless (Nat.lt_irrefl _)

/-- Three brokers: the first is not there, and the last is the leader. -/
def threeBrokers : Fleet where
  up i := i ≠ 0
  answer i request :=
    { status := if i = 2 then Status.ok.code else Status.notLeader.code
      requestId := request.requestId }

/-- What comes of an attempt that gets an answer of one of them. -/
def attemptAt (broker : Nat) (id : UInt64) : Attempt where
  reach i := if i = 0 then .failed none else .connected
  sent := true
  arrived := responseFrame (threeBrokers.answer broker { command := Command.heartbeat.code, requestId := id })
  text := none

/-- The second broker sends the client on to the third. -/
theorem call_reaches_leader_three :
    let c : MqProducer.Impl := { endpoints := [([97], 1), ([98], 2), ([99], 3)] }
    let attempts := [attemptAt 1 1, attemptAt 2 2, attemptAt 2 3]
    ∃ (visited : List Exchange) (last : Exchange),
      (c.call { command := .heartbeat } attempts).1.exchanges = visited ++ [last] ∧
      (∀ x ∈ visited ++ [last], x.endpoint < 3 ∧ ahead 3 x.endpoint 2 ≤ ahead 3 0 2) ∧
      ((visited ++ [last]).map Exchange.endpoint).Nodup ∧ last.endpoint = 2 ∧
      (∃ id, last.request = { command := Command.heartbeat.code, requestId := id }) ∧
      (c.call { command := .heartbeat } attempts).2 =
        some (threeBrokers.answer 2 last.request) := by
  have hreach : ∀ broker id i,
      (attemptAt broker id).reach i = .connected ↔ threeBrokers.up i = true := by
    intro broker id i
    simp only [attemptAt, threeBrokers, ne_eq, decide_not, Bool.not_eq_true', decide_eq_false_iff_not]
    split_ifs with h
    · exact iff_of_false (by rintro ⟨⟩) (not_not.mpr h)
    · exact iff_of_true rfl h
  refine call_reaches_leader threeBrokers 2 { endpoints := [([97], 1), ([98], 2), ([99], 3)] }
    { command := .heartbeat } [attemptAt 1 1, attemptAt 2 2, attemptAt 2 3] rfl rfl ?_ (by decide) ?_ (by decide)
  · refine ⟨by decide, by decide, fun i r => rfl, fun i r => rfl, fun r => ?_, ?_⟩
    · change Status.ok.code ≠ Status.notLeader.code
      decide
    · intro i _ hne r
      simp only [threeBrokers, if_neg hne]
  · refine ⟨⟨hreach 1 1, rfl, [], rfl⟩, fun _ => ⟨⟨hreach 2 2, rfl, [], rfl⟩, ?_⟩⟩
    rintro ⟨⟩

end MqProducer.Impl

end MqBroker
