import MqBroker.Server.Handle

/-!
# Calls of a Client

The part of `Call` that both classes of the SDK share: a request is given its
id and the token of the client, is put into a frame, and is taken out of it by
the broker.

The token stands in front of the payload, with its length, and a flag says so.
A broker with the same token takes both away again, so that a handler sees what
the client has made, whether there is a token or not.

## Main definitions

* `clientPayload`: A payload behind the token.
* `clientCall`: The request that is sent.

## Theorems

* `validateClientAuth_payload`: What the broker accepts has lost the token.
* `acceptRequest_clientCall`: What a client sends is accepted.
* `clientCall_frame`: It gets through a frame.
-/

namespace MqBroker

/-- A payload behind the token of a client, if it has one. -/
def clientPayload (token payload : Bytes) : Bytes :=
  if token = [] then payload else put16 (UInt16.ofNat token.length) ++ (token ++ payload)

/-- The request that `Call` and `SendWithoutResponse` put into a frame. -/
def clientCall (token : Bytes) (requestId : UInt64) (request : Request) : Option Request :=
  if token = [] then some { request with requestId := requestId }
  else if token.length > 65535 then none
  else some
    { request with
      requestId := requestId
      flags := request.flags ||| flagAuthentication
      payload := clientPayload token request.payload }

/-! ## The token -/

theorem clientPayload_of_ne {token : Bytes} (h : token ≠ []) (payload : Bytes) :
    clientPayload token payload = put16 (UInt16.ofNat token.length) ++ (token ++ payload) :=
  if_neg h

/-- Behind the token is the payload. -/
theorem drop_clientPayload {token : Bytes} (h : token ≠ []) (payload : Bytes) :
    (clientPayload token payload).drop (2 + token.length) = payload := by
  rw [clientPayload_of_ne h, ← List.append_assoc,
    show 2 + token.length = (put16 (UInt16.ofNat token.length) ++ token).length by
      rw [List.length_append, length_put16],
    List.drop_left]

/-- What a broker accepts from a client is without the token, and not from
    another broker. -/
theorem validateClientAuth_payload {token payload : Bytes} {request normalized : Request}
    (hpayload : request.payload = clientPayload token payload)
    (h : validateClientAuth token request = some normalized) :
    normalized.payload = payload ∧ normalized.hasFlag flagReplication = false := by
  simp only [validateClientAuth] at h
  split at h
  · cases h
  · rename_i hflag
    rw [Bool.not_eq_true] at hflag
    split at h
    · rename_i htoken
      split at h
      · cases h
      · cases h
        rw [hpayload, clientPayload, if_pos htoken]
        exact ⟨rfl, hflag⟩
    · rename_i htoken
      split at h
      · cases h
      · split at h
        · cases h
        · rename_i hchecks
          cases h
          rw [not_or, not_not] at hchecks
          refine ⟨?_, ?_⟩
          · rw [← drop_clientPayload htoken payload, ← hpayload, ← hchecks.1]
          · -- The flag of tokens is another one.
            simp only [Request.hasFlag, ne_eq, decide_eq_false_iff_not, not_not] at hflag ⊢
            rw [UInt16.and_assoc, UInt16.and_comm (~~~flagAuthentication), ← UInt16.and_assoc,
              hflag, UInt16.zero_and]

/-! ## A call -/

/-- The flags of the requests of the SDK: producer metadata with one of three
    acknowledgement levels, or nothing. -/
def clientFlags : List UInt16 :=
  [0, flagProducerMetadata, flagProducerMetadata ||| 1, flagProducerMetadata ||| 2]

/-- A request that is none between brokers, with flags that go together, only
    has to have the token. -/
theorem acceptRequest_client (b : Broker) (token : Bytes) (request : Request)
    (hversion : request.version = currentVersion)
    (hcommand : request.command ∉ [.replicaFetch, .replicaAppend, .replicaVote])
    (hknown : request.flags &&& ~~~knownFlags = 0) (hack : request.flags &&& ackMask ≠ ackMask)
    (hreplication : request.flags &&& flagReplication = 0) :
    b.acceptRequest token request = validateClientAuth token request := by
  have hflag : request.hasFlag flagReplication = false := by
    rw [Request.hasFlag, decide_eq_false_iff_not, not_not]
    exact hreplication
  have hkind : ¬ (request.isReplication = true ∨ request.hasFlag flagReplication = true) := by
    simp only [List.mem_cons, List.not_mem_nil, or_false, not_or] at hcommand
    simp only [Request.isReplication, hflag, hcommand, Bool.false_eq_true, and_false, or_self,
      decide_false, not_false_eq_true]
  rw [Broker.acceptRequest, if_neg (not_not.mpr hversion),
    if_neg (not_or.mpr ⟨not_not.mpr hknown, hack⟩),
    if_neg (fun h => absurd (hflag.symm.trans h.1) Bool.false_ne_true), if_neg hkind]

/-- The right token is taken away. -/
theorem validateClientAuth_token {token payload : Bytes} (request : Request)
    (htoken : token ≠ []) (hsize : token.length ≤ 65535)
    (hreplication : request.flags &&& flagReplication = 0)
    (hauth : request.flags &&& flagAuthentication ≠ 0)
    (hpayload : request.payload = clientPayload token payload) :
    validateClientAuth token request
      = some { request with
          flags := request.flags &&& ~~~flagAuthentication
          payload := payload } := by
  have hlength : (get16 request.payload 0).toNat = token.length := by
    rw [hpayload, clientPayload_of_ne htoken, get16_put16, UInt16.toNat_ofNat']
    exact Nat.mod_eq_of_lt (by omega)
  have htotal : 2 + token.length ≤ request.payload.length := by
    rw [hpayload, clientPayload_of_ne htoken, List.length_append, List.length_append, length_put16]
    omega
  have hsub : substr request.payload 2 token.length = token := by
    rw [hpayload, clientPayload_of_ne htoken,
      substr_append_right _ _ _ _ (by rw [length_put16]), length_put16]
    exact substr_append_left _ _ _ rfl
  have hrest : request.payload.drop (2 + token.length) = payload := by
    rw [hpayload, drop_clientPayload htoken]
  simp only [validateClientAuth, Request.hasFlag, hreplication, hauth, ne_eq, not_true_eq_false,
    decide_false, Bool.false_eq_true, if_false, htoken, hlength, hsub, hrest, not_false_eq_true,
    decide_true, false_or, or_false]
  rw [if_neg (by omega), if_neg (by omega)]

/-- A broker with the token of the client accepts its requests, and hands them
    on as the client has made them. -/
theorem acceptRequest_clientCall {token : Bytes} {requestId : UInt64} {request sent : Request}
    (b : Broker) (hversion : request.version = currentVersion)
    (hcommand : request.command ∉ [.replicaFetch, .replicaAppend, .replicaVote])
    (hflags : request.flags ∈ clientFlags) (h : clientCall token requestId request = some sent) :
    b.acceptRequest token sent = some { request with requestId := requestId } := by
  have hall : ∀ flags ∈ clientFlags,
      (flags &&& ~~~knownFlags = 0 ∧ flags &&& ackMask ≠ ackMask ∧ flags &&& flagReplication = 0 ∧
        flags &&& flagAuthentication = 0) ∧
      (flags ||| flagAuthentication) &&& ~~~knownFlags = 0 ∧
      (flags ||| flagAuthentication) &&& ackMask ≠ ackMask ∧
      (flags ||| flagAuthentication) &&& flagReplication = 0 ∧
      (flags ||| flagAuthentication) &&& flagAuthentication ≠ 0 ∧
      (flags ||| flagAuthentication) &&& ~~~flagAuthentication = flags := by
    intro flags hmem
    simp only [clientFlags, List.mem_cons, List.not_mem_nil, or_false] at hmem
    rcases hmem with rfl | rfl | rfl | rfl <;> decide
  rcases hall request.flags hflags with
    ⟨⟨hknown, hack, hreplication, hauth⟩, hknown', hack', hreplication', hauth', hback⟩
  rw [clientCall] at h
  split at h
  · rename_i htoken
    cases h
    refine (acceptRequest_client b token { request with requestId := requestId } hversion hcommand
      hknown hack hreplication).trans ?_
    simp only [validateClientAuth, Request.hasFlag, hreplication, hauth, ne_eq, not_true_eq_false,
      decide_false, Bool.false_eq_true, if_false, htoken, if_true]
  · rename_i htoken
    split at h
    · cases h
    · rename_i hsize
      cases h
      refine (acceptRequest_client b token
        { request with
          requestId := requestId
          flags := request.flags ||| flagAuthentication
          payload := clientPayload token request.payload }
        hversion hcommand hknown' hack' hreplication').trans ?_
      refine (validateClientAuth_token _ htoken (not_lt.mp hsize) hreplication' hauth' rfl).trans ?_
      simp only [hback]

/-- What a client sends gets through a frame, if it fits into one. -/
theorem request_frame (sent : Request) (hversion : sent.version = currentVersion)
    (htopic : sent.topic.length ≤ 65535) (hpayload : sent.payload.length ≤ maxPayloadBytes) :
    ∃ frame, encodeRequest sent.raw = .ok frame ∧ decodeRequest frame = .ok sent.raw ∧
      Command.ofCode sent.raw.command = some sent.command ∧ sent.raw.request sent.command = sent :=
  let legal : LegalRequest :=
    { sent.raw with current := hversion, topicSize := htopic, payloadSize := hpayload }
  ⟨_, encodeRequest_legal legal, decodeRequest_requestFrame legal, ofCode_code sent.command, rfl⟩

end MqBroker
