import MqBroker.Client.Requests

/-!
# Message Sizes

What the checks of a producer on its messages are worth at the frame.

A producer looks at each message for itself: the key has at most 65535 bytes,
and the value from 1 to 1048576. The limit of a frame is on the payload as a
whole, and has the size of the largest value. In front of the message there are
the token and the fields of the request, so that a value close to its limit
never gets into a frame, and a batch is far above the limit with a few messages
that are well below theirs. A request without a frame is not sent. `Call` takes
it for a failed connection and tries again until its time is up.

## Main definitions

* `MqProducer.setAuthToken`: The token of a producer.
* `clientTokenSize`: What the token takes of a payload.
* `EncodesCall`: A request gets into a frame.

## Theorems

* `encodesCall_iff`: Only the size of the payload counts.
* `produce_encodes_iff`: Which messages and batches get into a frame.
-/

namespace MqBroker

/-- `setAuthToken`: a token that is too long is not taken. -/
def MqProducer.setAuthToken (authToken token : Bytes) : Bytes :=
  if token.length > 65535 then authToken else token

/-- The bytes in front of a payload that are there for the token of a client. -/
def clientTokenSize (token : Bytes) : Nat := if token = [] then 0 else 2 + token.length

/-- `EncodeRequest` accepts what the client makes of a request. -/
def EncodesCall (token : Bytes) (requestId : UInt64) (request : Request) : Prop :=
  ∃ sent frame, clientCall token requestId request = some sent ∧ encodeRequest sent.raw = .ok frame

theorem clientPayload_length (token payload : Bytes) :
    (clientPayload token payload).length = clientTokenSize token + payload.length := by
  unfold clientPayload clientTokenSize
  split
  · exact (Nat.zero_add _).symm
  · rw [List.length_append, List.length_append, length_put16]
    omega

theorem setAuthToken_length {authToken : Bytes} (token : Bytes) (h : authToken.length ≤ 65535) :
    (MqProducer.setAuthToken authToken token).length ≤ 65535 := by
  unfold MqProducer.setAuthToken
  split
  · exact h
  · rename_i hsize
    exact not_lt.mp hsize

/-- A request is accepted if its payload fits behind the token. -/
theorem encodesCall_iff {token : Bytes} {requestId : UInt64} {request : Request}
    (htoken : token.length ≤ 65535) (hversion : request.version = currentVersion)
    (htopic : request.topic.length ≤ 65535) :
    EncodesCall token requestId request ↔
      clientTokenSize token + request.payload.length ≤ maxPayloadBytes := by
  rw [← clientPayload_length]
  constructor
  · rintro ⟨sent, frame, hsent, hframe⟩
    -- With a token and without one, this is the payload that is sent.
    have hpayload : sent.payload = clientPayload token request.payload := by
      rw [clientCall] at hsent
      split at hsent
      · rename_i hempty
        cases hsent
        rw [clientPayload, if_pos hempty]
      · split at hsent
        · cases hsent
        · cases hsent
          rfl
    rw [← hpayload]
    by_contra hsize
    simp only [encodeRequest, Request.raw, gt_iff_lt] at hframe
    rw [if_pos (not_le.mp hsize), ite_self] at hframe
    split at hframe <;> cases hframe
  · intro hsize
    by_cases hempty : token = []
    · rw [clientPayload, if_pos hempty] at hsize
      rcases request_frame { request with requestId := requestId } hversion htopic hsize with
        ⟨frame, hframe, _⟩
      exact ⟨_, frame, by rw [clientCall, if_pos hempty], hframe⟩
    · rcases request_frame
        { request with
          requestId := requestId
          flags := request.flags ||| flagAuthentication
          payload := clientPayload token request.payload } hversion htopic hsize with
        ⟨frame, hframe, _⟩
      exact ⟨_, frame, by rw [clientCall, if_neg hempty, if_neg (not_lt.mpr htoken)], hframe⟩

/-- Which of the messages and batches that pass the checks of a producer get
    into a frame: those that fit, with the fields of the request and the
    token. -/
theorem produce_encodes_iff (authToken token topic : Bytes) (producerId sequence requestId : UInt64)
    (ack : AckMode) (htopic : topic.length ≤ 64) (hauth : authToken.length ≤ 65535) :
    let sdkToken := MqProducer.setAuthToken authToken token
    (∀ message request, MqProducer.produce topic producerId sequence message ack = some request →
      (EncodesCall sdkToken requestId request ↔
        clientTokenSize sdkToken + (26 + message.key.length + message.value.length)
          ≤ maxPayloadBytes)) ∧
    ∀ messages request,
      MqProducer.produceBatch topic producerId sequence messages ack = some request →
      (EncodesCall sdkToken requestId request ↔
        clientTokenSize sdkToken + (20 + (messages.map (fun message =>
          6 + message.key.length + message.value.length)).sum) ≤ maxPayloadBytes) := by
  intro sdkToken
  have htoken : sdkToken.length ≤ 65535 := setAuthToken_length token hauth
  clear_value sdkToken
  refine ⟨fun message request hrequest => ?_, fun messages request hrequest => ?_⟩
  · rw [MqProducer.produce, Option.ite_none_left_eq_some, Option.some.injEq] at hrequest
    rcases hrequest with ⟨_, rfl⟩
    rw [encodesCall_iff htoken rfl (htopic.trans (by decide))]
    simp only [List.length_append, length_put64, length_put32, length_encodeItem]
    omega
  · rw [MqProducer.produceBatch, Option.ite_none_left_eq_some, Option.ite_none_left_eq_some,
      Option.some.injEq] at hrequest
    rcases hrequest with ⟨_, _, rfl⟩
    rw [encodesCall_iff htoken rfl (htopic.trans (by decide))]
    simp only [List.length_append, length_put64, length_put32, length_items]
    omega

/-- A message of one byte, and a batch of two of them, with a token. -/
theorem produce_encodes_small :
    let sdkToken := MqProducer.setAuthToken [] [7, 7]
    (∀ request, MqProducer.produce [116] 1 0 { value := [1] } .one = some request →
      (EncodesCall sdkToken 5 request ↔ 4 + (26 + 0 + 1) ≤ maxPayloadBytes)) ∧
    ∀ request, MqProducer.produceBatch [116] 1 0 [{ value := [1] }, { value := [2] }] .one
        = some request →
      (EncodesCall sdkToken 5 request ↔ 4 + (20 + (7 + (7 + 0))) ≤ maxPayloadBytes) := by
  rcases produce_encodes_iff [] [7, 7] [116] 1 0 5 .one (by decide) (by decide) with
    ⟨hsingle, hbatch⟩
  exact ⟨hsingle { value := [1] }, hbatch [{ value := [1] }, { value := [2] }]⟩

/-- The largest value that a producer takes never gets into a frame. -/
theorem largest_value_refused : ∃ request,
    MqProducer.produce [116] 1 0 { value := List.replicate 1048576 0 } .one = some request ∧
      ¬ EncodesCall [] 5 request := by
  have hsendable : ({ value := List.replicate 1048576 0 } : ProducerMessage).sendable = true := by
    rw [sendable_iff]
    refine ⟨Nat.zero_le _, ?_, ?_⟩
    · rw [Ne, List.replicate_eq_nil_iff]
      exact nofun
    · rw [List.length_replicate]
  refine ⟨_, if_neg (not_or.mpr ⟨not_not.mpr hsendable, by decide⟩), fun hencodes => ?_⟩
  rw [encodesCall_iff (by decide) rfl (by decide)] at hencodes
  simp only [List.length_append, length_put64, length_put32, length_encodeItem,
    List.length_replicate, maxPayloadBytes] at hencodes
  omega

end MqBroker
