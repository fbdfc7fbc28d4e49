import MqBroker.Lib.Incremental
import MqBroker.Protocol.Codec

/-!
# Streams of Responses

How a client of the SDK takes responses off a connection. `Call` receives a header
of eighteen bytes, looks at the length of the payload in it, receives as many bytes
again, and decodes both together. It is written with calls that wait for a number
of bytes. Here it is a function of the bytes that have arrived, so that it can be
said what they are.

The magic number is not looked at before the payload is there. But a length that is
too large is refused with the header, and neither judgement depends on what
follows.

## Main definitions

* `nextResponse`: What is at the front of the bytes that have arrived.

## Theorems

* `nextResponse_incremental`: Responses do not depend on what follows.
* `nextResponse_frame`: A frame is the response it was made of.
* `nextResponse_item`: What is taken off is the frame of the response.
-/

namespace MqBroker

/-- Why `Call` closes the connection after a response has arrived. -/
inductive ResponseError
  | payloadTooLarge
  | decode (e : CodecError)
deriving DecidableEq, Repr

/-- The texts that `Call` reports. -/
def ResponseError.text : ResponseError → String
  | payloadTooLarge => "response payload too large"
  | decode e => e.text

/-- The length of the frame that a header announces. -/
def responseSize (buffer : Bytes) : Nat := 18 + (get32 buffer 14).toNat

/-- The part of `Call` that receives a response. -/
def nextResponse (buffer : Bytes) : Front UInt8 RawResponse ResponseError :=
  if buffer.length < 18 then .more
  else if (get32 buffer 14).toNat > maxPayloadBytes then .bad .payloadTooLarge
  else if buffer.length < responseSize buffer then .more
  else
    match decodeResponse (buffer.take (responseSize buffer)) with
    | .error e => .bad (.decode e)
    | .ok response => .item response (buffer.drop (responseSize buffer))

section Responses

variable {buffer : Bytes}

theorem responseSize_append (hheader : 18 ≤ buffer.length) (more : Bytes) :
    get32 (buffer ++ more) 14 = get32 buffer 14 ∧
      responseSize (buffer ++ more) = responseSize buffer := by
  have hlength : get32 (buffer ++ more) 14 = get32 buffer 14 :=
    get32_append_left _ _ _ (by omega)
  exact ⟨hlength, by rw [responseSize, hlength, responseSize]⟩

/-- What a whole frame is does not depend on what follows. -/
theorem nextResponse_append (hheader : 18 ≤ buffer.length)
    (hwhole : (get32 buffer 14).toNat > maxPayloadBytes ∨ responseSize buffer ≤ buffer.length)
    (more : Bytes) :
    nextResponse (buffer ++ more) =
      match nextResponse buffer with
      | .more => .more
      | .bad e => .bad e
      | .item response rest => .item response (rest ++ more) := by
  obtain ⟨hlength, hsize⟩ := responseSize_append hheader more
  have hlonger : ¬ (buffer ++ more).length < 18 := by
    rw [List.length_append]
    omega
  simp only [nextResponse]
  rw [if_neg hlonger, if_neg (not_lt.mpr hheader), hlength]
  by_cases hlarge : (get32 buffer 14).toNat > maxPayloadBytes
  · rw [if_pos hlarge, if_pos hlarge]
  · have henough := hwhole.resolve_left hlarge
    have henough' : ¬ (buffer ++ more).length < responseSize buffer := by
      rw [List.length_append]
      omega
    rw [if_neg hlarge, if_neg hlarge, hsize, if_neg henough', if_neg (not_lt.mpr henough),
      List.take_append_of_le_length henough, List.drop_append_of_le_length henough]
    cases decodeResponse (buffer.take (responseSize buffer)) with
    | error e => rfl
    | ok response => rfl

/-- There is an answer when the header and what it announces are there. -/
theorem whole_of_nextResponse (h : nextResponse buffer ≠ .more) :
    18 ≤ buffer.length ∧
      ((get32 buffer 14).toNat > maxPayloadBytes ∨ responseSize buffer ≤ buffer.length) := by
  simp only [nextResponse] at h
  split_ifs at h with hheader hlarge hwhole
  · exact absurd rfl h
  · exact ⟨not_lt.mp hheader, Or.inl hlarge⟩
  · exact absurd rfl h
  · exact ⟨not_lt.mp hheader, Or.inr (not_lt.mp hwhole)⟩

/-- Responses do not depend on what follows. -/
theorem nextResponse_incremental : Incremental nextResponse where
  shorter := by
    intro l response rest h
    have hsome : nextResponse l ≠ .more := by
      rw [h]
      rintro ⟨⟩
    obtain ⟨hheader, -⟩ := whole_of_nextResponse hsome
    simp only [nextResponse] at h
    split_ifs at h with hshort hlarge hwhole
    split at h
    · cases h
    · cases h
      rw [List.length_drop]
      have hpos : 0 < responseSize l := by
        rw [responseSize]
        omega
      omega
  item := by
    intro l response rest more h
    have hsome : nextResponse l ≠ .more := by
      rw [h]
      rintro ⟨⟩
    obtain ⟨hheader, hwhole⟩ := whole_of_nextResponse hsome
    rw [nextResponse_append hheader hwhole, h]
  bad := by
    intro l e more h
    have hsome : nextResponse l ≠ .more := by
      rw [h]
      rintro ⟨⟩
    obtain ⟨hheader, hwhole⟩ := whole_of_nextResponse hsome
    rw [nextResponse_append hheader hwhole, h]

theorem nextResponse_nil : nextResponse [] = .more := rfl

/-- A frame is the response it was made of. -/
theorem nextResponse_frame {response : RawResponse} {frame : Bytes}
    (h : encodeResponse response = .ok frame) : nextResponse frame = .item response [] := by
  obtain ⟨hlength, hdecode⟩ := decodeResponse_encodeResponse h
  have hsize : responseSize frame = frame.length := hlength.symm
  have hmax : (get32 frame 14).toNat ≤ maxPayloadBytes := by
    have hvalid := hdecode
    simp only [decodeResponse] at hvalid
    split at hvalid
    · cases hvalid
    · split at hvalid
      · cases hvalid
      · rename_i hnone
        exact (validCommon_none hnone).2.1
  simp only [nextResponse]
  rw [if_neg (by omega), if_neg (not_lt.mpr hmax), hsize, if_neg (Nat.lt_irrefl _),
    List.take_length, hdecode, List.drop_length]

/-- What is taken off the front is the frame of the response, and it could have come
    alone. -/
theorem nextResponse_item {rest : Bytes} {response : RawResponse}
    (h : nextResponse buffer = .item response rest) :
    buffer = responseFrame response ++ rest ∧
      nextResponse (responseFrame response) = .item response [] := by
  have hsplit : buffer = responseFrame response ++ rest ∧
      18 ≤ (responseFrame response).length ∧
      (responseFrame response).length = responseSize buffer := by
    simp only [nextResponse] at h
    split_ifs at h with hheader hlarge hwhole
    split at h
    · cases h
    · rename_i decoded hdecode
      injection h with hresponse hrest
      subst hresponse hrest
      rw [(responseFrame_decodeResponse hdecode).2.2, List.length_take]
      refine ⟨(List.take_append_drop _ _).symm, ?_, ?_⟩ <;> unfold responseSize at * <;> omega
  obtain ⟨rfl, hheader, hsize⟩ := hsplit
  refine ⟨rfl, ?_⟩
  rw [(responseSize_append hheader rest).2] at hsize
  rw [nextResponse_append hheader (Or.inr hsize.ge)] at h
  split at h
  · cases h
  · cases h
  · rename_i response' rest' hnext
    injection h with hresponse hrest
    rw [hnext, hresponse, List.self_eq_append_left.mp hrest.symm]

end Responses

end MqBroker
