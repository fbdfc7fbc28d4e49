import MqBroker.Broker.Protocol

/-!
# The Frame Codec

Requests and responses as frames, the byte strings that go over a connection.

A frame of a request starts with the magic number, version, command, request id
and flags. The topic follows with its length in front, then the payload in the
same way. A frame of a response has a status for the command and no topic. The
length of the payload has to be exactly what is left of the frame, so there is
one frame for every message that fits, and one message for every frame.

Command and status are bytes here. The decoder takes any byte for a command,
and it is the broker that refuses one it does not know.

## Main definitions

* `RawRequest`, `RawResponse`: What a frame holds.
* `encodeRequest`, `decodeRequest`: Frames of requests.
* `encodeResponse`, `decodeResponse`: Frames of responses.
* `LegalRequest`, `LegalResponse`: What fits into a frame.

## Theorems

* `decodeRequest_requestFrame`, `requestFrame_decodeRequest`: Requests and their
  frames.
* `decodeResponse_responseFrame`, `responseFrame_decodeResponse`: Responses and
  their frames.
* `codec_round_trip`: Encoding and decoding undo each other.
-/

namespace MqBroker

/-! ## Codes -/

/-- The byte of a command. -/
def Command.code : Command → UInt8
  | .createTopic => 0x01
  | .deleteTopic => 0x02
  | .listTopic => 0x03
  | .metrics => 0x04
  | .produce => 0x10
  | .produceBatch => 0x11
  | .syncGroup => 0x20
  | .offsetFetch => 0x21
  | .fetch => 0x22
  | .commitOffset => 0x23
  | .joinGroup => 0x24
  | .heartbeat => 0x30
  | .replicaFetch => 0x40
  | .replicaAppend => 0x41
  | .replicaVote => 0x42

/-- The byte of a status. -/
def Status.code : Status → UInt8
  | .ok => 0x00
  | .badRequest => 0x10
  | .unknownTopic => 0x11
  | .topicExists => 0x12
  | .invalidOffset => 0x13
  | .storageError => 0x14
  | .versionMismatch => 0x15
  | .notSupported => 0x16
  | .notLeader => 0x17
  | .rateLimited => 0x18
  | .quotaExceeded => 0x19
  | .resourceExhausted => 0x1A
  | .unauthenticated => 0x1B
  | .permissionDenied => 0x1C
  | .internalError => 0x20

/-- A request as a frame holds it. -/
structure RawRequest where
  version : UInt8 := currentVersion
  command : UInt8
  requestId : UInt64 := 0
  flags : UInt16 := 0
  topic : Bytes := []
  payload : Bytes := []
deriving DecidableEq, Repr

/-- A response as a frame holds it. -/
structure RawResponse where
  version : UInt8 := currentVersion
  status : UInt8
  requestId : UInt64 := 0
  flags : UInt16 := 0
  payload : Bytes := []
deriving DecidableEq, Repr

/-- A request of the broker in a frame. -/
def Request.raw (r : Request) : RawRequest :=
  ⟨r.version, r.command.code, r.requestId, r.flags, r.topic, r.payload⟩

/-- A response of the broker in a frame. -/
def Response.raw (r : Response) : RawResponse :=
  ⟨r.version, r.status.code, r.requestId, r.flags, r.payload⟩

/-! ## Encoding and decoding -/

/-- Why a message has no frame, or a frame no message. -/
inductive CodecError
  | wrongVersion
  | fieldTooLarge
  | requestTruncated
  | topicTruncated
  | responseTruncated
  | invalidHeader
  | invalidPayloadLength
deriving DecidableEq, Repr

/-- The texts the codec reports. A wrong version and a short response are
    refused without one. -/
def CodecError.text : CodecError → String
  | wrongVersion => ""
  | fieldTooLarge => "field is too large"
  | requestTruncated => "request header is truncated"
  | topicTruncated => "request topic header is truncated"
  | responseTruncated => ""
  | invalidHeader => "invalid magic or header"
  | invalidPayloadLength => "invalid payload length"

/-- `kMagic`: the letters `MQ`. -/
def magic : UInt16 := 0x4D51

/-- The fields that frames of both kinds start with. -/
def frameStart (version code : UInt8) (requestId : UInt64) (flags : UInt16) : Bytes :=
  put16 magic ++ ([version, code] ++ (put64 requestId ++ put16 flags))

/-- What `EncodeRequest` writes. -/
def requestFrame (r : RawRequest) : Bytes :=
  frameStart r.version r.command r.requestId r.flags ++
    (put16 (UInt16.ofNat r.topic.length) ++ (r.topic ++
      (put32 (UInt32.ofNat r.payload.length) ++ r.payload)))

/-- `EncodeRequest`. -/
def encodeRequest (r : RawRequest) : Except CodecError Bytes :=
  if r.version ≠ currentVersion then .error .wrongVersion
  else if r.topic.length > 65535 then .error .fieldTooLarge
  else if r.payload.length > maxPayloadBytes then .error .fieldTooLarge
  else .ok (requestFrame r)

/-- What `EncodeResponse` writes. -/
def responseFrame (r : RawResponse) : Bytes :=
  frameStart r.version r.status r.requestId r.flags ++
    (put32 (UInt32.ofNat r.payload.length) ++ r.payload)

/-- `EncodeResponse`. -/
def encodeResponse (r : RawResponse) : Except CodecError Bytes :=
  if r.version ≠ currentVersion then .error .wrongVersion
  else if r.payload.length > maxPayloadBytes then .error .fieldTooLarge
  else .ok (responseFrame r)

/-- `ValidCommon`: what is wrong with a frame, if anything is. -/
def validCommon (frame : Bytes) (header payloadOffset payloadLen : Nat) : Option CodecError :=
  if frame.length < header ∨ get16 frame 0 ≠ magic then some .invalidHeader
  else if payloadLen > maxPayloadBytes ∨ payloadLen ≠ frame.length - payloadOffset then
    some .invalidPayloadLength
  else none

/-- `DecodeRequest`. -/
def decodeRequest (frame : Bytes) : Except CodecError RawRequest :=
  if frame.length < 20 then .error .requestTruncated
  else
    let topicLen := (get16 frame 14).toNat
    let payloadLengthOffset := 16 + topicLen
    let payloadOffset := payloadLengthOffset + 4
    if payloadOffset > frame.length then .error .topicTruncated
    else
      match validCommon frame payloadOffset payloadOffset
        (get32 frame payloadLengthOffset).toNat with
      | some e => .error e
      | none =>
          .ok
            { version := frame.getD 2 0
              command := frame.getD 3 0
              requestId := get64 frame 4
              flags := get16 frame 12
              topic := substr frame 16 topicLen
              payload := frame.drop payloadOffset }

/-- `DecodeResponse`. -/
def decodeResponse (frame : Bytes) : Except CodecError RawResponse :=
  if frame.length < 18 then .error .responseTruncated
  else
    match validCommon frame 18 18 (get32 frame 14).toNat with
    | some e => .error e
    | none =>
        .ok
          { version := frame.getD 2 0
            status := frame.getD 3 0
            requestId := get64 frame 4
            flags := get16 frame 12
            payload := frame.drop 18 }

/-- A request that fits into a frame. -/
structure LegalRequest extends RawRequest where
  current : version = currentVersion
  topicSize : topic.length ≤ 65535
  payloadSize : payload.length ≤ maxPayloadBytes

/-- A response that fits into a frame. -/
structure LegalResponse extends RawResponse where
  current : version = currentVersion
  payloadSize : payload.length ≤ maxPayloadBytes

/-! ## The start of a frame -/

section Start

variable (version code : UInt8) (requestId : UInt64) (flags : UInt16)

@[simp] theorem length_frameStart : (frameStart version code requestId flags).length = 14 := by
  simp only [frameStart, List.length_append, length_put16, length_put64, List.length_cons,
    List.length_nil]

/-- The fields of the start are read back, whatever follows. -/
theorem read_frameStart (rest : Bytes) :
    get16 (frameStart version code requestId flags ++ rest) 0 = magic ∧
      (frameStart version code requestId flags ++ rest).getD 2 0 = version ∧
      (frameStart version code requestId flags ++ rest).getD 3 0 = code ∧
      get64 (frameStart version code requestId flags ++ rest) 4 = requestId ∧
      get16 (frameStart version code requestId flags ++ rest) 12 = flags := by
  rw [frameStart]
  simp only [List.append_assoc]
  refine ⟨get16_put16 _ _, rfl, rfl, ?_, ?_⟩
  · rw [get64_append_right _ _ _ (by rw [length_put16]; omega), length_put16,
      get64_append_right _ _ _ (by rw [List.length_cons, List.length_singleton])]
    exact get64_put64 _ _
  · rw [get16_append_right _ _ _ (by rw [length_put16]; omega), length_put16,
      get16_append_right _ _ _ (by simp only [List.length_cons, List.length_nil]; omega),
      get16_append_right _ _ _ (by rw [length_put64]; exact le_refl 8), length_put64]
    exact get16_put16 _ _

/-- The fields that are read from a frame are the ones it starts with. -/
theorem frameStart_read (frame : Bytes) (hsize : 14 ≤ frame.length)
    (hmagic : get16 frame 0 = magic) :
    frameStart (frame.getD 2 0) (frame.getD 3 0) (get64 frame 4) (get16 frame 12)
      ++ frame.drop 14 = frame := by
  have htwo : [frame.getD 2 0, frame.getD 3 0] ++ frame.drop 4 = frame.drop 2 := by
    rw [List.drop_eq_getElem_cons (show 2 < frame.length by omega),
      List.drop_eq_getElem_cons (show 3 < frame.length by omega), List.getD_eq_getElem?_getD,
      List.getD_eq_getElem?_getD, List.getElem?_eq_getElem (show 2 < frame.length by omega),
      List.getElem?_eq_getElem (show 3 < frame.length by omega)]
    rfl
  rw [frameStart, ← hmagic, put16_get16 _ _ (by omega), put64_get64 _ _ (by omega),
    put16_get16 _ _ (by omega)]
  simp only [List.append_assoc]
  rw [substr_append_drop frame 12 2, substr_append_drop frame 4 8, htwo, substr_append_drop frame 0 2,
    List.drop_zero]

end Start

/-! ## Requests -/

theorem length_requestFrame (r : RawRequest) :
    (requestFrame r).length = 20 + r.topic.length + r.payload.length := by
  simp only [requestFrame, List.length_append, length_frameStart, length_put16, length_put32]
  omega

/-- The lengths in a frame. -/
theorem read_requestFrame (r : LegalRequest) :
    (get16 (requestFrame r.toRawRequest) 14).toNat = r.topic.length ∧
      (get32 (requestFrame r.toRawRequest) (16 + r.topic.length)).toNat = r.payload.length := by
  have htopic := r.topicSize
  have hpayload := r.payloadSize
  rw [maxPayloadBytes] at hpayload
  rw [requestFrame]
  constructor
  · rw [get16_append_right _ _ _ (by rw [length_frameStart]), length_frameStart, Nat.sub_self,
      get16_put16, UInt16.toNat_ofNat', Nat.mod_eq_of_lt (by omega)]
  · rw [get32_append_right _ _ _ (by rw [length_frameStart]; omega), length_frameStart,
      get32_append_right _ _ _ (by rw [length_put16]; omega), length_put16,
      get32_append_right _ _ _ (by omega),
      show 16 + r.topic.length - 14 - 2 - r.topic.length = 0 by omega, get32_put32,
      UInt32.toNat_ofNat', Nat.mod_eq_of_lt (by omega)]

/-- A frame holds the request it was made of. -/
theorem decodeRequest_requestFrame (r : LegalRequest) :
    decodeRequest (requestFrame r.toRawRequest) = .ok r.toRawRequest := by
  rcases read_requestFrame r with ⟨htopic, hpayload⟩
  have hlength := length_requestFrame r.toRawRequest
  have hstart := read_frameStart r.version r.command r.requestId r.flags
    (put16 (UInt16.ofNat r.topic.length) ++ (r.topic ++
      (put32 (UInt32.ofNat r.payload.length) ++ r.payload)))
  rw [← requestFrame] at hstart
  rcases hstart with ⟨hmagic, hversion, hcommand, hid, hflags⟩
  have hsize := r.payloadSize
  have hfields : substr (requestFrame r.toRawRequest) 16 r.topic.length = r.topic ∧
      (requestFrame r.toRawRequest).drop (16 + r.topic.length + 4) = r.payload := by
    rw [requestFrame, ← List.append_assoc]
    constructor
    · rw [substr_append_right _ _ _ _ (by simp), List.length_append, length_frameStart, length_put16,
        Nat.sub_self, substr_append_left _ _ _ rfl]
    · rw [← List.append_assoc, ← List.append_assoc]
      refine List.drop_left' ?_
      simp only [List.length_append, length_frameStart, length_put16, length_put32]
  have hvalid : validCommon (requestFrame r.toRawRequest) (16 + r.topic.length + 4)
      (16 + r.topic.length + 4) r.payload.length = none := by
    rw [validCommon, if_neg (by rw [hmagic]; simp; omega), if_neg (by omega)]
  simp only [decodeRequest, htopic, hpayload, hversion, hcommand, hid, hflags, hvalid, hfields]
  rw [if_neg (by omega), if_neg (by omega)]

theorem validCommon_none {frame : Bytes} {header payloadOffset payloadLen : Nat}
    (h : validCommon frame header payloadOffset payloadLen = none) :
    get16 frame 0 = magic ∧ payloadLen ≤ maxPayloadBytes ∧
      payloadLen = frame.length - payloadOffset := by
  unfold validCommon at h
  split at h
  · cases h
  · rename_i hheader
    split at h
    · cases h
    · rename_i hlength
      rw [not_or, not_not] at hheader hlength
      exact ⟨hheader.2, not_lt.mp hlength.1, hlength.2⟩

/-- A request that was decoded fits into a frame, and the frame it was decoded
    from is its own. -/
theorem requestFrame_decodeRequest {frame : Bytes} {r : RawRequest}
    (h : decodeRequest frame = .ok r) :
    frame[2]? = some r.version ∧ r.topic.length ≤ 65535 ∧ r.payload.length ≤ maxPayloadBytes ∧
      requestFrame r = frame := by
  simp only [decodeRequest] at h
  split at h
  · cases h
  · rename_i hheader
    split at h
    · cases h
    · rename_i hroom
      split at h
      · cases h
      · rename_i hvalid
        rcases validCommon_none hvalid with ⟨hmagic, hmax, hlength⟩
        rw [← Except.ok.inj h]
        have hsmall := (get16 frame 14).toNat_lt
        generalize hcount : (get16 frame 14).toNat = count at *
        have htopic : (substr frame 16 count).length = count := by
          rw [substr, List.length_take, List.length_drop]
          omega
        have hpayload : (frame.drop (16 + count + 4)).length
            = (get32 frame (16 + count)).toNat := by
          rw [List.length_drop, hlength]
        refine ⟨?_, ?_, ?_, ?_⟩
        · simp only [List.getD_eq_getElem?_getD]
          rw [List.getElem?_eq_getElem (show 2 < frame.length by omega), Option.getD_some]
        · simp only [htopic]
          omega
        · simp only [hpayload]
          exact hmax
        · have htopicField : UInt16.ofNat (substr frame 16 count).length = get16 frame 14 := by
            rw [htopic, ← hcount, UInt16.ofNat_toNat]
          have hpayloadField : UInt32.ofNat (frame.drop (16 + count + 4)).length
              = get32 frame (16 + count) := by
            rw [hpayload, UInt32.ofNat_toNat]
          simp only [requestFrame, htopicField, hpayloadField]
          rw [put32_get32 _ _ (by omega), substr_append_drop frame (16 + count) 4,
            substr_append_drop frame 16 count, put16_get16 _ _ (by omega),
            substr_append_drop frame 14 2, frameStart_read frame (by omega) hmagic]

/-! ## Responses -/

/-- A frame holds the response it was made of. -/
theorem decodeResponse_responseFrame (r : LegalResponse) :
    decodeResponse (responseFrame r.toRawResponse) = .ok r.toRawResponse := by
  have hsize := r.payloadSize
  have hlimit : maxPayloadBytes < 2 ^ 32 := by decide
  have hstart := read_frameStart r.version r.status r.requestId r.flags
    (put32 (UInt32.ofNat r.payload.length) ++ r.payload)
  rw [← responseFrame] at hstart
  rcases hstart with ⟨hmagic, hversion, hstatus, hid, hflags⟩
  have hlength : (responseFrame r.toRawResponse).length = 18 + r.payload.length := by
    simp only [responseFrame, List.length_append, length_frameStart, length_put32]
    omega
  have hcount : (get32 (responseFrame r.toRawResponse) 14).toNat = r.payload.length := by
    rw [responseFrame, get32_append_right _ _ _ (by rw [length_frameStart]), length_frameStart,
      Nat.sub_self, get32_put32, UInt32.toNat_ofNat', Nat.mod_eq_of_lt (by omega)]
  have hpayload : (responseFrame r.toRawResponse).drop 18 = r.payload := by
    rw [responseFrame, ← List.append_assoc]
    refine List.drop_left' ?_
    simp only [List.length_append, length_frameStart, length_put32]
  have hvalid : validCommon (responseFrame r.toRawResponse) 18 18 r.payload.length = none := by
    rw [validCommon, if_neg (by rw [hmagic]; simp; omega), if_neg (by omega)]
  simp only [decodeResponse, hcount, hversion, hstatus, hid, hflags, hvalid, hpayload]
  rw [if_neg (by omega)]

/-- A response that was decoded fits into a frame, and the frame it was decoded
    from is its own. -/
theorem responseFrame_decodeResponse {frame : Bytes} {r : RawResponse}
    (h : decodeResponse frame = .ok r) :
    frame[2]? = some r.version ∧ r.payload.length ≤ maxPayloadBytes ∧
      responseFrame r = frame := by
  simp only [decodeResponse] at h
  split at h
  · cases h
  · rename_i hheader
    split at h
    · cases h
    · rename_i hvalid
      rcases validCommon_none hvalid with ⟨hmagic, hmax, hlength⟩
      rw [← Except.ok.inj h]
      have hpayload : (frame.drop 18).length = (get32 frame 14).toNat := by
        rw [List.length_drop, hlength]
      refine ⟨?_, ?_, ?_⟩
      · simp only [List.getD_eq_getElem?_getD]
        rw [List.getElem?_eq_getElem (show 2 < frame.length by omega), Option.getD_some]
      · simp only [hpayload]
        exact hmax
      · simp only [responseFrame, hpayload, UInt32.ofNat_toNat]
        rw [put32_get32 _ _ (by omega), substr_append_drop frame 14 4,
          frameStart_read frame (by omega) hmagic]

/-! ## Round trips -/

theorem encodeRequest_legal (r : LegalRequest) :
    encodeRequest r.toRawRequest = .ok (requestFrame r.toRawRequest) := by
  rw [encodeRequest, if_neg (not_not.mpr r.current), if_neg (not_lt.mpr r.topicSize),
    if_neg (not_lt.mpr r.payloadSize)]

theorem encodeResponse_legal (r : LegalResponse) :
    encodeResponse r.toRawResponse = .ok (responseFrame r.toRawResponse) := by
  rw [encodeResponse, if_neg (not_not.mpr r.current), if_neg (not_lt.mpr r.payloadSize)]

/-- What is encoded is decoded to what it was. -/
theorem decodeRequest_encodeRequest {r : RawRequest} {frame : Bytes}
    (h : encodeRequest r = .ok frame) : decodeRequest frame = .ok r := by
  unfold encodeRequest at h
  split at h
  · cases h
  · rename_i hversion
    split at h
    · cases h
    · rename_i htopic
      split at h
      · cases h
      · rename_i hpayload
        cases h
        exact decodeRequest_requestFrame ⟨r, not_not.mp hversion, not_lt.mp htopic, not_lt.mp hpayload⟩

theorem decodeResponse_encodeResponse {r : RawResponse} {frame : Bytes}
    (h : encodeResponse r = .ok frame) :
    frame.length = 18 + (get32 frame 14).toNat ∧ decodeResponse frame = .ok r := by
  have hdecode : decodeResponse frame = .ok r := by
    unfold encodeResponse at h
    split at h
    · cases h
    · rename_i hversion
      split at h
      · cases h
      · rename_i hpayload
        cases h
        exact decodeResponse_responseFrame ⟨r, not_not.mp hversion, not_lt.mp hpayload⟩
  refine ⟨?_, hdecode⟩
  simp only [decodeResponse] at hdecode
  split at hdecode
  · cases hdecode
  · split at hdecode
    · cases hdecode
    · rename_i hvalid
      have hlength := (validCommon_none hvalid).2.2
      omega

/-- Everything that fits is encoded and decoded to what it was, and every frame
    of the current version that is decoded is encoded to what it was. -/
theorem codec_round_trip :
    (∀ r : LegalRequest, ∃ frame, encodeRequest r.toRawRequest = .ok frame ∧
      decodeRequest frame = .ok r.toRawRequest) ∧
    (∀ frame r, decodeRequest frame = .ok r → frame[2]? = some currentVersion →
      encodeRequest r = .ok frame) ∧
    (∀ r : LegalResponse, ∃ frame, encodeResponse r.toRawResponse = .ok frame ∧
      decodeResponse frame = .ok r.toRawResponse) ∧
    (∀ frame r, decodeResponse frame = .ok r → frame[2]? = some currentVersion →
      encodeResponse r = .ok frame) := by
  refine ⟨fun r => ?_, fun frame r h hcurrent => ?_, fun r => ?_, fun frame r h hcurrent => ?_⟩
  · exact ⟨_, encodeRequest_legal r, decodeRequest_requestFrame r⟩
  · rcases requestFrame_decodeRequest h with ⟨hversion, htopic, hpayload, hframe⟩
    rw [hversion] at hcurrent
    rw [← hframe]
    exact encodeRequest_legal ⟨r, Option.some.inj hcurrent, htopic, hpayload⟩
  · exact ⟨_, encodeResponse_legal r, decodeResponse_responseFrame r⟩
  · rcases responseFrame_decodeResponse h with ⟨hversion, hpayload, hframe⟩
    rw [hversion] at hcurrent
    rw [← hframe]
    exact encodeResponse_legal ⟨r, Option.some.inj hcurrent, hpayload⟩

/-- A heartbeat in a frame, and the answer to it. -/
theorem codec_round_trip_heartbeat :
    decodeRequest (requestFrame { command := 0x30, topic := [112], payload := [1, 2] })
      = .ok { command := 0x30, topic := [112], payload := [1, 2] } ∧
    encodeRequest { command := 0x30, topic := [112], payload := [1, 2] }
      = .ok (requestFrame { command := 0x30, topic := [112], payload := [1, 2] }) ∧
    encodeResponse { status := 0 } = .ok (responseFrame { status := 0 }) :=
  ⟨by decide +kernel, codec_round_trip.2.1 _ _ (by decide +kernel) (by decide +kernel),
    codec_round_trip.2.2.2 _ _ (by decide +kernel) (by decide +kernel)⟩

end MqBroker
