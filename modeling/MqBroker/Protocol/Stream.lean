import MqBroker.Lib.Incremental
import MqBroker.Protocol.Codec

/-!
# Streams of Requests

`RequestStreamDecoder`, which turns what arrives on a connection into requests.

What arrives is put behind what is left over, and as long as a whole frame is
at the front it is taken off and decoded. A frame is judged by its magic number
once twenty bytes are there, and by the length of its payload once that is
there. Neither judgement depends on how the bytes arrive, so one stream gives
the same requests in any chunks.

One thing does depend on it. `Push` refuses to hold more than one frame of the
largest size, and it looks before it takes anything off: what is left over of a
large frame and a chunk that brings its end together with the beginning of the
next may be too much.

## Main definitions

* `nextFrame`: One turn of the loop.
* `push`: `Push`.
* `pushAll`: A connection, up to the first failure.

## Theorems

* `nextFrame_incremental`: Frames do not depend on what follows.
* `pushAll_eq_feed`: Within the limit a connection is an incremental parser.
* `chunks_irrelevant`: Chunks do not matter.
* `streams_accepted_iff`: Which streams are accepted in any chunks.
-/

namespace MqBroker

/-! ## The decoder -/

/-- Why `Push` fails. -/
inductive StreamError
  | bufferLimit
  | invalidHeader
  | invalidPayloadLength
  | decode (e : CodecError)
deriving DecidableEq, Repr

/-- The texts that `Push` reports. -/
def StreamError.text : StreamError → String
  | bufferLimit => "request stream buffer exceeds limit"
  | invalidHeader => "invalid request stream header"
  | invalidPayloadLength => "invalid request stream payload length"
  | decode e => e.text

/-- The most that a decoder holds: one frame of the largest size. -/
def streamLimit : Nat := maxPayloadBytes + 65555

/-- One turn of the loop of `Push`. -/
def nextFrame (buffer : Bytes) : Front UInt8 RawRequest StreamError :=
  if buffer.length < 20 then .more
  else if get16 buffer 0 ≠ magic then .bad .invalidHeader
  else
    let topicLen := (get16 buffer 14).toNat
    let payloadLengthOffset := 16 + topicLen
    if payloadLengthOffset + 4 > buffer.length then .more
    else
      let payloadLen := (get32 buffer payloadLengthOffset).toNat
      if payloadLen > maxPayloadBytes ∨
          payloadLen > maxPayloadBytes + 65555 - (payloadLengthOffset + 4) then
        .bad .invalidPayloadLength
      else
        let frameSize := payloadLengthOffset + 4 + payloadLen
        if buffer.length < frameSize then .more
        else
          match decodeRequest (buffer.take frameSize) with
          | .error e => .bad (.decode e)
          | .ok request => .item request (buffer.drop frameSize)

/-- What a call of `Push` leaves behind: the requests it has delivered, the
    buffer, and why it has failed if it has. -/
structure PushResult where
  requests : List RawRequest := []
  buffer : Bytes := []
  error : Option StreamError := none
deriving DecidableEq, Repr

/-- What the loop leaves behind. The buffer is cleared when it fails. -/
def PushResult.ofLoop : List RawRequest × Except StreamError Bytes → PushResult
  | (requests, .ok rest) => { requests := requests, buffer := rest }
  | (requests, .error e) => { requests := requests, error := some e }

/-- `Push`. -/
def push (buffer bytes : Bytes) : PushResult :=
  if bytes.length > streamLimit ∨ buffer.length > streamLimit - bytes.length then
    { error := some .bufferLimit }
  else .ofLoop (drain nextFrame (buffer ++ bytes))

/-- One chunk after the other is pushed, up to the first that fails. -/
def pushAll : Bytes → List Bytes → PushResult
  | buffer, [] => { buffer := buffer }
  | buffer, chunk :: chunks =>
      let first := push buffer chunk
      if first.error = none then
        let rest := pushAll first.buffer chunks
        { rest with requests := first.requests ++ rest.requests }
      else first

/-! ## Frames in a stream -/

/-- The first two length checks of a frame are passed: its header and the length
    of its payload are there. -/
structure FrameHeader (buffer : Bytes) : Prop where
  header : 20 ≤ buffer.length
  magic : get16 buffer 0 = magic
  topic : 16 + (get16 buffer 14).toNat + 4 ≤ buffer.length

/-- The length of the payload in a header. -/
def payloadLen (buffer : Bytes) : Nat := (get32 buffer (16 + (get16 buffer 14).toNat)).toNat

/-- The length of the frame at the front. -/
def frameSize (buffer : Bytes) : Nat := 16 + (get16 buffer 14).toNat + 4 + payloadLen buffer

section Frames

variable {buffer : Bytes}

/-- A header does not depend on what follows. -/
theorem FrameHeader.append (h : FrameHeader buffer) (more : Bytes) :
    FrameHeader (buffer ++ more) ∧ payloadLen (buffer ++ more) = payloadLen buffer ∧
      frameSize (buffer ++ more) = frameSize buffer := by
  have hheader := h.header
  have hsize : get16 (buffer ++ more) 14 = get16 buffer 14 :=
    get16_append_left _ _ _ (by omega)
  have hpayload : payloadLen (buffer ++ more) = payloadLen buffer := by
    rw [payloadLen, hsize, get32_append_left _ _ _ h.topic, payloadLen]
  refine ⟨⟨?_, ?_, ?_⟩, hpayload, ?_⟩
  · rw [List.length_append]
    omega
  · rw [get16_append_left _ _ _ (by omega)]
    exact h.magic
  · rw [hsize, List.length_append]
    exact Nat.le_add_right_of_le h.topic
  · rw [frameSize, hsize, hpayload, frameSize]

/-- A whole frame is decoded, so the call of `DecodeRequest` in `Push` never
    fails. -/
theorem decodeRequest_take (h : FrameHeader buffer) (hpayload : payloadLen buffer ≤ maxPayloadBytes)
    (hwhole : frameSize buffer ≤ buffer.length) :
    ∃ request, decodeRequest (buffer.take (frameSize buffer)) = .ok request := by
  have hsize : (buffer.take (frameSize buffer)).length = frameSize buffer := by
    rw [List.length_take, Nat.min_eq_left hwhole]
  have hlarge : 20 ≤ frameSize buffer := by
    rw [frameSize]
    omega
  have hfront : ∀ pos, pos + 2 ≤ frameSize buffer →
      get16 (buffer.take (frameSize buffer)) pos = get16 buffer pos := by
    intro pos hpos
    rw [← get16_append_left _ (buffer.drop (frameSize buffer)) _ (by omega), List.take_append_drop]
  have htopic : get16 (buffer.take (frameSize buffer)) 14 = get16 buffer 14 := hfront 14 (by omega)
  have hlength : (get32 (buffer.take (frameSize buffer)) (16 + (get16 buffer 14).toNat)).toNat
      = payloadLen buffer := by
    rw [← get32_append_left _ (buffer.drop (frameSize buffer)) _ (by rw [hsize, frameSize]; omega),
      List.take_append_drop, payloadLen]
  have hvalid : validCommon (buffer.take (frameSize buffer)) (16 + (get16 buffer 14).toNat + 4)
      (16 + (get16 buffer 14).toNat + 4) (payloadLen buffer) = none := by
    rw [validCommon, if_neg, if_neg]
    · rw [hsize, frameSize]
      omega
    · rw [hsize, hfront 0 (by omega), h.magic, frameSize]
      simp only [ne_eq, not_true_eq_false, or_false]
      omega
  simp only [decodeRequest, htopic, hlength, hvalid]
  rw [if_neg (by omega), if_neg (by rw [hsize, frameSize]; omega)]
  exact ⟨_, rfl⟩

/-- A frame with a wrong magic number. -/
theorem nextFrame_magic (hheader : 20 ≤ buffer.length) (hmagic : get16 buffer 0 ≠ magic) :
    nextFrame buffer = .bad .invalidHeader := by
  rw [nextFrame, if_neg (by omega), if_pos hmagic]

/-- Behind the header it is the length of the payload that decides. -/
theorem nextFrame_header (h : FrameHeader buffer) :
    nextFrame buffer
      = if payloadLen buffer > maxPayloadBytes then .bad .invalidPayloadLength
        else if buffer.length < frameSize buffer then .more
        else
          match decodeRequest (buffer.take (frameSize buffer)) with
          | .error e => .bad (.decode e)
          | .ok request => .item request (buffer.drop (frameSize buffer)) := by
  have hheader := h.header
  have htopic := (get16 buffer 14).toNat_lt
  -- The second bound is never the smaller one.
  have hbound : (payloadLen buffer > maxPayloadBytes ∨ payloadLen buffer
      > maxPayloadBytes + 65555 - (16 + (get16 buffer 14).toNat + 4))
      ↔ payloadLen buffer > maxPayloadBytes := by
    omega
  simp only [nextFrame]
  rw [if_neg (by omega), if_neg (not_not.mpr h.magic), if_neg (not_lt.mpr h.topic), ← payloadLen,
    ← frameSize, if_congr hbound rfl rfl]

theorem nextFrame_whole (h : FrameHeader buffer) (hpayload : payloadLen buffer ≤ maxPayloadBytes)
    (hwhole : frameSize buffer ≤ buffer.length) {request : RawRequest}
    (hdecode : decodeRequest (buffer.take (frameSize buffer)) = .ok request) :
    nextFrame buffer = .item request (buffer.drop (frameSize buffer)) := by
  rw [nextFrame_header h, if_neg (not_lt.mpr hpayload), if_neg (not_lt.mpr hwhole), hdecode]

theorem nextFrame_payload (h : FrameHeader buffer) (hpayload : payloadLen buffer > maxPayloadBytes) :
    nextFrame buffer = .bad .invalidPayloadLength := by
  rw [nextFrame_header h, if_pos hpayload]

/-- What one turn of the loop can do. -/
theorem nextFrame_cases (buffer : Bytes) :
    nextFrame buffer = .more ∨
    (20 ≤ buffer.length ∧ get16 buffer 0 ≠ magic) ∨
    (FrameHeader buffer ∧ payloadLen buffer > maxPayloadBytes) ∨
    ∃ request, FrameHeader buffer ∧ payloadLen buffer ≤ maxPayloadBytes ∧
      frameSize buffer ≤ buffer.length ∧
      decodeRequest (buffer.take (frameSize buffer)) = .ok request := by
  by_cases hheader : buffer.length < 20
  · left
    rw [nextFrame, if_pos hheader]
  · by_cases hmagic : get16 buffer 0 ≠ magic
    · exact Or.inr (Or.inl ⟨not_lt.mp hheader, hmagic⟩)
    · by_cases htopic : 16 + (get16 buffer 14).toNat + 4 > buffer.length
      · left
        simp only [nextFrame]
        rw [if_neg hheader, if_neg hmagic, if_pos htopic]
      · have h : FrameHeader buffer := ⟨not_lt.mp hheader, not_not.mp hmagic, not_lt.mp htopic⟩
        by_cases hpayload : payloadLen buffer > maxPayloadBytes
        · exact Or.inr (Or.inr (Or.inl ⟨h, hpayload⟩))
        · by_cases hwhole : buffer.length < frameSize buffer
          · left
            rw [nextFrame_header h, if_neg hpayload, if_pos hwhole]
          · rcases decodeRequest_take h (not_lt.mp hpayload) (not_lt.mp hwhole) with
              ⟨request, hdecode⟩
            exact Or.inr (Or.inr (Or.inr ⟨request, h, not_lt.mp hpayload, not_lt.mp hwhole,
              hdecode⟩))

/-- Frames do not depend on what follows. -/
theorem nextFrame_incremental : Incremental nextFrame where
  shorter := by
    intro l b rest h
    rcases nextFrame_cases l with hmore | ⟨hheader, hmagic⟩ | ⟨hheader, hpayload⟩ |
      ⟨request, hheader, hpayload, hwhole, hdecode⟩
    · rw [hmore] at h
      cases h
    · rw [nextFrame_magic hheader hmagic] at h
      cases h
    · rw [nextFrame_payload hheader hpayload] at h
      cases h
    · rw [nextFrame_whole hheader hpayload hwhole hdecode] at h
      cases h
      rw [List.length_drop, frameSize]
      have := hheader.header
      omega
  item := by
    intro l b rest more h
    rcases nextFrame_cases l with hmore | ⟨hheader, hmagic⟩ | ⟨hheader, hpayload⟩ |
      ⟨request, hheader, hpayload, hwhole, hdecode⟩
    · rw [hmore] at h
      cases h
    · rw [nextFrame_magic hheader hmagic] at h
      cases h
    · rw [nextFrame_payload hheader hpayload] at h
      cases h
    · rw [nextFrame_whole hheader hpayload hwhole hdecode] at h
      cases h
      rcases hheader.append more with ⟨hheader', hpayload', hsize'⟩
      have hdecode' : decodeRequest ((l ++ more).take (frameSize (l ++ more))) = .ok b := by
        rw [hsize', List.take_append_of_le_length hwhole]
        exact hdecode
      rw [nextFrame_whole hheader' (by omega) (by rw [hsize', List.length_append]; omega) hdecode',
        hsize', List.drop_append_of_le_length hwhole]
  bad := by
    intro l e more h
    rcases nextFrame_cases l with hmore | ⟨hheader, hmagic⟩ | ⟨hheader, hpayload⟩ |
      ⟨request, hheader, hpayload, hwhole, hdecode⟩
    · rw [hmore] at h
      cases h
    · rw [nextFrame_magic hheader hmagic] at h
      rw [nextFrame_magic (by rw [List.length_append]; omega), h]
      rw [get16_append_left _ _ _ (by omega)]
      exact hmagic
    · rw [nextFrame_payload hheader hpayload] at h
      rcases hheader.append more with ⟨hheader', hpayload', _⟩
      rw [nextFrame_payload hheader' (by omega), h]
    · rw [nextFrame_whole hheader hpayload hwhole hdecode] at h
      cases h

end Frames

/-! ## Chunks -/

/-- A push that fails at the limit, and one that does not. -/
theorem push_cases (buffer bytes : Bytes) :
    (streamLimit < buffer.length + bytes.length ∧
      push buffer bytes = { error := some .bufferLimit }) ∨
    (buffer.length + bytes.length ≤ streamLimit ∧
      push buffer bytes = .ofLoop (drain nextFrame (buffer ++ bytes))) := by
  unfold push
  split
  · rename_i hlimit
    exact Or.inl ⟨by omega, rfl⟩
  · rename_i hlimit
    exact Or.inr ⟨by omega, rfl⟩

/-- Within the limit a connection is an incremental parser. -/
theorem pushAll_eq_feed (chunks : List Bytes) (buffer : Bytes)
    (hlimit : (pushAll buffer chunks).error ≠ some .bufferLimit) :
    pushAll buffer chunks = .ofLoop (feed nextFrame buffer chunks) := by
  induction chunks generalizing buffer with
  | nil => rfl
  | cons chunk chunks ih =>
      rcases push_cases buffer chunk with ⟨_, hpush⟩ | ⟨_, hpush⟩
      · refine absurd ?_ hlimit
        simp only [pushAll, hpush, reduceCtorEq, if_false]
      · rw [feed]
        simp only [pushAll, hpush] at hlimit ⊢
        cases hdrain : drain nextFrame (buffer ++ chunk) with
        | mk requests outcome =>
            cases outcome with
            | error e => simp only [PushResult.ofLoop, reduceCtorEq, if_false]
            | ok rest =>
                simp only [hdrain, PushResult.ofLoop, if_true] at hlimit ⊢
                rw [ih rest hlimit]
                cases feed nextFrame rest chunks with
                | mk more end_ => cases end_ <;> rfl

/-- The loop never fails in `DecodeRequest`. -/
theorem drain_decode (buffer : Bytes) (e : CodecError) :
    (drain nextFrame buffer).2 ≠ .error (.decode e) := by
  induction buffer using drain_induction nextFrame_incremental with
  | more l hnext =>
      rw [drain_more hnext]
      exact fun h => nomatch h
  | bad l found hnext =>
      rw [drain_bad hnext]
      intro h
      rcases nextFrame_cases l with hmore | ⟨hheader, hmagic⟩ | ⟨hheader, hpayload⟩ |
        ⟨request, hheader, hpayload, hwhole, hdecode⟩
      · rw [hmore] at hnext
        cases hnext
      · rw [nextFrame_magic hheader hmagic] at hnext
        cases hnext
        cases h
      · rw [nextFrame_payload hheader hpayload] at hnext
        cases hnext
        cases h
      · rw [nextFrame_whole hheader hpayload hwhole hdecode] at hnext
        cases hnext
  | item l request rest hnext ih =>
      rw [drain_item nextFrame_incremental hnext]
      exact ih

theorem nextFrame_nil : nextFrame [] = .more := rfl

/-- However a stream is cut up, as long as the limit is not hit, it is decoded
    to the same requests, fails or not, and leaves the same behind. In any case
    it is not `DecodeRequest` that fails. -/
theorem chunks_irrelevant (chunks chunks' : List Bytes) (h : chunks.flatten = chunks'.flatten)
    (hlimit : (pushAll [] chunks).error ≠ some .bufferLimit)
    (hlimit' : (pushAll [] chunks').error ≠ some .bufferLimit) :
    (pushAll [] chunks).requests = (pushAll [] chunks').requests ∧
      (pushAll [] chunks).error = (pushAll [] chunks').error ∧
      (pushAll [] chunks).buffer = (pushAll [] chunks').buffer ∧
      ∀ buffer bytes e, (push buffer bytes).error ≠ some (.decode e) := by
  have hsame : pushAll [] chunks = pushAll [] chunks' := by
    rw [pushAll_eq_feed chunks [] hlimit, pushAll_eq_feed chunks' [] hlimit',
      feed_eq_drain nextFrame_incremental chunks nextFrame_nil,
      feed_eq_drain nextFrame_incremental chunks' nextFrame_nil, h]
  refine ⟨by rw [hsame], by rw [hsame], by rw [hsame], fun buffer bytes e => ?_⟩
  have hdecode := drain_decode (buffer ++ bytes) e
  rcases push_cases buffer bytes with ⟨_, hpush⟩ | ⟨_, hpush⟩
  · rw [hpush]
    exact fun h => nomatch h
  · rw [hpush]
    cases hdrain : drain nextFrame (buffer ++ bytes) with
    | mk requests outcome =>
        rw [hdrain] at hdecode
        cases outcome with
        | error found => exact fun h => hdecode (congrArg Except.error (Option.some.inj h))
        | ok rest => exact fun h => nomatch h

/-- Two frames, and then something that is no frame. -/
def brokenStream : Bytes :=
  requestFrame { command := 0x30 } ++ (requestFrame { command := 0x03 } ++ List.replicate 20 0)

theorem chunks_irrelevant_broken :
    (pushAll [] [brokenStream]).requests.map RawRequest.command = [0x30, 0x03] ∧
    (pushAll [] [brokenStream]).error = some .invalidHeader ∧
    (pushAll [] [brokenStream]).error
      = (pushAll [] [brokenStream.take 7, brokenStream.drop 7]).error :=
  ⟨by decide +kernel, by decide +kernel,
    (chunks_irrelevant [brokenStream] [brokenStream.take 7, brokenStream.drop 7] (by decide +kernel)
      (by decide +kernel) (by decide +kernel)).2.1⟩

/-! ## Valid streams -/

/-- The frame of a request. -/
def LegalRequest.frame (r : LegalRequest) : Bytes := requestFrame r.toRawRequest

/-- `EncodeRequest` accepts exactly the legal requests. -/
theorem encodeRequest_ok {r : RawRequest} {frame : Bytes} (h : encodeRequest r = .ok frame) :
    ∃ legal : LegalRequest, legal.toRawRequest = r ∧ legal.frame = frame := by
  unfold encodeRequest at h
  split at h
  · cases h
  · rename_i hversion
    split at h
    · cases h
    · rename_i htopic
      split at h
      · cases h
      · rename_i hpayload
        exact ⟨⟨r, not_not.mp hversion, not_lt.mp htopic, not_lt.mp hpayload⟩, rfl,
          Except.ok.inj h⟩

/-- All that a client sends: one frame after the other. -/
def stream (requests : List LegalRequest) : Bytes := requests.flatMap LegalRequest.frame

/-- The requests a stream is made of. -/
def rawRequests (requests : List LegalRequest) : List RawRequest :=
  requests.map LegalRequest.toRawRequest

section Valid

theorem length_frame (r : LegalRequest) :
    r.frame.length = 20 + r.topic.length + r.payload.length :=
  length_requestFrame r.toRawRequest

/-- A frame is found as a whole. -/
theorem nextFrame_frame (r : LegalRequest) : nextFrame r.frame = .item r.toRawRequest [] := by
  rcases read_requestFrame r with ⟨htopic, hpayload⟩
  have hlength := length_requestFrame r.toRawRequest
  have hmagic : get16 (requestFrame r.toRawRequest) 0 = magic :=
    (read_frameStart r.version r.command r.requestId r.flags _).1
  have hheader : FrameHeader (requestFrame r.toRawRequest) :=
    ⟨by omega, hmagic, by rw [htopic]; omega⟩
  have hlen : payloadLen (requestFrame r.toRawRequest) = r.payload.length := by
    rw [payloadLen, htopic, hpayload]
  have hsize : frameSize (requestFrame r.toRawRequest) = (requestFrame r.toRawRequest).length := by
    rw [frameSize, hlen, htopic, hlength]
    omega
  rw [LegalRequest.frame, nextFrame_whole hheader (by rw [hlen]; exact r.payloadSize)
    (le_of_eq hsize) (by rw [hsize, List.take_length]; exact decodeRequest_requestFrame r), hsize,
    List.drop_length]

/-- Whole frames and a part of another one. -/
theorem drain_stream (requests : List LegalRequest) {part : Bytes} (hpart : nextFrame part = .more) :
    drain nextFrame (stream requests ++ part) = (rawRequests requests, .ok part) := by
  induction requests with
  | nil => exact drain_more hpart
  | cons r requests ih =>
      have hfirst := nextFrame_incremental.item (stream requests ++ part) (nextFrame_frame r)
      rw [List.nil_append] at hfirst
      rw [stream, List.flatMap_cons, List.append_assoc, ← stream,
        drain_item nextFrame_incremental hfirst, ih]
      rfl

/-- After some bytes of a valid stream, what is left over is the beginning of
    the next frame. -/
theorem drain_part {requests : List LegalRequest} {done rest : Bytes}
    (h : stream requests = done ++ rest) :
    (drain nextFrame done = (rawRequests requests, .ok []) ∧ rest = []) ∨
    ∃ front r back part more, requests = front ++ r :: back ∧
      drain nextFrame done = (rawRequests front, .ok part) ∧ r.frame = part ++ more ∧ more ≠ [] ∧
      rest = more ++ stream back := by
  rcases items_cut requests done rest h with
    ⟨hdone, hrest⟩ | ⟨front, r, back, part, more, hrequests, hdone, hframe, hmore, hrest⟩
  · left
    have hall := drain_stream requests nextFrame_nil
    rw [List.append_nil, stream, ← hdone] at hall
    exact ⟨hall, hrest⟩
  · right
    have hpart : nextFrame part = .more := by
      refine nextFrame_incremental.more_of_part (b := r.toRawRequest) ?_ hmore
      rw [← hframe]
      exact nextFrame_frame r
    refine ⟨front, r, back, part, more, hrequests, ?_, hframe, hmore, hrest⟩
    rw [hdone]
    exact drain_stream front hpart

end Valid

/-- Every frame leaves room for what may arrive with its last byte: a chunk is
    at most 64 KiB, so 65535 bytes of the frames behind it. -/
def LeavesRoom (requests : List LegalRequest) : Prop :=
  ∀ front r back, requests = front ++ r :: back →
    r.frame.length + min 65535 (stream back).length ≤ streamLimit

/-- In a stream that leaves room no push hits the limit. -/
theorem pushAll_room {requests : List LegalRequest} (hroom : LeavesRoom requests)
    (chunks : List Bytes) (hchunks : ∀ chunk ∈ chunks, chunk.length ≤ 65536)
    (done : Bytes) {buffer : Bytes} {requests' : List RawRequest}
    (hstream : stream requests = done ++ chunks.flatten)
    (hbuffer : drain nextFrame done = (requests', .ok buffer)) :
    (pushAll buffer chunks).error = none := by
  induction chunks generalizing done buffer requests' with
  | nil => rfl
  | cons chunk chunks ih =>
      rw [List.flatten_cons] at hstream
      have hchunk := hchunks chunk List.mem_cons_self
      -- Before the chunk, only a part of the next frame is held.
      have hfits : buffer.length + chunk.length ≤ streamLimit := by
        rcases drain_part hstream with
          ⟨hdone, hrest⟩ | ⟨front, r, back, part, more, hrequests, hdone, hframe, hmore, hrest⟩
        · rw [hdone] at hbuffer
          cases hbuffer
          rw [(List.append_eq_nil_iff.mp hrest).1]
          exact Nat.zero_le _
        · rw [hdone] at hbuffer
          cases hbuffer
          have hsize := hroom front r back hrequests
          have hlength := congrArg List.length hrest
          have hpart := congrArg List.length hframe
          have hpos := List.length_pos_iff.mpr hmore
          rw [List.length_append, List.length_append] at hlength
          rw [List.length_append] at hpart
          omega
      have hdone : ∃ all rest, drain nextFrame (done ++ chunk) = (all, .ok rest) := by
        rw [← List.append_assoc] at hstream
        rcases drain_part hstream with ⟨hall, _⟩ | ⟨_, _, _, _, _, _, hall, _⟩
        · exact ⟨_, _, hall⟩
        · exact ⟨_, _, hall⟩
      rcases hdone with ⟨all, rest, hall⟩
      have hnext : ∃ new, drain nextFrame (buffer ++ chunk) = (new, .ok rest) := by
        rw [drain_append nextFrame_incremental, hbuffer] at hall
        rw [Prod.mk.injEq] at hall
        exact ⟨_, Prod.ext rfl hall.2⟩
      rcases hnext with ⟨new, hnew⟩
      have hpush : push buffer chunk = { requests := new, buffer := rest } := by
        rcases push_cases buffer chunk with ⟨hlarge, _⟩ | ⟨_, hpush⟩
        · exact absurd hfits (not_le.mpr hlarge)
        · rw [hpush, hnew]
          rfl
      simp only [pushAll, hpush, if_true]
      exact ih (fun c hc => hchunks c (List.mem_cons_of_mem chunk hc)) (done ++ chunk)
        (by rw [hstream, List.append_assoc]) hall

/-- A stream whose pushes all succeed is decoded to its requests. -/
theorem pushAll_stream {requests : List LegalRequest} {chunks : List Bytes}
    (hstream : chunks.flatten = stream requests) (h : (pushAll [] chunks).error = none) :
    pushAll [] chunks = { requests := rawRequests requests } := by
  have hall := drain_stream requests nextFrame_nil
  rw [List.append_nil] at hall
  rw [pushAll_eq_feed chunks [] (by rw [h]; exact fun h => nomatch h),
    feed_eq_drain nextFrame_incremental chunks nextFrame_nil, List.nil_append, hstream, hall]
  rfl

/-- Pushes that all succeed, one after the other. -/
theorem pushAll_append {buffer : Bytes} {chunks chunks' : List Bytes}
    (h : (pushAll buffer (chunks ++ chunks')).error = none) :
    (pushAll buffer chunks).error = none ∧
      (pushAll (pushAll buffer chunks).buffer chunks').error = none := by
  induction chunks generalizing buffer with
  | nil => exact ⟨rfl, h⟩
  | cons chunk chunks ih =>
      simp only [List.cons_append, pushAll] at h ⊢
      split at h
      · rename_i hfirst
        simp only [if_pos hfirst]
        exact ih h
      · rename_i hfirst
        exact absurd h hfirst

/-- Bytes that arrive one by one. -/
def singles (bytes : Bytes) : List Bytes := bytes.map fun byte => [byte]

theorem flatten_singles (bytes : Bytes) : (singles bytes).flatten = bytes := by
  induction bytes with
  | nil => rfl
  | cons byte bytes ih =>
      rw [singles, List.map_cons, List.flatten_cons, ← singles, ih]
      rfl

theorem length_singles {bytes chunk : Bytes} (h : chunk ∈ singles bytes) : chunk.length ≤ 65536 := by
  rcases List.mem_map.mp h with ⟨byte, _, rfl⟩
  exact (by decide : 1 ≤ 65536)

/-- A frame that arrives byte by byte, but for its last byte, which comes with
    the beginning of what is behind it. -/
def lateEnd (front : List LegalRequest) (r : LegalRequest) (back : List LegalRequest) :
    List Bytes :=
  singles (stream front ++ r.frame.dropLast) ++
    ((r.frame.drop (r.frame.length - 1) ++ (stream back).take 65535) ::
      singles ((stream back).drop 65535))

theorem length_frame_pos (r : LegalRequest) : 0 < r.frame.length := by
  rw [length_frame]
  omega

/-- It is the stream, in chunks of at most 64 KiB. -/
theorem lateEnd_chunks (front : List LegalRequest) (r : LegalRequest) (back : List LegalRequest) :
    (lateEnd front r back).flatten = stream (front ++ r :: back) ∧
      ∀ chunk ∈ lateEnd front r back, chunk.length ≤ 65536 := by
  have hpos := length_frame_pos r
  have hframe : r.frame.dropLast ++ r.frame.drop (r.frame.length - 1) = r.frame := by
    rw [List.dropLast_eq_take, List.take_append_drop]
  constructor
  · rw [lateEnd, List.flatten_append, List.flatten_cons, flatten_singles, flatten_singles,
      List.append_assoc, List.append_assoc, List.take_append_drop,
      ← List.append_assoc r.frame.dropLast, hframe, stream, stream, stream, List.flatMap_append,
      List.flatMap_cons]
  · intro chunk hchunk
    rcases List.mem_append.mp hchunk with hchunk | hchunk
    · exact length_singles hchunk
    · rcases List.mem_cons.mp hchunk with rfl | hchunk
      · rw [List.length_append, List.length_drop, List.length_take]
        omega
      · exact length_singles hchunk

/-- If there is no room for it, the push fails. -/
theorem lateEnd_fails {front : List LegalRequest} {r : LegalRequest} {back : List LegalRequest}
    (h : streamLimit < r.frame.length + min 65535 (stream back).length) :
    (pushAll [] (lateEnd front r back)).error ≠ none := by
  intro hall
  have hpos := length_frame_pos r
  have hframe : r.frame.dropLast ++ r.frame.drop (r.frame.length - 1) = r.frame := by
    rw [List.dropLast_eq_take, List.take_append_drop]
  have hend : r.frame.drop (r.frame.length - 1) ≠ [] := by
    intro hnil
    have hlength := congrArg List.length hnil
    rw [List.length_drop, List.length_nil] at hlength
    omega
  have hpart : nextFrame r.frame.dropLast = .more := by
    refine nextFrame_incremental.more_of_part (b := r.toRawRequest) ?_ hend
    rw [hframe]
    exact nextFrame_frame r
  rcases pushAll_append hall with ⟨hfirst, hrest⟩
  -- What is held by then is the frame without its last byte.
  have hbuffer : (pushAll [] (singles (stream front ++ r.frame.dropLast))).buffer
      = r.frame.dropLast := by
    rw [pushAll_eq_feed _ [] (by rw [hfirst]; exact fun h => nomatch h),
      feed_eq_drain nextFrame_incremental _ nextFrame_nil, List.nil_append, flatten_singles,
      drain_stream front hpart]
    rfl
  rw [hbuffer] at hrest
  rcases push_cases r.frame.dropLast (r.frame.drop (r.frame.length - 1) ++
    (stream back).take 65535) with ⟨_, hpush⟩ | ⟨hfits, _⟩
  · simp only [pushAll, hpush, reduceCtorEq, if_false] at hrest
  · rw [List.length_append, List.length_drop, List.length_take, List.length_dropLast] at hfits
    omega

/-- A client's requests are accepted in any chunks of at most 64 KiB exactly if
    every frame leaves room for what may arrive with its last byte. -/
theorem streams_accepted_iff (requests : List LegalRequest) :
    (∀ chunks : List Bytes, chunks.flatten = stream requests →
        (∀ chunk ∈ chunks, chunk.length ≤ 65536) →
        (pushAll [] chunks).error = none ∧ (pushAll [] chunks).requests = rawRequests requests)
      ↔ LeavesRoom requests := by
  constructor
  · intro h front r back hrequests
    by_contra hlarge
    rcases lateEnd_chunks front r back with ⟨hflatten, hchunks⟩
    rw [← hrequests] at hflatten
    exact lateEnd_fails (not_le.mp hlarge) (h _ hflatten hchunks).1
  · intro hroom chunks hstream hchunks
    have hnone : (pushAll [] chunks).error = none :=
      pushAll_room hroom chunks hchunks [] (by rw [hstream, List.nil_append])
        (drain_more nextFrame_nil)
    rw [pushAll_stream hstream hnone]
    exact ⟨rfl, rfl⟩

/-- A request of the largest size. -/
def largestRequest : LegalRequest where
  command := 0x10
  topic := List.replicate 65535 97
  payload := List.replicate maxPayloadBytes 0
  current := rfl
  topicSize := by rw [List.length_replicate]
  payloadSize := by rw [List.length_replicate]

/-- The smallest request. -/
def smallestRequest : LegalRequest where
  command := 0x30
  current := rfl
  topicSize := Nat.zero_le _
  payloadSize := Nat.zero_le _

/-- A request of the largest size cannot be followed by any other. -/
theorem stream_refused :
    ¬ ∀ requests : List LegalRequest, ∀ chunks : List Bytes, chunks.flatten = stream requests →
      (∀ chunk ∈ chunks, chunk.length ≤ 65536) →
      (pushAll [] chunks).error = none ∧ (pushAll [] chunks).requests = rawRequests requests := by
  intro h
  rcases lateEnd_chunks [] largestRequest [smallestRequest] with ⟨hflatten, hchunks⟩
  refine lateEnd_fails ?_ (h [largestRequest, smallestRequest] _ hflatten hchunks).1
  have hlimit : streamLimit = maxPayloadBytes + 65555 := rfl
  have hlarge := length_frame largestRequest
  have htopic : largestRequest.topic.length = 65535 := List.length_replicate
  have hpayload : largestRequest.payload.length = maxPayloadBytes := List.length_replicate
  have hsmall : (stream [smallestRequest]).length = 20 := by decide +kernel
  omega

end MqBroker
