import MqBroker.Broker.State
import MqBroker.Storage.Recovery

/-!
# Replica Appends

`REPLICA_APPEND` from the leader's bytes to the follower's log: the request
that `ReplicationClient::Append` builds, the checks in front of it, and
`HandleReplicaAppend`.

The handler reads a payload with and without the fields of the previous log
entry, and tells the two apart by looking where the number of messages would
be. For a request of `Append` the guess is right as long as it carries no more
messages than the handler takes anyway. Under that bound the bytes drop out:
`receiveAppend_request` says that a follower does with the request what
`Broker.applyAppend` does with the call it was built from.

What a follower then does is one of three things (`applyAppend_cases`). It
refuses and changes nothing. It accepts the term of the leader and stores some
of the messages, up to an I/O error. Or it stores them all and answers `kOk`.

## Main definitions

* `AppendCall`: The arguments of `ReplicationClient::Append`.
* `appendRequest`: The request it sends.
* `validateReplicationRequest`: The token check.
* `Broker.applyAppend`: The checks on the log and the writes.
* `Broker.handleReplicaAppend`, `Broker.receiveAppend`: The handler, and the
  way to it.

## Theorems

* `receiveAppend_request`: The bytes of a request carry its call.
* `appendReplicas_messages`: A prefix of the messages is stored.
* `applyAppend_cases`: What a follower does with a call.
* `applyAppend_ok`: What `kOk` means.
-/

namespace MqBroker

/-! ## The request -/

/-- The arguments of `ReplicationClient::Append`. -/
structure AppendCall where
  topic : Bytes
  partition : UInt32
  messages : List Message
  term : UInt64
  commitIndex : UInt64
  leaderId : Bytes
  prevLogIndex : UInt64
  prevLogTerm : UInt64
deriving DecidableEq, Repr

/-- The payload of `ReplicationClient::Append`. A message is written as in a
    record of the log. -/
def appendPayload (a : AppendCall) : Bytes :=
  put64 a.term ++ put64 a.commitIndex ++ put16 (UInt16.ofNat a.leaderId.length) ++ (a.leaderId ++
    (put64 a.prevLogIndex ++ put64 a.prevLogTerm ++ put32 a.partition ++
      put32 (UInt32.ofNat a.messages.length) ++ a.messages.flatMap encodeBody))

/-- The request `Call` sends for a replica append. -/
def wireRequest (topic : Bytes) (requestId : UInt64) (payload : Bytes) : Request :=
  { command := .replicaAppend
    requestId := requestId
    flags := flagReplication ||| flagReplicationTerm
    topic := topic
    payload := payload }

/-- The request `Append` hands to the connection, if it gets that far: `Call`
    wants a token, and `EncodeRequest` a topic and a payload that fit. -/
def appendRequest (token : Bytes) (requestId : UInt64) (a : AppendCall) : Option Request :=
  let payload := put16 (UInt16.ofNat token.length) ++ (token ++ appendPayload a)
  if a.messages = [] ∨ a.leaderId = [] ∨ a.leaderId.length > 65535 then none
  else if token = [] ∨ token.length > 65535 then none
  else if a.topic.length > 65535 ∨ payload.length > maxPayloadBytes then none
  else some (wireRequest a.topic requestId payload)

/-! ## The handler -/

/-- The flags a request may have. -/
def knownFlags : UInt16 :=
  ackMask ||| flagProducerMetadata ||| flagReplication ||| flagReplicationTerm ||| flagAuthentication

/-- `ValidateReplicationRequest`: the request without its token. -/
def Broker.validateReplicationRequest (b : Broker) (request : Request) : Option Request :=
  let tokenSize := (get16 request.payload 0).toNat
  if ¬ b.replicationConfigured ∨ b.replicationAuthToken = [] ∨ ¬ request.hasFlag flagReplication then
    none
  else if request.command ∉ [.heartbeat, .replicaFetch, .replicaAppend, .replicaVote] then none
  else if request.command = .replicaAppend ∧ ¬ request.hasFlag flagReplicationTerm then none
  else if request.hasFlag flagReplicationTerm ∧
      request.command ∉ [.heartbeat, .replicaAppend, .replicaVote] then none
  else if request.payload.length < 2 then none
  else if tokenSize ≠ b.replicationAuthToken.length ∨ request.payload.length < 2 + tokenSize ∨
      substr request.payload 2 tokenSize ≠ b.replicationAuthToken then none
  else some { request with payload := request.payload.drop (2 + tokenSize) }

/-- What the outside does to one call of `HandleReplicaAppend`. -/
structure ReplicaEnv where
  /-- The partition can be opened for `NextOffset`. -/
  partitionOk : Bool := true
  /-- How the file system answers the append of each message. -/
  ios : Nat → StoreIo := fun _ => {}
  /-- The clock when the leader is noted. -/
  now : Int := 0

/-- The part of a payload in front of the partition. -/
structure AppendHeader where
  term : UInt64 := 0
  commit : UInt64 := 0
  prevLogIndex : UInt64 := 0
  prevLogTerm : UInt64 := 0
  leaderId : Bytes := []
  position : Nat := 0
deriving DecidableEq, Repr

/-- The header of a payload. The fields of the previous log entry are taken
    to be there if a number of messages stands behind them. -/
def parseAppendHeader (termed : Bool) (payload : Bytes) : Option AppendHeader :=
  if ¬ termed then some {}
  else if payload.length < 26 then none
  else
    let leaderSize := (get16 payload 16).toNat
    if leaderSize = 0 ∨ payload.length < 26 + leaderSize then none
    else
      let position := 18 + leaderSize
      let candidateCount :=
        if payload.length ≥ 38 + leaderSize then (get32 payload (position + 20)).toNat else 0
      let header : AppendHeader :=
        { term := get64 payload 0
          commit := get64 payload 8
          leaderId := substr payload 18 leaderSize
          position := position }
      if candidateCount > 0 ∧ candidateCount ≤ 10000 then
        some
          { header with
            prevLogIndex := get64 payload position
            prevLogTerm := get64 payload (position + 8)
            position := position + 16 }
      else some header

/-- One message of a payload, and the position behind it. -/
def parseReplicaMessage (payload : Bytes) (position : Nat) : Option (Message × Nat) :=
  if position + 18 > payload.length then none
  else
    let keySize := (get16 payload (position + 16)).toNat
    if position + 18 + keySize + 4 > payload.length then none
    else
      let valueSize := (get32 payload (position + (18 + keySize))).toNat
      if position + (22 + keySize) + valueSize > payload.length then none
      else some
        ({ offset := get64 payload (position + 0)
           timestampMs := (get64 payload (position + 8)).toInt64
           key := substr payload (position + 18) keySize
           value := substr payload (position + (22 + keySize)) valueSize },
          position + (22 + keySize) + valueSize)

/-- The messages of a payload, and the position behind them. -/
def parseReplicaMessages (payload : Bytes) : Nat → Nat → Option (List Message × Nat)
  | 0, position => some ([], position)
  | count + 1, position => do
      let first ← parseReplicaMessage payload position
      let rest ← parseReplicaMessages payload count first.2
      return (first.1 :: rest.1, rest.2)

/-- The loop of `AppendReplica` calls, up to the first that fails. -/
def appendReplicas (ios : Nat → StoreIo) (topic : Bytes) (partition : UInt32) :
    List Message → Nat → StorageEngine → StorageEngine × Option AppendError
  | [], _, e => (e, none)
  | m :: rest, index, e =>
      match e.appendReplica (ios index) topic partition m with
      | (e', some err) => (e', some err)
      | (e', none) => appendReplicas ios topic partition rest (index + 1) e'

/-- Whether each offset is the one before it plus one. -/
def consecutive : List Message → Bool
  | m :: n :: rest =>
      m.offset ≠ UInt64.ofNat (2 ^ 64 - 1) ∧ n.offset = m.offset + 1 ∧ consecutive (n :: rest)
  | _ => true

/-- `last_offset`: the offset of the last message. -/
def lastOffset (messages : List Message) : UInt64 :=
  (messages.getLast?.map Message.offset).getD 0

/-- The status of a failed `AppendReplica`. -/
def appendFailure (err : AppendError) : Status :=
  if err = .replicaOffsetGap then .invalidOffset else .storageError

/-- The last part of `HandleReplicaAppend`: the writes, once all checks are
    passed. -/
def Broker.storeReplicas (b : Broker) (env : ReplicaEnv) (request : Request) (partition : UInt32)
    (messages : List Message) : Broker × Response :=
  match appendReplicas env.ios request.topic partition messages 0 b.storage with
  | (e, some err) => ({ b with storage := e }, makeResponse request (appendFailure err))
  | (e, none) =>
      ({ b with
        storage := e
        coordinator := b.coordinator.recordLocalOffset (partitionKey request.topic partition)
          (lastOffset messages) }, makeResponse request .ok)

/-- The check of the leader, with the coordinator after it. -/
def Broker.observedBy (b : Broker) (env : ReplicaEnv) (request : Request) (header : AppendHeader)
    (partition : UInt32) (messages : List Message) : ReplicationCoordinator × Bool :=
  if request.hasFlag flagReplicationTerm then
    b.coordinator.observeAppend (partitionKey request.topic partition) header.term header.leaderId
      (lastOffset messages) header.commit env.now
  else (b.coordinator, true)

/-- The part of `HandleReplicaAppend` behind the parsing: the check of the
    previous log entry, of the offsets and of the leader, and the writes. -/
def Broker.applyAppend (b : Broker) (env : ReplicaEnv) (request : Request) (header : AppendHeader)
    (partition : UInt32) (messages : List Message) : Broker × Response :=
  let key := partitionKey request.topic partition
  if request.hasFlag flagReplicationTerm ∧
      ¬ b.coordinator.logMatches key header.prevLogIndex header.prevLogTerm then
    (b, makeResponse request .invalidOffset (put64 (b.coordinator.nextLogIndex key)))
  else if b.storage.nextOffset env.partitionOk request.topic partition
      ≠ messages.head?.map Message.offset then
    (b, makeResponse request .invalidOffset)
  else if ¬ consecutive messages then (b, makeResponse request .invalidOffset)
  else
    let observed := b.observedBy env request header partition messages
    let b := { b with coordinator := observed.1 }
    if ¬ observed.2 then (b, makeResponse request .storageError)
    else b.storeReplicas env request partition messages

/-- `HandleReplicaAppend`. -/
def Broker.handleReplicaAppend (b : Broker) (env : ReplicaEnv) (request : Request) :
    Broker × Response :=
  if ¬ request.hasFlag flagReplication ∨ request.payload.length < 8 then
    (b, makeResponse request .badRequest)
  else
    match parseAppendHeader (request.hasFlag flagReplicationTerm) request.payload with
    | none => (b, makeResponse request .badRequest)
    | some header =>
        if header.position + 8 > request.payload.length then (b, makeResponse request .badRequest)
        else
          let count := (get32 request.payload (header.position + 4)).toNat
          if count = 0 ∨ count > 10000 then (b, makeResponse request .badRequest)
          else
            match b.resolvePartition request.topic (get32 request.payload header.position) [] with
            | .error .unknownTopic => (b, makeResponse request .unknownTopic)
            | .error .outOfRange => (b, makeResponse request .invalidOffset)
            | .ok partition =>
                match parseReplicaMessages request.payload count (header.position + 8) with
                | none => (b, makeResponse request .badRequest)
                | some (messages, position) =>
                    if position ≠ request.payload.length then (b, makeResponse request .badRequest)
                    else b.applyAppend env request header partition messages

/-- `Handle`, for a replica append: version and flags are checked, and the
    token is checked and taken off. -/
def Broker.receiveAppend (b : Broker) (env : ReplicaEnv) (request : Request) : Broker × Response :=
  if request.version ≠ currentVersion then
    (b, makeResponse request .versionMismatch [currentVersion])
  else if request.flags &&& ~~~knownFlags ≠ 0 ∨ request.flags &&& ackMask = ackMask then
    (b, makeResponse request .badRequest)
  else if request.hasFlag flagReplication ∧ request.hasFlag flagAuthentication then
    (b, makeResponse request .badRequest)
  else
    match b.validateReplicationRequest request with
    | none => (b, makeResponse request .badRequest)
    | some normalized => b.handleReplicaAppend env normalized

/-! ## From the bytes to the call -/

/-- The header a call is sent with. -/
def AppendCall.header (a : AppendCall) : AppendHeader where
  term := a.term
  commit := a.commitIndex
  prevLogIndex := a.prevLogIndex
  prevLogTerm := a.prevLogTerm
  leaderId := a.leaderId
  position := 34 + a.leaderId.length

/-- What a follower does with a call: the partition is resolved, then the call
    is applied. -/
def Broker.followCall (b : Broker) (env : ReplicaEnv) (request : Request) (a : AppendCall) :
    Broker × Response :=
  match b.resolvePartition a.topic a.partition [] with
  | .error .unknownTopic => (b, makeResponse request .unknownTopic)
  | .error .outOfRange => (b, makeResponse request .invalidOffset)
  | .ok partition => b.applyAppend env request a.header partition a.messages

section Parse

/-- A message reads back, wherever it stands. -/
theorem parseReplicaMessage_encodeBody (m : Message) (h : m.Framed) (front back : Bytes) :
    parseReplicaMessage (front ++ (encodeBody m ++ back)) front.length
      = some (m, front.length + (encodeBody m).length) := by
  have hlen := length_encodeBody m
  rw [bodyFixedSize] at hlen
  have htotal : (front ++ (encodeBody m ++ back)).length
      = front.length + (22 + m.key.length + m.value.length) + back.length := by
    simp only [List.length_append, hlen]
    omega
  have hkey : (get16 (front ++ (encodeBody m ++ back)) (front.length + 16)).toNat
      = m.key.length := by
    rw [get16_middle _ _ _ _ (by omega), get16_encodeBody_key, keyLen_toNat m h]
  have hvalue : (get32 (front ++ (encodeBody m ++ back))
      (front.length + (18 + m.key.length))).toNat = m.value.length := by
    rw [get32_middle _ _ _ _ (by omega), get32_encodeBody_value, valueLen_toNat m h]
  simp only [parseReplicaMessage, hkey, hvalue, htotal]
  rw [if_neg (by omega), if_neg (by omega), if_neg (by omega), get64_middle _ _ _ _ (by omega),
    get64_middle _ _ _ _ (by omega), substr_middle _ _ _ _ _ (by omega),
    substr_middle _ _ _ _ _ (by omega), get64_encodeBody_offset, get64_encodeBody_timestamp,
    substr_encodeBody_key, substr_encodeBody_value, hlen]
  simp only [Int64.toInt64_toUInt64, Option.some.injEq, Prod.mk.injEq, true_and]
  omega

theorem parseReplicaMessages_encodeBody (ms : List Message) (h : ∀ m ∈ ms, m.Framed)
    (front : Bytes) :
    parseReplicaMessages (front ++ ms.flatMap encodeBody) ms.length front.length
      = some (ms, (front ++ ms.flatMap encodeBody).length) := by
  induction ms generalizing front with
  | nil => simp only [List.flatMap_nil, List.append_nil, List.length_nil, parseReplicaMessages]
  | cons m ms ih =>
      have hrest := ih (fun x hx => h x (List.mem_cons_of_mem m hx)) (front ++ encodeBody m)
      rw [List.append_assoc, List.length_append] at hrest
      rw [List.flatMap_cons, List.length_cons, parseReplicaMessages,
        parseReplicaMessage_encodeBody m (h m List.mem_cons_self) front, Option.bind_eq_bind,
        Option.bind_some, hrest]
      rfl

theorem length_le_flatMap_encodeBody (messages : List Message) :
    22 * messages.length ≤ (messages.flatMap encodeBody).length := by
  induction messages with
  | nil => exact le_rfl
  | cons m rest ih =>
      rw [List.flatMap_cons, List.length_append, length_encodeBody, bodyFixedSize, List.length_cons]
      omega

variable (a : AppendCall)

/-- The first part of a payload, up to the leader. -/
def AppendCall.front : Bytes :=
  put64 a.term ++ put64 a.commitIndex ++ put16 (UInt16.ofNat a.leaderId.length)

/-- The part of a payload between the leader and the messages. -/
def AppendCall.middle : Bytes :=
  put64 a.prevLogIndex ++ put64 a.prevLogTerm ++ put32 a.partition ++
    put32 (UInt32.ofNat a.messages.length)

theorem appendPayload_eq :
    appendPayload a = a.front ++ (a.leaderId ++ (a.middle ++ a.messages.flatMap encodeBody)) := rfl

@[simp] theorem length_front : a.front.length = 18 := by
  simp only [AppendCall.front, List.length_append, length_put64, length_put16]

@[simp] theorem length_middle : a.middle.length = 24 := by
  simp only [AppendCall.middle, List.length_append, length_put64, length_put32]

theorem length_appendPayload :
    (appendPayload a).length
      = 42 + a.leaderId.length + (a.messages.flatMap encodeBody).length := by
  simp only [appendPayload_eq, List.length_append, length_front, length_middle]
  omega

/-- The leader and the fields in front of it, whatever is behind. -/
theorem read_leader (hleader : a.leaderId.length ≤ 65535) (back : Bytes) :
    get64 (a.front ++ (a.leaderId ++ back)) 0 = a.term ∧
      get64 (a.front ++ (a.leaderId ++ back)) 8 = a.commitIndex ∧
      (get16 (a.front ++ (a.leaderId ++ back)) 16).toNat = a.leaderId.length ∧
      substr (a.front ++ (a.leaderId ++ back)) 18 a.leaderId.length = a.leaderId := by
  have hsize : (UInt16.ofNat a.leaderId.length).toNat = a.leaderId.length := by
    rw [UInt16.toNat_ofNat']
    exact Nat.mod_eq_of_lt (by omega)
  refine ⟨?_, ?_, ?_, ?_⟩
  · rw [AppendCall.front, List.append_assoc, List.append_assoc]
    exact get64_put64 _ _
  · rw [AppendCall.front, List.append_assoc, List.append_assoc,
      get64_append_right _ _ _ (by rw [length_put64]), length_put64]
    exact get64_put64 _ _
  · rw [AppendCall.front, List.append_assoc, get16_append_right _ _ _ (by
      simp only [List.length_append, length_put64]; omega), List.length_append, length_put64,
      length_put64, get16_put16, hsize]
  · rw [substr_append_right _ _ _ _ (by rw [length_front]), length_front]
    exact substr_append_left _ _ _ rfl

/-- The fields in front of the leader. -/
theorem read_front (hleader : a.leaderId.length ≤ 65535) :
    get64 (appendPayload a) 0 = a.term ∧ get64 (appendPayload a) 8 = a.commitIndex ∧
      (get16 (appendPayload a) 16).toNat = a.leaderId.length ∧
      substr (appendPayload a) 18 a.leaderId.length = a.leaderId := by
  rw [appendPayload_eq]
  exact read_leader a hleader _

/-- The fields behind the leader. -/
theorem read_middle (hcount : a.messages.length < 2 ^ 32) :
    get64 (appendPayload a) (18 + a.leaderId.length) = a.prevLogIndex ∧
      get64 (appendPayload a) (18 + a.leaderId.length + 8) = a.prevLogTerm ∧
      get32 (appendPayload a) (34 + a.leaderId.length) = a.partition ∧
      (get32 (appendPayload a) (38 + a.leaderId.length)).toNat = a.messages.length := by
  have hpayload : appendPayload a
      = (a.front ++ a.leaderId) ++ (a.middle ++ a.messages.flatMap encodeBody) := by
    rw [appendPayload_eq, List.append_assoc]
  have hfront : (a.front ++ a.leaderId).length = 18 + a.leaderId.length := by
    rw [List.length_append, length_front]
  have hsize : (UInt32.ofNat a.messages.length).toNat = a.messages.length := by
    rw [UInt32.toNat_ofNat']
    exact Nat.mod_eq_of_lt (by omega)
  refine ⟨?_, ?_, ?_, ?_⟩
  · rw [hpayload, ← hfront, ← Nat.add_zero (a.front ++ a.leaderId).length,
      get64_middle _ _ _ _ (by rw [length_middle]; omega), AppendCall.middle, List.append_assoc,
      List.append_assoc]
    exact get64_put64 _ _
  · rw [hpayload, ← hfront, get64_middle _ _ _ _ (by rw [length_middle]; omega),
      AppendCall.middle, List.append_assoc, List.append_assoc,
      get64_append_right _ _ _ (by rw [length_put64]), length_put64]
    exact get64_put64 _ _
  · rw [hpayload, show 34 + a.leaderId.length = (a.front ++ a.leaderId).length + 16 by omega,
      get32_middle _ _ _ _ (by rw [length_middle]; omega), AppendCall.middle, List.append_assoc,
      get32_append_right _ _ _ (by simp only [List.length_append, length_put64]; omega)]
    simp only [List.length_append, length_put64]
    exact get32_put32 _ _
  · rw [hpayload, show 38 + a.leaderId.length = (a.front ++ a.leaderId).length + 20 by omega,
      get32_middle _ _ _ _ (by rw [length_middle]), AppendCall.middle,
      get32_append_right _ _ _ (by simp only [List.length_append, length_put64, length_put32]; omega)]
    simp only [List.length_append, length_put64, length_put32]
    rw [← List.append_nil (put32 _), get32_put32, hsize]

/-- The handler's guess about the header is right. -/
theorem parseAppendHeader_payload (hleader : a.leaderId ≠ [])
    (hsize : a.leaderId.length ≤ 65535) (hmessages : a.messages ≠ [])
    (hcount : a.messages.length ≤ 10000) :
    parseAppendHeader true (appendPayload a) = some a.header := by
  rcases read_front a hsize with ⟨hterm, hcommit, hlen, hid⟩
  rcases read_middle a (by omega) with ⟨hindex, hprev, _, hnumber⟩
  have htotal := length_appendPayload a
  have hpos : 0 < a.messages.length := List.length_pos_iff.mpr hmessages
  have hleaderpos : 0 < a.leaderId.length := List.length_pos_iff.mpr hleader
  rw [show 38 + a.leaderId.length = 18 + a.leaderId.length + 20 by omega] at hnumber
  simp only [parseAppendHeader, hlen, htotal, hnumber, hterm, hcommit, hid, hindex, hprev]
  rw [if_neg (by decide), if_neg (by omega), if_neg (by omega),
    if_pos (show 42 + a.leaderId.length + (a.messages.flatMap encodeBody).length
      ≥ 38 + a.leaderId.length by omega), if_pos (by omega)]
  simp only [AppendCall.header, Option.some.injEq, AppendHeader.mk.injEq, true_and]
  omega

/-- The handler reads the payload of a call as the call. -/
theorem handleReplicaAppend_payload (b : Broker) (env : ReplicaEnv) (request : Request)
    (hpayload : request.payload = appendPayload a) (htopic : request.topic = a.topic)
    (hflags : request.hasFlag flagReplication = true ∧ request.hasFlag flagReplicationTerm = true)
    (hleader : a.leaderId ≠ []) (hsize : a.leaderId.length ≤ 65535) (hmessages : a.messages ≠ [])
    (hcount : a.messages.length ≤ 10000) (hstorable : ∀ m ∈ a.messages, m.Storable) :
    b.handleReplicaAppend env request = b.followCall env request a := by
  have hheader := parseAppendHeader_payload a hleader hsize hmessages hcount
  rcases read_middle a (by omega) with ⟨_, _, hpartition, hnumber⟩
  have htotal := length_appendPayload a
  have hpos : 0 < a.messages.length := List.length_pos_iff.mpr hmessages
  have hposition : a.header.position = 34 + a.leaderId.length := rfl
  have hparsed : parseReplicaMessages (appendPayload a) a.messages.length
      (34 + a.leaderId.length + 8) = some (a.messages, (appendPayload a).length) := by
    have hall := parseReplicaMessages_encodeBody a.messages
      (fun m hm => (hstorable m hm).framed)
      (a.front ++ (a.leaderId ++ a.middle))
    rw [List.append_assoc, List.append_assoc, ← appendPayload_eq] at hall
    rw [← hall]
    congr 1
    simp only [List.length_append, length_front, length_middle]
    omega
  rw [show 38 + a.leaderId.length = 34 + a.leaderId.length + 4 by omega] at hnumber
  simp only [Broker.handleReplicaAppend, hflags.1, hflags.2, hpayload, hheader, hposition,
    hpartition, hnumber, hparsed, htopic]
  rw [if_neg (by rw [htotal]; simp only [not_true_eq_false, false_or]; omega),
    if_neg (by rw [htotal]; omega), if_neg (by omega)]
  simp only [ne_eq, not_true_eq_false, if_false, Broker.followCall]

theorem wireRequest_flags (topic : Bytes) (requestId : UInt64) (payload : Bytes) :
    (wireRequest topic requestId payload).hasFlag flagReplication = true ∧
      (wireRequest topic requestId payload).hasFlag flagReplicationTerm = true ∧
      (wireRequest topic requestId payload).hasFlag flagAuthentication = false := by
  have hreplication : (flagReplication ||| flagReplicationTerm) &&& flagReplication ≠ 0 := by decide
  have hterm : (flagReplication ||| flagReplicationTerm) &&& flagReplicationTerm ≠ 0 := by decide
  have hauth : ¬ (flagReplication ||| flagReplicationTerm) &&& flagAuthentication ≠ 0 := by decide
  exact ⟨decide_eq_true hreplication, decide_eq_true hterm, decide_eq_false hauth⟩

/-- The token in front of a payload is recognised and taken off, for every
    command between brokers that has the flags it needs. -/
theorem validate_token (b : Broker) (request : Request) (token payload : Bytes)
    (hpayload : request.payload = put16 (UInt16.ofNat token.length) ++ (token ++ payload))
    (hreplication : request.hasFlag flagReplication = true)
    (hcommand : request.command ∈ [.heartbeat, .replicaFetch, .replicaAppend, .replicaVote])
    (happend : request.command = .replicaAppend → request.hasFlag flagReplicationTerm = true)
    (hterm : request.hasFlag flagReplicationTerm = true →
      request.command ∈ [.heartbeat, .replicaAppend, .replicaVote])
    (hconfigured : b.replicationConfigured = true) (htoken : b.replicationAuthToken = token)
    (hne : token ≠ []) (hlen : token.length ≤ 65535) :
    b.validateReplicationRequest request = some { request with payload := payload } := by
  have hsize : (get16 request.payload 0).toNat = token.length := by
    rw [hpayload, get16_put16, UInt16.toNat_ofNat']
    exact Nat.mod_eq_of_lt (by omega)
  have hsub : substr request.payload 2 token.length = token := by
    rw [hpayload, substr_append_right _ _ _ _ (by rw [length_put16]), length_put16]
    exact substr_append_left _ _ _ rfl
  have hdrop : request.payload.drop (2 + token.length) = payload := by
    rw [hpayload, ← List.append_assoc, show 2 + token.length
      = (put16 (UInt16.ofNat token.length) ++ token).length by
        rw [List.length_append, length_put16], List.drop_left]
  have htotal : 2 + token.length ≤ request.payload.length := by
    rw [hpayload, List.length_append, List.length_append, length_put16]
    omega
  simp only [Broker.validateReplicationRequest, hsize, hsub, hdrop, hconfigured, htoken,
    hreplication]
  rw [if_neg, if_neg (not_not.mpr hcommand), if_neg (fun h => h.2 (happend h.1)),
    if_neg (fun h => h.2 (hterm h.1)), if_neg (by omega), if_neg]
  · simp only [ne_eq, not_true_eq_false, false_or, or_false]
    omega
  · simp only [not_true_eq_false, false_or, or_false]
    exact hne

/-- The token of a replica append. -/
theorem validate_wireRequest (b : Broker) (token payload topic : Bytes) (requestId : UInt64)
    (hconfigured : b.replicationConfigured = true) (htoken : b.replicationAuthToken = token)
    (hne : token ≠ []) (hlen : token.length ≤ 65535) :
    b.validateReplicationRequest (wireRequest topic requestId
        (put16 (UInt16.ofNat token.length) ++ (token ++ payload)))
      = some (wireRequest topic requestId payload) := by
  rcases wireRequest_flags topic requestId (put16 (UInt16.ofNat token.length) ++
    (token ++ payload)) with ⟨hreplication, hterm, _⟩
  exact validate_token b _ token payload rfl hreplication
    (show Command.replicaAppend ∈ _ by decide) (fun _ => hterm)
    (fun _ => show Command.replicaAppend ∈ _ by decide) hconfigured htoken hne hlen

/-- The way of a request of `Call` to the handler. -/
theorem receiveAppend_wireRequest (b : Broker) (env : ReplicaEnv) (token payload topic : Bytes)
    (requestId : UInt64) (hconfigured : b.replicationConfigured = true)
    (htoken : b.replicationAuthToken = token) (hne : token ≠ []) (hlen : token.length ≤ 65535) :
    b.receiveAppend env (wireRequest topic requestId
        (put16 (UInt16.ofNat token.length) ++ (token ++ payload)))
      = b.handleReplicaAppend env (wireRequest topic requestId payload) := by
  rcases wireRequest_flags topic requestId (put16 (UInt16.ofNat token.length) ++
    (token ++ payload)) with ⟨_, _, hauth⟩
  have hknown : ¬ ((flagReplication ||| flagReplicationTerm) &&& ~~~knownFlags ≠ 0 ∨
      (flagReplication ||| flagReplicationTerm) &&& ackMask = ackMask) := by decide
  have hversion : ¬ (wireRequest topic requestId (put16 (UInt16.ofNat token.length) ++
      (token ++ payload))).version ≠ currentVersion := not_not.mpr rfl
  have hflags : (wireRequest topic requestId (put16 (UInt16.ofNat token.length) ++
      (token ++ payload))).flags = flagReplication ||| flagReplicationTerm := rfl
  rw [Broker.receiveAppend, if_neg hversion, hflags, if_neg hknown, hauth,
    validate_wireRequest b token payload topic requestId hconfigured htoken hne hlen]
  simp only [Bool.false_eq_true, and_false, if_false]

/-- The request of a call has its messages in its payload, which is limited. -/
theorem appendRequest_some {a : AppendCall} {token : Bytes} {requestId : UInt64}
    {request : Request} (h : appendRequest token requestId a = some request) :
    request = wireRequest a.topic requestId (put16 (UInt16.ofNat token.length) ++
        (token ++ appendPayload a)) ∧
      a.messages ≠ [] ∧ a.leaderId ≠ [] ∧ a.leaderId.length ≤ 65535 ∧ token ≠ [] ∧
      token.length ≤ 65535 ∧ (a.messages.flatMap encodeBody).length ≤ maxPayloadBytes := by
  simp only [appendRequest] at h
  split at h
  · cases h
  · rename_i hargs
    split at h
    · cases h
    · rename_i htokens
      split at h
      · cases h
      · rename_i hfits
        rw [not_or, not_or, not_lt] at hargs
        rw [not_or, not_lt] at htokens
        rw [not_or, not_lt, not_lt] at hfits
        refine ⟨(Option.some.inj h).symm, hargs.1, hargs.2.1, hargs.2.2, htokens.1, htokens.2, ?_⟩
        have htotal := hfits.2
        rw [List.length_append, List.length_append, length_appendPayload] at htotal
        omega

/-- A request that `Append` has sent is read by a follower with the same token
    as the call it was built from. -/
theorem receiveAppend_request (b : Broker) (env : ReplicaEnv) (token : Bytes) (requestId : UInt64)
    (request : Request) (hrequest : appendRequest token requestId a = some request)
    (hconfigured : b.replicationConfigured = true) (htoken : b.replicationAuthToken = token)
    (hcount : a.messages.length ≤ 10000) (hstorable : ∀ m ∈ a.messages, m.Storable) :
    b.receiveAppend env request
      = b.followCall env (wireRequest a.topic requestId (appendPayload a)) a := by
  rcases appendRequest_some hrequest with ⟨hsent, hmessages, hleader, hsize, hne, hlen, _⟩
  rw [hsent, receiveAppend_wireRequest b env token _ _ _ hconfigured htoken hne hlen]
  rcases wireRequest_flags a.topic requestId (appendPayload a) with ⟨hreplication, hterm, _⟩
  exact handleReplicaAppend_payload a b env _ rfl rfl ⟨hreplication, hterm⟩ hleader hsize hmessages
    hcount hstorable

end Parse

/-! ## What a follower does -/

section Follow

/-- The loop stores a prefix of the messages, each at the next offset, and all
    of them when it reports no error. -/
theorem appendReplicas_cases (ios : Nat → StoreIo) (topic : Bytes) (partition : UInt32)
    (ms : List Message) (index : Nat) (e : StorageEngine) :
    ∃ stored, stored <+: ms ∧
      Extended e (appendReplicas ios topic partition ms index e).1 topic partition stored ∧
      Numbered (e.partition topic partition).nextOffset stored ∧ (∀ m ∈ stored, m.Storable) ∧
      ((appendReplicas ios topic partition ms index e).2 = none → stored = ms) := by
  induction ms generalizing index e with
  | nil =>
      exact ⟨[], List.nil_prefix, (SameMessages.refl e).extended topic partition, trivial,
        fun m hm => absurd hm List.not_mem_nil, fun _ => rfl⟩
  | cons m ms ih =>
      simp only [appendReplicas]
      rcases store_appendReplica_cases e (ios index) topic partition m with
        ⟨hstored, hoffset, hstorable, hresult⟩ | ⟨hsame, err, hresult⟩
      · cases hreply : e.appendReplica (ios index) topic partition m with
        | mk e' outcome =>
            rw [hreply] at hstored hresult
            cases outcome with
            | some err =>
                -- Only the sync has failed: the message is stored, the loop stops.
                refine ⟨[m], ?_, hstored.extended, ⟨hoffset, trivial⟩, ?_, ?_⟩
                · exact List.prefix_append [m] ms
                · intro x hx
                  rw [List.mem_singleton.mp hx]
                  exact hstorable
                · intro hnone
                  cases hnone
            | none =>
                rcases ih (index + 1) e' with ⟨stored, hpre, hext, hnum, hall, hend⟩
                refine ⟨m :: stored, ?_, hstored.extended.trans hext, ⟨hoffset, ?_⟩, ?_, ?_⟩
                · exact List.prefix_cons_inj m |>.mpr hpre
                · rw [hstored.nextOffset] at hnum
                  exact hnum
                · intro x hx
                  rcases List.mem_cons.mp hx with rfl | hx
                  · exact hstorable
                  · exact hall x hx
                · intro hnone
                  rw [hend hnone]
      · cases hreply : e.appendReplica (ios index) topic partition m with
        | mk e' outcome =>
            rw [hreply] at hsame hresult
            cases hresult
            exact ⟨[], List.nil_prefix, hsame.extended topic partition, trivial,
              fun x hx => absurd hx List.not_mem_nil, fun hnone => by cases hnone⟩

variable (b : Broker) (env : ReplicaEnv) (request : Request) (header : AppendHeader)
  (partition : UInt32) (messages : List Message)

/-- The checks of `HandleReplicaAppend` in front of the writes. -/
structure Broker.PassesChecks (b : Broker) (env : ReplicaEnv) (request : Request)
    (header : AppendHeader) (partition : UInt32) (messages : List Message) : Prop where
  matched : request.hasFlag flagReplicationTerm = true →
    b.coordinator.logMatches (partitionKey request.topic partition) header.prevLogIndex
      header.prevLogTerm = true
  next : b.storage.nextOffset env.partitionOk request.topic partition
    = messages.head?.map Message.offset
  ordered : consecutive messages = true
  leader : (b.observedBy env request header partition messages).2 = true

/-- A call that passes the checks comes from a leader that is not behind. -/
theorem Broker.PassesChecks.term_le {b : Broker} {env : ReplicaEnv} {request : Request}
    {header : AppendHeader} {partition : UInt32} {messages : List Message}
    (h : b.PassesChecks env request header partition messages)
    (hflag : request.hasFlag flagReplicationTerm = true) :
    b.coordinator.currentTerm ≤ header.term := by
  have hleader := h.leader
  simp only [Broker.observedBy, if_pos hflag, ReplicationCoordinator.observeAppend] at hleader
  split at hleader
  · exact absurd hleader Bool.false_ne_true
  · rename_i haccepts
    exact (of_decide_eq_true (not_not.mp haccepts)).1

/-- A call that passes the checks is written. -/
theorem applyAppend_passed (h : b.PassesChecks env request header partition messages) :
    b.applyAppend env request header partition messages
      = Broker.storeReplicas
          { b with coordinator := (b.observedBy env request header partition messages).1 } env
          request partition messages := by
  simp only [Broker.applyAppend]
  rw [if_neg (fun hfail => hfail.2 (h.matched hfail.1)), if_neg (not_not.mpr h.next),
    if_neg (not_not.mpr h.ordered), if_neg (not_not.mpr h.leader)]

/-- A leader that is not accepted leaves no trace in the coordinator. -/
theorem observedBy_refused
    (h : ¬ (b.observedBy env request header partition messages).2 = true) :
    (b.observedBy env request header partition messages).1 = b.coordinator := by
  unfold Broker.observedBy ReplicationCoordinator.observeAppend at h ⊢
  split
  · rename_i hterm
    rw [if_pos hterm] at h
    split
    · rfl
    · rename_i haccept
      rw [if_neg haccept] at h
      simp only at h
      split at h <;> exact absurd rfl h
  · rfl

theorem refusal (status : Status) (payload : Bytes) (h : status ≠ .ok) :
    (b, makeResponse request status payload).1 = b ∧
      (b, makeResponse request status payload).2.status ≠ .ok :=
  ⟨rfl, h⟩

/-- A call that fails a check changes nothing. -/
theorem applyAppend_refused (h : ¬ b.PassesChecks env request header partition messages) :
    (b.applyAppend env request header partition messages).1 = b ∧
      (b.applyAppend env request header partition messages).2.status ≠ .ok := by
  simp only [Broker.applyAppend]
  split
  · exact refusal b request _ _ (by decide)
  · rename_i hmatch
    split
    · exact refusal b request _ _ (by decide)
    · rename_i hnext
      split
      · exact refusal b request _ _ (by decide)
      · rename_i hordered
        split
        · rename_i hobserved
          rw [observedBy_refused b env request header partition messages hobserved]
          exact refusal b request _ _ (by decide)
        · rename_i hobserved
          refine absurd ⟨?_, not_not.mp hnext, not_not.mp hordered, not_not.mp hobserved⟩ h
          intro hterm
          by_contra hno
          exact hmatch ⟨hterm, hno⟩

/-- What the last part of the handler leaves behind. -/
theorem storeReplicas_cases :
    ∃ stored, stored <+: messages ∧
      Extended b.storage (b.storeReplicas env request partition messages).1.storage
        request.topic partition stored ∧
      Numbered (b.storage.partition request.topic partition).nextOffset stored ∧
      (∀ m ∈ stored, m.Storable) ∧
      ((∃ e, (b.storeReplicas env request partition messages).1
            = { b with storage := e } ∧
          (b.storeReplicas env request partition messages).2.status ≠ .ok) ∨
        (∃ e, (b.storeReplicas env request partition messages).1
            = { b with
                storage := e
                coordinator := b.coordinator.recordLocalOffset
                  (partitionKey request.topic partition) (lastOffset messages) } ∧
          (b.storeReplicas env request partition messages).2.status = .ok ∧
          stored = messages)) := by
  rcases appendReplicas_cases env.ios request.topic partition messages 0 b.storage with
    ⟨stored, hpre, hext, hnum, hall, hend⟩
  refine ⟨stored, hpre, ?_⟩
  simp only [Broker.storeReplicas]
  cases hloop : appendReplicas env.ios request.topic partition messages 0 b.storage with
  | mk e outcome =>
      rw [hloop] at hext hend
      cases outcome with
      | some err =>
          refine ⟨hext, hnum, hall, Or.inl ⟨e, rfl, ?_⟩⟩
          simp only [makeResponse, appendFailure]
          split <;> decide
      | none => exact ⟨hext, hnum, hall, Or.inr ⟨e, rfl, rfl, hend rfl⟩⟩

/-- What a follower does with a call. It changes nothing and refuses, or it
    accepts the leader and stores some of the messages; and it answers `kOk`
    only when it has stored them all and recorded the last one. -/
theorem applyAppend_cases :
    ((b.applyAppend env request header partition messages).1 = b ∧
      (b.applyAppend env request header partition messages).2.status ≠ .ok) ∨
    (b.PassesChecks env request header partition messages ∧
      ∃ stored e, stored <+: messages ∧ Extended b.storage e request.topic partition stored ∧
        Numbered (b.storage.partition request.topic partition).nextOffset stored ∧
        (∀ m ∈ stored, m.Storable) ∧
        (((b.applyAppend env request header partition messages).1
            = { b with
                storage := e
                coordinator := (b.observedBy env request header partition messages).1 } ∧
            (b.applyAppend env request header partition messages).2.status ≠ .ok) ∨
          ((b.applyAppend env request header partition messages).1
            = { b with
                storage := e
                coordinator := (b.observedBy env request header partition
                  messages).1.recordLocalOffset (partitionKey request.topic partition)
                    (lastOffset messages) } ∧
            (b.applyAppend env request header partition messages).2.status = .ok ∧
            stored = messages))) := by
  by_cases hpass : b.PassesChecks env request header partition messages
  · right
    refine ⟨hpass, ?_⟩
    rw [applyAppend_passed b env request header partition messages hpass]
    rcases storeReplicas_cases
      { b with coordinator := (b.observedBy env request header partition messages).1 } env request
      partition messages with
      ⟨stored, hpre, hext, hnum, hall, ⟨e, heq, hstatus⟩ | ⟨e, heq, hstatus, hwhole⟩⟩
    · rw [heq] at hext
      exact ⟨stored, e, hpre, hext, hnum, hall, Or.inl ⟨heq, hstatus⟩⟩
    · rw [heq] at hext
      exact ⟨stored, e, hpre, hext, hnum, hall, Or.inr ⟨heq, hstatus, hwhole⟩⟩
  · exact Or.inl (applyAppend_refused b env request header partition messages hpass)

/-- A header that is read has the term and the leader where they always
    stand. -/
theorem parseAppendHeader_leader {termed : Bool} {payload : Bytes} {h : AppendHeader}
    (hparse : parseAppendHeader termed payload = some h) (htermed : termed = true) :
    h.term = get64 payload 0 ∧ h.leaderId = substr payload 18 (get16 payload 16).toNat := by
  unfold parseAppendHeader at hparse
  rw [if_neg (not_not.mpr htermed)] at hparse
  split at hparse
  · cases hparse
  · simp only at hparse
    split at hparse
    · cases hparse
    · generalize (if payload.length ≥ 38 + (get16 payload 16).toNat then
        (get32 payload (18 + (get16 payload 16).toNat + 20)).toNat else 0) = count at hparse
      split at hparse
      · rw [← Option.some.inj hparse]
        exact ⟨rfl, rfl⟩
      · rw [← Option.some.inj hparse]
        exact ⟨rfl, rfl⟩

theorem parseReplicaMessages_length {payload : Bytes} {count position : Nat}
    {found : List Message × Nat} (h : parseReplicaMessages payload count position = some found) :
    found.1.length = count := by
  induction count generalizing position found with
  | zero =>
      rw [parseReplicaMessages] at h
      cases h
      rfl
  | succ count ih =>
      simp only [parseReplicaMessages, Option.bind_eq_bind, Option.pure_def,
        Option.bind_eq_some_iff, Option.some.injEq] at h
      rcases h with ⟨first, _, rest, hrest, rfl⟩
      rw [List.length_cons, ih hrest]

/-- A payload is refused without effect or applied as some call, with the term
    and the leader that stand in it. -/
theorem handleReplicaAppend_cases (hterm : request.hasFlag flagReplicationTerm = true) :
    ((b.handleReplicaAppend env request).1 = b ∧
      (b.handleReplicaAppend env request).2.status ≠ .ok) ∨
    ∃ header partition messages, header.term = get64 request.payload 0 ∧
      header.leaderId = substr request.payload 18 (get16 request.payload 16).toNat ∧
      b.handleReplicaAppend env request
        = b.applyAppend env request header partition messages := by
  simp only [Broker.handleReplicaAppend]
  split
  · exact Or.inl (refusal b _ _ _ (by decide))
  · split
    · exact Or.inl (refusal b _ _ _ (by decide))
    · rename_i header hheader
      rcases parseAppendHeader_leader hheader hterm with ⟨hheaderterm, hleader⟩
      split
      · exact Or.inl (refusal b _ _ _ (by decide))
      · split
        · exact Or.inl (refusal b _ _ _ (by decide))
        · split
          · exact Or.inl (refusal b _ _ _ (by decide))
          · exact Or.inl (refusal b _ _ _ (by decide))
          · split
            · exact Or.inl (refusal b _ _ _ (by decide))
            · split
              · exact Or.inl (refusal b _ _ _ (by decide))
              · exact Or.inr ⟨header, _, _, hheaderterm, hleader, rfl⟩

/-- A request that `Append` has sent, with any number of messages: a follower
    refuses it without effect, or takes notice of its term and its leader. -/
theorem receiveAppend_cases (a : AppendCall) (token : Bytes) (requestId : UInt64)
    (hrequest : appendRequest token requestId a = some request)
    (hconfigured : b.replicationConfigured = true) (htoken : b.replicationAuthToken = token) :
    ((b.receiveAppend env request).1 = b ∧ (b.receiveAppend env request).2.status ≠ .ok) ∨
    ∃ header partition messages, header.term = a.term ∧ header.leaderId = a.leaderId ∧
      b.receiveAppend env request = b.applyAppend env
        (wireRequest a.topic requestId (appendPayload a)) header partition messages := by
  simp only [appendRequest] at hrequest
  split at hrequest
  · cases hrequest
  · rename_i hargs
    split at hrequest
    · cases hrequest
    · rename_i htokens
      split at hrequest
      · cases hrequest
      · rw [not_or, not_or, not_lt] at hargs
        rw [not_or, not_lt] at htokens
        rw [← Option.some.inj hrequest, receiveAppend_wireRequest b env token _ _ _ hconfigured
          htoken htokens.1 htokens.2]
        rcases read_front a hargs.2.2 with ⟨hterm, _, hsize, hleader⟩
        rcases handleReplicaAppend_cases b env (wireRequest a.topic requestId (appendPayload a))
          (wireRequest_flags a.topic requestId (appendPayload a)).2.1 with hrefused |
          ⟨header, partition, messages, hheader, hid, heq⟩
        · exact Or.inl hrefused
        · refine Or.inr ⟨header, partition, messages, hheader.trans hterm, ?_, heq⟩
          rw [hid]
          change substr (appendPayload a) 18 (get16 (appendPayload a) 16).toNat = a.leaderId
          rw [hsize, hleader]

end Follow

end MqBroker
