import MqBroker.Broker.Produce
import MqBroker.Broker.ReplicaAppend
import MqBroker.Lib.Traced

/-!
# Parsing Requests

The parsers of all commands, with the reads they make.

Every handler of a command starts with a parser of its own, written by hand:
some numbers, some lengths, and the bytes between them. Here each of them is a
`Traced` computation that makes the same reads in the same order, with the
status of the response as its error. For the commands whose handlers are
modelled elsewhere, producing and replica appends, the result is what the
handler works with.

The state of the broker comes in where a handler looks at it between two
reads: a produce request can be turned away or answered from the cache before
its body is read, and a replica append resolves its partition before it reads
the messages.

## Main definitions

* `readJoinGroup`, `readSyncGroup`, `readOffsetFetch`, `readCommitOffset`,
  `readFetch`, `readCreateTopic`: The commands of clients.
* `readReplicaHeartbeat`, `readGroupHeartbeat`: The two kinds of heartbeats.
* `readReplicaFetch`, `readReplicaVote`, `Broker.readReplicaAppend`: The
  commands of brokers.
* `readBody`, `readBatch`: Producing.
* `Broker.requestReads`: The reads of the handler of a request.

## Theorems

* `handleReplicaAppend_eq`: A replica append works on what was read.
* `readBody_result`, `readBatch_result`: So does producing.
-/

namespace MqBroker

open Traced

/-! ## Topics and groups -/

/-- The payload of `HandleCreateTopic`. -/
def readCreateTopic (payload : Bytes) : Traced Status UInt32 := do
  check (payload.length = 4) .badRequest
  read32 payload 0

/-- What a member sends to join a group. -/
structure JoinCall where
  group : Bytes
  member : Bytes
  topics : List Bytes
deriving DecidableEq, Repr

/-- The loop of `HandleJoinGroup` over the topics, with the position behind
    them. -/
def readTopics (payload : Bytes) : Nat → Nat → Traced Status (List Bytes × Nat)
  | 0, position => pure ([], position)
  | count + 1, position => do
      check (position + 2 ≤ payload.length) .badRequest
      let size ← read16 payload position
      check (size.toNat ≠ 0 ∧ position + 2 + size.toNat ≤ payload.length) .badRequest
      let topic ← copy payload (position + 2) size.toNat
      let rest ← readTopics payload count (position + 2 + size.toNat)
      return (topic :: rest.1, rest.2)

/-- The payload of `HandleJoinGroup`. The number of topics is read right behind
    the length of the member id. -/
def readJoinGroup (payload : Bytes) : Traced Status JoinCall := do
  check (6 ≤ payload.length) .badRequest
  let groupSize ← read16 payload 0
  check (2 + groupSize.toNat + 4 ≤ payload.length) .badRequest
  let memberSize ← read16 payload (2 + groupSize.toNat)
  let topicCount ← read16 payload (4 + groupSize.toNat)
  let position := 6 + groupSize.toNat + memberSize.toNat
  check (groupSize.toNat ≠ 0 ∧ memberSize.toNat ≠ 0 ∧ position ≤ payload.length) .badRequest
  let topics ← readTopics payload topicCount.toNat position
  check (topics.2 = payload.length) .badRequest
  let group ← copy payload 2 groupSize.toNat
  let member ← copy payload (4 + groupSize.toNat) memberSize.toNat
  return ⟨group, member, topics.1⟩

/-- The payload of `HandleSyncGroup`: the group and the member. -/
def readSyncGroup (payload : Bytes) : Traced Status (Bytes × Bytes) := do
  check (4 ≤ payload.length) .badRequest
  let groupSize ← read16 payload 0
  check (2 + groupSize.toNat + 2 ≤ payload.length) .badRequest
  let memberSize ← read16 payload (2 + groupSize.toNat)
  check (groupSize.toNat ≠ 0 ∧ memberSize.toNat ≠ 0 ∧
    4 + groupSize.toNat + memberSize.toNat = payload.length) .badRequest
  let group ← copy payload 2 groupSize.toNat
  let member ← copy payload (4 + groupSize.toNat) memberSize.toNat
  return (group, member)

/-- The payload of `HandleOffsetFetch`: the group and the partition. -/
def readOffsetFetch (topic payload : Bytes) : Traced Status (Bytes × UInt32) := do
  check (topic ≠ [] ∧ 6 ≤ payload.length) .badRequest
  let groupSize ← read16 payload 0
  check (groupSize.toNat ≠ 0 ∧ payload.length = 6 + groupSize.toNat) .badRequest
  let partition ← read32 payload (2 + groupSize.toNat)
  let group ← copy payload 2 groupSize.toNat
  return (group, partition)

/-- `Take` as a step of a parser. -/
def takeBytes (payload : Bytes) (position count : Nat) : Traced Status Nat :=
  match take payload position count with
  | none => fail .badRequest
  | some next => pure next

/-- `ResolvePartition` as a step of a parser, for the commands that answer
    `kInvalidOffset` to a partition that is not there. -/
def Broker.resolveStep (b : Broker) (topic : Bytes) (partition : UInt32) :
    Traced Status UInt32 :=
  match b.resolvePartition topic partition [] with
  | .error .unknownTopic => fail .unknownTopic
  | .error .outOfRange => fail .invalidOffset
  | .ok resolved => pure resolved

/-- The payload of `HandleCommitOffset`: the group, the partition and the
    offset. The group is copied only once the partition is resolved. -/
def Broker.readCommitOffset (b : Broker) (topic payload : Bytes) :
    Traced Status (Bytes × UInt32 × UInt64) := do
  let groupPosition ← takeBytes payload 0 2
  let groupSize ← read16 payload 0
  let position ← takeBytes payload groupPosition groupSize.toNat
  let position ← takeBytes payload position 4
  let position ← takeBytes payload position 8
  check (position = payload.length) .badRequest
  let partition ← read32 payload (groupPosition + groupSize.toNat)
  let offset ← read64 payload (groupPosition + groupSize.toNat + 4)
  check (groupSize.toNat ≠ 0 ∧ topic ≠ []) .badRequest
  let resolved ← b.resolveStep topic partition
  let group ← copy payload groupPosition groupSize.toNat
  return (group, resolved, offset)

/-- What a fetch asks for. -/
structure FetchCall where
  partition : UInt32
  group : Bytes := []
  offset : UInt64
  maxBytes : UInt32
deriving DecidableEq, Repr

/-- The payload of `HandleFetch`, with or without a group. -/
def readFetch (payload : Bytes) : Traced Status FetchCall := do
  check (16 ≤ payload.length) .badRequest
  let partition ← read32 payload 0
  if payload.length = 16 then
    let offset ← read64 payload 4
    let maxBytes ← read32 payload 12
    check (maxBytes ≠ 0) .badRequest
    return { partition := partition, offset := offset, maxBytes := maxBytes }
  else
    check (18 ≤ payload.length) .badRequest
    let groupSize ← read16 payload 4
    check (groupSize.toNat ≠ 0 ∧ payload.length = 18 + groupSize.toNat) .badRequest
    let group ← copy payload 6 groupSize.toNat
    let offset ← read64 payload (6 + groupSize.toNat)
    let maxBytes ← read32 payload (14 + groupSize.toNat)
    check (maxBytes ≠ 0) .badRequest
    return { partition := partition, group := group, offset := offset, maxBytes := maxBytes }

/-! ## Heartbeats -/

/-- What a broker reports to another one: who it is, how far a partition has
    come, and as a leader also its term and its commit index. -/
structure ReplicaHeartbeat where
  nodeId : Bytes
  partition : UInt32
  replicatedOffset : UInt64
  termed : Option (UInt64 × UInt64) := none
deriving DecidableEq, Repr

/-- The replication branch of `HandleHeartbeat`. -/
def readReplicaHeartbeat (topic payload : Bytes) : Traced Status ReplicaHeartbeat := do
  check (topic ≠ [] ∧ 14 ≤ payload.length) .badRequest
  let nodeSize ← read16 payload 0
  check (nodeSize.toNat ≠ 0 ∧ (14 + nodeSize.toNat = payload.length ∨
    30 + nodeSize.toNat = payload.length)) .badRequest
  let nodeId ← copy payload 2 nodeSize.toNat
  let partition ← read32 payload (2 + nodeSize.toNat)
  let replicatedOffset ← read64 payload (6 + nodeSize.toNat)
  if payload.length = 30 + nodeSize.toNat then
    let term ← read64 payload (14 + nodeSize.toNat)
    let commit ← read64 payload (22 + nodeSize.toNat)
    return ⟨nodeId, partition, replicatedOffset, some (term, commit)⟩
  else return ⟨nodeId, partition, replicatedOffset, none⟩

/-- The other branches of `HandleHeartbeat`: a member of a group, or nobody. -/
def readGroupHeartbeat (payload : Bytes) : Traced Status (Option (Bytes × Bytes)) :=
  if 4 ≤ payload.length then do
    let groupSize ← read16 payload 0
    check (payload.length = 4 + groupSize.toNat) .badRequest
    let memberSize ← read16 payload (2 + groupSize.toNat)
    check (groupSize.toNat ≠ 0 ∧ memberSize.toNat ≠ 0 ∧
      payload.length = 4 + groupSize.toNat + memberSize.toNat) .badRequest
    let group ← copy payload 2 groupSize.toNat
    let member ← copy payload (4 + groupSize.toNat) memberSize.toNat
    return some (group, member)
  else do
    check (payload = []) .badRequest
    return none

/-! ## Commands of brokers -/

/-- What a replica fetch asks for: the partition, the offset and the largest
    size of the answer. -/
def readReplicaFetch (request : Request) : Traced Status (UInt32 × UInt64 × UInt32) := do
  check (request.hasFlag flagReplication ∧ request.payload.length = 16) .badRequest
  let partition ← read32 request.payload 0
  let offset ← read64 request.payload 4
  let maxBytes ← read32 request.payload 12
  check (maxBytes ≠ 0) .badRequest
  return (partition, offset, maxBytes)

/-- The payload of `HandleReplicaVote`: term, candidate and the end of its
    log. -/
def readReplicaVote (request : Request) : Traced Status (UInt64 × Bytes × UInt64 × UInt64) := do
  check (request.hasFlag flagReplication ∧ 10 ≤ request.payload.length) .badRequest
  let term ← read64 request.payload 0
  let size ← read16 request.payload 8
  check (size.toNat ≠ 0 ∧ request.payload.length = 26 + size.toNat) .badRequest
  let lastLogIndex ← read64 request.payload (10 + size.toNat)
  let lastLogTerm ← read64 request.payload (18 + size.toNat)
  let candidate ← copy request.payload 10 size.toNat
  return (term, candidate, lastLogIndex, lastLogTerm)

/-- The number of messages, where it would be behind the previous log entry. -/
def readCandidateCount (payload : Bytes) (leaderSize : Nat) : Traced Status UInt32 :=
  if payload.length ≥ 38 + leaderSize then read32 payload (18 + leaderSize + 20) else pure 0

/-- The header of a replica append. -/
def readAppendHeader (termed : Bool) (payload : Bytes) : Traced Status AppendHeader :=
  if ¬ termed then pure {}
  else do
    check (26 ≤ payload.length) .badRequest
    let term ← read64 payload 0
    let commit ← read64 payload 8
    let leaderSize ← read16 payload 16
    check (leaderSize.toNat ≠ 0 ∧ 26 + leaderSize.toNat ≤ payload.length) .badRequest
    let leaderId ← copy payload 18 leaderSize.toNat
    let position := 18 + leaderSize.toNat
    let candidateCount ← readCandidateCount payload leaderSize.toNat
    if candidateCount.toNat > 0 ∧ candidateCount.toNat ≤ 10000 then
      let prevLogIndex ← read64 payload position
      let prevLogTerm ← read64 payload (position + 8)
      return ⟨term, commit, prevLogIndex, prevLogTerm, leaderId, position + 16⟩
    else return ⟨term, commit, 0, 0, leaderId, position⟩

/-- One message of a replica append, and the position behind it. -/
def readReplicaMessage (payload : Bytes) (position : Nat) : Traced Status (Message × Nat) := do
  check (position + 18 ≤ payload.length) .badRequest
  let offset ← read64 payload (position + 0)
  let timestamp ← read64 payload (position + 8)
  let keySize ← read16 payload (position + 16)
  check (position + 18 + keySize.toNat + 4 ≤ payload.length) .badRequest
  let key ← copy payload (position + 18) keySize.toNat
  let valueSize ← read32 payload (position + (18 + keySize.toNat))
  check (position + (22 + keySize.toNat) + valueSize.toNat ≤ payload.length) .badRequest
  let value ← copy payload (position + (22 + keySize.toNat)) valueSize.toNat
  return ({ offset := offset, timestampMs := timestamp.toInt64, key := key, value := value },
    position + (22 + keySize.toNat) + valueSize.toNat)

/-- The messages of a replica append, and the position behind them. -/
def readReplicaMessages (payload : Bytes) : Nat → Nat → Traced Status (List Message × Nat)
  | 0, position => pure ([], position)
  | count + 1, position => do
      let first ← readReplicaMessage payload position
      let rest ← readReplicaMessages payload count first.2
      return (first.1 :: rest.1, rest.2)

/-- What `HandleReplicaAppend` reads before it looks at the log. -/
def Broker.readReplicaAppend (b : Broker) (request : Request) :
    Traced Status (AppendHeader × UInt32 × List Message) := do
  check (request.hasFlag flagReplication ∧ 8 ≤ request.payload.length) .badRequest
  let header ← readAppendHeader (request.hasFlag flagReplicationTerm) request.payload
  check (header.position + 8 ≤ request.payload.length) .badRequest
  let partition ← read32 request.payload header.position
  let count ← read32 request.payload (header.position + 4)
  check (count.toNat ≠ 0 ∧ count.toNat ≤ 10000) .badRequest
  let resolved ← b.resolveStep request.topic partition
  let messages ← readReplicaMessages request.payload count.toNat (header.position + 8)
  check (messages.2 = request.payload.length) .badRequest
  return (header, resolved, messages.1)

/-! ## Producing -/

/-- A key and a value of an item: where they are, and the position behind. -/
structure ItemSpan where
  keyPosition : Nat
  keyLength : Nat
  valuePosition : Nat
  valueLength : Nat
  next : Nat
deriving DecidableEq, Repr

/-- The lengths in front of a key and a value are read. -/
def readItem (payload : Bytes) (position : Nat) : Traced Status ItemSpan := do
  let keyPosition ← takeBytes payload position 2
  let keyLength ← read16 payload (keyPosition - 2)
  let valueHead ← takeBytes payload keyPosition keyLength.toNat
  let valuePosition ← takeBytes payload valueHead 4
  let valueLength ← read32 payload (valuePosition - 4)
  let next ← takeBytes payload valuePosition valueLength.toNat
  return ⟨keyPosition, keyLength.toNat, valuePosition, valueLength.toNat, next⟩

/-- The payload of `HandleProduce` from `position` on, up to the key: the
    partition, where the item is, and the key. -/
def readBody (payload : Bytes) (position : Nat) : Traced Status (UInt32 × ItemSpan × Bytes) := do
  check (position + 4 ≤ payload.length) .badRequest
  let partition ← read32 payload position
  let itemPosition ← takeBytes payload position 4
  let item ← readItem payload itemPosition
  check (item.next = payload.length) .badRequest
  let key ← copy payload item.keyPosition item.keyLength
  return (partition, item, key)

/-- The reads of the routing of a message. The value is copied when the message
    is stored. -/
def Broker.routeReads (b : Broker) (env : ProduceEnv) (request : Request)
    (enforceTopicQuota : Bool) (position : Nat) : List Read :=
  let body := readBody request.payload position
  body.reads ++
    match body.result, (b.routeProduce env request enforceTopicQuota position).2 with
    | .ok (_, item, _), .ok _ => [⟨request.payload, item.valuePosition, item.valueLength⟩]
    | _, _ => []

/-- The reads of `HandleProduce`. -/
def Broker.produceReads (b : Broker) (env : ProduceEnv) (request : Request)
    (enforceRateLimit enforceTopicQuota : Bool) : List Read :=
  if b.refusesWrites request env.writesNow then []
  else if enforceRateLimit && !request.hasFlag flagReplication && !env.rateAllowed then []
  else if request.hasFlag flagProducerMetadata then
    if request.payload.length < 16 then []
    else
      let b := b.evictExpired env.cacheNow
      [⟨request.payload, 0, 8⟩, ⟨request.payload, 8, 8⟩] ++
        match b.idempotencyCache.lookup request.cacheKey with
        | some _ => []
        | none => b.routeReads env request enforceTopicQuota 16
  else b.routeReads env request enforceTopicQuota 0

/-- The header of a batch: producer, first sequence and number of items. -/
def readBatchHeader (payload : Bytes) : Traced Status (UInt64 × UInt64 × Nat) := do
  let _ ← takeBytes payload 0 20
  let producerId ← read64 payload 0
  let first ← read64 payload 8
  let count ← read32 payload 16
  check (count.toNat ≠ 0 ∧ count.toNat ≤ 10000 ∧ first.toNat ≤ 2 ^ 64 - count.toNat) .badRequest
  return (producerId, first, count.toNat)

/-- The second loop of `HandleProduceBatch`. Key and value are copied only for
    an item that is not in the cache. -/
def readBatch (request : Request) (producerId : UInt64) :
    List (Option Response) → UInt64 → Nat → UInt64 →
      Traced Status (List BatchEntry × Nat × UInt64)
  | [], _, position, newBytes => pure ([], position, newBytes)
  | found :: rest, sequence, position, newBytes => do
      let item ← readItem request.payload position
      match found with
      | some response =>
          check (response.payload.length = 12) .internalError
          let tail ← readBatch request producerId rest (sequence + 1) item.next newBytes
          return (.cached response :: tail.1, tail.2)
      | none =>
          let key ← copy request.payload item.keyPosition item.keyLength
          let value ← copy request.payload item.valuePosition item.valueLength
          let bytes := UInt64.ofNat (key.length + value.length)
          check (newBytes ≤ UInt64.ofNat (2 ^ 64 - 1) - bytes) .badRequest
          let tail ← readBatch request producerId rest (sequence + 1) item.next (newBytes + bytes)
          return (.pending (singleRequest request producerId sequence key value) :: tail.1, tail.2)

/-- The reads of the produce calls that a batch makes. -/
def Broker.entryReads (calls : Nat → ProduceEnv) : List BatchEntry → Nat → Broker → List Read
  | [], _, _ => []
  | .cached _ :: rest, index, b => Broker.entryReads calls rest (index + 1) b
  | .pending single :: rest, index, b =>
      let result := b.handleProduce (calls index) single false false
      b.produceReads (calls index) single false false ++
        if result.response.status ≠ .ok then []
        else Broker.entryReads calls rest (index + 1) result.broker

/-- The reads of the parsing of a batch. -/
def Broker.batchParser (b : Broker) (env : BatchEnv) (request : Request) :
    Traced Status (List BatchEntry × Nat × UInt64) := do
  let header ← readBatchHeader request.payload
  readBatch request header.1
    ((b.evictExpired env.lookupNow).lookupBatch request header.1 header.2.2 header.2.1) header.2.1
    20 0

/-- The reads of `HandleProduceBatch`. -/
def Broker.batchReads (b : Broker) (env : BatchEnv) (request : Request) : List Read :=
  if b.refusesWrites request env.writesNow then []
  else if !request.hasFlag flagReplication && !env.rateAllowed then []
  else if !request.hasFlag flagProducerMetadata then []
  else
    (b.batchParser env request).reads ++
      match b.admitBatch env request with
      | (b, .ok entries) => Broker.entryReads env.calls entries 0 b
      | (_, .error _) => []

/-! ## All commands -/

/-- What the outside does to the handling of a request. -/
structure HandleEnv where
  produce : ProduceEnv := {}
  batch : BatchEnv := {}

/-- The reads of the handler of a request. -/
def Broker.requestReads (b : Broker) (env : HandleEnv) (request : Request) : List Read :=
  match request.command with
  | .createTopic => (readCreateTopic request.payload).reads
  | .deleteTopic => []
  | .listTopic => []
  | .metrics => []
  | .produce => b.produceReads env.produce request true true
  | .produceBatch => b.batchReads env.batch request
  | .syncGroup => (readSyncGroup request.payload).reads
  | .offsetFetch => (readOffsetFetch request.topic request.payload).reads
  | .fetch => (readFetch request.payload).reads
  | .commitOffset => (b.readCommitOffset request.topic request.payload).reads
  | .joinGroup => (readJoinGroup request.payload).reads
  | .heartbeat =>
      if request.hasFlag flagReplication then
        (readReplicaHeartbeat request.topic request.payload).reads
      else (readGroupHeartbeat request.payload).reads
  | .replicaFetch => (readReplicaFetch request).reads
  | .replicaAppend => (b.readReplicaAppend request).reads
  | .replicaVote => (readReplicaVote request).reads

/-! ## Results -/

theorem take_eq_some {payload : Bytes} {position count : Nat}
    (h : position + count ≤ payload.length) :
    take payload position count = some (position + count) := by
  rw [take, if_neg (by omega)]

theorem take_eq_none {payload : Bytes} {position count : Nat}
    (h : ¬ position + count ≤ payload.length) : take payload position count = none := by
  rw [take, if_pos (by omega)]

/-- A key and a value with their lengths in front. -/
def encodeItem (key value : Bytes) : Bytes :=
  put16 (UInt16.ofNat key.length) ++ (key ++ (put32 (UInt32.ofNat value.length) ++ value))

theorem length_encodeItem (key value : Bytes) :
    (encodeItem key value).length = 6 + key.length + value.length := by
  simp only [encodeItem, List.length_append, length_put16, length_put32]
  omega

section Item

variable (front : Bytes) {key value : Bytes} (hkey : key.length < 2 ^ 16)
  (hvalue : value.length < 2 ^ 32)

include hkey hvalue

/-- An item reads back, wherever it stands. -/
theorem parseItem_encodeItem (back : Bytes) :
    parseItem (front ++ (encodeItem key value ++ back)) front.length
      = some (key, value, front.length + (6 + key.length + value.length)) := by
  have hlength := length_encodeItem key value
  have htotal : (front ++ (encodeItem key value ++ back)).length
      = front.length + (6 + key.length + value.length) + back.length := by
    simp only [List.length_append, hlength]
    omega
  have hkeySize : (get16 (front ++ (encodeItem key value ++ back)) front.length).toNat
      = key.length := by
    rw [← Nat.add_zero front.length, get16_middle _ _ _ _ (by omega), encodeItem, get16_put16,
      UInt16.toNat_ofNat', Nat.mod_eq_of_lt hkey]
  have hvalueSize : (get32 (front ++ (encodeItem key value ++ back))
      (front.length + (2 + key.length))).toNat = value.length := by
    rw [get32_middle _ _ _ _ (by omega), encodeItem,
      get32_append_right _ _ _ (by rw [length_put16]; omega), length_put16,
      Nat.add_sub_cancel_left, get32_append_right _ _ _ le_rfl, Nat.sub_self, get32_put32,
      UInt32.toNat_ofNat', Nat.mod_eq_of_lt hvalue]
  have hkeyCopy : substr (front ++ (encodeItem key value ++ back)) (front.length + 2) key.length
      = key := by
    rw [substr_middle _ _ _ _ _ (by omega), encodeItem,
      substr_append_right _ _ _ _ (by rw [length_put16]), length_put16, Nat.sub_self,
      substr_append_left _ _ _ rfl]
  have hvalueCopy : substr (front ++ (encodeItem key value ++ back))
      (front.length + (6 + key.length)) value.length = value := by
    rw [substr_middle _ _ _ _ _ (by omega), encodeItem,
      substr_append_right _ _ _ _ (by rw [length_put16]; omega), length_put16,
      substr_append_right _ _ _ _ (by omega),
      substr_append_right _ _ _ _ (by rw [length_put32]; omega), length_put32,
      show 6 + key.length - 2 - key.length - 4 = 0 by omega, substr, List.drop_zero,
      List.take_length]
  rw [parseItem, take_eq_some (by omega), Option.bind_eq_bind, Option.bind_some]
  simp only [hkeySize]
  rw [take_eq_some (by omega), Option.bind_some, take_eq_some (by omega), Option.bind_some]
  simp only [Nat.add_assoc front.length, hvalueSize, hkeyCopy]
  rw [show 2 + key.length + 4 = 6 + key.length by omega, hvalueCopy, take_eq_some (by omega),
    Option.bind_some, Nat.add_assoc]
  rfl

/-- The payload that a producer sends for a message holds that message. -/
theorem parseProduce_encodeItem (partition : UInt32) :
    parseProduce (front ++ (put32 partition ++ encodeItem key value)) front.length
      = some ⟨partition, key, value⟩ := by
  have hitem := parseItem_encodeItem (front ++ put32 partition) hkey hvalue []
  rw [List.append_nil, List.append_assoc, List.length_append, length_put32] at hitem
  have htotal : (front ++ (put32 partition ++ encodeItem key value)).length
      = front.length + 4 + (6 + key.length + value.length) := by
    simp only [List.length_append, length_put32, length_encodeItem]
    omega
  rw [parseProduce, take_eq_some (by omega), Option.bind_eq_bind, Option.bind_some, hitem,
    Option.bind_eq_bind, Option.bind_some, if_pos htotal.symm,
    get32_append_right _ _ _ le_rfl, Nat.sub_self, get32_put32]
  rfl

end Item

theorem parseProduce_encoded (partition : UInt32) (key value : Bytes) (hkey : key.length < 2 ^ 16)
    (hvalue : value.length < 2 ^ 32) :
    parseProduce (put32 partition ++ (put16 (UInt16.ofNat key.length) ++ (key ++
      (put32 (UInt32.ofNat value.length) ++ value)))) 0 = some ⟨partition, key, value⟩ :=
  parseProduce_encodeItem [] hkey hvalue partition

theorem result_takeBytes_bind {α : Type} (payload : Bytes) (position count : Nat)
    (f : Nat → Traced Status α) :
    (takeBytes payload position count >>= f).result
      = if position + count ≤ payload.length then (f (position + count)).result
        else .error .badRequest := by
  unfold takeBytes
  by_cases h : position + count ≤ payload.length
  · rw [take_eq_some h, if_pos h]
    rfl
  · rw [take_eq_none h, if_neg h]
    rfl

theorem result_readCandidateCount_bind {α : Type} (payload : Bytes) (leaderSize : Nat)
    (f : UInt32 → Traced Status α) :
    (readCandidateCount payload leaderSize >>= f).result
      = (f (if payload.length ≥ 38 + leaderSize then get32 payload (18 + leaderSize + 20)
          else 0)).result := by
  unfold readCandidateCount
  split <;> rfl

/-- `parseItem` finds what `readItem` finds. -/
theorem readItem_cases (payload : Bytes) (position : Nat) :
    (∃ item, (readItem payload position).result = .ok item ∧
      parseItem payload position = some (substr payload item.keyPosition item.keyLength,
        substr payload item.valuePosition item.valueLength, item.next)) ∨
    ((readItem payload position).result = .error .badRequest ∧
      parseItem payload position = none) := by
  simp only [readItem, result_takeBytes_bind, result_read16_bind, result_read32_bind,
    Nat.add_sub_cancel, result_pure, parseItem, Option.bind_eq_bind]
  by_cases hkey : position + 2 ≤ payload.length
  · rw [take_eq_some hkey, if_pos hkey, Option.bind_some]
    by_cases hhead : position + 2 + (get16 payload position).toNat ≤ payload.length
    · rw [take_eq_some hhead, if_pos hhead, Option.bind_some]
      by_cases hvalue : position + 2 + (get16 payload position).toNat + 4 ≤ payload.length
      · rw [take_eq_some hvalue, if_pos hvalue, Option.bind_some]
        split
        · rename_i hnext
          rw [take_eq_some hnext]
          exact Or.inl ⟨_, rfl, rfl⟩
        · rename_i hnext
          rw [take_eq_none hnext]
          exact Or.inr ⟨rfl, rfl⟩
      · rw [take_eq_none hvalue, if_neg hvalue]
        exact Or.inr ⟨rfl, rfl⟩
    · rw [take_eq_none hhead, if_neg hhead]
      exact Or.inr ⟨rfl, rfl⟩
  · rw [take_eq_none hkey, if_neg hkey]
    exact Or.inr ⟨rfl, rfl⟩

/-- Routing works on the body that was read. -/
theorem readBody_cases (payload : Bytes) (position : Nat) :
    (∃ partition item key, (readBody payload position).result = .ok (partition, item, key) ∧
      parseProduce payload position = some
        ⟨partition, key, substr payload item.valuePosition item.valueLength⟩) ∨
    ((readBody payload position).result = .error .badRequest ∧
      parseProduce payload position = none) := by
  simp only [readBody, result_check_bind, result_read32_bind, result_takeBytes_bind, parseProduce,
    Option.bind_eq_bind]
  by_cases hhead : position + 4 ≤ payload.length
  · rw [take_eq_some hhead, if_pos hhead, if_pos hhead, Option.bind_some]
    rcases readItem_cases payload (position + 4) with ⟨item, hread, hparse⟩ | ⟨hread, hparse⟩
    · rw [result_bind_of_ok hread, result_check_bind, hparse, Option.bind_some]
      by_cases hend : item.next = payload.length
      · rw [if_pos hend, if_pos hend]
        exact Or.inl ⟨_, item, _, rfl, rfl⟩
      · rw [if_neg hend, if_neg hend]
        exact Or.inr ⟨rfl, rfl⟩
    · rw [result_bind_of_error hread, hparse]
      exact Or.inr ⟨rfl, rfl⟩
  · rw [take_eq_none hhead, if_neg hhead]
    exact Or.inr ⟨rfl, rfl⟩

/-- The batch works on the items that were read. -/
theorem readBatch_result (request : Request) (producerId : UInt64) (found : List (Option Response))
    (sequence : UInt64) (position : Nat) (newBytes : UInt64) :
    (readBatch request producerId found sequence position newBytes).result
      = prepareBatch request producerId found sequence position newBytes := by
  induction found generalizing sequence position newBytes with
  | nil => rfl
  | cons first rest ih =>
      rw [readBatch, prepareBatch]
      rcases readItem_cases request.payload position with ⟨item, hread, hparse⟩ | ⟨hread, hparse⟩
      · rw [result_bind_of_ok hread, hparse]
        cases first with
        | some response =>
            simp only [result_check_bind]
            by_cases hsize : response.payload.length = 12
            · simp only [hsize, result_bind, ih, ne_eq, not_true_eq_false, if_false, if_true]
              rfl
            · simp only [hsize, ne_eq, not_false_eq_true, if_false, if_true]
        | none =>
            simp only [result_copy_bind, result_check_bind, gt_iff_lt, ← not_le, ite_not]
            simp only [result_bind, ih]
            rfl
      · rw [result_bind_of_error hread, hparse]

/-- Replica messages are parsed as they are read. -/
theorem readReplicaMessage_cases (payload : Bytes) (position : Nat) :
    (∃ found, (readReplicaMessage payload position).result = .ok found ∧
      parseReplicaMessage payload position = some found) ∨
    ((readReplicaMessage payload position).result = .error .badRequest ∧
      parseReplicaMessage payload position = none) := by
  simp only [readReplicaMessage, parseReplicaMessage, result_check_bind, result_read64_bind,
    result_read16_bind, result_read32_bind, result_copy_bind, result_pure, gt_iff_lt, ← not_le,
    ite_not]
  split
  · split
    · split
      · exact Or.inl ⟨_, rfl, rfl⟩
      · exact Or.inr ⟨rfl, rfl⟩
    · exact Or.inr ⟨rfl, rfl⟩
  · exact Or.inr ⟨rfl, rfl⟩

theorem readReplicaMessages_cases (payload : Bytes) (count position : Nat) :
    (∃ found, (readReplicaMessages payload count position).result = .ok found ∧
      parseReplicaMessages payload count position = some found) ∨
    ((readReplicaMessages payload count position).result = .error .badRequest ∧
      parseReplicaMessages payload count position = none) := by
  induction count generalizing position with
  | zero => exact Or.inl ⟨_, rfl, rfl⟩
  | succ count ih =>
      rw [readReplicaMessages, parseReplicaMessages, Option.bind_eq_bind]
      rcases readReplicaMessage_cases payload position with ⟨first, hread, hparse⟩ | ⟨hread, hparse⟩
      · rw [result_bind_of_ok hread, hparse, Option.bind_some]
        rcases ih first.2 with ⟨rest, hrest, hparse'⟩ | ⟨hrest, hparse'⟩
        · rw [result_bind_of_ok hrest, hparse']
          exact Or.inl ⟨_, rfl, rfl⟩
        · rw [result_bind_of_error hrest, hparse']
          exact Or.inr ⟨rfl, rfl⟩
      · rw [result_bind_of_error hread, hparse]
        exact Or.inr ⟨rfl, rfl⟩

theorem readAppendHeader_cases (termed : Bool) (payload : Bytes) :
    (∃ header, (readAppendHeader termed payload).result = .ok header ∧
      parseAppendHeader termed payload = some header) ∨
    ((readAppendHeader termed payload).result = .error .badRequest ∧
      parseAppendHeader termed payload = none) := by
  unfold readAppendHeader parseAppendHeader
  split
  · exact Or.inl ⟨_, rfl, rfl⟩
  · by_cases hshort : payload.length < 26
    · rw [result_check_bind, if_neg (by omega), if_pos hshort]
      exact Or.inr ⟨rfl, rfl⟩
    · rw [result_check_bind, if_pos (by omega), if_neg hshort]
      simp only [result_read64_bind, result_read16_bind, result_check_bind, result_copy_bind,
        result_readCandidateCount_bind]
      by_cases hleader : (get16 payload 16).toNat = 0 ∨
          payload.length < 26 + (get16 payload 16).toNat
      · rw [if_neg (by omega), if_pos hleader]
        exact Or.inr ⟨rfl, rfl⟩
      · rw [if_pos (by omega), if_neg hleader]
        have hcount : (if payload.length ≥ 38 + (get16 payload 16).toNat then
              (get32 payload (18 + (get16 payload 16).toNat + 20)).toNat else 0)
            = (if payload.length ≥ 38 + (get16 payload 16).toNat then
              get32 payload (18 + (get16 payload 16).toNat + 20) else 0).toNat := by
          split <;> rfl
        simp only [hcount]
        generalize (if payload.length ≥ 38 + (get16 payload 16).toNat then
          get32 payload (18 + (get16 payload 16).toNat + 20) else 0) = candidateCount
        split <;> exact Or.inl ⟨_, rfl, rfl⟩

/-- What is read from a replica append: a header, a partition of the topic, and
    as many messages as the number behind the partition says. -/
theorem readReplicaAppend_parsed {b : Broker} {request : Request} {header : AppendHeader}
    {partition : UInt32} {messages : List Message}
    (h : (b.readReplicaAppend request).result = .ok (header, partition, messages)) :
    parseAppendHeader (request.hasFlag flagReplicationTerm) request.payload = some header ∧
      b.resolvePartition request.topic (get32 request.payload header.position) [] = .ok partition ∧
      0 < (get32 request.payload (header.position + 4)).toNat ∧
      (get32 request.payload (header.position + 4)).toNat ≤ 10000 ∧
      parseReplicaMessages request.payload (get32 request.payload (header.position + 4)).toNat
        (header.position + 8) = some (messages, request.payload.length) := by
  unfold Broker.readReplicaAppend at h
  rw [result_check_bind] at h
  split at h
  · rcases readAppendHeader_cases (request.hasFlag flagReplicationTerm) request.payload with
      ⟨found, hread, hheader⟩ | ⟨hread, _⟩
    · rw [result_bind_of_ok hread] at h
      simp only [result_check_bind, result_read32_bind] at h
      split at h
      · split at h
        · rename_i hcount
          unfold Broker.resolveStep at h
          cases hresolve : b.resolvePartition request.topic
            (get32 request.payload found.position) [] with
          | error e =>
              rw [hresolve] at h
              cases e <;> cases h
          | ok resolved =>
              simp only [hresolve] at h
              rw [result_bind_of_ok (result_pure resolved)] at h
              rcases readReplicaMessages_cases request.payload
                (get32 request.payload (found.position + 4)).toNat (found.position + 8) with
                ⟨list, hread', hparse⟩ | ⟨hread', _⟩
              · rw [result_bind_of_ok hread', result_check_bind] at h
                split at h
                · rename_i hend
                  rw [result_pure] at h
                  cases h
                  refine ⟨hheader, hresolve, Nat.pos_of_ne_zero hcount.1, hcount.2, ?_⟩
                  rw [hparse, ← hend]
                · cases h
              · rw [result_bind_of_error hread'] at h
                cases h
        · cases h
      · cases h
    · rw [result_bind_of_error hread] at h
      cases h
  · cases h

/-- A replica append whose parts are there is read. -/
theorem readReplicaAppend_of_parsed {b : Broker} {request : Request} {header : AppendHeader}
    {partition : UInt32} {messages : List Message}
    (hflag : request.hasFlag flagReplication = true)
    (hheader : parseAppendHeader (request.hasFlag flagReplicationTerm) request.payload
      = some header)
    (hroom : header.position + 8 ≤ request.payload.length)
    (hcount : (get32 request.payload (header.position + 4)).toNat ≠ 0 ∧
      (get32 request.payload (header.position + 4)).toNat ≤ 10000)
    (hresolve : b.resolvePartition request.topic (get32 request.payload header.position) []
      = .ok partition)
    (hparse : parseReplicaMessages request.payload
      (get32 request.payload (header.position + 4)).toNat (header.position + 8)
        = some (messages, request.payload.length)) :
    (b.readReplicaAppend request).result = .ok (header, partition, messages) := by
  unfold Broker.readReplicaAppend
  rw [result_check_bind, if_pos ⟨hflag, by omega⟩]
  rcases readAppendHeader_cases (request.hasFlag flagReplicationTerm) request.payload with
    ⟨found, hread, hfound⟩ | ⟨_, hnone⟩
  · rw [hheader] at hfound
    cases hfound
    rw [result_bind_of_ok hread]
    simp only [result_check_bind, result_read32_bind]
    rw [if_pos hroom, if_pos hcount, Broker.resolveStep, hresolve]
    simp only
    rw [result_bind_of_ok (result_pure partition)]
    rcases readReplicaMessages_cases request.payload
      (get32 request.payload (header.position + 4)).toNat (header.position + 8) with
      ⟨list, hread', hlist⟩ | ⟨_, hnone⟩
    · rw [hparse] at hlist
      cases hlist
      rw [result_bind_of_ok hread', result_check_bind, if_pos rfl, result_pure]
    · rw [hparse] at hnone
      cases hnone
  · rw [hheader] at hnone
    cases hnone

/-- What is read from a replica append is for a partition of the topic, and has
    some messages. -/
theorem readReplicaAppend_ok {b : Broker} {request : Request} {header : AppendHeader}
    {partition : UInt32} {messages : List Message}
    (h : (b.readReplicaAppend request).result = .ok (header, partition, messages)) :
    (∃ requested, b.resolvePartition request.topic requested [] = .ok partition) ∧
      0 < messages.length ∧ messages.length ≤ 10000 := by
  rcases readReplicaAppend_parsed h with ⟨_, hresolve, hpos, hcount, hparse⟩
  have hlength : messages.length = _ := parseReplicaMessages_length hparse
  exact ⟨⟨_, hresolve⟩, by omega, by omega⟩

/-- `HandleReplicaAppend` works on what was read. -/
theorem handleReplicaAppend_eq (b : Broker) (env : ReplicaEnv) (request : Request) :
    b.handleReplicaAppend env request
      = match (b.readReplicaAppend request).result with
        | .error status => (b, makeResponse request status)
        | .ok (header, partition, messages) =>
            b.applyAppend env request header partition messages := by
  unfold Broker.handleReplicaAppend Broker.readReplicaAppend
  rw [result_check_bind]
  by_cases hflag : ¬ request.hasFlag flagReplication = true ∨ request.payload.length < 8
  · rw [if_pos hflag, if_neg (by rw [not_and_or, not_le]; exact hflag)]
  · rw [if_neg hflag, if_pos (by rw [not_or, not_not, not_lt] at hflag; exact hflag)]
    rcases readAppendHeader_cases (request.hasFlag flagReplicationTerm) request.payload with
      ⟨header, hread, hparse⟩ | ⟨hread, hparse⟩
    · rw [result_bind_of_ok hread, hparse, result_check_bind]
      by_cases hroom : header.position + 8 ≤ request.payload.length
      · rw [if_pos hroom]
        simp only [if_neg (not_lt.mpr hroom), gt_iff_lt, result_read32_bind, result_check_bind]
        by_cases hcount : (get32 request.payload (header.position + 4)).toNat = 0 ∨
            10000 < (get32 request.payload (header.position + 4)).toNat
        · rw [if_pos hcount, if_neg (by omega)]
        · rw [if_neg hcount, if_pos (by omega)]
          unfold Broker.resolveStep
          cases b.resolvePartition request.topic (get32 request.payload header.position) [] with
          | error e => cases e <;> rfl
          | ok resolved =>
              simp only
              rw [result_bind_of_ok (result_pure resolved)]
              rcases readReplicaMessages_cases request.payload
                (get32 request.payload (header.position + 4)).toNat (header.position + 8) with
                ⟨found, hread', hparse'⟩ | ⟨hread', hparse'⟩
              · rw [result_bind_of_ok hread', hparse', result_check_bind]
                by_cases hend : found.2 = request.payload.length
                · rw [if_pos hend, result_pure]
                  exact if_neg (not_not.mpr hend)
                · rw [if_neg hend]
                  exact if_pos hend
              · rw [result_bind_of_error hread', hparse']
      · rw [if_neg hroom]
        simp only [if_pos (not_le.mp hroom), gt_iff_lt]
    · rw [result_bind_of_error hread, hparse]

end MqBroker
