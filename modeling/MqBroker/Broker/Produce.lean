import MqBroker.Broker.State
import MqBroker.Replication.Ballot

/-!
# Producing

`HandleProduce`, `HandleProduceBatch` and `Replicate`, on the bytes of their
requests.

What the outside does to one call is its environment: the readings of the two
clocks, the verdict of the rate limiter, how the file system answers, and for
each peer whether its push is answered and when the answer is noted. A call
holds the idempotency lock from its look at the cache to its end, so calls with
producer metadata come one after the other and a call is one step.

`HandleProduce` is cut where its effects begin. `admitProduce` is everything in
front of the append: it rejects, answers from the cache, or admits a message
for a partition. `settleProduce` is the append and all that follows. Besides
the broker and the response a call returns what it has put into the log. The
source has no such result, but it is what exactly-once is about, and the
response does not tell: a call can store its message and report an error.

## Main definitions

* `ProduceEnv`, `BatchEnv`: What the outside does to a call.
* `parseProduce`, `parseItem`: The payload formats.
* `Broker.replicate`: Pushing a message to the peers.
* `Broker.Routes`: The message of a request, and its partition.
* `Broker.admitProduce`, `Broker.settleProduce`, `Broker.handleProduce`: One
  message.
* `Broker.handleProduceBatch`: A batch.
* `Broker.reachesQuorum`, `Broker.safeAppend`: When a stored message is also
  replicated.

## Theorems

* `replicate_of_reachesQuorum`: When `Replicate` succeeds.
* `admitProduce_routes`: What is admitted is the message of the request.
* `admitProduce_cases`: What happens in front of the append.
* `settleProduce_eq`: The append and what comes behind it as separate steps.
* `settleProduce_cases`: What the append and its replication leave behind.
* `prepareBatch_cons`, `admitBatch_cases`, `admitBatch_frame`: What happens to a
  batch in front of its appends.
-/

namespace MqBroker

/-- What the outside does to one call of `HandleProduce`. -/
structure ProduceEnv where
  /-- The clock when `CanServeWrites` looks at the replicas. -/
  writesNow : Int := 0
  /-- The verdict of the request rate limit. -/
  rateAllowed : Bool := true
  /-- The clock when the cache is consulted. -/
  cacheNow : Int := 0
  quotaNow : Int := 0
  timestampMs : Int64 := 0
  io : StoreIo := {}
  /-- For each peer in turn, the clock when its answer to the push is noted,
      or nothing when the push fails. -/
  answers : List (Option Int) := []
  commitNow : Int := 0
  /-- The clock when the response is cached. -/
  doneNow : Int := 0
deriving Repr

/-- The message in the payload of a produce request. -/
structure ProduceBody where
  partition : UInt32
  key : Bytes
  value : Bytes
deriving DecidableEq, Repr

/-- A key and a value with their lengths in front, and the position behind. -/
def parseItem (payload : Bytes) (position : Nat) : Option (Bytes × Bytes × Nat) := do
  let keyPosition ← take payload position 2
  let keyLength := (get16 payload position).toNat
  let valueHead ← take payload keyPosition keyLength
  let valuePosition ← take payload valueHead 4
  let valueLength := (get32 payload valueHead).toNat
  let done ← take payload valuePosition valueLength
  return (substr payload keyPosition keyLength, substr payload valuePosition valueLength, done)

/-- The payload of a produce request from `position` on: a partition and one
    item, with nothing behind it. -/
def parseProduce (payload : Bytes) (position : Nat) : Option ProduceBody := do
  let itemPosition ← take payload position 4
  let item ← parseItem payload itemPosition
  if item.2.2 = payload.length then
    return { partition := get32 payload position, key := item.1, value := item.2.1 }
  else none

/-! ## Replication of one message -/

/-- The loop of `Replicate` over the peers: the answers it gets, each noted as
    a heartbeat. -/
def replicateLoop (key : Bytes) (offset : UInt64) : List ReplicationPeer → List (Option Int) →
    ReplicationCoordinator → ReplicationCoordinator × Nat
  | peer :: peers, some now :: answers, c =>
      let result := replicateLoop key offset peers answers
        (c.observeHeartbeat key peer.nodeId offset now)
      (result.1, result.2 + 1)
  | _ :: peers, none :: answers, c => replicateLoop key offset peers answers c
  | _, _, c => (c, 0)

/-- `Replicate`. A broker without peers, or with a quorum of one, never
    replicates. -/
def Broker.replicate (b : Broker) (env : ProduceEnv) (topic : Bytes) (partition : UInt32)
    (message : Message) : Broker × Bool :=
  if b.replicationPeers = [] ∨ b.replicationQuorum ≤ 1 then (b, false)
  else
    let key := partitionKey topic partition
    let pushed := replicateLoop key message.offset b.replicationPeers env.answers b.coordinator
    if 1 + pushed.2 < b.replicationQuorum then ({ b with coordinator := pushed.1 }, false)
    else
      let committed := pushed.1.advanceCommit key message.offset env.commitNow
      ({ b with coordinator := committed.1 }, committed.2)

/-! ## One message -/

/-- How long a response stays in the cache: five minutes. -/
def cacheLifetime : Int := 5 * 60 * 1000000000

/-- Drop the responses that have expired. -/
def Broker.evictExpired (b : Broker) (now : Int) : Broker :=
  { b with
    idempotencyCache := b.idempotencyCache.filterValues (fun entry => entry.expiresAt > now) }

/-- The cache key of a request with producer metadata. -/
def Request.cacheKey (request : Request) : Bytes :=
  idempotencyKey request.topic (get64 request.payload 0) (get64 request.payload 8)

/-- What a call of `HandleProduce` leaves behind: the broker, the response and
    the message it has put into a partition. -/
structure ProduceResult where
  broker : Broker
  response : Response
  stored : Option (UInt32 × Message) := none

/-- The message that has come into a partition. -/
def StorageEngine.newMessage (e e' : StorageEngine) (topic : Bytes) (number : UInt32) :
    Option (UInt32 × Message) :=
  ((e'.partition topic number).messages.drop (e.partition topic number).messages.length).head?.map
    (fun m => (number, m))

/-- Whether the leader check turns a produce request away. -/
def Broker.refusesWrites (b : Broker) (request : Request) (now : Int) : Bool :=
  !request.hasFlag flagReplication &&
    (b.coordinator.role != .leader || !b.coordinator.canServeWrites now)

/-- The partition a message goes to, and the quota it uses up. -/
def Broker.routeProduce (b : Broker) (env : ProduceEnv) (request : Request)
    (enforceTopicQuota : Bool) (position : Nat) :
    Broker × Except Response (UInt32 × ProduceBody) :=
  match parseProduce request.payload position with
  | none => (b, .error (makeResponse request .badRequest))
  | some body =>
      match b.resolvePartition request.topic body.partition body.key with
      | .error .unknownTopic => (b, .error (makeResponse request .unknownTopic))
      | .error .outOfRange => (b, .error (makeResponse request .badRequest))
      | .ok partition =>
          let quota :=
            if enforceTopicQuota && !request.hasFlag flagReplication then
              b.allowTopicBytes env.quotaNow request.topic
                (UInt64.ofNat (body.key.length + body.value.length))
            else (b, true)
          if quota.2 then (quota.1, .ok (partition, body))
          else (quota.1, .error (makeResponse request .quotaExceeded))

/-- The message that a produce request carries, behind its metadata if it has
    them, and the partition that it is for. -/
structure Broker.Routes (b : Broker) (request : Request) (partition : UInt32)
    (body : ProduceBody) : Prop where
  parsed : parseProduce request.payload (if request.hasFlag flagProducerMetadata then 16 else 0)
    = some body
  resolved : b.resolvePartition request.topic body.partition body.key = .ok partition

/-- Everything `HandleProduce` does before the append. -/
def Broker.admitProduce (b : Broker) (env : ProduceEnv) (request : Request)
    (enforceRateLimit enforceTopicQuota : Bool) : Broker × Except Response (UInt32 × ProduceBody) :=
  if b.refusesWrites request env.writesNow then (b, .error (makeResponse request .notLeader))
  else if enforceRateLimit && !request.hasFlag flagReplication && !env.rateAllowed then
    (b, .error (makeResponse request .rateLimited))
  else if request.hasFlag flagProducerMetadata then
    if request.payload.length < 16 then (b, .error (makeResponse request .badRequest))
    else
      let b := b.evictExpired env.cacheNow
      match b.idempotencyCache.lookup request.cacheKey with
      | some entry => (b, .error { entry.response with requestId := request.requestId })
      | none => b.routeProduce env request enforceTopicQuota 16
  else b.routeProduce env request enforceTopicQuota 0

/-- Only a request that waits for the replicas is replicated. -/
def Broker.acknowledge (b : Broker) (env : ProduceEnv) (request : Request) (partition : UInt32)
    (message : Message) : Broker × Bool :=
  if request.waitsForAll then b.replicate env request.topic partition message else (b, true)

/-- The cache after a successful response to a request with metadata. -/
def Broker.remember (b : Broker) (env : ProduceEnv) (request : Request) (response : Response) :
    Broker :=
  if request.hasFlag flagProducerMetadata then
    { b with
      idempotencyCache := b.idempotencyCache.insert request.cacheKey
        ⟨response, env.doneNow + cacheLifetime⟩ }
  else b

/-- The append of an admitted message, its replication and its response. -/
def Broker.settleProduce (b : Broker) (env : ProduceEnv) (request : Request) (partition : UInt32)
    (body : ProduceBody) : ProduceResult :=
  let appended := b.storage.append env.io env.timestampMs request.topic partition body.key body.value
  let stored := b.storage.newMessage appended.1 request.topic partition
  match appended.2 with
  | .error _ => ⟨{ b with storage := appended.1 }, makeResponse request .storageError, stored⟩
  | .ok message =>
      let recorded :=
        { b with
          storage := appended.1
          coordinator := b.coordinator.recordLocalOffset (partitionKey request.topic partition)
            message.offset }
      let acknowledged := recorded.acknowledge env request partition message
      if acknowledged.2 then
        let response := makeResponse request .ok (put32 partition ++ put64 message.offset)
        ⟨acknowledged.1.remember env request response, response, stored⟩
      else ⟨acknowledged.1, makeResponse request .storageError, stored⟩

/-- The first half of `settleProduce`: the append, and its record in the
    coordinator. Between this and the replication others may come in. -/
def Broker.storeProduce (b : Broker) (env : ProduceEnv) (request : Request) (partition : UInt32)
    (body : ProduceBody) : Broker × Option Message :=
  let appended := b.storage.append env.io env.timestampMs request.topic partition body.key body.value
  match appended.2 with
  | .error _ => ({ b with storage := appended.1 }, none)
  | .ok message =>
      ({ b with
        storage := appended.1
        coordinator := b.coordinator.recordLocalOffset (partitionKey request.topic partition)
          message.offset }, some message)

/-- A place as a response names it: a partition and an offset. -/
def encodePlace (place : UInt32 × UInt64) : Bytes := put32 place.1 ++ put64 place.2

/-- The response to a message that is stored and, if it has to be,
    replicated. -/
def produced (request : Request) (partition : UInt32) (message : Message) : Response :=
  makeResponse request .ok (put32 partition ++ put64 message.offset)

/-- `HandleProduce`. -/
def Broker.handleProduce (b : Broker) (env : ProduceEnv) (request : Request)
    (enforceRateLimit : Bool := true) (enforceTopicQuota : Bool := true) : ProduceResult :=
  match b.admitProduce env request enforceRateLimit enforceTopicQuota with
  | (b, .error response) => ⟨b, response, none⟩
  | (b, .ok (partition, body)) => b.settleProduce env request partition body

/-! ## Batches -/

/-- What the outside does to one call of `HandleProduceBatch`. -/
structure BatchEnv where
  writesNow : Int := 0
  rateAllowed : Bool := true
  /-- The clock when the cache is consulted for all items. -/
  lookupNow : Int := 0
  quotaNow : Int := 0
  /-- What happens to the call for each item. -/
  calls : Nat → ProduceEnv := fun _ => {}

/-- An item of a batch, once the cache was consulted: the cached response, or
    the request that produces it. -/
inductive BatchEntry
  | cached (response : Response)
  | pending (request : Request)
deriving DecidableEq, Repr

/-- The request for one item of a batch. -/
def singleRequest (request : Request) (producerId sequence : UInt64) (key value : Bytes) : Request :=
  { request with
    command := .produce
    flags := (request.flags &&& ~~~flagProducerMetadata) ||| flagProducerMetadata
    payload := put64 producerId ++ (put64 sequence ++ (put32 autoPartition ++
      (put16 (UInt16.ofNat key.length) ++ (key ++ (put32 (UInt32.ofNat value.length) ++ value))))) }

/-- The second loop of `HandleProduceBatch`: the items are parsed, one for
    each cache result, with the bytes that are new. -/
def prepareBatch (request : Request) (producerId : UInt64) :
    List (Option Response) → UInt64 → Nat → UInt64 → Except Status (List BatchEntry × Nat × UInt64)
  | [], _, position, newBytes => .ok ([], position, newBytes)
  | found :: rest, sequence, position, newBytes =>
      match parseItem request.payload position with
      | none => .error .badRequest
      | some (key, value, next) =>
          match found with
          | some response =>
              if response.payload.length ≠ 12 then .error .internalError
              else do
                let tail ← prepareBatch request producerId rest (sequence + 1) next newBytes
                return (.cached response :: tail.1, tail.2)
          | none =>
              let bytes := UInt64.ofNat (key.length + value.length)
              if newBytes > UInt64.ofNat (2 ^ 64 - 1) - bytes then .error .badRequest
              else do
                let tail ← prepareBatch request producerId rest (sequence + 1) next
                  (newBytes + bytes)
                return (.pending (singleRequest request producerId sequence key value) :: tail.1,
                  tail.2)

/-- What `HandleProduceBatch` leaves behind. -/
structure BatchResult where
  broker : Broker
  response : Response
  stored : List (Request × UInt32 × Message) := []

/-- The last loop of `HandleProduceBatch`: the pending items are produced one
    after the other, up to the first that fails. -/
def Broker.produceEntries (request : Request) (calls : Nat → ProduceEnv) :
    List BatchEntry → Nat → Broker → Bytes → List (Request × UInt32 × Message) → BatchResult
  | [], _, b, payload, stored => ⟨b, makeResponse request .ok payload, stored⟩
  | .cached response :: rest, index, b, payload, stored =>
      Broker.produceEntries request calls rest (index + 1) b (payload ++ response.payload) stored
  | .pending single :: rest, index, b, payload, stored =>
      let result := b.handleProduce (calls index) single false false
      let stored := stored ++ (result.stored.toList.map (fun m => (single, m)))
      if result.response.status ≠ .ok then
        ⟨result.broker, makeResponse request result.response.status, stored⟩
      else
        Broker.produceEntries request calls rest (index + 1) result.broker
          (payload ++ result.response.payload) stored

/-- The first loop of `HandleProduceBatch`: what the cache has for each item. -/
def Broker.lookupBatch (b : Broker) (request : Request) (producerId : UInt64) :
    Nat → UInt64 → List (Option Response)
  | 0, _ => []
  | count + 1, sequence =>
      ((b.idempotencyCache.lookup (idempotencyKey request.topic producerId sequence)).map
        (fun entry => { entry.response with requestId := request.requestId }))
      :: b.lookupBatch request producerId count (sequence + 1)

/-- The producer id, the first sequence and the number of items of a batch. -/
def batchHeader (payload : Bytes) : Option (UInt64 × UInt64 × Nat) :=
  let first := get64 payload 8
  let count := (get32 payload 16).toNat
  if payload.length < 20 ∨ count = 0 ∨ count > 10000 ∨ first.toNat > 2 ^ 64 - count then none
  else some (get64 payload 0, first, count)

/-- Everything `HandleProduceBatch` does before it produces the pending
    items. -/
def Broker.admitBatch (b : Broker) (env : BatchEnv) (request : Request) :
    Broker × Except Status (List BatchEntry) :=
  if b.refusesWrites request env.writesNow then (b, .error .notLeader)
  else if !request.hasFlag flagReplication && !env.rateAllowed then (b, .error .rateLimited)
  else if !request.hasFlag flagProducerMetadata then (b, .error .notSupported)
  else
    match batchHeader request.payload with
    | none => (b, .error .badRequest)
    | some (producerId, first, count) =>
        let b := b.evictExpired env.lookupNow
        match prepareBatch request producerId (b.lookupBatch request producerId count first) first
          20 0 with
        | .error status => (b, .error status)
        | .ok (entries, position, newBytes) =>
            if position ≠ request.payload.length then (b, .error .badRequest)
            else
              let quota :=
                if !request.hasFlag flagReplication then
                  b.allowTopicBytes env.quotaNow request.topic newBytes
                else (b, true)
              if quota.2 then (quota.1, .ok entries) else (quota.1, .error .quotaExceeded)

/-- `HandleProduceBatch`. -/
def Broker.handleProduceBatch (b : Broker) (env : BatchEnv) (request : Request) : BatchResult :=
  match b.admitBatch env request with
  | (b, .error status) => ⟨b, makeResponse request status, []⟩
  | (b, .ok entries) =>
      Broker.produceEntries request env.calls entries 0 b
        (put32 (UInt32.ofNat entries.length)) []

/-! ## When a stored message is replicated -/

/-- What `Replicate` needs of the state before it and of the answers: peers, a
    quorum above one and enough answers for it, the leadership, and a majority
    of the nodes healthy with the message, the answers counted in. -/
def Broker.reachesQuorum (b : Broker) (env : ProduceEnv) (topic : Bytes) (partition : UInt32)
    (offset : UInt64) : Prop :=
  let pushed := replicateLoop (partitionKey topic partition) offset b.replicationPeers env.answers
    b.coordinator
  b.replicationPeers ≠ [] ∧ 1 < b.replicationQuorum ∧ b.replicationQuorum ≤ 1 + pushed.2 ∧
    b.coordinator.role = .leader ∧
    b.coordinator.majority
      ≤ 1 + pushed.1.replicatedCount (partitionKey topic partition) offset env.commitNow

/-- If the admitted message reaches the log, its sync succeeds and, when the
    request waits for the replicas, its replication reaches the quorum. -/
def Broker.safeAppend (b : Broker) (env : ProduceEnv) (request : Request) (partition : UInt32)
    (body : ProduceBody) : Prop :=
  b.storage.newMessage (b.storage.append env.io env.timestampMs request.topic partition body.key
      body.value).1 request.topic partition ≠ none →
    env.io.io.syncOk = true ∧ (request.waitsForAll = true →
      b.reachesQuorum env request.topic partition (b.storage.partition request.topic
        partition).nextOffset)

theorem length_encodePlace (place : UInt32 × UInt64) : (encodePlace place).length = 12 := by
  rw [encodePlace, List.length_append, length_put32, length_put64]

/-- Reading a place that was written into a payload. -/
theorem read_place (front back : Bytes) (partition : UInt32) (offset : UInt64) :
    get32 (front ++ (put32 partition ++ put64 offset ++ back)) front.length = partition ∧
      get64 (front ++ (put32 partition ++ put64 offset ++ back)) (front.length + 4) = offset := by
  constructor
  · rw [get32_append_right _ _ _ le_rfl, Nat.sub_self, List.append_assoc, get32_put32]
  · rw [get64_append_right _ _ _ (Nat.le_add_right _ _), Nat.add_sub_cancel_left,
      List.append_assoc, get64_append_right _ _ _ (by rw [length_put32]), length_put32,
      Nat.sub_self, get64_put64]

section Replicate

variable {c : ReplicationCoordinator} {key : Bytes} {offset : UInt64}

/-- Heartbeats do not look at the log summaries. -/
theorem observeHeartbeat_withStates (states : Table Bytes PartitionState) (node : Bytes)
    (now : Int) :
    ReplicationCoordinator.observeHeartbeat { c with partitionStates := states } key node offset now
      = { c.observeHeartbeat key node offset now with partitionStates := states } := by
  unfold ReplicationCoordinator.observeHeartbeat
  split
  · rfl
  · cases c.replicas.lookup node with
    | none => rfl
    | some replica => rfl

theorem replicateLoop_withStates (states : Table Bytes PartitionState)
    (peers : List ReplicationPeer) (answers : List (Option Int)) :
    replicateLoop key offset peers answers { c with partitionStates := states }
      = ({ (replicateLoop key offset peers answers c).1 with partitionStates := states },
          (replicateLoop key offset peers answers c).2) := by
  induction peers generalizing c answers with
  | nil => simp only [replicateLoop]
  | cons peer peers ih =>
      cases answers with
      | nil => simp only [replicateLoop]
      | cons answer answers =>
          cases answer with
          | none => simp only [replicateLoop, ih]
          | some now => simp only [replicateLoop, observeHeartbeat_withStates, ih]

/-- The answers of the peers change neither role nor term, and register
    nobody. -/
theorem replicateLoop_keeps (c : ReplicationCoordinator) (key : Bytes) (offset : UInt64)
    (peers : List ReplicationPeer) (answers : List (Option Int)) :
    (replicateLoop key offset peers answers c).1.ballot = c.ballot ∧
      ∀ id, id ∈ (replicateLoop key offset peers answers c).1.replicas ↔ id ∈ c.replicas := by
  induction peers generalizing c answers with
  | nil => exact ⟨by simp only [replicateLoop], by simp only [replicateLoop, implies_true]⟩
  | cons peer peers ih =>
      cases answers with
      | nil => exact ⟨by simp only [replicateLoop], by simp only [replicateLoop, implies_true]⟩
      | cons answer answers =>
          cases answer with
          | none => exact ih c answers
          | some now =>
              have hrest := ih (c.observeHeartbeat key peer.nodeId offset now) answers
              refine ⟨hrest.1.trans (observeHeartbeat_ballot _ _ _ _), fun id => ?_⟩
              exact (hrest.2 id).trans (observeHeartbeat_replicas _ _ _ _ id)

/-- `Majority` only depends on who is registered. -/
theorem majority_congr {d : ReplicationCoordinator} (h : ∀ id, id ∈ d.replicas ↔ id ∈ c.replicas) :
    d.majority = c.majority := by
  have hkeys : d.replicas.keys.toFinset = c.replicas.keys.toFinset := by
    ext id
    rw [List.mem_toFinset, List.mem_toFinset, ← AList.mem_keys, ← AList.mem_keys, h id]
  rw [ReplicationCoordinator.majority, ReplicationCoordinator.majority, ← Table.card_keys, hkeys,
    Table.card_keys]

/-- A message recorded in the current term can be committed by a leader once
    a majority has it. -/
theorem advanceCommit_recorded {d : ReplicationCoordinator} {now : Int} (hrole : d.role = .leader)
    (hlocal : offset ≤ (d.partitionStates.get key).localOffset)
    (hterm : (d.partitionStates.get key).lastLogTerm = d.currentTerm)
    (hmajority : d.majority ≤ 1 + d.replicatedCount key offset now) :
    (d.advanceCommit key offset now).2 = true := by
  simp only [ReplicationCoordinator.advanceCommit]
  rw [if_neg (not_not.mpr hrole), if_neg, if_neg (not_lt.mpr hmajority)]
  rw [not_or]
  exact ⟨not_lt.mpr hlocal, not_not.mpr hterm⟩

end Replicate

/-- `Replicate` succeeds on a recorded message that reaches its quorum. -/
theorem replicate_of_reachesQuorum {b : Broker} {e : StorageEngine} {env : ProduceEnv}
    {topic : Bytes} {partition : UInt32} {m : Message}
    (h : b.reachesQuorum env topic partition m.offset) :
    (Broker.replicate { b with
        storage := e
        coordinator := b.coordinator.recordLocalOffset (partitionKey topic partition) m.offset }
      env topic partition m).2 = true := by
  rcases h with ⟨hpeers, hquorum, hanswers, hrole, hmajority⟩
  simp only [Broker.replicate, ReplicationCoordinator.recordLocalOffset, replicateLoop_withStates]
  rw [if_neg (by rw [not_or]; exact ⟨hpeers, by omega⟩), if_neg (by omega)]
  rcases replicateLoop_keeps b.coordinator (partitionKey topic partition) m.offset
    b.replicationPeers env.answers with ⟨hballot, hreplicas⟩
  refine advanceCommit_recorded ?_ ?_ ?_ ?_
  · exact ((congrArg (fun x => x.leading) hballot).mpr hrole)
  · simp only [Table.get_insert_self]
    exact le_max_right _ _
  · simp only [Table.get_insert_self]
    exact (congrArg (fun x => x.term) hballot).symm
  · refine le_trans (le_of_eq ?_) hmajority
    exact majority_congr hreplicas

/-- `Replicate` only touches the coordinator. -/
theorem replicate_frame (b : Broker) (env : ProduceEnv) (topic : Bytes) (partition : UInt32)
    (m : Message) :
    (b.replicate env topic partition m).1
      = { b with coordinator := (b.replicate env topic partition m).1.coordinator } := by
  simp only [Broker.replicate]
  split
  · rfl
  · split <;> rfl

/-! ## What a call can do -/

section Calls

variable {b : Broker} {env : ProduceEnv} {request : Request}

theorem newMessage_stored {e e' : StorageEngine} {topic : Bytes} {number : UInt32} {m : Message}
    (h : Stored e e' topic number m) : e.newMessage e' topic number = some (number, m) := by
  rw [StorageEngine.newMessage, h.messages, List.drop_left]
  rfl

theorem newMessage_same {e e' : StorageEngine} {topic : Bytes} {number : UInt32}
    (h : SameMessages e e') : e.newMessage e' topic number = none := by
  rw [StorageEngine.newMessage, (h topic number).1, List.drop_length]
  rfl

theorem acknowledge_frame (b : Broker) (env : ProduceEnv) (request : Request)
    (partition : UInt32) (m : Message) :
    (b.acknowledge env request partition m).1
      = { b with coordinator := (b.acknowledge env request partition m).1.coordinator } := by
  unfold Broker.acknowledge
  split
  · exact replicate_frame _ _ _ _ _
  · rfl

theorem remember_storage (b : Broker) (env : ProduceEnv) (request : Request)
    (response : Response) : (b.remember env request response).storage = b.storage := by
  unfold Broker.remember
  split <;> rfl

/-- Replication and the cache leave the log to the append. -/
theorem settleProduce_storage (b : Broker) (env : ProduceEnv) (request : Request)
    (partition : UInt32) (body : ProduceBody) :
    (b.settleProduce env request partition body).broker.storage
      = (b.storage.append env.io env.timestampMs request.topic partition body.key body.value).1 ∧
    (b.settleProduce env request partition body).stored
      = b.storage.newMessage (b.storage.append env.io env.timestampMs request.topic partition
          body.key body.value).1 request.topic partition := by
  simp only [Broker.settleProduce]
  split
  · exact ⟨rfl, rfl⟩
  · split
    · rw [remember_storage, acknowledge_frame]
      exact ⟨rfl, rfl⟩
    · rw [acknowledge_frame]
      exact ⟨rfl, rfl⟩

/-- The append, the replication and the cache, one after the other. -/
theorem settleProduce_eq (b : Broker) (env : ProduceEnv) (request : Request) (partition : UInt32)
    (body : ProduceBody) :
    b.settleProduce env request partition body
      = { (match b.storeProduce env request partition body with
          | (b, none) => (⟨b, makeResponse request .storageError, none⟩ : ProduceResult)
          | (b, some message) =>
              let acknowledged := b.acknowledge env request partition message
              if acknowledged.2 then
                ⟨acknowledged.1.remember env request (produced request partition message),
                  produced request partition message, none⟩
              else ⟨acknowledged.1, makeResponse request .storageError, none⟩) with
          stored := b.storage.newMessage (b.storage.append env.io env.timestampMs request.topic
            partition body.key body.value).1 request.topic partition } := by
  simp only [Broker.settleProduce, Broker.storeProduce]
  cases (b.storage.append env.io env.timestampMs request.topic partition body.key body.value).2 with
  | error err => rfl
  | ok message =>
      simp only
      split <;> rfl

/-- What the append of an admitted message leaves behind. Either nothing is
    stored and the response is an error, or the message is stored; a safe one
    is then answered and remembered. -/
theorem settleProduce_cases (b : Broker) (env : ProduceEnv) (request : Request)
    (partition : UInt32) (body : ProduceBody) :
    ((b.settleProduce env request partition body).stored = none ∧
      (b.settleProduce env request partition body).response.status ≠ .ok ∧
      SameMessages b.storage (b.settleProduce env request partition body).broker.storage ∧
      (b.settleProduce env request partition body).broker.idempotencyCache = b.idempotencyCache) ∨
    (∃ m, (b.settleProduce env request partition body).stored = some (partition, m) ∧
      Stored b.storage (b.settleProduce env request partition body).broker.storage request.topic
        partition m ∧
      (b.safeAppend env request partition body →
        (b.settleProduce env request partition body).response
          = makeResponse request .ok (put32 partition ++ put64 m.offset) ∧
        (b.settleProduce env request partition body).broker.idempotencyCache
          = (b.remember env request (makeResponse request .ok
              (put32 partition ++ put64 m.offset))).idempotencyCache)) := by
  rcases settleProduce_storage b env request partition body with ⟨hstorage, hlogged⟩
  rcases store_append_cases b.storage env.io env.timestampMs request.topic partition body.key
    body.value with ⟨hstored, hresult⟩ | ⟨hsame, err, hresult⟩
  · right
    refine ⟨(b.storage.partition request.topic partition).nextMessage env.timestampMs body.key
      body.value, ?_, ?_, ?_⟩
    · rw [hlogged, newMessage_stored hstored]
    · rw [hstorage]
      exact hstored
    · intro hsafe
      rcases hsafe (by rw [newMessage_stored hstored]; exact Option.some_ne_none _) with
        ⟨hsync, hquorum⟩
      rw [if_pos hsync] at hresult
      have hack : (Broker.acknowledge { b with
          storage := (b.storage.append env.io env.timestampMs request.topic partition body.key
            body.value).1
          coordinator := b.coordinator.recordLocalOffset (partitionKey request.topic partition)
            ((b.storage.partition request.topic partition).nextMessage env.timestampMs body.key
              body.value).offset } env request partition
          ((b.storage.partition request.topic partition).nextMessage env.timestampMs body.key
            body.value)).2 = true := by
        unfold Broker.acknowledge
        split
        · rename_i hall
          exact replicate_of_reachesQuorum (hquorum hall)
        · rfl
      simp only [Broker.settleProduce, hresult, hack, if_true]
      refine ⟨trivial, ?_⟩
      rw [acknowledge_frame]
      unfold Broker.remember
      split <;> rfl
  · left
    refine ⟨by rw [hlogged, newMessage_same hsame], ?_, by rw [hstorage]; exact hsame, ?_⟩
    · simp only [Broker.settleProduce, hresult, makeResponse, ne_eq, reduceCtorEq,
        not_false_eq_true]
    · simp only [Broker.settleProduce, hresult]

/-- The quota keeps books only. -/
theorem allowTopicBytes_frame (b : Broker) (now : Int) (topic : Bytes) (bytes : UInt64) :
    (b.allowTopicBytes now topic bytes).1
      = { b with topicQuotaWindows := (b.allowTopicBytes now topic bytes).1.topicQuotaWindows } := by
  simp only [Broker.allowTopicBytes]
  split
  · rfl
  · split
    · rfl
    · split <;> rfl

/-- Nothing but the books of the quota is different. -/
def Broker.SameButQuota (b b' : Broker) : Prop :=
  ∃ windows, b' = { b with topicQuotaWindows := windows }

theorem error_status {request : Request} {status : Status} (h : status ≠ .ok) :
    (makeResponse request status).status ≠ .ok := h

/-- Routing changes nothing but the quota, and what it rejects is an error. -/
theorem routeProduce_cases (b : Broker) (env : ProduceEnv) (request : Request) (quota : Bool)
    (position : Nat) :
    b.SameButQuota (b.routeProduce env request quota position).1 ∧
    ((∃ r, (b.routeProduce env request quota position).2 = .error r ∧ r.status ≠ .ok) ∨
      ∃ partition body, (b.routeProduce env request quota position).2 = .ok (partition, body)) := by
  simp only [Broker.routeProduce]
  split
  · exact ⟨⟨_, rfl⟩, Or.inl ⟨_, rfl, error_status (by decide)⟩⟩
  · split
    · exact ⟨⟨_, rfl⟩, Or.inl ⟨_, rfl, error_status (by decide)⟩⟩
    · exact ⟨⟨_, rfl⟩, Or.inl ⟨_, rfl, error_status (by decide)⟩⟩
    · rename_i body _ _ partition _
      have hquota : b.SameButQuota (if (quota && !request.hasFlag flagReplication) = true then
          b.allowTopicBytes env.quotaNow request.topic
            (UInt64.ofNat (body.key.length + body.value.length)) else (b, true)).1 := by
        split
        · exact ⟨_, allowTopicBytes_frame _ _ _ _⟩
        · exact ⟨_, rfl⟩
      by_cases hallowed : (if (quota && !request.hasFlag flagReplication) = true then
          b.allowTopicBytes env.quotaNow request.topic
            (UInt64.ofNat (body.key.length + body.value.length)) else (b, true)).2 = true
      · rw [if_pos hallowed]
        exact ⟨hquota, Or.inr ⟨partition, body, rfl⟩⟩
      · rw [if_neg hallowed]
        exact ⟨hquota, Or.inl ⟨_, rfl, error_status (by decide)⟩⟩

/-- What is routed is the message of the request, and it goes to its partition. -/
theorem routeProduce_routes {b d : Broker} {env : ProduceEnv} {request : Request} {quota : Bool}
    {position : Nat} {partition : UInt32} {body : ProduceBody}
    (h : b.routeProduce env request quota position = (d, .ok (partition, body))) :
    parseProduce request.payload position = some body ∧
      b.resolvePartition request.topic body.partition body.key = .ok partition := by
  unfold Broker.routeProduce at h
  split at h
  · cases h
  · rename_i parsed hparsed
    split at h
    · cases h
    · cases h
    · rename_i found hfound
      -- Whatever the quota says, what is admitted is what was parsed.
      have hverdict : ∀ q : Broker × Bool,
          (if q.2 = true then (q.1, Except.ok (found, parsed))
            else (q.1, Except.error (makeResponse request .quotaExceeded)))
            = (d, .ok (partition, body)) → (found, parsed) = (partition, body) := by
        intro q hq
        split at hq
        · exact Except.ok.inj (Prod.mk.inj hq).2
        · cases (Prod.mk.inj hq).2
      rcases Prod.mk.inj (hverdict _ h) with ⟨rfl, rfl⟩
      exact ⟨hparsed, hfound⟩

/-- So is what is admitted. -/
theorem admitProduce_routes {b d : Broker} {env : ProduceEnv} {request : Request}
    {rate quota : Bool} {partition : UInt32} {body : ProduceBody}
    (h : b.admitProduce env request rate quota = (d, .ok (partition, body))) :
    b.Routes request partition body := by
  simp only [Broker.admitProduce] at h
  split at h
  · cases h
  · split at h
    · cases h
    · split at h
      · rename_i hmeta
        split at h
        · cases h
        · split at h
          · cases h
          · -- Dropping what has expired leaves the topics alone.
            rcases routeProduce_routes h with ⟨hparsed, hresolved⟩
            exact ⟨by rwa [if_pos hmeta], hresolved⟩
      · rename_i hmeta
        rcases routeProduce_routes h with ⟨hparsed, hresolved⟩
        exact ⟨by rwa [if_neg hmeta], hresolved⟩

/-- What happens in front of the append, for a request with metadata. It is
    turned away before the cache is consulted, or answered from the cache, or
    routed with the expired responses dropped. -/
theorem admitProduce_cases (b : Broker) (env : ProduceEnv) (request : Request)
    (rate quota : Bool) (hmeta : request.hasFlag flagProducerMetadata = true) :
    ((b.admitProduce env request rate quota).1 = b ∧
      ∃ r, (b.admitProduce env request rate quota).2 = .error r ∧ r.status ≠ .ok) ∨
    (∃ entry, (b.evictExpired env.cacheNow).idempotencyCache.lookup request.cacheKey = some entry ∧
      b.admitProduce env request rate quota = (b.evictExpired env.cacheNow,
        .error { entry.response with requestId := request.requestId })) ∨
    ((b.evictExpired env.cacheNow).idempotencyCache.lookup request.cacheKey = none ∧
      (b.evictExpired env.cacheNow).SameButQuota (b.admitProduce env request rate quota).1 ∧
      ((∃ r, (b.admitProduce env request rate quota).2 = .error r ∧ r.status ≠ .ok) ∨
        ∃ partition body, (b.admitProduce env request rate quota).2 = .ok (partition, body))) := by
  simp only [Broker.admitProduce, hmeta, if_true]
  split
  · exact Or.inl ⟨rfl, _, rfl, error_status (by decide)⟩
  · split
    · exact Or.inl ⟨rfl, _, rfl, error_status (by decide)⟩
    · split
      · exact Or.inl ⟨rfl, _, rfl, error_status (by decide)⟩
      · right
        cases hlookup : (b.evictExpired env.cacheNow).idempotencyCache.lookup request.cacheKey with
        | some entry => exact Or.inl ⟨entry, rfl, rfl⟩
        | none => exact Or.inr ⟨rfl, routeProduce_cases _ env request quota 16⟩

end Calls

/-! ## The items of a batch -/

section Items

variable (request : Request) (producerId : UInt64)

/-- How the first item of a batch is parsed: it is rejected, or the rest is, or
    it becomes an entry in front of the entries of the rest. -/
theorem prepareBatch_cons (first : Option Response) (found : List (Option Response))
    (sequence : UInt64) (position : Nat) (newBytes : UInt64) :
    (∃ status, prepareBatch request producerId (first :: found) sequence position newBytes
        = .error status ∧
      (status = .badRequest ∨ status = .internalError ∨
        ∃ next bytes, prepareBatch request producerId found (sequence + 1) next bytes
          = .error status)) ∨
    ∃ entry next bytes tail, prepareBatch request producerId found (sequence + 1) next bytes
        = .ok tail ∧
      prepareBatch request producerId (first :: found) sequence position newBytes
        = .ok (entry :: tail.1, tail.2) ∧
      ((∃ response, first = some response ∧ entry = .cached response ∧
          response.payload.length = 12) ∨
        (first = none ∧
          ∃ key value, entry = .pending (singleRequest request producerId sequence key value))) := by
  simp only [prepareBatch]
  split
  · exact Or.inl ⟨_, rfl, Or.inl rfl⟩
  · rename_i key value next _
    cases first with
    | some response =>
        simp only
        split
        · exact Or.inl ⟨_, rfl, Or.inr (Or.inl rfl)⟩
        · rename_i hlength
          cases htail : prepareBatch request producerId found (sequence + 1) next newBytes with
          | error status => exact Or.inl ⟨status, rfl, Or.inr (Or.inr ⟨next, newBytes, htail⟩)⟩
          | ok tail =>
              exact Or.inr ⟨_, next, newBytes, tail, htail, rfl,
                Or.inl ⟨response, rfl, rfl, not_not.mp hlength⟩⟩
    | none =>
        simp only
        split
        · exact Or.inl ⟨_, rfl, Or.inl rfl⟩
        · cases htail : prepareBatch request producerId found (sequence + 1) next
            (newBytes + UInt64.ofNat (key.length + value.length)) with
          | error status => exact Or.inl ⟨status, rfl, Or.inr (Or.inr ⟨next, _, htail⟩)⟩
          | ok tail => exact Or.inr ⟨_, next, _, tail, htail, rfl, Or.inr ⟨trivial, key, value, rfl⟩⟩

theorem prepareBatch_length {found : List (Option Response)} {sequence : UInt64} {position : Nat}
    {newBytes : UInt64} {prepared : List BatchEntry × Nat × UInt64}
    (h : prepareBatch request producerId found sequence position newBytes = .ok prepared) :
    prepared.1.length = found.length := by
  induction found generalizing sequence position newBytes prepared with
  | nil =>
      cases h
      rfl
  | cons first found ih =>
      rcases prepareBatch_cons request producerId first found sequence position newBytes with
        ⟨status, herror, _⟩ | ⟨entry, next, bytes, tail, htail, hok, _⟩
      · rw [herror] at h
        cases h
      · rw [hok] at h
        cases h
        exact congrArg Nat.succ (ih htail)

theorem lookupBatch_length (b : Broker) (count : Nat) (sequence : UInt64) :
    (b.lookupBatch request producerId count sequence).length = count := by
  induction count generalizing sequence with
  | zero => rfl
  | succ count ih => rw [Broker.lookupBatch, List.length_cons, ih]

/-- What `HandleProduceBatch` rejects while it parses is an error. -/
theorem prepareBatch_error (found : List (Option Response)) (sequence : UInt64) (position : Nat)
    (newBytes : UInt64) (status : Status)
    (h : prepareBatch request producerId found sequence position newBytes = .error status) :
    status ≠ .ok := by
  induction found generalizing sequence position newBytes with
  | nil => cases h
  | cons first found ih =>
      rcases prepareBatch_cons request producerId first found sequence position newBytes with
        ⟨_, herror, hstatus⟩ | ⟨_, _, _, _, _, hok, _⟩
      · rw [herror] at h
        cases h
        rcases hstatus with rfl | rfl | ⟨next, bytes, htail⟩
        · decide
        · decide
        · exact ih _ _ _ htail
      · rw [hok] at h
        cases h

theorem batchHeader_count {payload : Bytes} {producerId first : UInt64} {count : Nat}
    (h : batchHeader payload = some (producerId, first, count)) : count ≤ 10000 := by
  simp only [batchHeader] at h
  split at h
  · cases h
  · cases h
    omega

end Items

/-- What happens to a batch before its pending items are produced. -/
theorem admitBatch_cases (b : Broker) (env : BatchEnv) (request : Request) :
    ((b.admitBatch env request).1 = b ∧
      ∃ status, (b.admitBatch env request).2 = .error status ∧ status ≠ .ok) ∨
    ∃ producerId first count, batchHeader request.payload = some (producerId, first, count) ∧
      (b.evictExpired env.lookupNow).SameButQuota (b.admitBatch env request).1 ∧
      ((∃ status, (b.admitBatch env request).2 = .error status ∧ status ≠ .ok) ∨
        ∃ entries rest, (b.admitBatch env request).2 = .ok entries ∧
          prepareBatch request producerId ((b.evictExpired env.lookupNow).lookupBatch request
            producerId count first) first 20 0 = .ok (entries, rest)) := by
  simp only [Broker.admitBatch]
  split
  · exact Or.inl ⟨rfl, _, rfl, by decide⟩
  · split
    · exact Or.inl ⟨rfl, _, rfl, by decide⟩
    · split
      · exact Or.inl ⟨rfl, _, rfl, by decide⟩
      · cases hheader : batchHeader request.payload with
        | none => exact Or.inl ⟨rfl, _, rfl, by decide⟩
        | some header =>
            rcases header with ⟨producerId, first, count⟩
            refine Or.inr ⟨producerId, first, count, rfl, ?_⟩
            simp only
            cases hprepared : prepareBatch request producerId ((b.evictExpired
              env.lookupNow).lookupBatch request producerId count first) first 20 0 with
            | error status =>
                exact ⟨⟨_, rfl⟩, Or.inl ⟨status, rfl, prepareBatch_error _ _ _ _ _ _ _ hprepared⟩⟩
            | ok prepared =>
                rcases prepared with ⟨entries, position, newBytes⟩
                simp only
                by_cases hposition : position ≠ request.payload.length
                · rw [if_pos hposition]
                  exact ⟨⟨_, rfl⟩, Or.inl ⟨_, rfl, by decide⟩⟩
                · rw [if_neg hposition]
                  have hquota : (b.evictExpired env.lookupNow).SameButQuota
                      (if (!request.hasFlag flagReplication) = true then
                        (b.evictExpired env.lookupNow).allowTopicBytes env.quotaNow request.topic
                          newBytes else (b.evictExpired env.lookupNow, true)).1 := by
                    split
                    · exact ⟨_, allowTopicBytes_frame _ _ _ _⟩
                    · exact ⟨_, rfl⟩
                  generalize (if (!request.hasFlag flagReplication) = true then
                    (b.evictExpired env.lookupNow).allowTopicBytes env.quotaNow request.topic
                      newBytes else (b.evictExpired env.lookupNow, true)) = quota at hquota
                  split
                  · exact ⟨hquota, Or.inr ⟨entries, _, rfl, rfl⟩⟩
                  · exact ⟨hquota, Or.inl ⟨_, rfl, by decide⟩⟩

/-! ## What producing leaves alone -/

theorem remember_frame (b : Broker) (env : ProduceEnv) (request : Request) (response : Response) :
    ∃ cache, b.remember env request response = { b with idempotencyCache := cache } := by
  unfold Broker.remember
  split
  · exact ⟨_, rfl⟩
  · exact ⟨_, rfl⟩

/-- Routing keeps everything but the quota. -/
theorem routeProduce_frame (b : Broker) (env : ProduceEnv) (request : Request) (quota : Bool)
    (position : Nat) :
    ∃ windows, (b.routeProduce env request quota position).1
      = { b with topicQuotaWindows := windows } :=
  (routeProduce_cases b env request quota position).1

/-- Admission keeps everything but the cache and the quota. -/
theorem admitProduce_frame (b : Broker) (env : ProduceEnv) (request : Request)
    (rate quota : Bool) :
    ∃ cache windows, (b.admitProduce env request rate quota).1
      = { b with idempotencyCache := cache, topicQuotaWindows := windows } := by
  simp only [Broker.admitProduce]
  split
  · exact ⟨_, _, rfl⟩
  · split
    · exact ⟨_, _, rfl⟩
    · split
      · split
        · exact ⟨_, _, rfl⟩
        · split
          · exact ⟨_, _, rfl⟩
          · rcases routeProduce_frame (b.evictExpired env.cacheNow) env request quota 16 with
              ⟨windows, h⟩
            rw [h]
            exact ⟨_, windows, rfl⟩
      · rcases routeProduce_frame b env request quota 0 with ⟨windows, h⟩
        rw [h]
        exact ⟨_, windows, rfl⟩

/-- Producing leaves the settings, the topics and the cursors alone. -/
theorem settleProduce_frame (b : Broker) (env : ProduceEnv) (request : Request)
    (partition : UInt32) (body : ProduceBody) :
    ∃ e c cache, (b.settleProduce env request partition body).broker
      = { b with storage := e, coordinator := c, idempotencyCache := cache } := by
  simp only [Broker.settleProduce]
  split
  · exact ⟨_, _, _, rfl⟩
  · split
    · rcases remember_frame (Broker.acknowledge _ env request partition _).1 env request _ with
        ⟨cache, hremember⟩
      rw [hremember, acknowledge_frame]
      exact ⟨_, _, cache, rfl⟩
    · rw [acknowledge_frame]
      exact ⟨_, _, _, rfl⟩

theorem handleProduce_frame (b : Broker) (env : ProduceEnv) (request : Request)
    (rate quota : Bool) :
    ∃ e c cache windows, (b.handleProduce env request rate quota).broker
      = { b with
          storage := e
          coordinator := c
          idempotencyCache := cache
          topicQuotaWindows := windows } := by
  rcases admitProduce_frame b env request rate quota with ⟨cache, windows, hverdict⟩
  unfold Broker.handleProduce
  split
  · rename_i d response hadmitted
    rw [hadmitted] at hverdict
    exact ⟨_, _, cache, windows, hverdict⟩
  · rename_i d partition body hadmitted
    rw [hadmitted] at hverdict
    rcases settleProduce_frame d env request partition body with ⟨e, c, cache', hsettle⟩
    rw [hsettle, show d = _ from hverdict]
    exact ⟨e, c, cache', windows, rfl⟩

theorem produceEntries_frame (request : Request) (calls : Nat → ProduceEnv)
    (entries : List BatchEntry) (index : Nat) (b : Broker) (payload : Bytes)
    (stored : List (Request × UInt32 × Message)) :
    ∃ e c cache windows,
      (Broker.produceEntries request calls entries index b payload stored).broker
      = { b with
          storage := e
          coordinator := c
          idempotencyCache := cache
          topicQuotaWindows := windows } := by
  induction entries generalizing index b payload stored with
  | nil => exact ⟨_, _, _, _, rfl⟩
  | cons entry rest ih =>
      cases entry with
      | cached response => exact ih (index + 1) b _ stored
      | pending single =>
          simp only [Broker.produceEntries]
          rcases handleProduce_frame b (calls index) single false false with
            ⟨e, c, cache, windows, hfirst⟩
          split
          · exact ⟨e, c, cache, windows, hfirst⟩
          · rcases ih (index + 1) (b.handleProduce (calls index) single false false).broker _ _ with
              ⟨e', c', cache', windows', hrest⟩
            rw [hrest, hfirst]
            exact ⟨e', c', cache', windows', rfl⟩

/-- What comes before the items of a batch touches the cache and the quota. -/
theorem admitBatch_frame (b : Broker) (env : BatchEnv) (request : Request) :
    ∃ cache windows, (b.admitBatch env request).1
      = { b with idempotencyCache := cache, topicQuotaWindows := windows } := by
  rcases admitBatch_cases b env request with ⟨hsame, _⟩ | ⟨_, _, _, _, ⟨windows, hquota⟩, _⟩
  · exact ⟨_, _, hsame⟩
  · exact ⟨_, windows, hquota⟩

theorem handleProduceBatch_frame (b : Broker) (env : BatchEnv) (request : Request) :
    ∃ e c cache windows, (b.handleProduceBatch env request).broker
      = { b with
          storage := e
          coordinator := c
          idempotencyCache := cache
          topicQuotaWindows := windows } := by
  rcases admitBatch_frame b env request with ⟨cache, windows, hverdict⟩
  unfold Broker.handleProduceBatch
  split
  · rename_i d status hadmitted
    rw [hadmitted] at hverdict
    exact ⟨_, _, cache, windows, hverdict⟩
  · rename_i d entries hadmitted
    rw [hadmitted] at hverdict
    rcases produceEntries_frame request env.calls entries 0 d
      (put32 (UInt32.ofNat entries.length)) [] with ⟨e, c, cache', windows', hloop⟩
    rw [hloop, show d = _ from hverdict]
    exact ⟨e, c, cache', windows', rfl⟩

/-- A broker that takes writes and has no quota admits a plain request for one
    of its partitions, and nothing changes. -/
theorem admitProduce_plain (b : Broker) {env : ProduceEnv} {request : Request} (rate quota : Bool)
    {partition : UInt32} {body : ProduceBody}
    (hserving : b.refusesWrites request env.writesNow = false) (hrate : env.rateAllowed = true)
    (hplain : request.hasFlag flagProducerMetadata = false) (hquota : b.topicProduceQuota = 0)
    (hparse : parseProduce request.payload 0 = some body)
    (hresolve : b.resolvePartition request.topic body.partition body.key = .ok partition) :
    b.admitProduce env request rate quota = (b, .ok (partition, body)) := by
  have hallowed : (if (quota && !request.hasFlag flagReplication) = true then
      b.allowTopicBytes env.quotaNow request.topic
        (UInt64.ofNat (body.key.length + body.value.length))
      else (b, true)) = (b, true) := by
    split
    · rw [Broker.allowTopicBytes, if_pos hquota]
    · rfl
  simp only [Broker.admitProduce, hserving, hrate, hplain, Bool.not_true, Bool.and_false,
    Bool.false_eq_true, if_false, Broker.routeProduce, hparse, hresolve]
  rw [hallowed]
  rfl

end MqBroker
