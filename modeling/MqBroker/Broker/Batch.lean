import MqBroker.Broker.Idempotence
import MqBroker.Broker.Parsers
import MqBroker.Lib.InTurn

/-!
# Batches and Their Messages

A batch against the produce requests for its messages, one at a time.

`HandleProduceBatch` looks all messages up in the cache before it produces the
first of them, and makes a request for every one that is not there. Someone who
sends the messages one by one has each of them looked up when its turn comes.
The two agree as long as nothing expires on the way: a message that is
produced leaves an entry for itself only, so what the cache has for the others
stays what it was.

The produce requests of the other side are not the ones that the broker makes.
They are whatever carries the message for the partition of its key, with the
producer, the sequence and the acknowledgement level of the batch. A request id
is kept with a cached response, where nothing ever reads it, and is all that can
come to differ.

A broker that serves writes does so in every turn, since pushing a message to a
replica can only bring its last heartbeat forward.

## Main definitions

* `BatchItem`, `parseItems`, `parseBatch`: The messages of a well-formed batch.
* `Request.Carries`: A produce request for a message of a batch.
* `Broker.produceInOrder`: Produce requests up to the first that fails.
* `batchAnswer`: What a batch makes of the answers to its messages.
* `ReplicationCoordinator.NoStaler`: Replicas that are heard of no less.
* `Broker.AlikeUnder`: Brokers that only differ in cached request ids.

## Theorems

* `prepareBatch_parsed`: The entries of a well-formed batch.
* `produceEntries_inTurn`: The last loop as entries taken in turn.
* `handleProduce_alike`: Equal messages are produced alike.
* `handleProduceBatch_inOrder`: A batch is its messages in order.
-/

namespace MqBroker

/-! ## The format -/

/-- A message of a batch with its sequence number. -/
structure BatchItem where
  sequence : UInt64
  key : Bytes
  value : Bytes
deriving DecidableEq, Repr

/-- The messages of a batch from `position` on, numbered from `sequence` on, and
    the position behind them. -/
def parseItems (payload : Bytes) : Nat → UInt64 → Nat → Option (List BatchItem × Nat)
  | 0, _, position => some ([], position)
  | count + 1, sequence, position => do
      let item ← parseItem payload position
      let rest ← parseItems payload count (sequence + 1) item.2.2
      return (⟨sequence, item.1, item.2.1⟩ :: rest.1, rest.2)

/-- The producer id and the messages of a well-formed batch: a header, as many
    messages as it says, and nothing behind them. -/
def parseBatch (payload : Bytes) : Option (UInt64 × List BatchItem) := do
  let header ← batchHeader payload
  let items ← parseItems payload header.2.2 header.2.1 20
  if items.2 = payload.length then return (header.1, items.1) else none

/-- A produce request for a message of a batch: it is for the partition of the
    key, and has the producer, the sequence and the acknowledgement level that
    the message has in the batch. -/
structure Request.Carries (single request : Request) (producerId : UInt64) (item : BatchItem) :
    Prop where
  command : single.command = .produce
  topic : single.topic = request.topic
  metadata : single.hasFlag flagProducerMetadata = true
  replication : single.hasFlag flagReplication = request.hasFlag flagReplication
  ack : single.flags &&& ackMask = request.flags &&& ackMask
  producerId : get64 single.payload 0 = producerId
  sequence : get64 single.payload 8 = item.sequence
  body : parseProduce single.payload 16 = some ⟨autoPartition, item.key, item.value⟩

/-! ## Parsing -/

theorem parseItems_succ {payload : Bytes} {count : Nat} {sequence : UInt64} {position : Nat}
    {parsed : List BatchItem × Nat}
    (h : parseItems payload (count + 1) sequence position = some parsed) :
    ∃ key value next rest, parseItem payload position = some (key, value, next) ∧
      parseItems payload count (sequence + 1) next = some rest ∧
      parsed = (⟨sequence, key, value⟩ :: rest.1, rest.2) := by
  rw [parseItems] at h
  cases hitem : parseItem payload position with
  | none =>
      rw [hitem] at h
      cases h
  | some item =>
      rw [hitem] at h
      change ((parseItems payload count (sequence + 1) item.2.2).bind _) = _ at h
      rcases Option.bind_eq_some_iff.mp h with ⟨rest, hrest, heq⟩
      exact ⟨item.1, item.2.1, item.2.2, rest, rfl, hrest, (Option.some.inj heq).symm⟩

theorem parseBatch_some {payload : Bytes} {producerId : UInt64} {items : List BatchItem}
    (h : parseBatch payload = some (producerId, items)) :
    ∃ first count, batchHeader payload = some (producerId, first, count) ∧
      parseItems payload count first 20 = some (items, payload.length) := by
  simp only [parseBatch, Option.bind_eq_bind, Option.bind_eq_some_iff] at h
  rcases h with ⟨⟨id, first, count⟩, hheader, ⟨parsed, position⟩, hitems, hdone⟩
  simp only at hdone hitems
  split at hdone
  · rename_i hend
    cases hdone
    exact ⟨first, count, hheader, hend ▸ hitems⟩
  · cases hdone

theorem length_substr_le (data : Bytes) (position count : Nat) :
    (substr data position count).length ≤ count := by
  rw [substr, List.length_take]
  exact Nat.min_le_left _ _

/-- The lengths in front of a key and a value bound them. -/
theorem parseItem_sizes {payload : Bytes} {position next : Nat} {key value : Bytes}
    (h : parseItem payload position = some (key, value, next)) :
    key.length < 2 ^ 16 ∧ value.length < 2 ^ 32 := by
  simp only [parseItem, Option.bind_eq_bind, Option.bind_eq_some_iff, Option.pure_def,
    Option.some.injEq, Prod.mk.injEq] at h
  rcases h with ⟨_, _, _, _, _, _, _, _, rfl, rfl, _⟩
  exact ⟨(length_substr_le _ _ _).trans_lt (UInt16.toNat_lt _),
    (length_substr_le _ _ _).trans_lt (UInt32.toNat_lt _)⟩

/-- What is true of the messages of a batch: there are as many as were asked
    for, and their sequences follow one another. -/
theorem parseItems_spec {payload : Bytes} {count : Nat} {sequence : UInt64} {position : Nat}
    {parsed : List BatchItem × Nat} (h : parseItems payload count sequence position = some parsed)
    (hcount : count ≤ 2 ^ 64) :
    parsed.1.length = count ∧
      (∀ item ∈ parsed.1, item.key.length < 2 ^ 16 ∧ item.value.length < 2 ^ 32 ∧
        ∃ i < count, item.sequence = sequence + UInt64.ofNat i) ∧
      parsed.1.Pairwise (fun a b => a.sequence ≠ b.sequence) := by
  induction count generalizing sequence position parsed with
  | zero =>
      cases h
      exact ⟨rfl, fun _ hitem => absurd hitem List.not_mem_nil, List.Pairwise.nil⟩
  | succ count ih =>
      rcases parseItems_succ h with ⟨key, value, next, rest, hitem, hrest, rfl⟩
      rcases ih hrest (by omega) with ⟨hlength, hitems, hpairwise⟩
      have hnext : ∀ i, sequence + 1 + UInt64.ofNat i = sequence + UInt64.ofNat (i + 1) := by
        intro i
        rw [UInt64.ofNat_add, UInt64.add_assoc, UInt64.add_comm 1]
        rfl
      refine ⟨congrArg Nat.succ hlength, ?_, List.pairwise_cons.mpr ⟨?_, hpairwise⟩⟩
      · intro item hmem
        rcases List.mem_cons.mp hmem with rfl | hmem
        · refine ⟨(parseItem_sizes hitem).1, (parseItem_sizes hitem).2, 0, Nat.succ_pos _, ?_⟩
          exact (UInt64.add_zero sequence).symm
        · rcases hitems item hmem with ⟨hkey, hvalue, i, hi, hsequence⟩
          exact ⟨hkey, hvalue, i + 1, Nat.succ_lt_succ hi, hsequence.trans (hnext i)⟩
      · -- The first number would come up again after 2 ^ 64 of them.
        intro item hmem heq
        rcases hitems item hmem with ⟨_, _, i, hi, hsequence⟩
        change sequence = item.sequence at heq
        rw [hsequence, hnext] at heq
        have hvalues := congrArg UInt64.toNat heq
        have hsmall : sequence.toNat < 2 ^ 64 := sequence.toNat_lt
        rw [UInt64.toNat_add, UInt64.toNat_ofNat'] at hvalues
        omega

/-- A batch has a message. -/
theorem parseBatch_ne_nil {payload : Bytes} {producerId : UInt64} {items : List BatchItem}
    (h : parseBatch payload = some (producerId, items)) : items ≠ [] := by
  rcases parseBatch_some h with ⟨first, count, hheader, hitems⟩
  have hcount := batchHeader_count hheader
  have hlength := (parseItems_spec hitems (by omega)).1
  simp only [batchHeader] at hheader
  split at hheader
  · cases hheader
  · cases hheader
    intro hnil
    rw [hnil, List.length_nil] at hlength
    omega

/-! ## The requests of a batch -/

/-- What is not a flag of the metadata is kept when the metadata is added. -/
theorem metadata_and_flag (x : UInt16) {flag : UInt16} (h : flagProducerMetadata &&& flag = 0) :
    ((x &&& ~~~flagProducerMetadata) ||| flagProducerMetadata) &&& flag = x &&& flag := by
  apply UInt16.toBitVec_inj.mp
  have hbits := UInt16.toBitVec_inj.mpr h
  ext i hi
  have hbit := congrArg (fun v : BitVec 16 => v[i]) hbits
  simp only [UInt16.toBitVec_and, BitVec.getElem_and] at hbit
  simp only [UInt16.toBitVec_and, UInt16.toBitVec_or, UInt16.toBitVec_not, BitVec.getElem_and,
    BitVec.getElem_or, BitVec.getElem_not]
  revert hbit
  cases flagProducerMetadata.toBitVec[i] <;> cases flag.toBitVec[i] <;>
    cases x.toBitVec[i] <;> decide +revert

theorem flag_of_singleRequest (request : Request) (producerId sequence : UInt64)
    (key value : Bytes) {flag : UInt16} (h : flagProducerMetadata &&& flag = 0) :
    (singleRequest request producerId sequence key value).flags &&& flag = request.flags &&& flag :=
  metadata_and_flag request.flags h

/-- The request that the broker makes of a message carries it. -/
theorem singleRequest_carries (request : Request) (producerId : UInt64) {item : BatchItem}
    (hkey : item.key.length < 2 ^ 16) (hvalue : item.value.length < 2 ^ 32) :
    (singleRequest request producerId item.sequence item.key item.value).Carries request producerId
      item := by
  rcases singleRequest_producerKey request producerId item.sequence item.key item.value with
    ⟨hproducer, hmetadata⟩
  have hfront : (put64 producerId ++ put64 item.sequence).length = 16 := by
    rw [List.length_append, length_put64, length_put64]
  refine ⟨rfl, rfl, hmetadata, ?_, ?_, congrArg ProducerKey.producerId hproducer,
    congrArg ProducerKey.sequence hproducer, ?_⟩
  · rw [Request.hasFlag, flag_of_singleRequest _ _ _ _ _ (by decide)]
    rfl
  · exact flag_of_singleRequest _ _ _ _ _ (by decide)
  · have hbody := parseProduce_encodeItem (put64 producerId ++ put64 item.sequence) hkey hvalue
      autoPartition
    rw [hfront, List.append_assoc] at hbody
    exact hbody

/-- What the cache knows a request by. -/
theorem Request.Carries.cacheKey {single request : Request} {producerId : UInt64}
    {item : BatchItem} (h : single.Carries request producerId item) :
    single.cacheKey = idempotencyKey request.topic producerId item.sequence := by
  rw [Request.cacheKey, h.topic, h.producerId, h.sequence]

/-- The payload of a produce request with metadata has room for them. -/
theorem Request.Carries.length {single request : Request} {producerId : UInt64}
    {item : BatchItem} (h : single.Carries request producerId item) :
    ¬ single.payload.length < 16 := by
  intro hshort
  have hbody := h.body
  rw [parseProduce, take, if_pos (Or.inl hshort)] at hbody
  cases hbody

theorem Request.Carries.waitsForAll {single request : Request} {producerId : UInt64}
    {item : BatchItem} (h : single.Carries request producerId item) :
    single.waitsForAll = request.waitsForAll := by
  rw [Request.waitsForAll, h.ack, Request.waitsForAll]

theorem Request.Carries.refusesWrites {single request : Request} {producerId : UInt64}
    {item : BatchItem} (h : single.Carries request producerId item) (b : Broker) (now : Int) :
    b.refusesWrites single now = b.refusesWrites request now := by
  rw [Broker.refusesWrites, h.replication, Broker.refusesWrites]

/-! ## The entries of a batch -/

/-- What becomes of a message of a batch when the cache is consulted. -/
def Broker.batchEntry (b : Broker) (request : Request) (producerId : UInt64) (item : BatchItem) :
    BatchEntry :=
  match b.idempotencyCache.lookup (idempotencyKey request.topic producerId item.sequence) with
  | some entry => .cached { entry.response with requestId := request.requestId }
  | none => .pending (singleRequest request producerId item.sequence item.key item.value)

/-- The bytes of a message never make the sum of the new bytes run over. -/
theorem newBytes_room {newBytes : UInt64} {count : Nat} (size : Nat)
    (hsize : size < 2 ^ 16 + 2 ^ 32)
    (hroom : newBytes.toNat + (count + 1) * (2 ^ 16 + 2 ^ 32) < 2 ^ 64) :
    ¬ newBytes > UInt64.ofNat (2 ^ 64 - 1) - UInt64.ofNat size ∧
      (newBytes + UInt64.ofNat size).toNat + count * (2 ^ 16 + 2 ^ 32) < 2 ^ 64 := by
  have hbytes : (UInt64.ofNat size).toNat = size := by
    rw [UInt64.toNat_ofNat', Nat.mod_eq_of_lt (by omega)]
  have hlimit : (UInt64.ofNat (2 ^ 64 - 1) - UInt64.ofNat size).toNat = 2 ^ 64 - 1 - size := by
    rw [UInt64.toNat_sub_of_le, hbytes]
    · rfl
    · rw [UInt64.le_iff_toNat_le, hbytes]
      change _ ≤ 2 ^ 64 - 1
      omega
  have hsum : (newBytes + UInt64.ofNat size).toNat = newBytes.toNat + size := by
    rw [UInt64.toNat_add, hbytes, Nat.mod_eq_of_lt (by omega)]
  refine ⟨?_, ?_⟩
  · rw [gt_iff_lt, UInt64.lt_iff_toNat_lt, hlimit]
    omega
  · rw [hsum]
    omega

/-- The messages of a batch become its entries. -/
theorem prepareBatch_parsed {b : Broker} (request : Request) (producerId : UInt64)
    (hsizes : ∀ key entry, b.idempotencyCache.lookup key = some entry →
      entry.response.payload.length = 12)
    {count : Nat} {sequence : UInt64} {position : Nat} {parsed : List BatchItem × Nat}
    (hparsed : parseItems request.payload count sequence position = some parsed)
    (newBytes : UInt64) (hroom : newBytes.toNat + count * (2 ^ 16 + 2 ^ 32) < 2 ^ 64) :
    ∃ total, prepareBatch request producerId (b.lookupBatch request producerId count sequence)
      sequence position newBytes
        = .ok (parsed.1.map (b.batchEntry request producerId), parsed.2, total) := by
  induction count generalizing sequence position newBytes parsed with
  | zero =>
      cases hparsed
      exact ⟨newBytes, rfl⟩
  | succ count ih =>
      rcases parseItems_succ hparsed with ⟨key, value, next, rest, hitem, hrest, rfl⟩
      rcases parseItem_sizes hitem with ⟨hkey, hvalue⟩
      have hsame : newBytes.toNat + count * (2 ^ 16 + 2 ^ 32) < 2 ^ 64 :=
        (Nat.add_le_add_left (Nat.mul_le_mul_right _ (Nat.le_succ count)) _).trans_lt hroom
      rcases newBytes_room (key.length + value.length) (by omega) hroom with ⟨hlimit, hnext⟩
      rw [Broker.lookupBatch, List.map_cons, Broker.batchEntry]
      cases hfound : b.idempotencyCache.lookup
          (idempotencyKey request.topic producerId sequence) with
      | some entry =>
          rcases ih hrest newBytes hsame with ⟨total, htail⟩
          refine ⟨total, ?_⟩
          simp only [Option.map_some, prepareBatch, hitem]
          rw [if_neg (not_not.mpr (hsizes _ entry hfound)), htail]
          rfl
      | none =>
          rcases ih hrest _ hnext with ⟨total, htail⟩
          refine ⟨total, ?_⟩
          simp only [Option.map_none, prepareBatch, hitem]
          rw [if_neg hlimit, htail]
          rfl

/-- Nothing turns a well-formed batch away from a broker that takes writes and
    has no quota. -/
theorem admitBatch_parsed {b : Broker} {env : BatchEnv} {request : Request} {producerId : UInt64}
    {items : List BatchItem} (hbatch : parseBatch request.payload = some (producerId, items))
    (hserving : b.refusesWrites request env.writesNow = false) (hrate : env.rateAllowed = true)
    (hmetadata : request.hasFlag flagProducerMetadata = true) (hquota : b.topicProduceQuota = 0)
    (hsizes : ∀ key entry, b.idempotencyCache.lookup key = some entry →
      entry.response.payload.length = 12) :
    b.admitBatch env request = (b.evictExpired env.lookupNow,
      .ok (items.map ((b.evictExpired env.lookupNow).batchEntry request producerId))) := by
  rcases parseBatch_some hbatch with ⟨first, count, hheader, hitems⟩
  have hcount := batchHeader_count hheader
  have hkept : ∀ key entry,
      (b.evictExpired env.lookupNow).idempotencyCache.lookup key = some entry →
        entry.response.payload.length = 12 := by
    intro key entry hentry
    rw [Broker.evictExpired, Table.lookup_filterValues] at hentry
    exact hsizes key entry (Option.filter_eq_some_iff.mp hentry).1
  rcases prepareBatch_parsed request producerId hkept hitems 0 (by
    rw [UInt64.toNat_zero]
    omega) with ⟨total, hprepared⟩
  have hallowed : (if (!request.hasFlag flagReplication) = true then
      (b.evictExpired env.lookupNow).allowTopicBytes env.quotaNow request.topic total
      else (b.evictExpired env.lookupNow, true)) = (b.evictExpired env.lookupNow, true) := by
    split
    · exact if_pos hquota
    · rfl
  simp only [Broker.admitBatch, hserving, hrate, hmetadata, Bool.not_true, Bool.and_false,
    Bool.false_eq_true, if_false, hheader, hprepared, ne_eq, not_true_eq_false, hallowed, if_true]

/-! ## Turns -/

/-- An answer that lets the next request in. -/
def Response.succeeds (r : Response) : Bool := r.status = .ok

/-- The turn of a produce request. -/
def singleTurn (calls : Nat → ProduceEnv) (b : Broker) (turn : Request × Nat) : Broker × Response :=
  let result := b.handleProduce (calls turn.2) turn.1
  (result.broker, result.response)

/-- Produce requests one after the other, up to the first that is not answered
    with success: the broker, and the answers so far. -/
def Broker.produceInOrder (calls : Nat → ProduceEnv) (b : Broker) (singles : List Request) :
    Broker × List Response :=
  inTurn (singleTurn calls) Response.succeeds b singles.zipIdx

/-- The turn of an entry in the last loop of `HandleProduceBatch`. -/
def entryTurn (calls : Nat → ProduceEnv) (b : Broker) (turn : BatchEntry × Nat) :
    Broker × Response :=
  match turn.1 with
  | .cached response => (b, response)
  | .pending single =>
      let result := b.handleProduce (calls turn.2) single false false
      (result.broker, result.response)

/-- What a batch answers: the payloads of all its answers behind `front`, or the
    status of the first that is no success. -/
def batchAnswer (request : Request) (front : Bytes) (answers : List Response) : Response :=
  match answers.find? (fun answer => !answer.succeeds) with
  | some failed => makeResponse request failed.status
  | none => makeResponse request .ok (front ++ answers.flatMap Response.payload)

theorem batchAnswer_cons {request : Request} {front : Bytes} {answer : Response}
    (answers : List Response) (h : answer.succeeds = true) :
    batchAnswer request front (answer :: answers)
      = batchAnswer request (front ++ answer.payload) answers := by
  simp only [batchAnswer, List.find?_cons, h, Bool.not_true, List.flatMap_cons, List.append_assoc]

/-- If all answers are successes, so is the answer of the batch. -/
theorem batchAnswer_ok {request : Request} {front : Bytes} {answers : List Response}
    (h : ∀ answer ∈ answers, answer.succeeds = true) :
    batchAnswer request front answers
      = makeResponse request .ok (front ++ answers.flatMap Response.payload) := by
  have hnone : answers.find? (fun answer => !answer.succeeds) = none := by
    refine List.find?_eq_none.mpr fun answer hmem => ?_
    rw [h answer hmem]
    exact Bool.false_ne_true
  rw [batchAnswer, hnone]

/-- The first answer that is no success decides. -/
theorem batchAnswer_failed (request : Request) (front : Bytes) {done : List Response}
    {failed : Response} (hdone : ∀ answer ∈ done, answer.succeeds = true)
    (hfailed : failed.succeeds = false) :
    batchAnswer request front (done ++ [failed]) = makeResponse request failed.status := by
  have hnone : done.find? (fun answer => !answer.succeeds) = none := by
    refine List.find?_eq_none.mpr fun answer hmem => ?_
    rw [hdone answer hmem]
    exact Bool.false_ne_true
  rw [batchAnswer, List.find?_append, hnone, Option.none_or, List.find?_cons, hfailed]
  rfl

/-- The last loop of `HandleProduceBatch` takes the entries in turn. It does not
    look at the status of a cached response, which is a success. -/
theorem produceEntries_inTurn (request : Request) (calls : Nat → ProduceEnv)
    (entries : List BatchEntry) (index : Nat) (b : Broker) (payload : Bytes)
    (stored : List (Request × UInt32 × Message))
    (hcached : ∀ response, .cached response ∈ entries → response.succeeds = true) :
    (Broker.produceEntries request calls entries index b payload stored).broker
        = (inTurn (entryTurn calls) Response.succeeds b (entries.zipIdx index)).1 ∧
      (Broker.produceEntries request calls entries index b payload stored).response
        = batchAnswer request payload
          (inTurn (entryTurn calls) Response.succeeds b (entries.zipIdx index)).2 := by
  induction entries generalizing index b payload stored with
  | nil =>
      refine ⟨rfl, ?_⟩
      rw [Broker.produceEntries, List.zipIdx_nil, inTurn,
        batchAnswer_ok fun _ hmem => absurd hmem List.not_mem_nil, List.flatMap_nil,
        List.append_nil]
  | cons entry rest ih =>
      have hrest := fun response hmem => hcached response (List.mem_cons_of_mem entry hmem)
      rw [List.zipIdx_cons]
      cases entry with
      | cached response =>
          have hsuccess : (entryTurn calls b (.cached response, index)).2.succeeds = true :=
            hcached response List.mem_cons_self
          rw [inTurn_cons_good _ hsuccess]
          simp only [batchAnswer_cons _ hsuccess]
          exact ih (index + 1) b (payload ++ response.payload) stored hrest
      | pending single =>
          rw [Broker.produceEntries]
          by_cases hstatus :
              (b.handleProduce (calls index) single false false).response.status = .ok
          · have hsuccess : (entryTurn calls b (.pending single, index)).2.succeeds = true :=
              decide_eq_true hstatus
            rw [inTurn_cons_good _ hsuccess, if_neg (not_not.mpr hstatus)]
            simp only [batchAnswer_cons _ hsuccess]
            exact ih (index + 1) _ _ _ hrest
          · have hfailed : (entryTurn calls b (.pending single, index)).2.succeeds = false :=
              decide_eq_false hstatus
            rw [inTurn_cons_bad _ (Bool.eq_false_iff.mp hfailed), if_pos hstatus]
            refine ⟨rfl, ?_⟩
            have hanswer := batchAnswer_failed request payload
              (fun _ hmem => absurd hmem List.not_mem_nil) hfailed
            exact hanswer.symm

/-! ## Serving writes -/

/-- The role and the replicas are the same, and the replicas are heard of no
    less. -/
structure ReplicationCoordinator.NoStaler (c d : ReplicationCoordinator) : Prop where
  role : d.role = c.role
  timeout : d.heartbeatTimeoutMs = c.heartbeatTimeoutMs
  replicas : ∀ id, id ∈ d.replicas ↔ id ∈ c.replicas
  heard : ∀ id replica, c.replicas.lookup id = some replica →
    ∃ later, d.replicas.lookup id = some later ∧ (replica.healthy = true → later.healthy = true) ∧
      replica.lastHeartbeat ≤ later.lastHeartbeat

namespace ReplicationCoordinator.NoStaler

variable {c d : ReplicationCoordinator}

theorem refl (c : ReplicationCoordinator) : c.NoStaler c :=
  ⟨rfl, rfl, fun _ => Iff.rfl, fun _ replica h => ⟨replica, h, fun h => h, le_rfl⟩⟩

/-- The log summaries do not matter. -/
theorem congr (h : c.NoStaler d) {e : ReplicationCoordinator} (hrole : e.role = d.role)
    (htimeout : e.heartbeatTimeoutMs = d.heartbeatTimeoutMs) (hreplicas : e.replicas = d.replicas) :
    c.NoStaler e := by
  refine ⟨hrole.trans h.role, htimeout.trans h.timeout, ?_, ?_⟩
  · rw [hreplicas]
    exact h.replicas
  · rw [hreplicas]
    exact h.heard

/-- A coordinator that serves writes still does, since every replica that was
    healthy is. -/
theorem canServeWrites (h : c.NoStaler d) {now : Int} (hserves : c.canServeWrites now = true) :
    d.canServeWrites now = true := by
  have hsize : d.replicas.size = c.replicas.size := by
    refine le_antisymm (Table.size_le _ _ fun id hid => (h.replicas id).mp hid) ?_
    exact Table.size_le _ _ fun id hid => (h.replicas id).mpr hid
  have hcount : c.replicas.values.countP (c.isHealthy · now)
      ≤ d.replicas.values.countP (d.isHealthy · now) := by
    refine Table.countP_values_le fun id replica hlookup hhealthy => ?_
    rcases h.heard id replica hlookup with ⟨later, hlater, hmarked, hlast⟩
    rw [isHealthy, Bool.and_eq_true, decide_eq_true_eq] at hhealthy
    refine ⟨later, hlater, ?_⟩
    rw [isHealthy, Bool.and_eq_true, decide_eq_true_eq, h.timeout]
    exact ⟨hmarked hhealthy.1, by omega⟩
  rw [ReplicationCoordinator.canServeWrites] at hserves ⊢
  rw [h.role, majority, hsize]
  split
  · rename_i hrole
    rw [if_pos hrole] at hserves
    exact hserves
  · rename_i hrole
    rw [if_neg hrole] at hserves
    split
    · rfl
    · rename_i hsome
      rw [if_neg hsome, majority, decide_eq_true_eq] at hserves
      exact decide_eq_true (by omega)

/-- An answer brings the last heartbeat of its replica forward. -/
theorem observeHeartbeat (h : c.NoStaler d) (partition node : Bytes) (offset : UInt64) {now : Int}
    (hnow : ∀ id replica, c.replicas.lookup id = some replica → replica.lastHeartbeat ≤ now) :
    c.NoStaler (d.observeHeartbeat partition node offset now) := by
  have hsettings : (d.observeHeartbeat partition node offset now).role = d.role ∧
      (d.observeHeartbeat partition node offset now).heartbeatTimeoutMs = d.heartbeatTimeoutMs := by
    unfold ReplicationCoordinator.observeHeartbeat
    split
    · exact ⟨rfl, rfl⟩
    · split <;> exact ⟨rfl, rfl⟩
  refine ⟨hsettings.1.trans h.role, hsettings.2.trans h.timeout, ?_, ?_⟩
  · intro id
    exact (observeHeartbeat_replicas partition node offset now id).trans (h.replicas id)
  · intro id replica hlookup
    rcases h.heard id replica hlookup with ⟨later, hlater, hmarked, hlast⟩
    unfold ReplicationCoordinator.observeHeartbeat
    split
    · exact ⟨later, hlater, hmarked, hlast⟩
    · split
      · exact ⟨later, hlater, hmarked, hlast⟩
      · simp only [setProgress]
        by_cases hid : id = node
        · subst hid
          rw [AList.lookup_insert]
          exact ⟨_, rfl, fun _ => rfl, hnow id replica hlookup⟩
        · rw [AList.lookup_insert_ne hid]
          exact ⟨later, hlater, hmarked, hlast⟩

theorem replicateLoop (h : c.NoStaler d) (key : Bytes) (offset : UInt64)
    (peers : List ReplicationPeer) (answers : List (Option Int))
    (hanswers : ∀ now, some now ∈ answers → ∀ id replica, c.replicas.lookup id = some replica →
      replica.lastHeartbeat ≤ now) :
    c.NoStaler (MqBroker.replicateLoop key offset peers answers d).1 := by
  induction peers generalizing d answers with
  | nil => simpa only [MqBroker.replicateLoop] using h
  | cons peer peers ih =>
      cases answers with
      | nil => simpa only [MqBroker.replicateLoop] using h
      | cons answer answers =>
          have hrest := fun now hmem => hanswers now (List.mem_cons_of_mem answer hmem)
          cases answer with
          | none => exact ih h answers hrest
          | some now =>
              exact ih (h.observeHeartbeat key peer.nodeId offset
                (hanswers now List.mem_cons_self)) answers hrest

theorem advanceCommit (h : c.NoStaler d) (partition : Bytes) (offset : UInt64) (now : Int) :
    c.NoStaler (d.advanceCommit partition offset now).1 := by
  have hpersist : ∀ e : ReplicationCoordinator, e.persist.role = e.role ∧
      e.persist.heartbeatTimeoutMs = e.heartbeatTimeoutMs ∧ e.persist.replicas = e.replicas := by
    intro e
    unfold ReplicationCoordinator.persist
    split <;> exact ⟨rfl, rfl, rfl⟩
  simp only [ReplicationCoordinator.advanceCommit]
  split
  · exact h
  · split
    · exact h.congr rfl rfl rfl
    · split
      · exact h.congr rfl rfl rfl
      · exact h.congr (hpersist _).1 (hpersist _).2.1 (hpersist _).2.2

/-- Producing a message leaves the replicas heard of no less. -/
theorem settleProduce {b : Broker} (h : c.NoStaler b.coordinator) (env : ProduceEnv)
    (request : Request) (partition : UInt32) (body : ProduceBody)
    (hanswers : ∀ now, some now ∈ env.answers → ∀ id replica,
      c.replicas.lookup id = some replica → replica.lastHeartbeat ≤ now) :
    c.NoStaler (b.settleProduce env request partition body).broker.coordinator := by
  have hack : ∀ (d : Broker) (message : Message), c.NoStaler d.coordinator →
      c.NoStaler (d.acknowledge env request partition message).1.coordinator := by
    intro d message hd
    unfold Broker.acknowledge
    split
    · simp only [Broker.replicate]
      split
      · exact hd
      · have hpushed := hd.replicateLoop (partitionKey request.topic partition) message.offset
          d.replicationPeers env.answers hanswers
        split
        · exact hpushed
        · exact hpushed.advanceCommit _ _ _
    · exact hd
  simp only [Broker.settleProduce]
  split
  · exact h
  · rename_i message _
    have hrecorded := hack { b with
        storage := (b.storage.append env.io env.timestampMs request.topic partition body.key
          body.value).1
        coordinator := b.coordinator.recordLocalOffset (partitionKey request.topic partition)
          message.offset } message (h.congr rfl rfl rfl)
    split
    · rcases remember_frame (Broker.acknowledge _ env request partition message).1 env request
        (makeResponse request .ok (put32 partition ++ put64 message.offset)) with ⟨cache, heq⟩
      rw [heq]
      exact hrecorded
    · exact hrecorded

theorem handleProduce {b : Broker} (h : c.NoStaler b.coordinator) (env : ProduceEnv)
    (request : Request) (rate quota : Bool)
    (hanswers : ∀ now, some now ∈ env.answers → ∀ id replica,
      c.replicas.lookup id = some replica → replica.lastHeartbeat ≤ now) :
    c.NoStaler (b.handleProduce env request rate quota).broker.coordinator := by
  rcases admitProduce_frame b env request rate quota with ⟨cache, windows, hverdict⟩
  unfold Broker.handleProduce
  split
  · rename_i d response hadmitted
    rw [hadmitted] at hverdict
    rw [show d = _ from hverdict]
    exact h
  · rename_i d partition body hadmitted
    rw [hadmitted] at hverdict
    refine settleProduce ?_ env request partition body hanswers
    rw [show d = _ from hverdict]
    exact h

end ReplicationCoordinator.NoStaler

/-- A broker takes writes as long as its replicas are heard of. -/
theorem refusesWrites_noStaler {b b' : Broker} {request : Request} {now : Int}
    (h : b.coordinator.NoStaler b'.coordinator) (hserving : b.refusesWrites request now = false) :
    b'.refusesWrites request now = false := by
  rw [Broker.refusesWrites, Bool.and_eq_false_iff] at hserving ⊢
  refine hserving.imp_right fun hboth => ?_
  rw [Bool.or_eq_false_iff, Bool.not_eq_false'] at hboth ⊢
  rw [h.role]
  exact ⟨hboth.1, h.canServeWrites hboth.2⟩

/-! ## Brokers that are alike -/

/-- A response with a function applied to its request id. -/
def Response.relabel (g : UInt64 → UInt64) (r : Response) : Response :=
  { r with requestId := g r.requestId }

theorem eq_of_relabel {g : UInt64 → UInt64} {r r' : Response} (h : r'.relabel g = r.relabel g) :
    r'.status = r.status ∧ r'.payload = r.payload := by
  simp only [Response.relabel, Response.mk.injEq] at h
  exact ⟨h.2.1, h.2.2.2.2⟩

/-- A cached response with a function applied to its request id. -/
def IdempotencyEntry.relabel (g : UInt64 → UInt64) (entry : IdempotencyEntry) : IdempotencyEntry :=
  { entry with response := entry.response.relabel g }

/-- Two brokers are the same but for the request ids in the cache, which a
    function does not tell apart. -/
def Broker.AlikeUnder (g : UInt64 → UInt64) (b b' : Broker) : Prop :=
  ∃ cache, b' = { b with idempotencyCache := cache } ∧
    cache.mapValues (IdempotencyEntry.relabel g)
      = b.idempotencyCache.mapValues (IdempotencyEntry.relabel g)

section Alike

variable {g : UInt64 → UInt64} {b b' : Broker}

theorem Broker.AlikeUnder.refl (g : UInt64 → UInt64) (b : Broker) : b.AlikeUnder g b :=
  ⟨b.idempotencyCache, rfl, rfl⟩

/-- Brokers that differ in nothing that can be told apart are equal. -/
theorem Broker.AlikeUnder.eq (h : b.AlikeUnder (fun id => id) b') : b' = b := by
  rcases h with ⟨cache, rfl, hcache⟩
  have hid : ∀ t : Table Bytes IdempotencyEntry,
      t.mapValues (IdempotencyEntry.relabel fun id => id) = t := Table.mapValues_id
  rw [hid, hid] at hcache
  rw [hcache]

theorem Broker.AlikeUnder.lookup (h : b.AlikeUnder g b') (key : Bytes) :
    (b'.idempotencyCache.lookup key).map (IdempotencyEntry.relabel g)
      = (b.idempotencyCache.lookup key).map (IdempotencyEntry.relabel g) := by
  rcases h with ⟨cache, rfl, hcache⟩
  rw [← Table.lookup_mapValues, ← Table.lookup_mapValues, hcache]

theorem Broker.AlikeUnder.evictExpired (h : b.AlikeUnder g b') (now : Int) :
    (b.evictExpired now).AlikeUnder g (b'.evictExpired now) := by
  rcases h with ⟨cache, rfl, hcache⟩
  have hfilter : ∀ t : Table Bytes IdempotencyEntry,
      (t.filterValues (fun entry => entry.expiresAt > now)).mapValues (IdempotencyEntry.relabel g)
        = (t.mapValues (IdempotencyEntry.relabel g)).filterValues
            (fun entry => entry.expiresAt > now) :=
    Table.mapValues_filterValues (IdempotencyEntry.relabel g) (fun entry => entry.expiresAt > now)
  refine ⟨cache.filterValues (fun entry => entry.expiresAt > now), rfl, ?_⟩
  rw [hfilter, hcache, ← hfilter]
  rfl

variable {single single' request : Request} {producerId : UInt64} {item : BatchItem}

/-- Replication does not look at the cache. -/
theorem acknowledge_alike (h : b.AlikeUnder g b') (hs : single.Carries request producerId item)
    (hs' : single'.Carries request producerId item) (env : ProduceEnv) (partition : UInt32)
    (message : Message) :
    (b.acknowledge env single partition message).1.AlikeUnder g
        (b'.acknowledge env single' partition message).1 ∧
      (b'.acknowledge env single' partition message).2
        = (b.acknowledge env single partition message).2 := by
  rcases h with ⟨cache, rfl, hcache⟩
  simp only [Broker.acknowledge, hs.waitsForAll, hs'.waitsForAll, hs.topic, hs'.topic]
  split
  · simp only [Broker.replicate]
    split
    · exact ⟨⟨cache, rfl, hcache⟩, rfl⟩
    · split
      · exact ⟨⟨cache, rfl, hcache⟩, rfl⟩
      · exact ⟨⟨cache, rfl, hcache⟩, rfl⟩
  · exact ⟨⟨cache, rfl, hcache⟩, rfl⟩

theorem remember_alike (h : b.AlikeUnder g b') (hs : single.Carries request producerId item)
    (hs' : single'.Carries request producerId item) (env : ProduceEnv) {r r' : Response}
    (hr : r'.relabel g = r.relabel g) :
    (b.remember env single r).AlikeUnder g (b'.remember env single' r') := by
  rcases h with ⟨cache, rfl, hcache⟩
  have hentry : IdempotencyEntry.relabel g ⟨r', env.doneNow + cacheLifetime⟩
      = IdempotencyEntry.relabel g ⟨r, env.doneNow + cacheLifetime⟩ := by
    simp only [IdempotencyEntry.relabel, hr]
  rw [Broker.remember, Broker.remember, if_pos hs.metadata, if_pos hs'.metadata]
  refine ⟨cache.insert single'.cacheKey ⟨r', env.doneNow + cacheLifetime⟩, rfl, ?_⟩
  simp only [Table.mapValues_insert, hcache, hentry, hs.cacheKey, hs'.cacheKey]

/-- A message is stored, replicated and answered alike. -/
theorem settleProduce_alike (h : b.AlikeUnder g b') (hs : single.Carries request producerId item)
    (hs' : single'.Carries request producerId item) (hid : g single'.requestId = g single.requestId)
    (env : ProduceEnv) (partition : UInt32) (body : ProduceBody) :
    (b.settleProduce env single partition body).broker.AlikeUnder g
        (b'.settleProduce env single' partition body).broker ∧
      (b'.settleProduce env single' partition body).response.relabel g
        = (b.settleProduce env single partition body).response.relabel g := by
  have hresponse : ∀ status payload, (makeResponse single' status payload).relabel g
      = (makeResponse single status payload).relabel g := by
    intro status payload
    simp only [makeResponse, Response.relabel, hid]
  rcases h with ⟨cache, rfl, hcache⟩
  simp only [Broker.settleProduce, hs.topic, hs'.topic]
  split
  · exact ⟨⟨cache, rfl, hcache⟩, hresponse _ _⟩
  · rename_i message _
    have halike : Broker.AlikeUnder g
        { b with
          storage := (b.storage.append env.io env.timestampMs request.topic partition body.key
            body.value).1
          coordinator := b.coordinator.recordLocalOffset (partitionKey request.topic partition)
            message.offset }
        { b with
          idempotencyCache := cache
          storage := (b.storage.append env.io env.timestampMs request.topic partition body.key
            body.value).1
          coordinator := b.coordinator.recordLocalOffset (partitionKey request.topic partition)
            message.offset } := ⟨cache, rfl, hcache⟩
    rcases acknowledge_alike halike hs hs' env partition message with ⟨hacknowledged, hverdict⟩
    rw [hverdict]
    split
    · exact ⟨remember_alike hacknowledged hs hs' env (hresponse _ _), hresponse _ _⟩
    · exact ⟨hacknowledged, hresponse _ _⟩

/-- What `HandleProduce` does with a message that it may not turn away. -/
theorem handleProduce_carried {env : ProduceEnv} (hs : single.Carries request producerId item)
    (hserving : b.refusesWrites request env.writesNow = false) (hrate : env.rateAllowed = true)
    (hquota : b.topicProduceQuota = 0) (rate quota : Bool) :
    b.handleProduce env single rate quota
      = match (b.evictExpired env.cacheNow).idempotencyCache.lookup
            (idempotencyKey request.topic producerId item.sequence) with
        | some entry => ⟨b.evictExpired env.cacheNow,
            { entry.response with requestId := single.requestId }, none⟩
        | none =>
            match b.resolvePartition request.topic autoPartition item.key with
            | .error .unknownTopic =>
                ⟨b.evictExpired env.cacheNow, makeResponse single .unknownTopic, none⟩
            | .error .outOfRange =>
                ⟨b.evictExpired env.cacheNow, makeResponse single .badRequest, none⟩
            | .ok partition => (b.evictExpired env.cacheNow).settleProduce env single partition
                ⟨autoPartition, item.key, item.value⟩ := by
  have hallowed : (if (quota && !single.hasFlag flagReplication) = true then
      (b.evictExpired env.cacheNow).allowTopicBytes env.quotaNow request.topic
        (UInt64.ofNat (item.key.length + item.value.length))
      else (b.evictExpired env.cacheNow, true)) = (b.evictExpired env.cacheNow, true) := by
    split
    · exact if_pos hquota
    · rfl
  simp only [Broker.handleProduce, Broker.admitProduce, hs.refusesWrites, hserving, hrate,
    hs.metadata, Bool.not_true, Bool.and_false, Bool.false_eq_true, if_false, if_true,
    if_neg hs.length, Broker.routeProduce, hs.body, hs.topic, hallowed]
  rw [hs.cacheKey, show (b.evictExpired env.cacheNow).resolvePartition request.topic autoPartition
    item.key = b.resolvePartition request.topic autoPartition item.key from rfl]
  cases (b.evictExpired env.cacheNow).idempotencyCache.lookup
      (idempotencyKey request.topic producerId item.sequence) with
  | some entry => rfl
  | none =>
      cases b.resolvePartition request.topic autoPartition item.key with
      | error error => cases error <;> rfl
      | ok partition => rfl

/-- Requests for the same message are handled alike. -/
theorem handleProduce_alike (h : b.AlikeUnder g b') {env : ProduceEnv}
    (hs : single.Carries request producerId item) (hs' : single'.Carries request producerId item)
    (hid : g single'.requestId = g single.requestId)
    (hserving : b.refusesWrites request env.writesNow = false) (hrate : env.rateAllowed = true)
    (hquota : b.topicProduceQuota = 0) (rate quota rate' quota' : Bool) :
    (b.handleProduce env single rate quota).broker.AlikeUnder g
        (b'.handleProduce env single' rate' quota').broker ∧
      (b'.handleProduce env single' rate' quota').response.relabel g
        = (b.handleProduce env single rate quota).response.relabel g := by
  have hevicted := h.evictExpired env.cacheNow
  have hlookup := hevicted.lookup (idempotencyKey request.topic producerId item.sequence)
  have hresponse : ∀ status, (makeResponse single' status).relabel g
      = (makeResponse single status).relabel g := by
    intro status
    simp only [makeResponse, Response.relabel, hid]
  have hserving' : b'.refusesWrites request env.writesNow = false := by
    rcases h with ⟨cache, rfl, _⟩
    exact hserving
  have hquota' : b'.topicProduceQuota = 0 := by
    rcases h with ⟨cache, rfl, _⟩
    exact hquota
  have hresolve : b'.resolvePartition request.topic autoPartition item.key
      = b.resolvePartition request.topic autoPartition item.key := by
    rcases h with ⟨cache, rfl, _⟩
    rfl
  rw [handleProduce_carried hs hserving hrate hquota rate quota,
    handleProduce_carried hs' hserving' hrate hquota' rate' quota', hresolve]
  cases hfound : (b.evictExpired env.cacheNow).idempotencyCache.lookup
      (idempotencyKey request.topic producerId item.sequence) with
  | some entry =>
      rw [hfound, Option.map_some, Option.map_eq_some_iff] at hlookup
      rcases hlookup with ⟨entry', hfound', hsame⟩
      rw [hfound']
      refine ⟨hevicted, ?_⟩
      have hanswer := congrArg IdempotencyEntry.response hsame
      simp only [IdempotencyEntry.relabel, Response.relabel, Response.mk.injEq] at hanswer ⊢
      exact ⟨hanswer.1, hanswer.2.1, hid, hanswer.2.2.2⟩
  | none =>
      rw [hfound, Option.map_none, Option.map_eq_none_iff] at hlookup
      rw [hlookup]
      cases b.resolvePartition request.topic autoPartition item.key with
      | error error =>
          cases error with
          | unknownTopic => exact ⟨hevicted, hresponse _⟩
          | outOfRange => exact ⟨hevicted, hresponse _⟩
      | ok partition => exact settleProduce_alike hevicted hs hs' hid env partition _

/-- The cache after a message: what has not expired, and perhaps the answer. -/
theorem handleProduce_cache {env : ProduceEnv} (hs : single.Carries request producerId item)
    (hserving : b.refusesWrites request env.writesNow = false) (hrate : env.rateAllowed = true)
    (hquota : b.topicProduceQuota = 0) (rate quota : Bool) :
    (b.handleProduce env single rate quota).broker.idempotencyCache
        = (b.evictExpired env.cacheNow).idempotencyCache ∨
      ∃ response, (b.handleProduce env single rate quota).broker.idempotencyCache
        = (b.evictExpired env.cacheNow).idempotencyCache.insert
            (idempotencyKey request.topic producerId item.sequence)
            ⟨response, env.doneNow + cacheLifetime⟩ := by
  have hsettle : ∀ (d : Broker) (partition : UInt32) (body : ProduceBody),
      (d.settleProduce env single partition body).broker.idempotencyCache = d.idempotencyCache ∨
        ∃ response, (d.settleProduce env single partition body).broker.idempotencyCache
          = d.idempotencyCache.insert (idempotencyKey request.topic producerId item.sequence)
              ⟨response, env.doneNow + cacheLifetime⟩ := by
    intro d partition body
    simp only [Broker.settleProduce]
    split
    · exact Or.inl rfl
    · split
      · right
        rw [acknowledge_frame, Broker.remember, if_pos hs.metadata, ← hs.cacheKey]
        exact ⟨_, rfl⟩
      · rw [acknowledge_frame]
        exact Or.inl rfl
  rw [handleProduce_carried hs hserving hrate hquota rate quota]
  split
  · exact Or.inl rfl
  · split
    · exact Or.inl rfl
    · exact Or.inl rfl
    · exact hsettle _ _ _

end Alike

/-! ## A batch and its messages -/

/-- A broker takes writes throughout a batch of `count` messages: it does at
    every reading of the clock that is made for it. -/
structure BatchEnv.Served (env : BatchEnv) (b : Broker) (request : Request) (count : Nat) :
    Prop where
  batch : b.refusesWrites request env.writesNow = false
  turns : ∀ i < count, b.refusesWrites request (env.calls i).writesNow = false
  /-- The clock is steady: no answer of a replica is noted before a heartbeat
      that was noted earlier. -/
  steady : ∀ i < count, ∀ now, some now ∈ (env.calls i).answers → ∀ id replica,
    b.coordinator.replicas.lookup id = some replica → replica.lastHeartbeat ≤ now

/-- Neither the rate limit nor the quota of topics stands in the way. -/
structure BatchEnv.Unlimited (env : BatchEnv) (b : Broker) (count : Nat) : Prop where
  batch : env.rateAllowed = true
  turns : ∀ i < count, (env.calls i).rateAllowed = true
  quota : b.topicProduceQuota = 0

/-- Nothing expires between the readings of the clock for a batch. -/
structure BatchEnv.WithinLifetimes (env : BatchEnv) (b : Broker) (count : Nat) : Prop where
  /-- What is in the cache has expired at all readings, or at none. -/
  cached : ∀ key entry, b.idempotencyCache.lookup key = some entry → ∀ i < count,
    (env.lookupNow < entry.expiresAt ↔ (env.calls i).cacheNow < entry.expiresAt)
  /-- What a message adds to the cache lasts until the last message. -/
  added : ∀ i j, i < j → j < count →
    (env.calls j).cacheNow < (env.calls i).doneNow + cacheLifetime

/-- A message of a batch, a request for it, and when its turn is. -/
abbrev Turn : Type := (BatchItem × Request) × Nat

/-- Turns that are still to come: their requests carry their messages, and no
    two have the same time or the same sequence. -/
structure Turns (g : UInt64 → UInt64) (request : Request) (producerId : UInt64) (count : Nat)
    (rest : List Turn) : Prop where
  soon : ∀ turn ∈ rest, turn.2 < count
  sizes : ∀ turn ∈ rest, turn.1.1.key.length < 2 ^ 16 ∧ turn.1.1.value.length < 2 ^ 32
  carried : ∀ turn ∈ rest, turn.1.2.Carries request producerId turn.1.1 ∧
    g turn.1.2.requestId = g request.requestId
  apart : rest.Pairwise (fun a b => a.2 < b.2 ∧ a.1.1.sequence ≠ b.1.1.sequence)

/-- A batch that looked its messages up in `b₀` and is in `b` now, next to
    requests of their own that have come to `b'`: what the cache has for the
    messages that are still to come is what it was, and will not expire. -/
structure Lockstep (g : UInt64 → UInt64) (env : BatchEnv) (request : Request)
    (producerId : UInt64) (b₀ : Broker) (rest : List Turn) (b b' : Broker) : Prop where
  alike : b.AlikeUnder g b'
  heard : b₀.coordinator.NoStaler b.coordinator
  quota : b.topicProduceQuota = 0
  alive : ∀ key entry, b.idempotencyCache.lookup key = some entry → ∀ turn ∈ rest,
    (env.calls turn.2).cacheNow < entry.expiresAt
  found : ∀ turn ∈ rest,
    b.idempotencyCache.lookup (idempotencyKey request.topic producerId turn.1.1.sequence)
      = b₀.idempotencyCache.lookup (idempotencyKey request.topic producerId turn.1.1.sequence)

/-- Nothing is dropped from a cache in which nothing has expired. -/
theorem evictExpired_alive {b : Broker} {now : Int}
    (h : ∀ key entry, b.idempotencyCache.lookup key = some entry → now < entry.expiresAt) :
    b.evictExpired now = b := by
  have hcache : b.idempotencyCache.filterValues (fun entry => entry.expiresAt > now)
      = b.idempotencyCache := by
    refine Table.filterValues_of_all fun entry hentry => ?_
    rcases Table.lookup_of_mem_values _ _ hentry with ⟨key, hkey⟩
    exact decide_eq_true (h key entry hkey)
  rw [Broker.evictExpired, hcache]

theorem Turns.tail {g : UInt64 → UInt64} {request : Request} {producerId : UInt64} {count : Nat}
    {turn : Turn} {rest : List Turn} (h : Turns g request producerId count (turn :: rest)) :
    Turns g request producerId count rest :=
  ⟨fun later hlater => h.soon later (List.mem_cons_of_mem turn hlater),
    fun later hlater => h.sizes later (List.mem_cons_of_mem turn hlater),
    fun later hlater => h.carried later (List.mem_cons_of_mem turn hlater),
    (List.pairwise_cons.mp h.apart).2⟩

section Lockstep

variable {g : UInt64 → UInt64} {env : BatchEnv} {request : Request} {producerId : UInt64}
  {count : Nat} {b₀ b b' : Broker} {turn : Turn} {rest : List Turn}

/-- The entry of a message whose turn it is does what the request would do that
    the broker makes of it, also if the message was found in the cache. -/
theorem Lockstep.entryTurn_eq (h : Lockstep g env request producerId b₀ (turn :: rest) b b')
    (hturns : Turns g request producerId count (turn :: rest))
    (hserving : b.refusesWrites request (env.calls turn.2).writesNow = false)
    (hrate : (env.calls turn.2).rateAllowed = true) :
    entryTurn env.calls b (b₀.batchEntry request producerId turn.1.1, turn.2)
      = ((b.handleProduce (env.calls turn.2) (singleRequest request producerId turn.1.1.sequence
            turn.1.1.key turn.1.1.value) false false).broker,
          (b.handleProduce (env.calls turn.2) (singleRequest request producerId turn.1.1.sequence
            turn.1.1.key turn.1.1.value) false false).response) := by
  have hsizes := hturns.sizes turn List.mem_cons_self
  have hmade := singleRequest_carries request producerId hsizes.1 hsizes.2
  have hkept : b.evictExpired (env.calls turn.2).cacheNow = b :=
    evictExpired_alive fun key entry hentry => h.alive key entry hentry turn List.mem_cons_self
  have hfound := h.found turn List.mem_cons_self
  rw [Broker.batchEntry, ← hfound]
  cases hlookup : b.idempotencyCache.lookup
      (idempotencyKey request.topic producerId turn.1.1.sequence) with
  | some entry =>
      rw [handleProduce_carried hmade hserving hrate h.quota, hkept, hlookup]
      rfl
  | none => rfl

/-- A turn keeps a batch and the requests for its messages in step. -/
theorem Lockstep.step (h : Lockstep g env request producerId b₀ (turn :: rest) b b')
    (hturns : Turns g request producerId count (turn :: rest))
    (hserved : env.Served b₀ request count) (hunlimited : env.Unlimited b₀ count)
    (hlifetimes : ∀ i j, i < j → j < count →
      (env.calls j).cacheNow < (env.calls i).doneNow + cacheLifetime) :
    let act := entryTurn env.calls b (b₀.batchEntry request producerId turn.1.1, turn.2)
    let act' := singleTurn env.calls b' (turn.1.2, turn.2)
    act'.2.relabel g = act.2.relabel g ∧ act.1.AlikeUnder g act'.1 ∧
      Lockstep g env request producerId b₀ rest act.1 act'.1 := by
  have hcount := hturns.soon turn List.mem_cons_self
  have hsizes := hturns.sizes turn List.mem_cons_self
  have hmade := singleRequest_carries request producerId hsizes.1 hsizes.2
  rcases hturns.carried turn List.mem_cons_self with ⟨hcarried, hid⟩
  rcases List.pairwise_cons.mp hturns.apart with ⟨hapart, _⟩
  have hserving := refusesWrites_noStaler h.heard (hserved.turns turn.2 hcount)
  have hrate := hunlimited.turns turn.2 hcount
  have hkept : b.evictExpired (env.calls turn.2).cacheNow = b :=
    evictExpired_alive fun key entry hentry => h.alive key entry hentry turn List.mem_cons_self
  rcases handleProduce_alike h.alike hmade hcarried hid hserving hrate h.quota false false true true
    with ⟨halike, hanswer⟩
  have hcache := handleProduce_cache hmade hserving hrate h.quota false false
  rw [hkept] at hcache
  rw [h.entryTurn_eq hturns hserving hrate]
  refine ⟨hanswer, halike, halike, ?_, ?_, ?_, ?_⟩
  · exact h.heard.handleProduce (env.calls turn.2) _ false false (hserved.steady turn.2 hcount)
  · rcases handleProduce_frame b (env.calls turn.2) (singleRequest request producerId
      turn.1.1.sequence turn.1.1.key turn.1.1.value) false false with ⟨_, _, _, _, hframe⟩
    simp only [hframe]
    exact h.quota
  · intro key entry hentry later hlater
    have hold := fun hentry => h.alive key entry hentry later (List.mem_cons_of_mem turn hlater)
    rcases hcache with hsame | ⟨response, hinsert⟩
    · rw [hsame] at hentry
      exact hold hentry
    · rw [hinsert] at hentry
      by_cases hkey : key = idempotencyKey request.topic producerId turn.1.1.sequence
      · rw [hkey, AList.lookup_insert] at hentry
        rw [← Option.some.inj hentry]
        exact hlifetimes turn.2 later.2 (hapart later hlater).1
          (hturns.soon later (List.mem_cons_of_mem turn hlater))
      · rw [AList.lookup_insert_ne hkey] at hentry
        exact hold hentry
  · intro later hlater
    have hold := h.found later (List.mem_cons_of_mem turn hlater)
    rcases hcache with hsame | ⟨response, hinsert⟩
    · rw [hsame]
      exact hold
    · rw [hinsert, AList.lookup_insert_ne, hold]
      -- The answer is kept under the sequence of its own message.
      intro hkey
      exact (hapart later hlater).2 (idempotencyKey_injective _ _ _ _ _ _ hkey).2.2.symm

end Lockstep

/-- Answers that agree but for their request ids make the same answer of a
    batch. -/
theorem batchAnswer_congr {g : UInt64 → UInt64} (request : Request) {front : Bytes}
    {answers answers' : List Response}
    (h : List.Forall₂ (fun r r' : Response => r'.relabel g = r.relabel g) answers answers') :
    batchAnswer request front answers' = batchAnswer request front answers := by
  induction h generalizing front with
  | nil => rfl
  | @cons r r' rest rest' hfirst _ ih =>
      rcases eq_of_relabel hfirst with ⟨hstatus, hpayload⟩
      have hsame : r'.succeeds = r.succeeds := by rw [Response.succeeds, hstatus, Response.succeeds]
      by_cases hgood : r.succeeds = true
      · rw [batchAnswer_cons _ hgood, batchAnswer_cons _ (hsame.trans hgood), hpayload, ih]
      · have hbad := Bool.eq_false_iff.mpr hgood
        simp only [batchAnswer, List.find?_cons, hsame, hbad, Bool.not_false, hstatus]

/-- The places of a list go up, and what is true of all pairs of its entries
    stays true. -/
theorem pairwise_zipIdx {α : Type} {P : α → α → Prop} {l : List α} (h : l.Pairwise P) (k : Nat) :
    (l.zipIdx k).Pairwise (fun a b => a.2 < b.2 ∧ P a.1 b.1) := by
  induction h generalizing k with
  | nil => exact List.Pairwise.nil
  | cons hfirst _ ih =>
      rw [List.zipIdx_cons]
      refine List.pairwise_cons.mpr ⟨fun entry hentry => ⟨?_, ?_⟩, ih (k + 1)⟩
      · exact Nat.lt_of_succ_le (List.le_snd_of_mem_zipIdx hentry)
      · exact hfirst entry.1 (List.fst_mem_of_mem_zipIdx hentry)

section Whole

variable {g : UInt64 → UInt64} {b : Broker} {env : BatchEnv} {request : Request}
  {producerId : UInt64} {items : List BatchItem} {singles : List Request}

/-- The messages of a batch, each with its request, are turns. -/
theorem turns_of_batch (hbatch : parseBatch request.payload = some (producerId, items))
    (hsingles : List.Forall₂ (fun item single : _ => Request.Carries single request producerId item)
      items singles)
    (hids : ∀ single ∈ singles, g single.requestId = g request.requestId) :
    Turns g request producerId items.length (items.zip singles).zipIdx := by
  rcases parseBatch_some hbatch with ⟨first, count, hheader, hitems⟩
  have hcount := batchHeader_count hheader
  rcases parseItems_spec hitems (by omega) with ⟨_, hspec, hapart⟩
  rcases List.forall₂_iff_zip.mp hsingles with ⟨hlength, hcarried⟩
  refine ⟨fun turn hturn => ?_, fun turn hturn => ?_, fun turn hturn => ?_, ?_⟩
  · have hlt := List.snd_lt_of_mem_zipIdx hturn
    rw [List.length_zip] at hlt
    omega
  · have hmem := List.of_mem_zip (List.fst_mem_of_mem_zipIdx hturn)
    exact ⟨(hspec turn.1.1 hmem.1).1, (hspec turn.1.1 hmem.1).2.1⟩
  · have hzip := List.fst_mem_of_mem_zipIdx hturn
    exact ⟨hcarried hzip, hids turn.1.2 (List.of_mem_zip hzip).2⟩
  · refine pairwise_zipIdx (P := fun a b : BatchItem × Request => a.1.sequence ≠ b.1.sequence) ?_ 0
    have hfirsts : ((items.zip singles).map Prod.fst).Pairwise
        (fun a b => a.sequence ≠ b.sequence) := by
      rw [List.map_fst_zip hlength.le]
      exact hapart
    rw [List.pairwise_map] at hfirsts
    exact hfirsts

/-- Within its lifetimes, the cache is the same at all readings of the clock. -/
theorem BatchEnv.WithinLifetimes.evictExpired {count : Nat} (h : env.WithinLifetimes b count)
    {i : Nat} (hi : i < count) :
    b.evictExpired (env.calls i).cacheNow = b.evictExpired env.lookupNow := by
  have hcache : b.idempotencyCache.filterValues (fun entry => entry.expiresAt > env.lookupNow)
      = b.idempotencyCache.filterValues
          (fun entry => entry.expiresAt > (env.calls i).cacheNow) := by
    refine Table.filterValues_congr fun entry hentry => ?_
    rcases Table.lookup_of_mem_values _ _ hentry with ⟨key, hkey⟩
    exact decide_eq_decide.mpr (h.cached key entry hkey i hi)
  rw [Broker.evictExpired, Broker.evictExpired, hcache]

/-- What is in the cache when a batch looks its messages up stays. -/
theorem BatchEnv.WithinLifetimes.alive {count : Nat} (h : env.WithinLifetimes b count)
    {key : Bytes} {entry : IdempotencyEntry}
    (hentry : (b.evictExpired env.lookupNow).idempotencyCache.lookup key = some entry) {i : Nat}
    (hi : i < count) : (env.calls i).cacheNow < entry.expiresAt := by
  rw [Broker.evictExpired, Table.lookup_filterValues, Option.filter_eq_some_iff,
    decide_eq_true_eq] at hentry
  exact (h.cached key entry hentry.1 i hi).mp hentry.2

/-- A batch that is well formed does what its messages do in order, and answers
    with their answers. -/
theorem handleProduceBatch_inOrder
    (hsuccesses : ∀ key entry, b.idempotencyCache.lookup key = some entry →
      entry.response.status = .ok ∧ entry.response.payload.length = 12)
    (hbatch : parseBatch request.payload = some (producerId, items))
    (hmetadata : request.hasFlag flagProducerMetadata = true)
    (hsingles : List.Forall₂ (fun item single : _ => Request.Carries single request producerId item)
      items singles)
    (hids : ∀ single ∈ singles, g single.requestId = g request.requestId)
    (hserved : env.Served b request items.length) (hunlimited : env.Unlimited b items.length)
    (hlifetimes : env.WithinLifetimes b items.length) :
    (b.handleProduceBatch env request).broker.AlikeUnder g
        (b.produceInOrder env.calls singles).1 ∧
      (b.handleProduceBatch env request).response
        = batchAnswer request (put32 (UInt32.ofNat items.length))
            (b.produceInOrder env.calls singles).2 := by
  have hturns := turns_of_batch hbatch hsingles hids
  have hlength := hsingles.length_eq
  -- Both sides take the same turns.
  have hentries : (items.map ((b.evictExpired env.lookupNow).batchEntry request producerId)).zipIdx
      = (items.zip singles).zipIdx.map (fun turn : Turn =>
          ((b.evictExpired env.lookupNow).batchEntry request producerId turn.1.1, turn.2)) := by
    conv_lhs => rw [← List.map_fst_zip hlength.le]
    rw [List.map_map, List.zipIdx_map]
    rfl
  have hrequests : singles.zipIdx
      = (items.zip singles).zipIdx.map (fun turn : Turn => (turn.1.2, turn.2)) := by
    conv_lhs => rw [← List.map_snd_zip hlength.ge]
    rw [List.zipIdx_map]
    rfl
  -- The first turn drops what has expired, as the batch does before it.
  have hstart : b.produceInOrder env.calls singles
      = (b.evictExpired env.lookupNow).produceInOrder env.calls singles := by
    cases hsingles with
    | nil => exact absurd rfl (parseBatch_ne_nil hbatch)
    | @cons item single items singles hcarried _ =>
        have hlt : 0 < (item :: items).length := Nat.succ_pos _
        have hdropped := hlifetimes.evictExpired hlt
        have hkept : (b.evictExpired env.lookupNow).evictExpired (env.calls 0).cacheNow
            = b.evictExpired env.lookupNow :=
          evictExpired_alive fun key entry hentry => hlifetimes.alive hentry hlt
        rw [Broker.produceInOrder, Broker.produceInOrder, List.zipIdx_cons]
        refine inTurn_congr_start _ ?_
        simp only [singleTurn]
        rw [handleProduce_carried hcarried (hserved.turns 0 hlt) (hunlimited.turns 0 hlt)
          hunlimited.quota, handleProduce_carried hcarried (b := b.evictExpired env.lookupNow)
          (hserved.turns 0 hlt) (hunlimited.turns 0 hlt) hunlimited.quota, hdropped, hkept]
        rfl
  have hlockstep : Lockstep g env request producerId (b.evictExpired env.lookupNow)
      (items.zip singles).zipIdx (b.evictExpired env.lookupNow) (b.evictExpired env.lookupNow) :=
    ⟨Broker.AlikeUnder.refl g _, ReplicationCoordinator.NoStaler.refl _, hunlimited.quota,
      fun key entry hentry turn hturn => hlifetimes.alive hentry (hturns.soon turn hturn),
      fun _ _ => rfl⟩
  have hserved' : env.Served (b.evictExpired env.lookupNow) request items.length :=
    ⟨hserved.batch, hserved.turns, hserved.steady⟩
  have hunlimited' : env.Unlimited (b.evictExpired env.lookupNow) items.length :=
    ⟨hunlimited.batch, hunlimited.turns, hunlimited.quota⟩
  have hrun : (inTurn (fun d (turn : Turn) => entryTurn env.calls d
        ((b.evictExpired env.lookupNow).batchEntry request producerId turn.1.1, turn.2))
        Response.succeeds (b.evictExpired env.lookupNow) (items.zip singles).zipIdx).1.AlikeUnder g
      (inTurn (fun d (turn : Turn) => singleTurn env.calls d (turn.1.2, turn.2))
        Response.succeeds (b.evictExpired env.lookupNow) (items.zip singles).zipIdx).1 ∧
      List.Forall₂ (fun r r' : Response => r'.relabel g = r.relabel g)
        (inTurn (fun d (turn : Turn) => entryTurn env.calls d
          ((b.evictExpired env.lookupNow).batchEntry request producerId turn.1.1, turn.2))
          Response.succeeds (b.evictExpired env.lookupNow) (items.zip singles).zipIdx).2
        (inTurn (fun d (turn : Turn) => singleTurn env.calls d (turn.1.2, turn.2))
          Response.succeeds (b.evictExpired env.lookupNow) (items.zip singles).zipIdx).2 := by
    refine inTurn_related
      (fun rest d d' => Turns g request producerId items.length rest ∧
        Lockstep g env request producerId (b.evictExpired env.lookupNow) rest d d')
      (Broker.AlikeUnder g) (fun r r' : Response => r'.relabel g = r.relabel g) ?_ ?_ ?_
      ⟨hturns, hlockstep⟩
    · intro r r' hsame
      rw [Response.succeeds, Response.succeeds, (eq_of_relabel hsame).1]
    · exact fun d d' h => h.2.alike
    · intro turn rest d d' h
      rcases h.2.step h.1 hserved' hunlimited' hlifetimes.added with ⟨hsame, halike, hnext⟩
      exact ⟨hsame, halike, fun _ => ⟨h.1.tail, hnext⟩⟩
  have hcached : ∀ response, .cached response ∈
      items.map ((b.evictExpired env.lookupNow).batchEntry request producerId) →
      response.succeeds = true := by
    intro response hmem
    rcases List.mem_map.mp hmem with ⟨item, _, hentry⟩
    rw [Broker.batchEntry] at hentry
    split at hentry
    · rename_i entry hlookup
      rw [Broker.evictExpired, Table.lookup_filterValues, Option.filter_eq_some_iff] at hlookup
      rw [← BatchEntry.cached.inj hentry]
      exact decide_eq_true (hsuccesses _ entry hlookup.1).1
    · cases hentry
  have hadmitted := admitBatch_parsed hbatch hserved.batch hunlimited.batch hmetadata
    hunlimited.quota fun key entry hentry => (hsuccesses key entry hentry).2
  rcases produceEntries_inTurn request env.calls _ 0 (b.evictExpired env.lookupNow)
    (put32 (UInt32.ofNat items.length)) [] hcached with ⟨hbroker, hresponse⟩
  rw [hstart, Broker.produceInOrder, hrequests, inTurn_map, Broker.handleProduceBatch, hadmitted]
  simp only [List.length_map]
  rw [hbroker, hresponse, hentries, inTurn_map]
  exact ⟨hrun.1, (batchAnswer_congr request hrun.2).symm⟩

end Whole

end MqBroker
