import MqBroker.Broker.Protocol
import MqBroker.Lib.Decimal
import MqBroker.Replication.Coordinator
import MqBroker.Storage.Store

/-!
# The State of a Broker

One broker: the topic table, the storage engine, the replication coordinator,
the cache of idempotent responses and what the replication threads remember.

A broker is configured once (`Broker.configured` and `configureReplication`)
and is then driven by requests and by its replication loop. Addresses of peers
are left out: a peer is who it claims to be. The token bucket of the request
rate limit works on floating-point time, and its verdict is an input wherever
it is consulted. Consumer groups, counters and client permissions take no part
in producing and replicating.

## Main definitions

* `Broker`: The state.
* `configureReplication`: The replication settings of a broker.
* `hashKey`, `resolvePartition`: From a topic and a key to a partition.
* `partitionKey`, `idempotencyKey`: The composite keys.
* `allowTopicBytes`: The byte quota of a topic.

## Theorems

* `idempotencyKey_injective`, `partitionKey_injective`: Keys name one thing.
-/

namespace MqBroker

/-- A peer of the cluster. -/
structure ReplicationPeer where
  nodeId : Bytes
  leader : Bool := false
deriving DecidableEq, Repr

/-- A cached response with the time it expires. -/
structure IdempotencyEntry where
  response : Response
  expiresAt : Int
deriving DecidableEq, Repr

/-- The bytes produced to a topic since the start of a window. -/
structure TopicQuotaWindow where
  bytes : UInt64 := 0
  start : Int
deriving DecidableEq, Repr

/-- The state of a broker. -/
structure Broker where
  storage : StorageEngine
  /-- The topics with their partition counts. -/
  topics : Table Bytes UInt32 := ∅
  idempotencyCache : Table Bytes IdempotencyEntry := ∅
  nodeId : Bytes
  replicationPeers : List ReplicationPeer := []
  replicationAuthToken : Bytes := []
  replicationConfigured : Bool := false
  replicationQuorum : Nat := 0
  coordinator : ReplicationCoordinator
  replicationOffsets : Table Bytes UInt64 := ∅
  topicProduceQuota : UInt64 := 0
  topicQuotaWindows : Table Bytes TopicQuotaWindow := ∅

/-- The node id of a broker that was never configured for replication. -/
def localNodeId : Bytes := "node-local".toUTF8.toList

/-- A broker on an empty data directory. -/
def Broker.fresh (config : StorageConfig) : Broker where
  storage := { config := config.effective }
  nodeId := localNodeId
  coordinator := ReplicationCoordinator.restart localNodeId .leader 10000 false none

/-- `ConfigureReplication`, on the state file in the metadata directory. A
    quorum of 0 stands for all nodes. -/
def Broker.configureReplication (b : Broker) (nodeId : Bytes) (peers : List ReplicationPeer)
    (quorum : Nat) (follower : Bool) (authToken : Bytes) (stateFile : Option Bytes) : Broker :=
  { b with
    nodeId := nodeId
    replicationPeers := peers
    replicationQuorum := if quorum = 0 then peers.length + 1 else quorum
    replicationAuthToken := authToken
    replicationConfigured := true
    coordinator := peers.foldl (fun c peer => c.registerReplica peer.nodeId)
      (ReplicationCoordinator.restart nodeId (if follower then .follower else .leader) 10000 true
        stateFile) }

/-! ## Topics -/

/-- The largest number of partitions of a topic. -/
def maxPartitions : UInt32 := 1024

/-- The partition number that asks for routing by key. -/
def autoPartition : UInt32 := 0xFFFFFFFF

/-- `HashKey`: FNV-1a on 64 bits. -/
def hashKey (key : Bytes) : UInt64 :=
  key.foldl (fun hash byte => (hash ^^^ byte.toUInt64) * 1099511628211) 14695981039346656037

/-- Why a partition cannot be resolved. -/
inductive ResolveError
  | unknownTopic
  | outOfRange
deriving DecidableEq, Repr

/-- `ResolvePartition`. -/
def Broker.resolvePartition (b : Broker) (topic : Bytes) (requested : UInt32) (key : Bytes) :
    Except ResolveError UInt32 :=
  match b.topics.lookup topic with
  | none => .error .unknownTopic
  | some count =>
      if requested = autoPartition then .ok (hashKey key % count.toUInt64).toUInt32
      else if requested ≥ count then .error .outOfRange
      else .ok requested

/-- A partition that is resolved is one of the topic. -/
theorem resolvePartition_lt {b : Broker} {topic key : Bytes} {requested partition : UInt32}
    (htopics : ∀ count, b.topics.lookup topic = some count → count ≠ 0)
    (h : b.resolvePartition topic requested key = .ok partition) :
    ∃ count, b.topics.lookup topic = some count ∧ partition < count := by
  unfold Broker.resolvePartition at h
  split at h
  · cases h
  · rename_i count hcount
    refine ⟨count, hcount, UInt32.lt_iff_toNat_lt.mpr ?_⟩
    have hpos : 0 < count.toNat := by
      rcases Nat.eq_zero_or_pos count.toNat with hzero | hpos
      · exact absurd (UInt32.toNat_inj.mp hzero) (htopics count hcount)
      · exact hpos
    have hlt : count.toNat < 2 ^ 32 := count.toNat_lt
    split at h
    · rw [← Except.ok.inj h, UInt64.toNat_toUInt32, UInt64.toNat_mod, UInt32.toNat_toUInt64]
      have hmod := Nat.mod_lt (hashKey key).toNat hpos
      rw [Nat.mod_eq_of_lt (by omega)]
      exact hmod
    · split at h
      · cases h
      · rename_i hrange
        rw [← Except.ok.inj h]
        exact UInt32.lt_iff_toNat_lt.mp (UInt32.not_le.mp hrange)

/-- A partition that is below a number of partitions is not the one that asks
    for routing. -/
theorem ne_auto_of_lt {partition count : UInt32} (h : partition < count) :
    partition ≠ autoPartition := by
  have hlt : count.toNat < 2 ^ 32 := count.toNat_lt
  have hmax : autoPartition.toNat = 2 ^ 32 - 1 := by decide
  intro hauto
  rw [hauto, UInt32.lt_iff_toNat_lt] at h
  omega

/-- A partition of a topic that has partitions is not the one that asks for
    routing. -/
theorem resolvePartition_ne_auto {b : Broker} {topic key : Bytes} {requested partition : UInt32}
    (htopics : ∀ count, b.topics.lookup topic = some count → count ≠ 0)
    (h : b.resolvePartition topic requested key = .ok partition) : partition ≠ autoPartition := by
  rcases resolvePartition_lt htopics h with ⟨count, _, hbelow⟩
  exact ne_auto_of_lt hbelow

/-- A partition of a topic that is named is found. -/
theorem resolvePartition_of_lt {b : Broker} {topic : Bytes} {partition count : UInt32}
    (htopic : b.topics.lookup topic = some count) (h : partition < count) (key : Bytes) :
    b.resolvePartition topic partition key = .ok partition := by
  rw [Broker.resolvePartition, htopic]
  simp only
  rw [if_neg (ne_auto_of_lt h), if_neg (UInt32.not_le.mpr h)]

/-- A partition that is named is the one that is found. -/
theorem resolvePartition_named {b : Broker} {topic key : Bytes} {requested partition : UInt32}
    (h : b.resolvePartition topic requested key = .ok partition)
    (hauto : requested ≠ autoPartition) : partition = requested := by
  unfold Broker.resolvePartition at h
  split at h
  · cases h
  · rw [if_neg hauto] at h
    split at h
    · cases h
    · exact (Except.ok.inj h).symm

/-- `CreateTopic` of the queue manager. -/
def Broker.createTopic (b : Broker) (name : Bytes) (count : UInt32) : Broker × Bool :=
  if ¬ isValidTopicName name ∨ count = 0 ∨ count > maxPartitions then (b, false)
  else if (b.topics.lookup name).isSome then (b, false)
  else ({ b with topics := b.topics.insert name count }, true)

/-! ## Keys -/

/-- The byte between the parts of a key. -/
def keySeparator : UInt8 := 0x1F

/-- `PartitionKey`. -/
def partitionKey (topic : Bytes) (partition : UInt32) : Bytes :=
  topic ++ keySeparator :: decimal partition.toNat

/-- `IdempotencyKey`. -/
def idempotencyKey (topic : Bytes) (producerId sequence : UInt64) : Bytes :=
  topic ++ keySeparator :: (decimal producerId.toNat ++ 58 :: decimal sequence.toNat)

theorem separator_notMem_decimal (n : Nat) : keySeparator ∉ decimal n := by
  intro h
  have hbound := (mem_decimal n keySeparator h).1
  revert hbound
  decide

theorem colon_notMem_decimal (n : Nat) : (58 : UInt8) ∉ decimal n := by
  intro h
  have hbound := (mem_decimal n 58 h).2
  revert hbound
  decide

theorem partitionKey_injective (t t' : Bytes) (p p' : UInt32)
    (h : partitionKey t p = partitionKey t' p') : t = t' ∧ p = p' := by
  rcases append_sep_inj _ _ _ _ _ (separator_notMem_decimal _) (separator_notMem_decimal _) h with
    ⟨ht, hp⟩
  exact ⟨ht, UInt32.toNat_inj.mp (decimal_injective _ _ hp)⟩

/-- An idempotency key names one topic, producer and sequence. -/
theorem idempotencyKey_injective (t t' : Bytes) (p p' s s' : UInt64)
    (h : idempotencyKey t p s = idempotencyKey t' p' s') : t = t' ∧ p = p' ∧ s = s' := by
  have hfree : ∀ m n : Nat, keySeparator ∉ decimal m ++ 58 :: decimal n := by
    intro m n hmem
    rcases List.mem_append.mp hmem with hm | hn
    · exact separator_notMem_decimal m hm
    · rcases List.mem_cons.mp hn with heq | hn
      · revert heq
        decide
      · exact separator_notMem_decimal n hn
  rcases append_sep_inj _ _ _ _ _ (hfree _ _) (hfree _ _) h with ⟨ht, hrest⟩
  rcases append_sep_inj _ _ _ _ _ (colon_notMem_decimal _) (colon_notMem_decimal _) hrest with
    ⟨hp, hs⟩
  exact ⟨ht, UInt64.toNat_inj.mp (decimal_injective _ _ hp),
    UInt64.toNat_inj.mp (decimal_injective _ _ hs)⟩

/-! ## Quota -/

/-- The window of a topic, started anew after a second. -/
def Broker.quotaWindow (b : Broker) (now : Int) (topic : Bytes) : TopicQuotaWindow :=
  let old := (b.topicQuotaWindows.lookup topic).getD { start := now }
  if now - old.start ≥ 1000000000 then { bytes := 0, start := now } else old

/-- `AllowTopicBytes`. -/
def Broker.allowTopicBytes (b : Broker) (now : Int) (topic : Bytes) (bytes : UInt64) :
    Broker × Bool :=
  if b.topicProduceQuota = 0 then (b, true)
  else if bytes > b.topicProduceQuota then (b, false)
  else
    let window := b.quotaWindow now topic
    if window.bytes > b.topicProduceQuota - bytes then
      ({ b with topicQuotaWindows := b.topicQuotaWindows.insert topic window }, false)
    else
      ({ b with
        topicQuotaWindows := b.topicQuotaWindows.insert topic
          { window with bytes := window.bytes + bytes } }, true)

end MqBroker
