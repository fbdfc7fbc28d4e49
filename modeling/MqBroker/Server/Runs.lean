import MqBroker.Core.Membership
import MqBroker.Server.Handle
import MqBroker.Storage.Retained

/-!
# Runs of a Broker

Everything that can happen to one broker, and what is true of it at all times.

A broker starts on a data directory with a configuration. It is then driven by
requests, whatever is in them, by its replication loop and by the cleaner of
the storage engine, and it can be started again on what it has left, with
another configuration. A start fails when the list of topics cannot be loaded,
and nothing has happened then.

What is true at all times is bounded by checks in different places. A topic
that was created has a valid name and not too many partitions. That there are
not too many topics is due to the file they are saved in, which does not take
more of them: a topic that cannot be saved is taken out again. A response from
the cache is one that a produce request was answered with. The logs have the
shape logs have.

## Main definitions

* `ServerConfig`: A configuration.
* `Server.fresh`, `Server.restart`: A start on an empty directory, and on what
  is there.
* `ServerEvent`, `ServerEvent.exec`: What can happen.
* `Server.run`: The broker after some events.
* `Broker.Sound`, `Server.Sound`: What is true at all times.

## Theorems

* `Broker.Sound.handleProduce`, `Broker.Sound.handleProduceBatch` and so on:
  The handlers keep it.
* `Server.Sound.exec`: So does everything else.
* `run_sound`: It is true at all times.
-/

namespace MqBroker

open Traced ConsumerGroupCoordinator

/-! ## Starting -/

/-- The arguments of `ConfigureReplication`. -/
structure ReplicationSettings where
  nodeId : Bytes
  peers : List ReplicationPeer := []
  quorum : Nat := 0
  follower : Bool := false
  authToken : Bytes := []
deriving DecidableEq, Repr

/-- The configuration of a broker. -/
structure ServerConfig where
  storage : StorageConfig := {}
  replication : Option ReplicationSettings := none
  clientAuthToken : Bytes := []
  clientAuthorization : ClientAuthorization := {}
  topicProduceQuota : UInt64 := 0
deriving DecidableEq, Repr

/-- `ReplaceTopics`, with the topics that were checked so far. -/
def replaceTopics : List (Bytes × UInt32) → Table Bytes UInt32 → Option (Table Bytes UInt32)
  | [], table => some table
  | (name, count) :: rest, table =>
      if ¬ isValidTopicName name ∨ count = 0 ∨ count > maxPartitions ∨ (table.lookup name).isSome
      then none
      else replaceTopics rest (table.insert name count)

namespace Server

/-- `Open` and the configuration of a broker, on what is in its directory. -/
def start (config : ServerConfig) (storage : StorageEngine) (topics : Table Bytes UInt32)
    (topicsFile : List (Bytes × UInt32)) (offsetsFile : List ConsumerOffset)
    (stateFile : Option Bytes) : Server :=
  let base :=
    { Broker.fresh config.storage with
      storage := storage
      topics := topics
      topicProduceQuota := config.topicProduceQuota }
  { broker :=
      match config.replication with
      | none => base
      | some r =>
          base.configureReplication r.nodeId r.peers r.quorum r.follower r.authToken stateFile
    groups := base.listTopics.foldl (fun groups topic => groups.setPartitions topic.1 topic.2) {}
    consumerOffsets := offsetsFile
    clientAuthToken := config.clientAuthToken
    clientAuthorization := config.clientAuthorization
    topicsFile := topicsFile
    offsetsFile := offsetsFile }

/-- A broker on an empty directory. -/
def fresh (config : ServerConfig) : Server :=
  start config { config := config.storage.effective } ∅ [] [] none

/-- A broker that is stopped and started again. -/
def restart (s : Server) (config : ServerConfig) (kept : Bytes → UInt32 → Nat) : Server :=
  if s.topicsFile.length > maxTopics then s
  else
    match replaceTopics s.topicsFile ∅ with
    | none => s
    | some topics =>
        start config (s.broker.storage.reopened config.storage kept) topics s.topicsFile
          s.offsetsFile s.broker.coordinator.stateFile

/-- A follower stores what a leader has answered to its fetch, if it can be
    read. -/
def pull (s : Server) (topic : Bytes) (partition : UInt32) (payload : Bytes) (ios : Nat → StoreIo) :
    Server :=
  match s.broker.topics.lookup topic, parseFetched payload with
  | some count, some messages =>
      if partition < count then
        { s with broker := (s.broker.applyFetched ios topic partition messages).1 }
      else s
  | _, _ => s

end Server

/-! ## Events -/

/-- What can happen to a broker. -/
inductive ServerEvent
  /-- A request is handled. -/
  | request (env : ServerEnv) (r : RawRequest)
  /-- A step of an election. -/
  | operate (op : Op)
  /-- A leader goes through its peers. -/
  | heartbeatRound (env : RoundEnv)
  /-- A follower gets an answer to a fetch. -/
  | pull (topic : Bytes) (partition : UInt32) (payload : Bytes) (ios : Nat → StoreIo)
  /-- The cleaner removes old segments. -/
  | cleanup (now : Int64)
  | restart (config : ServerConfig) (kept : Bytes → UInt32 → Nat)

/-- The broker after an event. -/
def ServerEvent.exec (s : Server) : ServerEvent → Server
  | .request env r => (s.serve env r).1
  | .operate op =>
      { s with broker := { s.broker with coordinator := op.exec s.broker.coordinator } }
  | .heartbeatRound env => { s with broker := s.broker.heartbeatRound env }
  | .pull topic partition payload ios => s.pull topic partition payload ios
  | .cleanup now =>
      { s with
        broker := { s.broker with storage := s.broker.storage.cleanupExpiredSegments now } }
  | .restart config kept => s.restart config kept

/-- The broker after some events. -/
def Server.run (s : Server) (events : List ServerEvent) : Server := events.foldl ServerEvent.exec s

theorem run_cons (s : Server) (event : ServerEvent) (events : List ServerEvent) :
    s.run (event :: events) = (event.exec s).run events := rfl

theorem run_append (s : Server) (first second : List ServerEvent) :
    s.run (first ++ second) = (s.run first).run second := List.foldl_append

/-! ## What is true at all times -/

/-- A response with a place as its payload. -/
def Response.HasPlace (r : Response) : Prop :=
  r.version = currentVersion ∧ ∃ place, r.payload = encodePlace place

/-- A response that is no success and has no payload. -/
structure Response.Refuses (r : Response) : Prop where
  version : r.version = currentVersion
  status : r.status ≠ .ok
  payload : r.payload = []

/-- What is true of topics, cache and logs. -/
structure Broker.Sound (b : Broker) : Prop where
  topics : ∀ name count, b.topics.lookup name = some count → ValidTopic name count
  few : b.topics.size ≤ maxTopics
  cached : ∀ key entry, b.idempotencyCache.lookup key = some entry → entry.response.HasPlace
  logs : b.storage.Regular

/-- What is true of a broker. -/
structure Server.Sound (s : Server) : Prop where
  broker : s.broker.Sound
  groups : s.groups.Bounded

theorem refuses {request : Request} {status : Status} (h : status ≠ .ok) :
    (makeResponse request status).Refuses :=
  ⟨rfl, h, rfl⟩

namespace Broker.Sound

variable {b b' : Broker}

/-- Settings, coordinator and cursors do not matter. -/
theorem congr (h : b.Sound) (htopics : b'.topics = b.topics)
    (hcache : b'.idempotencyCache = b.idempotencyCache) (hstorage : b'.storage = b.storage) :
    b'.Sound := by
  refine ⟨?_, ?_, ?_, ?_⟩
  · rw [htopics]
    exact h.topics
  · rw [htopics]
    exact h.few
  · rw [hcache]
    exact h.cached
  · rw [hstorage]
    exact h.logs

theorem evictExpired (h : b.Sound) (now : Int) : (b.evictExpired now).Sound := by
  refine ⟨h.topics, h.few, fun key entry hentry => ?_, h.logs⟩
  rw [Broker.evictExpired, Table.lookup_filterValues] at hentry
  exact h.cached key entry (Option.filter_eq_some_iff.mp hentry).1

theorem quota (h : b.Sound) (hquota : b.SameButQuota b') : b'.Sound := by
  rcases hquota with ⟨windows, rfl⟩
  exact h.congr rfl rfl rfl

/-! ## Producing -/

theorem admitProduce (h : b.Sound) (env : ProduceEnv) (request : Request) (rate quota : Bool) :
    (b.admitProduce env request rate quota).1.Sound := by
  simp only [Broker.admitProduce]
  split
  · exact h
  · split
    · exact h
    · split
      · split
        · exact h
        · split
          · exact h.evictExpired env.cacheNow
          · exact (h.evictExpired env.cacheNow).quota (routeProduce_cases _ env request quota 16).1
      · exact h.quota (routeProduce_cases b env request quota 0).1

/-- A request that is turned away is answered with nothing, or from the
    cache. -/
theorem admitProduce_answer (h : b.Sound) (env : ProduceEnv) (request : Request)
    (rate quota : Bool) {response : Response}
    (hanswer : (b.admitProduce env request rate quota).2 = .error response) :
    response.Refuses ∨ response.HasPlace := by
  have hroute : ∀ (d : Broker) (position : Nat),
      (d.routeProduce env request quota position).2 = .error response → response.Refuses := by
    intro d position hrouted
    simp only [Broker.routeProduce] at hrouted
    split at hrouted
    · rw [← Except.error.inj hrouted]
      exact refuses (by decide)
    · split at hrouted
      · rw [← Except.error.inj hrouted]
        exact refuses (by decide)
      · rw [← Except.error.inj hrouted]
        exact refuses (by decide)
      · rename_i body _ _ partition _
        have hquota : ∀ q : Broker × Bool,
            (if q.2 = true then (q.1, Except.ok (partition, body))
              else (q.1, Except.error (makeResponse request .quotaExceeded))).2 = .error response →
            response.Refuses := by
          intro q hq
          split at hq
          · cases hq
          · rw [← Except.error.inj hq]
            exact refuses (by decide)
        exact hquota _ hrouted
  simp only [Broker.admitProduce] at hanswer
  split at hanswer
  · rw [← Except.error.inj hanswer]
    exact Or.inl (refuses (by decide))
  · split at hanswer
    · rw [← Except.error.inj hanswer]
      exact Or.inl (refuses (by decide))
    · split at hanswer
      · split at hanswer
        · rw [← Except.error.inj hanswer]
          exact Or.inl (refuses (by decide))
        · split at hanswer
          · rename_i entry hentry
            rw [← Except.error.inj hanswer]
            exact Or.inr ((h.evictExpired env.cacheNow).cached _ entry hentry)
          · exact Or.inl (hroute _ 16 hanswer)
      · exact Or.inl (hroute b 0 hanswer)

theorem remember (h : b.Sound) (env : ProduceEnv) (request : Request) {response : Response}
    (hplace : response.HasPlace) : (b.remember env request response).Sound := by
  unfold Broker.remember
  split
  · refine ⟨h.topics, h.few, fun key entry hentry => ?_, h.logs⟩
    by_cases hkey : key = request.cacheKey
    · rw [hkey, AList.lookup_insert] at hentry
      rw [← Option.some.inj hentry]
      exact hplace
    · rw [AList.lookup_insert_ne hkey] at hentry
      exact h.cached key entry hentry
  · exact h

end Broker.Sound

/-- An answer to a produce request: a refusal without a payload, or a place. -/
def Response.ToProduce (r : Response) : Prop := r.Refuses ∨ r.HasPlace

namespace Broker.Sound

variable {b : Broker}

theorem settleProduce (h : b.Sound) (env : ProduceEnv) (request : Request) (partition : UInt32)
    (body : ProduceBody) :
    (b.settleProduce env request partition body).broker.Sound ∧
      (b.settleProduce env request partition body).response.ToProduce := by
  have hlogs := h.logs.append env.io env.timestampMs request.topic partition body.key body.value
  simp only [Broker.settleProduce]
  split
  · exact ⟨⟨h.topics, h.few, h.cached, hlogs⟩, Or.inl (refuses (by decide))⟩
  · rename_i message _
    -- Whatever the peers answer, only the coordinator hears of it.
    have hack : ∀ c : ReplicationCoordinator, (Broker.acknowledge { b with
        storage := (b.storage.append env.io env.timestampMs request.topic partition body.key
          body.value).1
        coordinator := c } env request partition message).1.Sound := by
      intro c
      rw [acknowledge_frame]
      exact ⟨h.topics, h.few, h.cached, hlogs⟩
    split
    · have hplace : (produced request partition message).HasPlace :=
        ⟨rfl, (partition, message.offset), rfl⟩
      exact ⟨(hack _).remember env request hplace, Or.inr hplace⟩
    · exact ⟨hack _, Or.inl (refuses (by decide))⟩

theorem handleProduce (h : b.Sound) (env : ProduceEnv) (request : Request) (rate quota : Bool) :
    (b.handleProduce env request rate quota).broker.Sound ∧
      (b.handleProduce env request rate quota).response.ToProduce := by
  have hverdict := h.admitProduce env request rate quota
  unfold Broker.handleProduce
  split
  · rename_i d response hadmitted
    rw [hadmitted] at hverdict
    exact ⟨hverdict, h.admitProduce_answer env request rate quota (by rw [hadmitted])⟩
  · rename_i d partition body hadmitted
    rw [hadmitted] at hverdict
    exact hverdict.settleProduce env request partition body

/-- A batch is produced item by item, and its answer has a place for each. -/
theorem produceEntries (h : b.Sound) (request : Request) (calls : Nat → ProduceEnv)
    (entries : List BatchEntry) (index : Nat) (payload : Bytes)
    (stored : List (Request × UInt32 × Message))
    (hcached : ∀ response, .cached response ∈ entries → response.HasPlace) :
    (Broker.produceEntries request calls entries index b payload stored).broker.Sound ∧
      ((Broker.produceEntries request calls entries index b payload stored).response.Refuses ∨
        ∃ places : List (UInt32 × UInt64), places.length = entries.length ∧
          (Broker.produceEntries request calls entries index b payload stored).response
            = makeResponse request .ok (payload ++ places.flatMap encodePlace)) := by
  induction entries generalizing index b payload stored with
  | nil =>
      refine ⟨h, Or.inr ⟨[], rfl, ?_⟩⟩
      rw [List.flatMap_nil, List.append_nil]
      rfl
  | cons entry rest ih =>
      have hrest := fun response hmem => hcached response (List.mem_cons_of_mem entry hmem)
      cases entry with
      | cached response =>
          simp only [Broker.produceEntries]
          rcases hcached response List.mem_cons_self with ⟨_, place, hplace⟩
          rcases ih h (index + 1) (payload ++ response.payload) stored hrest with
            ⟨hsound, hfailed | ⟨places, hlength, hpayload⟩⟩
          · exact ⟨hsound, Or.inl hfailed⟩
          · refine ⟨hsound, Or.inr ⟨place :: places, congrArg Nat.succ hlength, ?_⟩⟩
            rw [hpayload, hplace, List.append_assoc, List.flatMap_cons]
      | pending single =>
          simp only [Broker.produceEntries]
          rcases h.handleProduce (calls index) single false false with ⟨hsound, hanswer⟩
          split
          · rename_i hstatus
            exact ⟨hsound, Or.inl (refuses hstatus)⟩
          · rename_i hstatus
            rcases hanswer with hfailed | ⟨_, place, hplace⟩
            · exact absurd hfailed.status hstatus
            · rcases ih hsound (index + 1) _ _ hrest with
                ⟨hsound', hfailed | ⟨places, hlength, hpayload⟩⟩
              · exact ⟨hsound', Or.inl hfailed⟩
              · refine ⟨hsound', Or.inr ⟨place :: places, congrArg Nat.succ hlength, ?_⟩⟩
                rw [hpayload, hplace, List.append_assoc, List.flatMap_cons]

end Broker.Sound

/-- What a batch takes from the cache was found there. -/
theorem prepareBatch_cached (request : Request) (producerId : UInt64)
    (found : List (Option Response)) (sequence : UInt64) (position : Nat) (newBytes : UInt64)
    {prepared : List BatchEntry × Nat × UInt64}
    (h : prepareBatch request producerId found sequence position newBytes = .ok prepared)
    {response : Response} (hmem : .cached response ∈ prepared.1) : some response ∈ found := by
  induction found generalizing sequence position newBytes prepared with
  | nil =>
      cases h
      exact absurd hmem List.not_mem_nil
  | cons first found ih =>
      rcases prepareBatch_cons request producerId first found sequence position newBytes with
        ⟨status, herror, _⟩ | ⟨entry, next, bytes, tail, htail, hok, hentry⟩
      · rw [herror] at h
        cases h
      · rw [hok] at h
        cases h
        rcases List.mem_cons.mp hmem with heq | htailmem
        · rcases hentry with ⟨cached, hfirst, hcached, _⟩ | ⟨_, key, value, hpending⟩
          · rw [hcached] at heq
            rw [hfirst, BatchEntry.cached.inj heq]
            exact List.mem_cons_self
          · rw [hpending] at heq
            cases heq
        · exact List.mem_cons_of_mem _ (ih _ _ _ htail htailmem)

theorem Broker.Sound.lookupBatch {b : Broker} (h : b.Sound) (request : Request)
    (producerId : UInt64) (count : Nat) (sequence : UInt64) {response : Response}
    (hmem : some response ∈ b.lookupBatch request producerId count sequence) :
    response.HasPlace := by
  induction count generalizing sequence with
  | zero => exact absurd hmem List.not_mem_nil
  | succ count ih =>
      rw [Broker.lookupBatch] at hmem
      rcases List.mem_cons.mp hmem with hfirst | hrest
      · rcases Option.map_eq_some_iff.mp hfirst.symm with ⟨entry, hentry, rfl⟩
        exact h.cached _ entry hentry
      · exact ih _ hrest

/-- An answer to a batch: a refusal without a payload, or as many places as the
    batch has items. -/
def Response.ToBatch (r : Response) (request : Request) : Prop :=
  r.Refuses ∨
    ∃ (producerId first : UInt64) (count : Nat) (places : List (UInt32 × UInt64)),
      batchHeader request.payload = some (producerId, first, count) ∧ places.length = count ∧
      r = makeResponse request .ok (put32 (UInt32.ofNat count) ++ places.flatMap encodePlace)

theorem Broker.Sound.handleProduceBatch {b : Broker} (h : b.Sound) (env : BatchEnv)
    (request : Request) :
    (b.handleProduceBatch env request).broker.Sound ∧
      (b.handleProduceBatch env request).response.ToBatch request := by
  have hevicted := h.evictExpired env.lookupNow
  unfold Broker.handleProduceBatch
  cases hverdict : b.admitBatch env request with
  | mk d outcome =>
      rcases admitBatch_cases b env request with
        ⟨hsame, status, herror, hstatus⟩ | ⟨producerId, first, count, hheader, hquota, houtcome⟩
      · rw [hverdict] at hsame herror
        simp only at hsame herror
        rw [hsame, herror]
        exact ⟨h, Or.inl (refuses hstatus)⟩
      · rw [hverdict] at hquota houtcome
        have hd := hevicted.quota hquota
        rcases houtcome with ⟨status, herror, hstatus⟩ | ⟨entries, rest, hok, hprepared⟩
        · simp only at herror
          rw [herror]
          exact ⟨hd, Or.inl (refuses hstatus)⟩
        · simp only at hok
          rw [hok]
          have hlength : entries.length = count := by
            have := prepareBatch_length request producerId hprepared
            rw [lookupBatch_length] at this
            exact this
          have hcached : ∀ response, .cached response ∈ entries → response.HasPlace :=
            fun response hmem => hevicted.lookupBatch request producerId count first
              (prepareBatch_cached request producerId _ _ _ _ hprepared hmem)
          rcases hd.produceEntries request env.calls entries 0
            (put32 (UInt32.ofNat entries.length)) [] hcached with
            ⟨hsound, hfailed | ⟨places, hplaces, hpayload⟩⟩
          · exact ⟨hsound, Or.inl hfailed⟩
          · refine ⟨hsound, Or.inr ⟨producerId, first, count, places, hheader,
              hplaces.trans hlength, ?_⟩⟩
            rw [← hlength]
            exact hpayload

/-! ## Replication -/

namespace Broker.Sound

variable {b : Broker}

theorem handleReplicaAppend (h : b.Sound) (env : ReplicaEnv) (request : Request)
    (hterm : request.hasFlag flagReplicationTerm = true) :
    (b.handleReplicaAppend env request).1.Sound := by
  rcases handleReplicaAppend_cases b env request hterm with
    ⟨hsame, _⟩ | ⟨header, partition, messages, _, _, heq⟩
  · rw [hsame]
    exact h
  · rw [heq]
    rcases applyAppend_cases b env request header partition messages with ⟨hsame, _⟩ |
      ⟨_, stored, e, _, hext, hnumbered, hstorable, ⟨heq, _⟩ | ⟨heq, _⟩⟩
    · rw [hsame]
      exact h
    · rw [heq]
      exact ⟨h.topics, h.few, h.cached, h.logs.extended hext hnumbered hstorable⟩
    · rw [heq]
      exact ⟨h.topics, h.few, h.cached, h.logs.extended hext hnumbered hstorable⟩

theorem applyFetched (h : b.Sound) (ios : Nat → StoreIo) (topic : Bytes) (partition : UInt32)
    (messages : List Message) : (b.applyFetched ios topic partition messages).1.Sound := by
  rcases applyFetched_cases b ios topic partition messages with
    ⟨e, cursors, stored, heq, _, _, hext, hnumbered, hstorable, _⟩
  rw [heq]
  exact ⟨h.topics, h.few, h.cached, h.logs.extended hext hnumbered hstorable⟩

theorem handleReplicaHeartbeat (h : b.Sound) (now : Int) (request : Request) :
    (b.handleReplicaHeartbeat now request).1.Sound := by
  rcases handleReplicaHeartbeat_cases b now request with ⟨_, hsame⟩ | ⟨_, _, heq⟩
  · rw [hsame]
    exact h
  · rw [heq]
    exact h.congr rfl rfl rfl

theorem heartbeatRound (h : b.Sound) (env : RoundEnv) : (b.heartbeatRound env).Sound := by
  rcases heartbeatRound_frame b env with ⟨_, _, heq, _⟩
  rw [heq]
  exact h.congr rfl rfl rfl

/-! ## Topics -/

/-- Topics that were there before are as valid and as few. -/
theorem withTopics (h : b.Sound) {b' : Broker}
    (htopics : ∀ t count, b'.topics.lookup t = some count → b.topics.lookup t = some count)
    (hcached : ∀ key entry, b'.idempotencyCache.lookup key = some entry →
      b.idempotencyCache.lookup key = some entry)
    (hlogs : b'.storage.Regular) : b'.Sound := by
  refine ⟨fun t count hcount => h.topics t count (htopics t count hcount), ?_,
    fun key entry hentry => h.cached key entry (hcached key entry hentry), hlogs⟩
  refine (Table.size_le _ _ fun t ht => ?_).trans h.few
  rcases Option.isSome_iff_exists.mp (AList.lookup_isSome.mpr ht) with ⟨count, hcount⟩
  exact AList.lookup_isSome.mp (by rw [htopics t count hcount]; rfl)

end Broker.Sound

theorem Partition.reopen_regular (config : StorageConfig) (keep : Nat → Bool) (p : Partition) :
    (p.reopen config keep).Regular := by
  unfold Partition.reopen
  split
  · exact regular_fresh config
  · exact regular_recover config _ (List.cons_ne_nil _ _)

theorem StorageEngine.Regular.deleteTopic {e : StorageEngine} (h : e.Regular) (env : DeleteEnv)
    (topic : Bytes) : (e.deleteTopic env topic).1.Regular := by
  unfold StorageEngine.deleteTopic
  split
  · exact h
  · split
    · refine of_lookup fun t n p hp => ?_
      rw [Table.lookup_filterKeys] at hp
      split at hp
      · exact h.lookup hp
      · cases hp
    · refine of_lookup fun t n p hp => ?_
      rw [Table.lookup_mapEntries, Option.map_eq_some_iff] at hp
      rcases hp with ⟨q, hq, rfl⟩
      split
      · exact q.reopen_regular e.config _
      · exact h.lookup hq

/-- A topic takes what was cached for it with it, and nothing is added. -/
theorem handleDeleteTopic_cached (b : Broker) (env : DeleteEnv) (request : Request) (key : Bytes)
    (entry : IdempotencyEntry)
    (h : (b.handleDeleteTopic env request).1.idempotencyCache.lookup key = some entry) :
    b.idempotencyCache.lookup key = some entry := by
  have hcreate : ∀ (d : Broker) (count : UInt32),
      (d.createTopic request.topic count).1.idempotencyCache = d.idempotencyCache := by
    intro d count
    rcases createTopic_outcome d request.topic count with ⟨_, _, heq⟩ | heq <;> rw [heq]
  simp only [Broker.handleDeleteTopic] at h
  split at h
  · exact h
  · split at h
    · exact h
    · split at h
      · rw [hcreate] at h
        exact h
      · split at h
        · rw [hcreate] at h
          exact h
        · rw [Table.lookup_filterKeys] at h
          split at h
          · exact h
          · cases h

theorem Broker.Sound.handleDeleteTopic {b : Broker} (h : b.Sound) (env : DeleteEnv)
    (request : Request) : (b.handleDeleteTopic env request).1.Sound := by
  have hcached := handleDeleteTopic_cached b env request
  have hdeleted := h.logs.deleteTopic env request.topic
  rcases handleDeleteTopic_cases b h.topics env request with
    ⟨_, htopics, hstorage | ⟨_, _, hstorage⟩⟩ | ⟨_, _, _, htopics, hstorage⟩
  · refine h.withTopics (fun t count hcount => ?_) hcached (by rw [hstorage]; exact h.logs)
    rw [← htopics]
    exact hcount
  · refine h.withTopics (fun t count hcount => ?_) hcached (by rw [hstorage]; exact hdeleted)
    rw [← htopics]
    exact hcount
  · refine h.withTopics (fun t count hcount => ?_) hcached (by rw [hstorage]; exact hdeleted)
    rw [htopics] at hcount
    split at hcount
    · cases hcount
    · exact hcount

/-- All topics are listed. -/
theorem length_listTopics (b : Broker) : b.listTopics.length = b.topics.size := by
  rw [Broker.listTopics, List.length_mergeSort, List.length_map, Table.size]

theorem isValidTopicName_length {topic : Bytes} (h : isValidTopicName topic = true) :
    topic.length ≤ 64 := by
  simp only [isValidTopicName, Bool.and_eq_true, decide_eq_true_eq] at h
  exact h.1.1.1.1.2

theorem ValidTopic.fits {name : Bytes} {count : UInt32} (h : ValidTopic name count) :
    (GroupOp.setPartitions name count).Fits :=
  ⟨isValidTopicName_length h.1, UInt32.le_iff_toNat_le.mp h.2.2⟩

theorem Broker.Sound.handleCreateTopic {b : Broker} (h : b.Sound) (saved : Bool)
    (request : Request)
    (hsaved : ∀ count, (readCreateTopic request.payload).result = .ok count → saved = true →
      topicsSavable (b.createTopic request.topic count).1.listTopics = true) :
    (b.handleCreateTopic saved request).1.Sound := by
  rcases handleCreateTopic_cases b saved request with
    ⟨topics, heq, hsame⟩ | ⟨count, hcount, hyes, hvalid, hnew, heq⟩
  · rw [heq]
    refine h.withTopics (fun t count hcount => ?_) (fun _ _ hentry => hentry) h.logs
    rw [← hsame]
    exact hcount
  · have hsavable := hsaved count hcount hyes
    rw [createTopic_valid b hvalid hnew, topicsSavable, Bool.and_eq_true, decide_eq_true_eq,
      length_listTopics] at hsavable
    rw [heq]
    refine ⟨fun t count' hcount' => ?_, hsavable.1, h.cached, h.logs⟩
    by_cases ht : t = request.topic
    · rw [ht, AList.lookup_insert] at hcount'
      rw [ht, ← Option.some.inj hcount']
      exact hvalid
    · rw [AList.lookup_insert_ne ht] at hcount'
      exact h.topics t count' hcount'

/-! ## Groups -/

/-- The calls of the group coordinator that a request leads to. -/
def Server.groupOps (s : Server) (env : ServerEnv) (request : Request) : List GroupOp :=
  match request.command with
  | .createTopic =>
      match (readCreateTopic request.payload).result with
      | .error _ => []
      | .ok count =>
          if (s.broker.createTopic request.topic count).2 then
            [.setPartitions request.topic count]
          else []
  | .joinGroup =>
      match (readJoinGroup request.payload).result with
      | .error _ => []
      | .ok call => [.join call.group call.member call.topics env.now]
  | .heartbeat =>
      if request.hasFlag flagReplication then [.expire env.now]
      else
        match (readGroupHeartbeat request.payload).result with
        | .ok (some (group, memberId)) => [.expire env.now, .heartbeat group memberId env.now]
        | _ => [.expire env.now]
  | _ => []

theorem readTopics_length {payload : Bytes} {count position : Nat} {found : List Bytes × Nat}
    (h : (readTopics payload count position).result = .ok found) : found.1.length = count := by
  induction count generalizing position found with
  | zero =>
      cases h
      rfl
  | succ count ih =>
      simp only [readTopics, result_check_bind, result_read16_bind, result_copy_bind] at h
      split at h
      · split at h
        · rcases result_bind_eq_ok h with ⟨rest, hrest, heq⟩
          cases heq
          exact congrArg Nat.succ (ih hrest)
        · cases h
      · cases h

/-- A request to join cannot name more topics than it can count. -/
theorem readJoinGroup_topics {payload : Bytes} {call : JoinCall}
    (h : (readJoinGroup payload).result = .ok call) : call.topics.length ≤ 65535 := by
  simp only [readJoinGroup, result_check_bind, result_read16_bind] at h
  split at h
  · split at h
    · split at h
      · rcases result_bind_eq_ok h with ⟨topics, htopics, hcall⟩
        rw [result_check_bind] at hcall
        split at hcall
        · cases hcall
          rw [readTopics_length htopics]
          exact Nat.le_of_lt_succ (UInt16.toNat_lt _)
        · cases hcall
      · cases h
    · cases h
  · cases h

theorem groupOps_fit (s : Server) (env : ServerEnv) (request : Request) :
    ∀ op ∈ s.groupOps env request, op.Fits := by
  intro op hop
  unfold Server.groupOps at hop
  split at hop
  · split at hop
    · exact absurd hop List.not_mem_nil
    · rename_i count _
      split at hop
      · rename_i hcreated
        rw [List.mem_singleton.mp hop]
        rcases createTopic_outcome s.broker request.topic count with ⟨hvalid, _, _⟩ | heq
        · exact hvalid.fits
        · rw [heq] at hcreated
          exact absurd hcreated Bool.false_ne_true
      · exact absurd hop List.not_mem_nil
  · split at hop
    · exact absurd hop List.not_mem_nil
    · rename_i call hcall
      rw [List.mem_singleton.mp hop]
      exact readJoinGroup_topics hcall
  · split at hop
    · rw [List.mem_singleton.mp hop]
      trivial
    · split at hop
      · rcases List.mem_cons.mp hop with rfl | hop
        · trivial
        · rw [List.mem_singleton.mp hop]
          trivial
      · rw [List.mem_singleton.mp hop]
        trivial
  · exact absurd hop List.not_mem_nil

/-- A heartbeat that is not taken changes nothing. -/
theorem heartbeat_refused {c : ConsumerGroupCoordinator} {group memberId : Bytes} {now : Int}
    (h : ¬ (c.heartbeat group memberId now).2 = true) : (c.heartbeat group memberId now).1 = c := by
  rw [ConsumerGroupCoordinator.heartbeat] at h ⊢
  split
  · rfl
  · rename_i members hmembers
    rw [hmembers] at h
    simp only at h
    split
    · rfl
    · rename_i member hmember
      rw [hmember] at h
      exact absurd rfl h

theorem handleHeartbeat_groups (s : Server) (env : ServerEnv) (request : Request)
    (hcommand : request.command = .heartbeat) :
    (s.handleHeartbeat env request).1.groups
      = (s.groupOps env request).foldl (GroupOp.exec memberTimeout) s.groups := by
  simp only [Server.handleHeartbeat, Server.groupOps, hcommand]
  split
  · rfl
  · split
    · rename_i hread
      rw [hread]
      rfl
    · rename_i group memberId hread
      rw [hread]
      by_cases hbeat : ((s.groups.expire memberTimeout env.now).1.heartbeat group memberId
          env.now).2 = true
      · rw [if_pos hbeat]
        rfl
      · rw [if_neg hbeat]
        exact (heartbeat_refused hbeat).symm
    · rename_i hread
      rw [hread]
      rfl

/-- The groups hear of nothing else. -/
theorem dispatch_groups (s : Server) (env : ServerEnv) (request : Request) :
    (s.dispatch env request).1.groups
      = (s.groupOps env request).foldl (GroupOp.exec memberTimeout) s.groups := by
  cases hcommand : request.command with
  | createTopic =>
      cases hread : (readCreateTopic request.payload).result with
      | error status =>
          simp only [Server.dispatch, Server.groupOps, hcommand, Server.handleCreateTopic, hread,
            List.foldl_nil]
      | ok count =>
          simp only [Server.dispatch, Server.groupOps, hcommand, Server.handleCreateTopic, hread]
          split <;> rfl
  | joinGroup =>
      simp only [Server.dispatch, Server.groupOps, hcommand, handleJoinGroup]
      cases (readJoinGroup request.payload).result with
      | error status => rfl
      | ok call =>
          simp only
          split <;> rfl
  | heartbeat =>
      simp only [Server.dispatch, hcommand]
      exact handleHeartbeat_groups s env request hcommand
  | deleteTopic =>
      simp only [Server.dispatch, Server.groupOps, hcommand, Server.handleDeleteTopic]
      split
      · rfl
      · split <;> rfl
  | commitOffset =>
      simp only [Server.dispatch, Server.groupOps, hcommand, Server.handleCommitOffset]
      split
      · rfl
      · split <;> rfl
  | replicaVote =>
      simp only [Server.dispatch, Server.groupOps, hcommand, Server.handleReplicaVote]
      split
      · rfl
      · split <;> rfl
  | listTopic => simp only [Server.dispatch, Server.groupOps, hcommand, List.foldl_nil]
  | metrics => simp only [Server.dispatch, Server.groupOps, hcommand, List.foldl_nil]
  | produce => simp only [Server.dispatch, Server.groupOps, hcommand, List.foldl_nil]
  | produceBatch => simp only [Server.dispatch, Server.groupOps, hcommand, List.foldl_nil]
  | syncGroup => simp only [Server.dispatch, Server.groupOps, hcommand, List.foldl_nil]
  | offsetFetch => simp only [Server.dispatch, Server.groupOps, hcommand, List.foldl_nil]
  | fetch => simp only [Server.dispatch, Server.groupOps, hcommand, List.foldl_nil]
  | replicaFetch => simp only [Server.dispatch, Server.groupOps, hcommand, List.foldl_nil]
  | replicaAppend => simp only [Server.dispatch, Server.groupOps, hcommand, List.foldl_nil]

/-! ## Steps and runs -/

/-- What a request that was accepted can do to the state of a broker, apart from
    its groups and offsets. -/
inductive Broker.Dispatched (b : Broker) (request : Request) : Broker → Prop
  | same : b.Dispatched request b
  | createTopic (saved : Bool)
      (hsaved : ∀ count, (readCreateTopic request.payload).result = .ok count → saved = true →
        topicsSavable (b.createTopic request.topic count).1.listTopics = true) :
      b.Dispatched request (b.handleCreateTopic saved request).1
  | deleteTopic (env : DeleteEnv) : b.Dispatched request (b.handleDeleteTopic env request).1
  | produce (env : ProduceEnv) :
      b.Dispatched request (b.handleProduce env request true true).broker
  | produceBatch (env : BatchEnv) : b.Dispatched request (b.handleProduceBatch env request).broker
  | heartbeat (now : Int) : b.Dispatched request (b.handleReplicaHeartbeat now request).1
  | replicaAppend (env : ReplicaEnv) (hterm : request.hasFlag flagReplicationTerm = true) :
      b.Dispatched request (b.handleReplicaAppend env request).1
  | replicaVote (c : ReplicationCoordinator) : b.Dispatched request { b with coordinator := c }

theorem dispatch_dispatched (s : Server) (env : ServerEnv) (request : Request)
    (happend : request.command = .replicaAppend → request.hasFlag flagReplicationTerm = true) :
    s.broker.Dispatched request (s.dispatch env request).1.broker := by
  cases hcommand : request.command with
  | createTopic =>
      simp only [Server.dispatch, hcommand, Server.handleCreateTopic]
      split
      · exact .same
      · rename_i count hread
        refine .createTopic _ fun count' hread' hsaved => ?_
        rw [hread] at hread'
        cases hread'
        exact (Bool.and_eq_true_iff.mp hsaved).2
  | deleteTopic =>
      simp only [Server.dispatch, hcommand, Server.handleDeleteTopic]
      split
      · exact .deleteTopic _
      · split <;> exact .deleteTopic _
  | produce =>
      simp only [Server.dispatch, hcommand]
      exact .produce env.produce
  | produceBatch =>
      simp only [Server.dispatch, hcommand]
      exact .produceBatch env.batch
  | commitOffset =>
      simp only [Server.dispatch, hcommand, Server.handleCommitOffset]
      split
      · exact .same
      · split <;> exact .same
  | heartbeat =>
      simp only [Server.dispatch, hcommand, Server.handleHeartbeat]
      split
      · exact .heartbeat env.replica.now
      · split
        · exact .same
        · split <;> exact .same
        · exact .same
  | replicaAppend =>
      simp only [Server.dispatch, hcommand]
      exact .replicaAppend env.replica (happend hcommand)
  | replicaVote =>
      simp only [Server.dispatch, hcommand, Server.handleReplicaVote]
      split
      · exact .same
      · split
        · exact .same
        · exact .replicaVote _
  | listTopic => simpa only [Server.dispatch, hcommand] using .same
  | metrics => simpa only [Server.dispatch, hcommand] using .same
  | fetch => simpa only [Server.dispatch, hcommand] using .same
  | joinGroup => simpa only [Server.dispatch, hcommand] using .same
  | syncGroup => simpa only [Server.dispatch, hcommand] using .same
  | offsetFetch => simpa only [Server.dispatch, hcommand] using .same
  | replicaFetch => simpa only [Server.dispatch, hcommand] using .same

theorem Broker.Sound.dispatched {b b' : Broker} (h : b.Sound) {request : Request}
    (hdispatched : b.Dispatched request b') : b'.Sound := by
  cases hdispatched with
  | same => exact h
  | createTopic saved hsaved => exact h.handleCreateTopic saved request hsaved
  | deleteTopic env => exact h.handleDeleteTopic env request
  | produce env => exact (h.handleProduce env request true true).1
  | produceBatch env => exact (h.handleProduceBatch env request).1
  | heartbeat now => exact h.handleReplicaHeartbeat now request
  | replicaAppend env hterm => exact h.handleReplicaAppend env request hterm
  | replicaVote c => exact h.congr rfl rfl rfl

/-- Counting changes nothing else. -/
theorem countRequest_frame (s : Server) (command : Command) :
    (s.countRequest command).broker = s.broker ∧ (s.countRequest command).groups = s.groups := by
  unfold Server.countRequest
  split <;> exact ⟨rfl, rfl⟩

theorem countError_frame (s : Server) (status : Status) :
    (s.countError status).broker = s.broker ∧ (s.countError status).groups = s.groups := by
  unfold Server.countError
  split <;> exact ⟨rfl, rfl⟩

/-- A request gets to its handler. -/
structure Server.Admits (s : Server) (request normalized : Request) : Prop where
  opened : s.opened = true
  accepted : s.broker.acceptRequest s.clientAuthToken request = some normalized
  allowed : request.isReplication = true ∨ s.clientAuthToken = [] ∨
    s.authorizeClientRequest normalized = true

/-- The broker when a request gets to its handler: it was counted. -/
def Server.counted (s : Server) (command : Command) : Server :=
  Server.countRequest { s with requestCount := s.requestCount + 1 } command

theorem counted_frame (s : Server) (command : Command) :
    (s.counted command).broker = s.broker ∧ (s.counted command).groups = s.groups :=
  countRequest_frame { s with requestCount := s.requestCount + 1 } command

/-- The handler answers. -/
theorem Server.Admits.handle_eq {s : Server} {request normalized : Request}
    (h : s.Admits request normalized) (env : ServerEnv) :
    s.handle env request
      = ((((s.counted request.command).dispatch env normalized).1).countError
          ((s.counted request.command).dispatch env normalized).2.status,
        ((s.counted request.command).dispatch env normalized).2) := by
  simp only [Server.handle]
  rw [if_neg (not_not.mpr h.opened), h.accepted]
  refine if_neg ?_
  rw [not_and_or, not_and_or, not_not, not_not, not_not]
  exact h.allowed

/-- What fails the first checks is answered with an error, and with a version at
    most. -/
theorem refuse_refuses (s : Server) (request : Request) :
    (s.refuse request).status ≠ .ok ∧ (s.refuse request).payload.length ≤ 1 := by
  simp only [Server.refuse]
  split
  · exact ⟨nofun, le_rfl⟩
  · split
    · exact ⟨error_status (by decide), Nat.zero_le _⟩
    · split
      · exact ⟨error_status (by decide), Nat.zero_le _⟩
      · split
        · exact ⟨error_status (by decide), Nat.zero_le _⟩
        · refine ⟨error_status ?_, Nat.zero_le _⟩
          split <;> decide

/-- A request is refused with no effect but on the counters, or gets to its
    handler. -/
theorem handle_cases (s : Server) (env : ServerEnv) (request : Request) :
    ((s.handle env request).1.broker = s.broker ∧ (s.handle env request).1.groups = s.groups ∧
      (s.handle env request).2.status ≠ .ok ∧ (s.handle env request).2.payload.length ≤ 1) ∨
    ∃ normalized d, s.broker.acceptRequest s.clientAuthToken request = some normalized ∧
      (request.isReplication = true ∨ s.clientAuthToken = [] ∨
        s.authorizeClientRequest normalized = true) ∧ s.opened = true ∧
      d = Server.countRequest { s with requestCount := s.requestCount + 1 } request.command ∧
      s.handle env request
        = ((d.dispatch env normalized).1.countError (d.dispatch env normalized).2.status,
          (d.dispatch env normalized).2) := by
  simp only [Server.handle]
  split
  · exact Or.inl ⟨rfl, rfl, error_status (by decide), Nat.zero_le _⟩
  · rename_i hopened
    split
    · exact Or.inl ⟨rfl, rfl, refuse_refuses _ request⟩
    · rename_i normalized haccept
      split
      · exact Or.inl ⟨rfl, rfl, error_status (by decide), Nat.zero_le _⟩
      · rename_i hallowed
        refine Or.inr ⟨normalized, _, haccept, ?_, not_not.mp hopened, rfl, rfl⟩
        rw [not_and_or, not_and_or, not_not, not_not, not_not] at hallowed
        exact hallowed

/-- What any request can do to the state of a broker. -/
theorem serve_dispatched (s : Server) (env : ServerEnv) (r : RawRequest) :
    ∃ request, s.broker.Dispatched request (s.serve env r).1.broker := by
  simp only [Server.serve]
  split
  · rename_i command _
    rcases handle_cases s env (r.request command) with
      ⟨hbroker, _⟩ | ⟨normalized, d, haccept, _, _, hd, heq⟩
    · rw [hbroker]
      exact ⟨r.request command, .same⟩
    · rcases countRequest_frame { s with requestCount := s.requestCount + 1 }
        (r.request command).command with ⟨hdbroker, _⟩
      rw [← hd] at hdbroker
      have hdispatched := dispatch_dispatched d env normalized fun hcommand =>
        (acceptRequest_append haccept hcommand).2
      rw [hdbroker] at hdispatched
      refine ⟨normalized, ?_⟩
      rw [heq]
      simp only [(countError_frame _ _).1]
      exact hdispatched
  · simp only [Server.handleUnknown]
    split
    · exact ⟨r.request .metrics, .same⟩
    · split
      · exact ⟨r.request .metrics, .same⟩
      · split <;> exact ⟨r.request .metrics, .same⟩

theorem mem_listTopics (b : Broker) (name : Bytes) (count : UInt32) :
    (name, count) ∈ b.listTopics ↔ b.topics.lookup name = some count := by
  rw [Broker.listTopics, List.mem_mergeSort, ← Option.mem_def, AList.mem_lookup_iff, List.mem_map]
  constructor
  · rintro ⟨entry, hentry, heq⟩
    cases heq
    exact hentry
  · intro hentry
    exact ⟨⟨name, count⟩, hentry, rfl⟩

/-- What is loaded has passed the checks. -/
theorem replaceTopics_valid {topics : List (Bytes × UInt32)} {table table' : Table Bytes UInt32}
    (h : replaceTopics topics table = some table')
    (hvalid : ∀ name count, table.lookup name = some count → ValidTopic name count) :
    (∀ name count, table'.lookup name = some count → ValidTopic name count) ∧
      table'.size ≤ table.size + topics.length := by
  induction topics generalizing table with
  | nil =>
      cases h
      exact ⟨hvalid, le_rfl⟩
  | cons first rest ih =>
      rcases first with ⟨name, count⟩
      rw [replaceTopics] at h
      split at h
      · cases h
      · rename_i hchecks
        rw [not_or, not_or, not_or, not_not] at hchecks
        have hfirst : ValidTopic name count :=
          ⟨hchecks.1, hchecks.2.1, UInt32.not_lt.mp hchecks.2.2.1⟩
        have hnext : ∀ name' count', (table.insert name count).lookup name' = some count' →
            ValidTopic name' count' := by
          intro name' count' hlookup
          by_cases hname : name' = name
          · rw [hname, AList.lookup_insert] at hlookup
            rw [hname, ← Option.some.inj hlookup]
            exact hfirst
          · rw [AList.lookup_insert_ne hname] at hlookup
            exact hvalid name' count' hlookup
        rcases ih h hnext with ⟨hall, hsize⟩
        have hinsert := Table.size_insert_le table name count
        refine ⟨hall, hsize.trans ?_⟩
        rw [List.length_cons]
        omega

namespace Server.Sound

variable {s : Server}

theorem congr (h : s.Sound) {s' : Server} (hbroker : s'.broker = s.broker)
    (hgroups : s'.groups = s.groups) : s'.Sound := by
  refine ⟨?_, ?_⟩
  · rw [hbroker]
    exact h.broker
  · rw [hgroups]
    exact h.groups

theorem start {config : ServerConfig} {storage : StorageEngine} {topics : Table Bytes UInt32}
    {topicsFile : List (Bytes × UInt32)} {offsetsFile : List ConsumerOffset}
    {stateFile : Option Bytes} (hstorage : storage.Regular)
    (htopics : ∀ name count, topics.lookup name = some count → ValidTopic name count)
    (hfew : topics.size ≤ maxTopics) :
    (Server.start config storage topics topicsFile offsetsFile stateFile).Sound := by
  refine ⟨?_, ?_⟩
  · simp only [Server.start]
    split <;> exact ⟨htopics, hfew, fun _ _ hentry => (nomatch hentry), hstorage⟩
  · simp only [Server.start]
    refine List.foldlRecOn (motive := Bounded) _ _ bounded_empty ?_
    rintro c hc ⟨name, count⟩ hmem
    exact GroupOp.exec_bounded memberTimeout hc (.setPartitions name count)
      (htopics name count ((mem_listTopics _ name count).mp hmem)).fits

theorem fresh (config : ServerConfig) : (Server.fresh config).Sound :=
  start (StorageEngine.Regular.of_lookup fun _ _ _ h => nomatch h) (fun _ _ h => nomatch h)
    (Nat.zero_le _)

theorem restart (h : s.Sound) (config : ServerConfig) (kept : Bytes → UInt32 → Nat) :
    (s.restart config kept).Sound := by
  unfold Server.restart
  split
  · exact h
  · rename_i hfew
    split
    · exact h
    · rename_i topics htopics
      rcases replaceTopics_valid htopics (fun _ _ hnone => nomatch hnone) with ⟨hvalid, hsize⟩
      refine start (h.broker.logs.reopened config.storage kept) hvalid (hsize.trans ?_)
      rw [show (∅ : Table Bytes UInt32).size = 0 from rfl, Nat.zero_add]
      exact not_lt.mp hfew

theorem handle (h : s.Sound) (env : ServerEnv) (request : Request) :
    (s.handle env request).1.Sound := by
  rcases handle_cases s env request with
    ⟨hbroker, hgroups, _⟩ | ⟨normalized, d, haccept, _, _, hd, heq⟩
  · exact h.congr hbroker hgroups
  · rcases countRequest_frame { s with requestCount := s.requestCount + 1 } request.command with
      ⟨hdbroker, hdgroups⟩
    rw [← hd] at hdbroker hdgroups
    have hd' : d.Sound := h.congr hdbroker hdgroups
    rcases countError_frame (d.dispatch env normalized).1 (d.dispatch env normalized).2.status with
      ⟨hbroker, hgroups⟩
    rw [heq]
    refine ⟨?_, ?_⟩
    · rw [hbroker]
      exact hd'.broker.dispatched (dispatch_dispatched d env normalized fun hcommand =>
        (acceptRequest_append haccept hcommand).2)
    · rw [hgroups, dispatch_groups]
      exact foldl_exec_bounded memberTimeout hd'.groups _ (groupOps_fit d env normalized)

theorem handleUnknown (h : s.Sound) (request : Request) : (s.handleUnknown request).1.Sound := by
  simp only [Server.handleUnknown]
  split
  · exact h.congr rfl rfl
  · split
    · exact h.congr rfl rfl
    · split <;> exact h.congr rfl rfl

theorem serve (h : s.Sound) (env : ServerEnv) (r : RawRequest) : (s.serve env r).1.Sound := by
  simp only [Server.serve]
  split
  · exact h.handle env _
  · exact h.handleUnknown _

theorem exec (h : s.Sound) (event : ServerEvent) : (event.exec s).Sound := by
  cases event with
  | request env r => exact h.serve env r
  | operate op => exact ⟨h.broker.congr rfl rfl rfl, h.groups⟩
  | heartbeatRound env => exact ⟨h.broker.heartbeatRound env, h.groups⟩
  | pull topic partition payload ios =>
      simp only [ServerEvent.exec, Server.pull]
      split
      · split
        · exact ⟨h.broker.applyFetched ios topic partition _, h.groups⟩
        · exact h
      · exact h
  | cleanup now =>
      exact ⟨⟨h.broker.topics, h.broker.few, h.broker.cached, h.broker.logs.cleanup now⟩, h.groups⟩
  | restart config kept => exact h.restart config kept

end Server.Sound

/-- Whatever has happened to a broker, it is sound. -/
theorem run_sound (config : ServerConfig) (events : List ServerEvent) :
    ((Server.fresh config).run events).Sound := by
  refine List.foldlRecOn (motive := Server.Sound) _ _ (Server.Sound.fresh config) ?_
  intro s hs event _
  exact hs.exec event

end MqBroker
