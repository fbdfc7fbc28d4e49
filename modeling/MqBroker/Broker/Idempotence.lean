import MqBroker.Broker.Produce

/-!
# Idempotent Producing

A message with producer metadata is known by its topic, its producer and its
sequence number, and a producer that got no answer sends it again. What the
cache of responses promises is that the message is in the log once and that
every answer names the same place.

A run is a sequence of single and batch requests with their environments. Its
journal keeps, besides the broker, every message that came into a partition
with the key it was sent under, and every successful answer. `Once` is the
invariant: the journal explains the logs, no key is in it twice, every cached
response speaks of a journalled message, and a journalled message is still in
the cache unless its lifetime is over. The last point is where the clock comes
in. A response is dropped by whichever request comes after its expiry, so a
retry inside the lifetime of the first attempt still finds it.

The promise is not kept when a message is stored and its request then fails,
because only successful responses are cached. That happens when the sync of
the log fails, and when a request waits for the replicas and its replication
misses the quorum. `safeAppend` says that neither happens.

## Main definitions

* `ProducerKey`: What a message with metadata is known by.
* `ProducerCall`, `Journal`, `runProducer`: Runs of produce requests.
* `Timely`: Every attempt falls into the lifetime of the first.
* `SafeRun`: No stored message of the run is reported as failed.
* `Once`: The invariant.

## Theorems

* `handleProduce_once`: One message keeps the invariant.
* `produceEntries_once`: So does the loop over a batch.
* `produce_once`: In safe, timely runs a message is stored once and all its
  answers agree.
* `produce_twice`: Without replicas every attempt stores the message again.
-/

namespace MqBroker

/-- What a message with producer metadata is known by. -/
structure ProducerKey where
  topic : Bytes
  producerId : UInt64
  sequence : UInt64
deriving DecidableEq, Repr

/-- The cache key of a message. -/
def ProducerKey.cacheKey (k : ProducerKey) : Bytes :=
  idempotencyKey k.topic k.producerId k.sequence

/-- The message a produce request with metadata is about. -/
def Request.producerKey (r : Request) : ProducerKey :=
  ⟨r.topic, get64 r.payload 0, get64 r.payload 8⟩

theorem ProducerKey.cacheKey_injective (k l : ProducerKey) (h : k.cacheKey = l.cacheKey) :
    k = l := by
  rcases k with ⟨t, p, s⟩
  rcases l with ⟨t', p', s'⟩
  rcases idempotencyKey_injective t t' p p' s s' h with ⟨rfl, rfl, rfl⟩
  rfl

/-- A message that came into a partition, with the key it was sent under. -/
structure StoredMessage where
  key : ProducerKey
  partition : UInt32
  message : Message
deriving DecidableEq, Repr

/-- A successful answer: the place it names for a message. -/
structure Answer where
  key : ProducerKey
  partition : UInt32
  offset : UInt64
deriving DecidableEq, Repr

/-- A broker with the messages stored and the answers given so far. -/
structure Journal where
  broker : Broker
  stored : List StoredMessage := []
  answers : List Answer := []

/-- A request of an idempotent producer, with what the outside does to it. -/
inductive ProducerCall
  | produce (env : ProduceEnv) (request : Request)
  | batch (env : BatchEnv) (request : Request)

/-- The request of a call. -/
def ProducerCall.request : ProducerCall → Request
  | .produce _ r => r
  | .batch _ r => r

/-- The answers in the payload of a batch response: a partition and an offset
    for each item. -/
def batchAnswers (topic : Bytes) (producerId : UInt64) (payload : Bytes) :
    Nat → Nat → UInt64 → List Answer
  | 0, _, _ => []
  | count + 1, position, sequence =>
      ⟨⟨topic, producerId, sequence⟩, get32 payload position, get64 payload (position + 4)⟩
      :: batchAnswers topic producerId payload count (position + 12) (sequence + 1)

/-- The journal entry of a message stored for a request. -/
def journalEntry (x : Request × UInt32 × Message) : StoredMessage :=
  ⟨x.1.producerKey, x.2.1, x.2.2⟩

/-- The journal after a call. -/
def ProducerCall.exec (s : Journal) : ProducerCall → Journal
  | .produce env r =>
      let result := s.broker.handleProduce env r
      { broker := result.broker
        stored := s.stored ++ result.stored.toList.map (fun m => journalEntry (r, m))
        answers := if result.response.status = .ok then
            s.answers ++ [⟨r.producerKey, get32 result.response.payload 0,
              get64 result.response.payload 4⟩]
          else s.answers }
  | .batch env r =>
      let result := s.broker.handleProduceBatch env r
      { broker := result.broker
        stored := s.stored ++ result.stored.map journalEntry
        answers := if result.response.status = .ok then
            match batchHeader r.payload with
            | none => s.answers
            | some (producerId, first, count) =>
                s.answers ++ batchAnswers r.topic producerId result.response.payload count 4 first
          else s.answers }

/-- The journal after a sequence of calls. -/
def runProducer (b : Broker) (calls : List ProducerCall) : Journal :=
  calls.foldl ProducerCall.exec { broker := b }

/-! ## Attempts and their times -/

/-- The looks at the cache for the items of a batch, at one time. -/
def lookupAttempts (topic : Bytes) (producerId : UInt64) (now : Int) :
    Nat → UInt64 → List (ProducerKey × Int)
  | 0, _ => []
  | count + 1, sequence =>
      (⟨topic, producerId, sequence⟩, now)
      :: lookupAttempts topic producerId now count (sequence + 1)

/-- The looks at the cache by the calls for the items of a batch. -/
def callAttempts (topic : Bytes) (producerId : UInt64) (calls : Nat → ProduceEnv) :
    Nat → Nat → UInt64 → List (ProducerKey × Int)
  | 0, _, _ => []
  | count + 1, index, sequence =>
      (⟨topic, producerId, sequence⟩, (calls index).cacheNow)
      :: callAttempts topic producerId calls count (index + 1) (sequence + 1)

/-- The attempts of a call, with their times. The time of a call that a batch
    does not get to make is never read. -/
def ProducerCall.attempts : ProducerCall → List (ProducerKey × Int)
  | .produce env r => [(r.producerKey, env.cacheNow)]
  | .batch env r =>
      match batchHeader r.payload with
      | none => []
      | some (producerId, first, count) =>
          lookupAttempts r.topic producerId env.lookupNow count first ++
            callAttempts r.topic producerId env.calls count 0 first

/-- The clock does not go back, and a later attempt falls into the lifetime
    of an earlier one for the same message. -/
def InTime (a b : ProducerKey × Int) : Prop :=
  a.2 ≤ b.2 ∧ (a.1 = b.1 → b.2 < a.2 + cacheLifetime)

instance (a b : ProducerKey × Int) : Decidable (InTime a b) :=
  inferInstanceAs (Decidable (_ ∧ _))

/-- A response is cached no earlier than the cache was consulted. -/
def ProducerCall.OrderedClock : ProducerCall → Prop
  | .produce env _ => env.cacheNow ≤ env.doneNow
  | .batch env _ => ∀ i, (env.calls i).cacheNow ≤ (env.calls i).doneNow

/-- All attempts of a run are handled within the lifetime of the first. -/
structure Timely (calls : List ProducerCall) : Prop where
  attempts : (calls.flatMap ProducerCall.attempts).Pairwise InTime
  clocks : ∀ call ∈ calls, call.OrderedClock

/-! ## Safe runs -/

/-- If the call admits a message, it is safe to append it. -/
def SafeCall (b : Broker) (env : ProduceEnv) (request : Request) (rate quota : Bool) : Prop :=
  ∀ b' partition body, b.admitProduce env request rate quota = (b', .ok (partition, body)) →
    b'.safeAppend env request partition body

/-- Every call the loop over a batch makes is safe. -/
def SafeEntries (calls : Nat → ProduceEnv) : List BatchEntry → Nat → Broker → Prop
  | [], _, _ => True
  | .cached _ :: rest, index, b => SafeEntries calls rest (index + 1) b
  | .pending r :: rest, index, b =>
      SafeCall b (calls index) r false false ∧
        ((b.handleProduce (calls index) r false false).response.status = .ok →
          SafeEntries calls rest (index + 1) (b.handleProduce (calls index) r false false).broker)

/-- Every call of `HandleProduce` that a request leads to is safe. -/
def ProducerCall.Safe (b : Broker) : ProducerCall → Prop
  | .produce env r => SafeCall b env r true true
  | .batch env r => ∀ b' entries, b.admitBatch env r = (b', .ok entries) →
      SafeEntries env.calls entries 0 b'

/-- Every request of a run is safe in the state it meets. -/
def SafeRun : Journal → List ProducerCall → Prop
  | _, [] => True
  | s, call :: rest => call.Safe s.broker ∧ SafeRun (call.exec s) rest

instance (b : Broker) (env : ProduceEnv) (request : Request) (partition : UInt32)
    (body : ProduceBody) : Decidable (b.safeAppend env request partition body) :=
  inferInstanceAs (Decidable (_ ≠ none → _ ∧ (_ → _ ≠ [] ∧ _ ∧ _ ∧ _ ∧ _)))

instance (b : Broker) (env : ProduceEnv) (request : Request) (rate quota : Bool) :
    Decidable (SafeCall b env request rate quota) :=
  match h : b.admitProduce env request rate quota with
  | (_, .error _) => .isTrue (by
      intro b' partition body h'
      rw [h] at h'
      cases h')
  | (admitted, .ok (partition, body)) =>
      decidable_of_iff (admitted.safeAppend env request partition body) (by
        unfold SafeCall
        rw [h]
        constructor
        · rintro hsafe b' partition' body' ⟨⟩
          exact hsafe
        · intro hsafe
          exact hsafe _ _ _ rfl)

instance decidableSafeEntries (calls : Nat → ProduceEnv) :
    ∀ entries index b, Decidable (SafeEntries calls entries index b)
  | [], _, _ => .isTrue trivial
  | .cached _ :: rest, index, b => decidableSafeEntries calls rest (index + 1) b
  | .pending r :: rest, index, b =>
      have := decidableSafeEntries calls rest (index + 1)
        (b.handleProduce (calls index) r false false).broker
      inferInstanceAs (Decidable (_ ∧ (_ → _)))

instance (b : Broker) : ∀ call : ProducerCall, Decidable (call.Safe b)
  | .produce env r => inferInstanceAs (Decidable (SafeCall b env r true true))
  | .batch env r =>
      match h : b.admitBatch env r with
      | (_, .error _) => .isTrue (by
          intro b' entries h'
          rw [h] at h'
          cases h')
      | (admitted, .ok entries) => decidable_of_iff (SafeEntries env.calls entries 0 admitted) (by
          simp only [ProducerCall.Safe, h]
          constructor
          · rintro hsafe b' entries' ⟨⟩
            exact hsafe
          · intro hsafe
            exact hsafe _ _ rfl)

instance decidableSafeRun : ∀ s calls, Decidable (SafeRun s calls)
  | _, [] => .isTrue trivial
  | s, call :: rest =>
      have := decidableSafeRun (call.exec s) rest
      inferInstanceAs (Decidable (_ ∧ _))

/-! ## The invariant -/

/-- The journalled messages of one partition. -/
def messagesFor (stored : List StoredMessage) (topic : Bytes) (partition : UInt32) : List Message :=
  (stored.filter (fun r => r.key.topic = topic ∧ r.partition = partition)).map
    StoredMessage.message

/-- A response that names the place of a journalled message. -/
def Names (stored : List StoredMessage) (k : ProducerKey) (payload : Bytes) : Prop :=
  ∃ r ∈ stored, r.key = k ∧ payload = put32 r.partition ++ put64 r.message.offset

/-- The journal of a run that started with the logs of `b₀`, after a list of
    attempts. -/
structure Once (b₀ b : Broker) (stored : List StoredMessage) (past : List (ProducerKey × Int)) :
    Prop where
  log : ∀ t n, (b.storage.partition t n).messages
    = (b₀.storage.partition t n).messages ++ messagesFor stored t n
  unique : (stored.map StoredMessage.key).Nodup
  cached : ∀ key e, b.idempotencyCache.lookup key = some e →
    ∃ k, k.cacheKey = key ∧ e.response.status = .ok ∧ Names stored k e.response.payload
  kept : ∀ r ∈ stored, ∃ t, (r.key, t) ∈ past ∧
    ((∃ e, b.idempotencyCache.lookup r.key.cacheKey = some e ∧ t + cacheLifetime ≤ e.expiresAt) ∨
      ∃ a ∈ past, t + cacheLifetime ≤ a.2)

section Step

variable {b₀ b : Broker} {stored : List StoredMessage} {past : List (ProducerKey × Int)}

theorem Names.mono {new : List StoredMessage} {k : ProducerKey} {payload : Bytes}
    (h : Names stored k payload) : Names (stored ++ new) k payload := by
  rcases h with ⟨r, hr, hkey, hpayload⟩
  exact ⟨r, List.mem_append_left new hr, hkey, hpayload⟩

theorem Once.later (h : Once b₀ b stored past) (more : List (ProducerKey × Int)) :
    Once b₀ b stored (past ++ more) := by
  refine ⟨h.log, h.unique, h.cached, ?_⟩
  intro r hr
  rcases h.kept r hr with ⟨t, ht, hin | ⟨a, ha, hle⟩⟩
  · exact ⟨t, List.mem_append_left more ht, Or.inl hin⟩
  · exact ⟨t, List.mem_append_left more ht, Or.inr ⟨a, List.mem_append_left more ha, hle⟩⟩

/-- Dropping the expired responses at the time of an attempt. -/
theorem Once.evict (h : Once b₀ b stored past) (a : ProducerKey × Int) (ha : a ∈ past) :
    Once b₀ (b.evictExpired a.2) stored past := by
  refine ⟨h.log, h.unique, ?_, ?_⟩
  · intro key e he
    rw [Broker.evictExpired, Table.lookup_filterValues, Option.filter_eq_some_iff] at he
    exact h.cached key e he.1
  · intro r hr
    rcases h.kept r hr with ⟨t, ht, ⟨e, he, hle⟩ | hover⟩
    · by_cases hlive : e.expiresAt > a.2
      · refine ⟨t, ht, Or.inl ⟨e, ?_, hle⟩⟩
        rw [Broker.evictExpired, Table.lookup_filterValues, he]
        exact Option.filter_some_pos (decide_eq_true hlive)
      · -- The response is dropped, and the attempt is the proof that its time is over.
        exact ⟨t, ht, Or.inr ⟨a, ha, hle.trans (not_lt.mp hlive)⟩⟩
    · exact ⟨t, ht, Or.inr hover⟩

/-- A message that is looked up in time and not found was never stored. -/
theorem Once.missing (h : Once b₀ b stored past) (k : ProducerKey) (now : Int)
    (htime : ∀ a ∈ past, InTime a (k, now))
    (hmiss : (b.evictExpired now).idempotencyCache.lookup k.cacheKey = none) :
    ∀ r ∈ stored, r.key ≠ k := by
  rintro r hr rfl
  rcases h.kept r hr with ⟨t, ht, ⟨e, he, hle⟩ | ⟨a, ha, hle⟩⟩
  · have hnow := (htime _ ht).2 rfl
    rw [Broker.evictExpired, Table.lookup_filterValues, he, Option.filter_some_pos] at hmiss
    · exact Option.some_ne_none e hmiss
    · exact decide_eq_true (lt_of_lt_of_le hnow hle)
  · have hnow := (htime _ ht).2 rfl
    have hlate := (htime a ha).1
    exact absurd (hle.trans hlate) (not_le.mpr hnow)

theorem messagesFor_append (stored new : List StoredMessage) (t : Bytes) (n : UInt32) :
    messagesFor (stored ++ new) t n = messagesFor stored t n ++ messagesFor new t n := by
  simp only [messagesFor, List.filter_append, List.map_append]

/-- A broker with the same messages and the same cache has the same journal. -/
theorem Once.congr {b' : Broker} (h : Once b₀ b stored past)
    (hsame : SameMessages b.storage b'.storage)
    (hcache : b'.idempotencyCache = b.idempotencyCache) : Once b₀ b' stored past := by
  refine ⟨fun t n => ?_, h.unique, ?_, ?_⟩
  · rw [(hsame t n).1, h.log]
  · rw [hcache]
    exact h.cached
  · rw [hcache]
    exact h.kept

/-- A new message is stored, answered and remembered. -/
theorem Once.store {b' : Broker} (h : Once b₀ b stored past) (k : ProducerKey) (now expires : Int)
    (hnow : (k, now) ∈ past) (hexpires : now + cacheLifetime ≤ expires)
    (hnew : ∀ r ∈ stored, r.key ≠ k) (partition : UInt32) (m : Message)
    (hstored : Stored b.storage b'.storage k.topic partition m) (response : Response)
    (hok : response.status = .ok) (hpayload : response.payload = put32 partition ++ put64 m.offset)
    (hcache : b'.idempotencyCache = b.idempotencyCache.insert k.cacheKey ⟨response, expires⟩) :
    Once b₀ b' (stored ++ [⟨k, partition, m⟩]) past := by
  have hother : ∀ r ∈ stored, r.key.cacheKey ≠ k.cacheKey :=
    fun r hr heq => hnew r hr (ProducerKey.cacheKey_injective _ _ heq)
  refine ⟨?_, ?_, ?_, ?_⟩
  · intro t n
    rw [messagesFor_append]
    by_cases hplace : (t, n) = (k.topic, partition)
    · rcases Prod.mk.inj hplace with ⟨rfl, rfl⟩
      rw [hstored.messages, h.log, List.append_assoc]
      simp [messagesFor]
    · have hnone : messagesFor [⟨k, partition, m⟩] t n = [] := by
        simp only [messagesFor, List.map_eq_nil_iff, List.filter_eq_nil_iff, List.mem_singleton,
          decide_eq_true_eq, forall_eq]
        rintro ⟨rfl, rfl⟩
        exact hplace rfl
      rw [hstored.others t n hplace, h.log, hnone, List.append_nil]
  · rw [List.map_append, List.nodup_append]
    refine ⟨h.unique, List.nodup_singleton _, ?_⟩
    rintro x hx y hy rfl
    rcases List.mem_map.mp hx with ⟨r, hr, rfl⟩
    exact hnew r hr (List.mem_singleton.mp hy)
  · intro key e he
    rw [hcache] at he
    by_cases hkey : key = k.cacheKey
    · rw [hkey, AList.lookup_insert] at he
      rw [← Option.some.inj he]
      exact ⟨k, hkey.symm, hok, _, List.mem_append_right _ List.mem_cons_self, rfl, hpayload⟩
    · rw [AList.lookup_insert_ne hkey] at he
      rcases h.cached key e he with ⟨k', hk', hstatus, hnames⟩
      exact ⟨k', hk', hstatus, hnames.mono⟩
  · intro r hr
    rw [hcache]
    rcases List.mem_append.mp hr with hold | hlast
    · rcases h.kept r hold with ⟨t, ht, ⟨e, he, hle⟩ | hover⟩
      · refine ⟨t, ht, Or.inl ⟨e, ?_, hle⟩⟩
        rw [AList.lookup_insert_ne (hother r hold), he]
      · exact ⟨t, ht, Or.inr hover⟩
    · rw [List.mem_singleton.mp hlast]
      exact ⟨now, hnow, Or.inl ⟨_, AList.lookup_insert _, hexpires⟩⟩

/-- One call keeps the invariant, and its answer names a journalled message. -/
theorem handleProduce_once (h : Once b₀ b stored past) (env : ProduceEnv) (r : Request)
    (rate quota : Bool) (hmeta : r.hasFlag flagProducerMetadata = true)
    (htime : ∀ a ∈ past, InTime a (r.producerKey, env.cacheNow))
    (hclock : env.cacheNow ≤ env.doneNow) (hsafe : SafeCall b env r rate quota) :
    Once b₀ (b.handleProduce env r rate quota).broker
        (stored ++ (b.handleProduce env r rate quota).stored.toList.map (fun m =>
          journalEntry (r, m))) (past ++ [(r.producerKey, env.cacheNow)]) ∧
      ((b.handleProduce env r rate quota).response.status = .ok →
        Names (stored ++ (b.handleProduce env r rate quota).stored.toList.map (fun m =>
          journalEntry (r, m))) r.producerKey (b.handleProduce env r rate quota).response.payload) := by
  have hlater := h.later [(r.producerKey, env.cacheNow)]
  have hnow : (r.producerKey, env.cacheNow) ∈ past ++ [(r.producerKey, env.cacheNow)] :=
    List.mem_append_right past List.mem_cons_self
  have hevicted := hlater.evict _ hnow
  rcases admitProduce_cases b env r rate quota hmeta with
    ⟨hb, reply, hreply, hstatus⟩ | ⟨entry, hentry, hadmits⟩ | ⟨hmiss, ⟨windows, hb⟩, hrest⟩
  · -- The request is turned away before it looks at the cache.
    have hadmits : b.admitProduce env r rate quota = (b, .error reply) := Prod.ext hb hreply
    simp only [Broker.handleProduce, hadmits, Option.toList_none, List.map_nil, List.append_nil]
    exact ⟨hlater, fun hok => absurd hok hstatus⟩
  · -- A cached response belongs to the message that is asked for.
    simp only [Broker.handleProduce, hadmits, Option.toList_none, List.map_nil, List.append_nil]
    refine ⟨hevicted, fun _ => ?_⟩
    rcases hevicted.cached _ entry hentry with ⟨k, hk, _, hnames⟩
    rw [show k = r.producerKey from ProducerKey.cacheKey_injective _ _ hk] at hnames
    exact hnames
  · have hrouted : Once b₀ (b.admitProduce env r rate quota).1 stored
        (past ++ [(r.producerKey, env.cacheNow)]) := by
      rw [hb]
      exact hevicted.congr (.refl _) rfl
    rcases hrest with ⟨reply, hreply, hstatus⟩ | ⟨partition, body, hok⟩
    · have hadmits : b.admitProduce env r rate quota
          = ((b.admitProduce env r rate quota).1, .error reply) := Prod.ext rfl hreply
      simp only [Broker.handleProduce]
      rw [hadmits]
      simp only [Option.toList_none, List.map_nil, List.append_nil]
      exact ⟨hrouted, fun hok => absurd hok hstatus⟩
    · have hadmits : b.admitProduce env r rate quota
          = ((b.admitProduce env r rate quota).1, .ok (partition, body)) := Prod.ext rfl hok
      have happend := hsafe _ partition body hadmits
      simp only [Broker.handleProduce]
      rw [hadmits]
      simp only
      generalize (b.admitProduce env r rate quota).1 = d at hrouted happend
      rcases settleProduce_cases d env r partition body with
        ⟨hnone, hstatus, hsame, hcache⟩ | ⟨m, hsome, hstored, hsettled⟩
      · rw [hnone]
        simp only [Option.toList_none, List.map_nil, List.append_nil]
        exact ⟨hrouted.congr hsame hcache, fun hok => absurd hok hstatus⟩
      · rcases hsettled happend with ⟨hresponse, hcache⟩
        rw [hsome]
        simp only [Option.toList_some, List.map_cons, List.map_nil]
        rw [Broker.remember, if_pos hmeta] at hcache
        refine ⟨hrouted.store r.producerKey env.cacheNow (env.doneNow + cacheLifetime) hnow
          (by omega) (h.missing _ _ htime hmiss) partition m hstored _ rfl rfl hcache, fun _ => ?_⟩
        rw [hresponse]
        exact ⟨_, List.mem_append_right stored List.mem_cons_self, rfl, rfl⟩

end Step

/-! ## Batches -/

/-- The entries of a batch fit its items, from a sequence number on: a cached
    response names the message of its item, and a pending request is about
    it. -/
def EntriesFor (stored : List StoredMessage) (topic : Bytes) (producerId : UInt64) :
    UInt64 → List BatchEntry → Prop
  | _, [] => True
  | sequence, .cached response :: rest =>
      Names stored ⟨topic, producerId, sequence⟩ response.payload ∧
        EntriesFor stored topic producerId (sequence + 1) rest
  | sequence, .pending r :: rest =>
      (r.producerKey = ⟨topic, producerId, sequence⟩ ∧ r.hasFlag flagProducerMetadata = true) ∧
        EntriesFor stored topic producerId (sequence + 1) rest

/-- The cached responses found for the items of a batch name their messages. -/
def FoundFor (stored : List StoredMessage) (topic : Bytes) (producerId : UInt64) :
    UInt64 → List (Option Response) → Prop
  | _, [] => True
  | sequence, found :: rest =>
      (∀ response, found = some response →
        Names stored ⟨topic, producerId, sequence⟩ response.payload) ∧
        FoundFor stored topic producerId (sequence + 1) rest

/-- The items of a batch response name the messages of the batch. -/
def ItemsFor (stored : List StoredMessage) (topic : Bytes) (producerId : UInt64) :
    UInt64 → List Bytes → Prop
  | _, [] => True
  | sequence, item :: rest =>
      Names stored ⟨topic, producerId, sequence⟩ item ∧
        ItemsFor stored topic producerId (sequence + 1) rest

theorem EntriesFor.mono {stored : List StoredMessage} (new : List StoredMessage) {topic : Bytes}
    {producerId : UInt64} {entries : List BatchEntry} {sequence : UInt64}
    (h : EntriesFor stored topic producerId sequence entries) :
    EntriesFor (stored ++ new) topic producerId sequence entries := by
  induction entries generalizing sequence with
  | nil => trivial
  | cons entry rest ih =>
      cases entry with
      | cached response => exact ⟨h.1.mono, ih h.2⟩
      | pending r => exact ⟨h.1, ih h.2⟩

/-- A flag that was just set is set. -/
theorem or_and_flag (x flag : UInt16) : (x ||| flag) &&& flag = flag := by
  apply UInt16.toBitVec_inj.mp
  ext i hi
  simp only [UInt16.toBitVec_and, UInt16.toBitVec_or, BitVec.getElem_and, BitVec.getElem_or]
  cases flag.toBitVec[i] <;> simp only [Bool.or_false, Bool.or_true, Bool.and_false, Bool.and_true]

/-- The request for an item is about the item and carries metadata. -/
theorem singleRequest_producerKey (request : Request) (producerId sequence : UInt64)
    (key value : Bytes) :
    (singleRequest request producerId sequence key value).producerKey
        = ⟨request.topic, producerId, sequence⟩ ∧
      (singleRequest request producerId sequence key value).hasFlag flagProducerMetadata = true := by
  constructor
  · simp only [Request.producerKey, singleRequest, get64_put64]
    rw [get64_append_right _ _ _ (by rw [length_put64]), length_put64, Nat.sub_self, get64_put64]
  · refine decide_eq_true ?_
    change ((request.flags &&& ~~~flagProducerMetadata) ||| flagProducerMetadata)
      &&& flagProducerMetadata ≠ 0
    rw [or_and_flag]
    decide

/-- The parsed items of a batch fit it, if the cached responses do. -/
theorem prepareBatch_entries (stored : List StoredMessage) (request : Request)
    (producerId : UInt64) (found : List (Option Response)) (sequence : UInt64) (position : Nat)
    (newBytes : UInt64) (entries : List BatchEntry) (rest : Nat × UInt64)
    (hfound : FoundFor stored request.topic producerId sequence found)
    (h : prepareBatch request producerId found sequence position newBytes = .ok (entries, rest)) :
    EntriesFor stored request.topic producerId sequence entries ∧
      entries.length = found.length := by
  induction found generalizing sequence position newBytes entries rest with
  | nil =>
      simp only [prepareBatch, Except.ok.injEq, Prod.mk.injEq] at h
      rw [← h.1]
      exact ⟨trivial, rfl⟩
  | cons first found ih =>
      rcases prepareBatch_cons request producerId first found sequence position newBytes with
        ⟨status, herror, _⟩ | ⟨entry, next, bytes, tail, htail, hok, hentry⟩
      · rw [herror] at h
        cases h
      · rw [hok] at h
        rcases ih _ _ _ tail.1 tail.2 hfound.2 htail with ⟨hentries, hlen⟩
        rw [← (Prod.mk.inj (Except.ok.inj h)).1]
        rcases hentry with ⟨response, hfirst, rfl, _⟩ | ⟨_, key, value, rfl⟩
        · exact ⟨⟨hfound.1 response hfirst, hentries⟩, congrArg Nat.succ hlen⟩
        · exact ⟨⟨singleRequest_producerKey _ _ _ _ _, hentries⟩, congrArg Nat.succ hlen⟩

/-- What the cache has for the items of a batch names their messages. -/
theorem lookupBatch_found {b₀ b : Broker} {stored : List StoredMessage}
    {past : List (ProducerKey × Int)} (h : Once b₀ b stored past) (request : Request)
    (producerId : UInt64) (count : Nat) (sequence : UInt64) :
    FoundFor stored request.topic producerId sequence
        (b.lookupBatch request producerId count sequence) ∧
      (b.lookupBatch request producerId count sequence).length = count := by
  induction count generalizing sequence with
  | zero => exact ⟨trivial, rfl⟩
  | succ count ih =>
      rcases ih (sequence + 1) with ⟨hrest, hlen⟩
      refine ⟨⟨?_, hrest⟩, ?_⟩
      · intro response hresponse
        rcases Option.map_eq_some_iff.mp hresponse with ⟨entry, hentry, rfl⟩
        rcases h.cached _ entry hentry with ⟨k, hk, _, hnames⟩
        rw [show k = ⟨request.topic, producerId, sequence⟩ from
          ProducerKey.cacheKey_injective _ _ hk] at hnames
        exact hnames
      · rw [Broker.lookupBatch, List.length_cons, hlen]

/-- The loop over a batch only adds to what was stored. -/
theorem produceEntries_log (request : Request) (calls : Nat → ProduceEnv)
    (entries : List BatchEntry) (index : Nat) (b : Broker) (payload : Bytes)
    (log : List (Request × UInt32 × Message)) :
    ∃ new, (Broker.produceEntries request calls entries index b payload log).stored
      = log ++ new := by
  induction entries generalizing index b payload log with
  | nil => exact ⟨[], (List.append_nil log).symm⟩
  | cons entry rest ih =>
      cases entry with
      | cached response => exact ih _ _ _ _
      | pending r =>
          simp only [Broker.produceEntries]
          split
          · exact ⟨_, rfl⟩
          · rcases ih (index + 1) (b.handleProduce (calls index) r false false).broker
              (payload ++ (b.handleProduce (calls index) r false false).response.payload)
              (log ++ (b.handleProduce (calls index) r false false).stored.toList.map
                (fun m => (r, m))) with ⟨new, hnew⟩
            exact ⟨_, hnew.trans (List.append_assoc _ _ _)⟩

theorem Names.log {stored : List StoredMessage} {log log' : List (Request × UInt32 × Message)}
    {k : ProducerKey} {payload : Bytes} (h : Names (stored ++ log.map journalEntry) k payload)
    (hlog : ∃ new, log' = log ++ new) : Names (stored ++ log'.map journalEntry) k payload := by
  rcases hlog with ⟨new, rfl⟩
  rw [List.map_append, ← List.append_assoc]
  exact h.mono

/-- The loop over a batch keeps the invariant, and the items of a successful
    response name their messages. -/
theorem produceEntries_once {b₀ : Broker} (request : Request) (topic : Bytes) (producerId : UInt64)
    (calls : Nat → ProduceEnv) (hclock : ∀ i, (calls i).cacheNow ≤ (calls i).doneNow)
    (entries : List BatchEntry) (index : Nat) (sequence : UInt64) (b : Broker) (payload : Bytes)
    (log : List (Request × UInt32 × Message)) (stored : List StoredMessage)
    (past : List (ProducerKey × Int)) (h : Once b₀ b (stored ++ log.map journalEntry) past)
    (hentries : EntriesFor (stored ++ log.map journalEntry) topic producerId sequence entries)
    (htime : (past ++ callAttempts topic producerId calls entries.length index
      sequence).Pairwise InTime)
    (hsafe : SafeEntries calls entries index b) :
    Once b₀ (Broker.produceEntries request calls entries index b payload log).broker
        (stored ++ (Broker.produceEntries request calls entries index b payload log).stored.map
          journalEntry)
        (past ++ callAttempts topic producerId calls entries.length index sequence) ∧
      ((Broker.produceEntries request calls entries index b payload log).response.status = .ok →
        ∃ items : List Bytes, items.length = entries.length ∧
          (Broker.produceEntries request calls entries index b payload log).response.payload
            = payload ++ items.flatten ∧
          ItemsFor (stored ++ (Broker.produceEntries request calls entries index b payload
            log).stored.map journalEntry) topic producerId sequence items) := by
  induction entries generalizing index sequence b payload log past with
  | nil =>
      simp only [Broker.produceEntries, List.length_nil, callAttempts, List.append_nil]
      exact ⟨h, fun _ => ⟨[], rfl, by rw [List.flatten_nil, List.append_nil]; rfl, trivial⟩⟩
  | cons entry rest ih =>
      have hattempts : past ++ callAttempts topic producerId calls (entry :: rest).length index
          sequence = (past ++ [(⟨topic, producerId, sequence⟩, (calls index).cacheNow)]) ++
            callAttempts topic producerId calls rest.length (index + 1) (sequence + 1) := by
        rw [List.append_assoc]
        rfl
      rw [hattempts] at htime ⊢
      cases entry with
      | cached response =>
          simp only [Broker.produceEntries]
          rcases ih (index + 1) (sequence + 1) b (payload ++ response.payload) log _ (h.later _)
            hentries.2 htime hsafe with ⟨honce, hanswer⟩
          refine ⟨honce, fun hok => ?_⟩
          rcases hanswer hok with ⟨items, hlen, hpayload, hitems⟩
          refine ⟨response.payload :: items, congrArg Nat.succ hlen, ?_, ?_, hitems⟩
          · rw [hpayload, List.flatten_cons, List.append_assoc]
          · exact hentries.1.log (produceEntries_log _ _ _ _ _ _ _)
      | pending r =>
          rcases hentries with ⟨⟨hkey, hmeta⟩, hrest⟩
          have hcall : ∀ a ∈ past, InTime a (r.producerKey, (calls index).cacheNow) := by
            intro a ha
            rw [hkey]
            exact (List.pairwise_append.mp (List.pairwise_append.mp htime).1).2.2 a ha _
              List.mem_cons_self
          rcases handleProduce_once h (calls index) r false false hmeta hcall (hclock index)
            hsafe.1 with ⟨honce, hnames⟩
          -- The message of the item joins the log of the batch.
          have hlog : stored ++ log.map journalEntry ++ (b.handleProduce (calls index) r false
              false).stored.toList.map (fun m => journalEntry (r, m))
              = stored ++ (log ++ (b.handleProduce (calls index) r false false).stored.toList.map
                (fun m => (r, m))).map journalEntry := by
            rw [List.append_assoc, List.map_append, List.map_map]
            rfl
          rw [hlog, hkey] at honce
          rw [hlog, hkey] at hnames
          simp only [Broker.produceEntries]
          split
          · rename_i hstatus
            exact ⟨honce.later _, fun hok => absurd hok hstatus⟩
          · rename_i hstatus
            have hok := not_not.mp hstatus
            have hentries' : EntriesFor (stored ++ (log ++ (b.handleProduce (calls index) r false
                false).stored.toList.map (fun m => (r, m))).map journalEntry) topic producerId
                (sequence + 1) rest := by
              rw [List.map_append, ← List.append_assoc]
              exact hrest.mono _
            rcases ih (index + 1) (sequence + 1) _
              (payload ++ (b.handleProduce (calls index) r false false).response.payload) _ _ honce
              hentries' htime (hsafe.2 hok) with ⟨hdone, hanswer⟩
            refine ⟨hdone, fun hfinal => ?_⟩
            rcases hanswer hfinal with ⟨items, hlen, hpayload, hitems⟩
            refine ⟨_ :: items, congrArg Nat.succ hlen, ?_, (hnames hok).log ?_, hitems⟩
            · rw [hpayload, List.flatten_cons, List.append_assoc]
            · exact produceEntries_log _ _ _ _ _ _ _

/-- An answer names the place of a journalled message. -/
def Answer.Holds (stored : List StoredMessage) (a : Answer) : Prop :=
  ∃ r ∈ stored, r.key = a.key ∧ r.partition = a.partition ∧ r.message.offset = a.offset

theorem Answer.Holds.mono {stored : List StoredMessage} (new : List StoredMessage) {a : Answer}
    (h : a.Holds stored) : a.Holds (stored ++ new) := by
  rcases h with ⟨r, hr, hrest⟩
  exact ⟨r, List.mem_append_left new hr, hrest⟩

theorem Names.holds {stored : List StoredMessage} {k : ProducerKey} {item : Bytes}
    (h : Names stored k item) (front back : Bytes) :
    Answer.Holds stored ⟨k, get32 (front ++ (item ++ back)) front.length,
      get64 (front ++ (item ++ back)) (front.length + 4)⟩ := by
  rcases h with ⟨r, hr, hkey, rfl⟩
  rcases read_place front back r.partition r.message.offset with ⟨hpartition, hoffset⟩
  exact ⟨r, hr, hkey, hpartition.symm, hoffset.symm⟩

/-- The answers read from a batch response hold if its items name their
    messages. -/
theorem batchAnswers_hold (stored : List StoredMessage) (topic : Bytes) (producerId : UInt64)
    (items : List Bytes) (front : Bytes) (sequence : UInt64)
    (h : ItemsFor stored topic producerId sequence items) :
    ∀ a ∈ batchAnswers topic producerId (front ++ items.flatten) items.length front.length sequence,
      a.Holds stored := by
  induction items generalizing front sequence with
  | nil =>
      intro a ha
      exact absurd ha List.not_mem_nil
  | cons item rest ih =>
      intro a ha
      rw [List.flatten_cons] at ha
      rcases List.mem_cons.mp ha with rfl | hmem
      · exact h.1.holds front rest.flatten
      · have hlen : front.length + 12 = (front ++ item).length := by
          rcases h.1 with ⟨r, _, _, rfl⟩
          simp only [List.length_append, length_put32, length_put64]
        rw [← List.append_assoc, hlen] at hmem
        exact ih (front ++ item) (sequence + 1) h.2 a hmem

theorem lookupAttempts_mem (topic : Bytes) (producerId : UInt64) (now : Int) (count : Nat)
    (sequence : UInt64) (h : count ≠ 0) :
    ((⟨topic, producerId, sequence⟩ : ProducerKey), now)
      ∈ lookupAttempts topic producerId now count sequence := by
  cases count with
  | zero => exact absurd rfl h
  | succ count => exact List.mem_cons_self

/-! ## Runs -/

/-- The journal of a run is right: its messages and its answers. -/
structure Sound (b₀ : Broker) (s : Journal) (past : List (ProducerKey × Int)) : Prop where
  once : Once b₀ s.broker s.stored past
  answers : ∀ a ∈ s.answers, a.Holds s.stored

section Run

variable {b₀ : Broker} {s : Journal} {past : List (ProducerKey × Int)}

theorem Sound.produce (h : Sound b₀ s past) (env : ProduceEnv) (r : Request)
    (hmeta : r.hasFlag flagProducerMetadata = true)
    (htime : (past ++ (ProducerCall.produce env r).attempts).Pairwise InTime)
    (hclock : (ProducerCall.produce env r).OrderedClock)
    (hsafe : (ProducerCall.produce env r).Safe s.broker) :
    Sound b₀ ((ProducerCall.produce env r).exec s)
      (past ++ (ProducerCall.produce env r).attempts) := by
  rcases handleProduce_once h.once env r true true hmeta
    (fun a ha => (List.pairwise_append.mp htime).2.2 a ha _ List.mem_cons_self) hclock hsafe with
    ⟨honce, hnames⟩
  refine ⟨honce, ?_⟩
  intro a ha
  simp only [ProducerCall.exec] at ha
  split at ha
  · rename_i hok
    rcases List.mem_append.mp ha with hold | hnew
    · exact (h.answers a hold).mono _
    · have hplace := (hnames hok).holds [] []
      rw [List.nil_append, List.append_nil] at hplace
      rw [List.mem_singleton.mp hnew]
      exact hplace
  · exact (h.answers a ha).mono _

theorem Sound.batch (h : Sound b₀ s past) (env : BatchEnv) (r : Request)
    (htime : (past ++ (ProducerCall.batch env r).attempts).Pairwise InTime)
    (hclock : (ProducerCall.batch env r).OrderedClock)
    (hsafe : (ProducerCall.batch env r).Safe s.broker) :
    Sound b₀ ((ProducerCall.batch env r).exec s)
      (past ++ (ProducerCall.batch env r).attempts) := by
  -- A batch that is turned away answers nothing and stores nothing.
  have hrejected : ∀ (d : Broker) (status : Status), Once b₀ d s.stored
      (past ++ (ProducerCall.batch env r).attempts) → status ≠ .ok →
      s.broker.admitBatch env r = (d, .error status) →
      Sound b₀ ((ProducerCall.batch env r).exec s)
        (past ++ (ProducerCall.batch env r).attempts) := by
    intro d status honce hstatus hadmits
    have hresult : s.broker.handleProduceBatch env r = ⟨d, makeResponse r status, []⟩ := by
      rw [Broker.handleProduceBatch, hadmits]
    simp only [ProducerCall.exec, hresult, List.map_nil, List.append_nil]
    rw [if_neg (error_status hstatus)]
    exact ⟨honce, h.answers⟩
  rcases admitBatch_cases s.broker env r with ⟨hb, status, hreply, hstatus⟩ |
    ⟨producerId, first, count, hheader, ⟨windows, hb⟩, hrest⟩
  · exact hrejected s.broker status (h.once.later _) hstatus (Prod.ext hb hreply)
  · have hattempts : (ProducerCall.batch env r).attempts
        = lookupAttempts r.topic producerId env.lookupNow count first ++
          callAttempts r.topic producerId env.calls count 0 first := by
      simp only [ProducerCall.attempts, hheader]
    have hcount : count ≠ 0 := by
      intro hzero
      simp only [batchHeader] at hheader
      split at hheader
      · cases hheader
      · rename_i hguard
        have hc := (Prod.mk.inj (Prod.mk.inj (Option.some.inj hheader)).2).2
        omega
    have hlookups := h.once.later (lookupAttempts r.topic producerId env.lookupNow count first)
    have hevicted := hlookups.evict _ (List.mem_append_right past
      (lookupAttempts_mem r.topic producerId env.lookupNow count first hcount))
    have hadmitted : Once b₀ (s.broker.admitBatch env r).1 s.stored
        (past ++ lookupAttempts r.topic producerId env.lookupNow count first) := by
      rw [hb]
      exact hevicted.congr (.refl _) rfl
    rcases hrest with ⟨status, hreply, hstatus⟩ | ⟨entries, rest, hreply, hprepared⟩
    · refine hrejected _ status ?_ hstatus (Prod.ext rfl hreply)
      rw [hattempts, ← List.append_assoc]
      exact hadmitted.later _
    · have hadmits : s.broker.admitBatch env r = ((s.broker.admitBatch env r).1, .ok entries) :=
        Prod.ext rfl hreply
      rcases lookupBatch_found hevicted r producerId count first with ⟨hfound, hfoundlen⟩
      rcases prepareBatch_entries s.stored r producerId _ first 20 0 entries rest hfound
        hprepared with ⟨hentries, hlen⟩
      rw [hfoundlen] at hlen
      rw [hattempts, ← List.append_assoc] at htime ⊢
      rcases produceEntries_once r r.topic producerId env.calls hclock entries 0 first
        (s.broker.admitBatch env r).1 (put32 (UInt32.ofNat entries.length)) [] s.stored
        (past ++ lookupAttempts r.topic producerId env.lookupNow count first)
        (by rw [List.map_nil, List.append_nil]; exact hadmitted)
        (by rw [List.map_nil, List.append_nil]; exact hentries) (by rw [hlen]; exact htime)
        (hsafe _ entries hadmits) with ⟨honce, hanswer⟩
      have hresult : s.broker.handleProduceBatch env r = Broker.produceEntries r env.calls entries 0
          (s.broker.admitBatch env r).1 (put32 (UInt32.ofNat entries.length)) [] := by
        rw [Broker.handleProduceBatch, hadmits]
      rw [← hresult] at honce hanswer
      rw [hlen] at honce
      refine ⟨honce, ?_⟩
      intro a ha
      simp only [ProducerCall.exec, hheader] at ha
      split at ha
      · rename_i hok
        rcases List.mem_append.mp ha with hold | hnew
        · exact (h.answers a hold).mono _
        · rcases hanswer hok with ⟨items, hitemslen, hpayload, hitems⟩
          rw [hpayload, ← hlen, ← hitemslen] at hnew
          exact batchAnswers_hold _ _ _ items _ first hitems a hnew
      · exact (h.answers a ha).mono _

theorem Sound.run (h : Sound b₀ s past) (calls : List ProducerCall)
    (hmeta : ∀ call ∈ calls, call.request.hasFlag flagProducerMetadata = true)
    (htime : (past ++ calls.flatMap ProducerCall.attempts).Pairwise InTime)
    (hclocks : ∀ call ∈ calls, call.OrderedClock) (hsafe : SafeRun s calls) :
    ∃ later, Sound b₀ (calls.foldl ProducerCall.exec s) later := by
  induction calls generalizing s past with
  | nil => exact ⟨past, h⟩
  | cons call calls ih =>
      rw [List.flatMap_cons, ← List.append_assoc] at htime
      have hfirst := (List.pairwise_append.mp htime).1
      have hclock := hclocks call List.mem_cons_self
      have hstep : Sound b₀ (call.exec s) (past ++ call.attempts) := by
        cases call with
        | produce env r =>
            exact h.produce env r (hmeta _ List.mem_cons_self) hfirst hclock hsafe.1
        | batch env r => exact h.batch env r hfirst hclock hsafe.1
      exact ih hstep (fun c hc => hmeta c (List.mem_cons_of_mem call hc)) htime
        (fun c hc => hclocks c (List.mem_cons_of_mem call hc)) hsafe.2

end Run

/-- In a safe run whose attempts are all handled in time, the logs grow by
    the journalled messages alone, no message is journalled twice, and all
    answers for a message name the same place. -/
theorem produce_once (b : Broker) (hempty : b.idempotencyCache = ∅) (calls : List ProducerCall)
    (hmeta : ∀ call ∈ calls, call.request.hasFlag flagProducerMetadata = true)
    (htimely : Timely calls) (hsafe : SafeRun { broker := b } calls) :
    (∀ t n, ((runProducer b calls).broker.storage.partition t n).messages
      = (b.storage.partition t n).messages ++ messagesFor (runProducer b calls).stored t n) ∧
    ((runProducer b calls).stored.map StoredMessage.key).Nodup ∧
    ∀ x ∈ (runProducer b calls).answers, ∀ y ∈ (runProducer b calls).answers,
      x.key = y.key → x = y := by
  have hstart : Sound b { broker := b } [] := by
    refine ⟨⟨fun t n => (List.append_nil _).symm, List.nodup_nil, ?_, ?_⟩, ?_⟩
    · intro key e he
      rw [hempty, AList.lookup_empty] at he
      exact absurd he.symm (Option.some_ne_none e)
    · intro r hr
      exact absurd hr List.not_mem_nil
    · intro a ha
      exact absurd ha List.not_mem_nil
  rcases hstart.run calls hmeta htimely.attempts htimely.clocks hsafe with ⟨later, hsound⟩
  refine ⟨hsound.once.log, hsound.once.unique, ?_⟩
  intro x hx y hy hkey
  rcases hsound.answers x hx with ⟨r, hr, hrk, hrp, hro⟩
  rcases hsound.answers y hy with ⟨q, hq, hqk, hqp, hqo⟩
  -- The two answers name the one message that is journalled for their key.
  have hsame : r = q := List.inj_on_of_nodup_map hsound.once.unique hr hq (by rw [hrk, hqk, hkey])
  rcases x with ⟨k, p, o⟩
  rcases y with ⟨k', p', o'⟩
  simp only at hkey hrp hro hqp hqo
  rw [Answer.mk.injEq, ← hrp, ← hro, ← hqp, ← hqo, hsame]
  exact ⟨hkey, rfl, rfl⟩

/-! ## Two brokers

One that replicates to a single peer and one that has nobody to replicate to. -/

/-- The topic of the runs below. -/
def eventsTopic : Bytes := [101, 118]

/-- A leader with one partition of `eventsTopic` and the given peers. -/
def eventsBroker (peers : List ReplicationPeer) : Broker :=
  (Broker.createTopic ((Broker.fresh {}).configureReplication [65] peers 0 false [] none)
    eventsTopic 1).1

/-- A leader with one peer, from which it has heard. -/
def heardBroker : Broker :=
  let b := eventsBroker [⟨[66], false⟩]
  { b with
    coordinator := b.coordinator.observeHeartbeat (partitionKey eventsTopic 0) [66] 0 0 }

/-- Message 7 of producer 1, sent to wait for the replicas. -/
def eventsRequest : Request :=
  { command := .produce
    flags := flagProducerMetadata ||| ackAll
    topic := eventsTopic
    payload := put64 1 ++ put64 7 ++ put32 0 ++ put16 0 ++ put32 1 ++ [42] }

/-- The same message as the first of a batch of two. -/
def eventsBatch : Request :=
  { command := .produceBatch
    flags := flagProducerMetadata ||| ackAll
    topic := eventsTopic
    payload := put64 1 ++ put64 7 ++ put32 2 ++ (put16 0 ++ put32 1 ++ [42]) ++
      (put16 0 ++ put32 1 ++ [43]) }

/-- The peer answers every push at time 5. -/
def answeredEnv : ProduceEnv := { answers := [some 5], commitNow := 5 }

/-- A message, its retry, and a batch that has it again. -/
def retriedCalls : List ProducerCall :=
  [.produce answeredEnv eventsRequest, .produce answeredEnv eventsRequest,
    .batch { calls := fun _ => answeredEnv } eventsBatch]

/-- Three attempts at message 7, one message in the log, and message 8 behind
    it. -/
theorem produce_once_retried :
    SafeRun { broker := heardBroker } retriedCalls ∧
    (runProducer heardBroker retriedCalls).stored.length = 2 ∧
    (runProducer heardBroker retriedCalls).answers.length = 4 ∧
    ((runProducer heardBroker retriedCalls).stored.map StoredMessage.key).Nodup := by
  have hsafe : SafeRun { broker := heardBroker } retriedCalls := by decide +kernel
  have htimely : Timely retriedCalls := by
    refine ⟨by decide +kernel, ?_⟩
    intro call hcall
    rcases List.mem_cons.mp hcall with rfl | hcall
    · exact le_refl _
    · rcases List.mem_cons.mp hcall with rfl | hcall
      · exact le_refl _
      · rw [List.mem_singleton.mp hcall]
        exact fun _ => le_refl _
  have honce := produce_once heardBroker rfl retriedCalls (by decide) htimely hsafe
  exact ⟨hsafe, by decide +kernel, by decide +kernel, honce.2.1⟩

/-- Without peers `Replicate` fails after the message is stored. The error is
    not cached, and the retry stores the message again. -/
theorem produce_twice :
    Timely [.produce {} eventsRequest, .produce {} eventsRequest] ∧
    ((runProducer (eventsBroker []) [.produce {} eventsRequest,
      .produce {} eventsRequest]).stored.map StoredMessage.key)
        = [⟨eventsTopic, 1, 7⟩, ⟨eventsTopic, 1, 7⟩] ∧
    (((runProducer (eventsBroker []) [.produce {} eventsRequest,
      .produce {} eventsRequest]).broker.storage.partition eventsTopic 0).messages.map
        Message.value) = [[42], [42]] := by
  refine ⟨⟨by decide +kernel, ?_⟩, by decide +kernel, by decide +kernel⟩
  intro call hcall
  rcases List.mem_cons.mp hcall with rfl | hcall
  · exact le_refl _
  · rw [List.mem_singleton.mp hcall]
    exact le_refl _

end MqBroker
