import MqBroker.Broker.Batch

/-!
# Batches That Are Refused

A batch that is refused for what it is has written nothing.

`HandleProduceBatch` checks a batch in many places: the leader and the rate
limit, the flags, the header, every message while it is parsed, what is behind
the last message, and the quota. These come in front of the first write. But
then every message goes through `HandleProduce`, which checks all this again,
and whatever it answers for a message in the middle is the answer to the batch.

Three things keep that from being a refusal after a write. A request that the
broker makes of a message can always be parsed, whatever it was made of. It
leaves the partition to the key of the message, which is never out of range. And
no answer out of the cache gets into it, because the broker has looked all
messages up at the start and the ones before it have left answers for
themselves only. What is left is a topic that does not exist, and that is found
out with the first message that is not in the cache.

## Main definitions

* `refusals`: The answers to a batch that is refused for what it is.
* `Broker.NothingWritten`: No message was appended, no answer cached.
* `Outstanding`: Messages that the cache does not know.

## Theorems

* `prepareBatch_spec`: What is prepared was parsed.
* `handleProduce_pending`: What a message of a batch is answered with.
* `handleProduce_lookup`: The cache learns about one message at most.
* `refused_batch_writes_nothing`: A refused batch writes nothing.
-/

namespace MqBroker

/-- The answers to a batch that is refused for what it is. -/
def refusals : List Status :=
  [.badRequest, .notSupported, .rateLimited, .quotaExceeded, .unknownTopic]

/-- No message was appended to a partition, and the cache has gained no
    entry. -/
structure Broker.NothingWritten (b b' : Broker) : Prop where
  storage : b'.storage = b.storage
  cache : ∀ key entry, b'.idempotencyCache.lookup key = some entry →
    b.idempotencyCache.lookup key = some entry

namespace Broker.NothingWritten

variable {b b' b'' : Broker}

theorem refl (b : Broker) : b.NothingWritten b := ⟨rfl, fun _ _ h => h⟩

theorem trans (h : b.NothingWritten b') (h' : b'.NothingWritten b'') : b.NothingWritten b'' :=
  ⟨h'.storage.trans h.storage, fun key entry hentry => h.cache key entry (h'.cache key entry hentry)⟩

theorem evictExpired (b : Broker) (now : Int) : b.NothingWritten (b.evictExpired now) := by
  refine ⟨rfl, fun key entry hentry => ?_⟩
  rw [Broker.evictExpired, Table.lookup_filterValues] at hentry
  exact (Option.filter_eq_some_iff.mp hentry).1

theorem sameButQuota (h : b.SameButQuota b') : b.NothingWritten b' := by
  rcases h with ⟨windows, rfl⟩
  exact ⟨rfl, fun _ _ h => h⟩

/-- What the cache does not know it still does not know. -/
theorem lookup_none (h : b.NothingWritten b') {key : Bytes}
    (hnone : b.idempotencyCache.lookup key = none) : b'.idempotencyCache.lookup key = none := by
  refine Option.eq_none_iff_forall_ne_some.mpr fun entry hentry => ?_
  rw [h.cache key entry hentry] at hnone
  cases hnone

end Broker.NothingWritten

/-- Everything in front of the append writes nothing. -/
theorem admitProduce_writes_nothing (b : Broker) (env : ProduceEnv) (request : Request)
    (rate quota : Bool) : b.NothingWritten (b.admitProduce env request rate quota).1 := by
  have hroute : ∀ (d : Broker) (position : Nat),
      d.NothingWritten (d.routeProduce env request quota position).1 :=
    fun d position => .sameButQuota (routeProduce_cases d env request quota position).1
  simp only [Broker.admitProduce]
  split
  · exact .refl b
  · split
    · exact .refl b
    · split
      · split
        · exact .refl b
        · split
          · exact .evictExpired b env.cacheNow
          · exact (Broker.NothingWritten.evictExpired b env.cacheNow).trans (hroute _ 16)
      · exact hroute b 0

theorem admitBatch_writes_nothing (b : Broker) (env : BatchEnv) (request : Request) :
    b.NothingWritten (b.admitBatch env request).1 := by
  rcases admitBatch_cases b env request with ⟨hsame, _⟩ | ⟨_, _, _, _, hquota, _⟩
  · rw [hsame]
    exact .refl b
  · exact (Broker.NothingWritten.evictExpired b env.lookupNow).trans (.sameButQuota hquota)

/-! ## The messages of a batch -/

/-- What is prepared was parsed: the entries are those of the messages. -/
theorem prepareBatch_spec {b : Broker} {request : Request} {producerId : UInt64} {count : Nat}
    {sequence : UInt64} {position : Nat} {newBytes : UInt64}
    {prepared : List BatchEntry × Nat × UInt64}
    (h : prepareBatch request producerId (b.lookupBatch request producerId count sequence) sequence
      position newBytes = .ok prepared) :
    ∃ parsed, parseItems request.payload count sequence position = some parsed ∧
      prepared.1 = parsed.1.map (b.batchEntry request producerId) := by
  induction count generalizing sequence position newBytes prepared with
  | zero =>
      cases h
      exact ⟨([], position), rfl, rfl⟩
  | succ count ih =>
      rw [Broker.lookupBatch] at h
      simp only [prepareBatch] at h
      rw [parseItems]
      cases hitem : parseItem request.payload position with
      | none =>
          rw [hitem] at h
          cases h
      | some item =>
          rcases item with ⟨key, value, next⟩
          simp only [hitem] at h
          -- The entry of the first message goes in front of those of the rest.
          have hcons : ∀ bytes,
              (prepareBatch request producerId
                (b.lookupBatch request producerId count (sequence + 1)) (sequence + 1) next bytes
                >>= fun tail => Except.ok
                  (b.batchEntry request producerId ⟨sequence, key, value⟩ :: tail.1, tail.2))
                = .ok prepared →
              ∃ parsed, (do
                  let rest ← parseItems request.payload count (sequence + 1) next
                  return (⟨sequence, key, value⟩ :: rest.1, rest.2)) = some parsed ∧
                prepared.1 = parsed.1.map (b.batchEntry request producerId) := by
            intro bytes hprepared
            cases htail : prepareBatch request producerId
              (b.lookupBatch request producerId count (sequence + 1)) (sequence + 1) next bytes with
            | error status =>
                rw [htail] at hprepared
                cases hprepared
            | ok tail =>
                rw [htail] at hprepared
                cases hprepared
                rcases ih htail with ⟨parsed, hparsed, hentries⟩
                rw [hparsed]
                refine ⟨(⟨sequence, key, value⟩ :: parsed.1, parsed.2), rfl, ?_⟩
                rw [List.map_cons, hentries]
          rw [Broker.batchEntry] at hcons
          cases hfound : b.idempotencyCache.lookup
              (idempotencyKey request.topic producerId sequence) with
          | some entry =>
              simp only [hfound, Option.map_some] at h hcons
              split at h
              · cases h
              · exact hcons newBytes h
          | none =>
              simp only [hfound, Option.map_none] at h hcons
              split at h
              · cases h
              · exact hcons _ h

section Pending

variable {b : Broker} {env : ProduceEnv} {request single : Request} {producerId : UInt64}
  {item : BatchItem}

theorem settleProduce_status (b : Broker) (env : ProduceEnv) (request : Request)
    (partition : UInt32) (body : ProduceBody) :
    (b.settleProduce env request partition body).response.status ∉ refusals := by
  have hfailed : Status.storageError ∉ refusals := by decide
  have hok : Status.ok ∉ refusals := by decide
  simp only [Broker.settleProduce]
  split
  · exact hfailed
  · split
    · exact hok
    · exact hfailed

/-- What a message is answered with that the cache does not know. If the topic
    does not exist, that is found out before anything is written, unless the
    broker is not the leader. If it does, no answer is one of a refusal. -/
theorem handleProduce_pending (hs : single.Carries request producerId item)
    (hnew : b.idempotencyCache.lookup single.cacheKey = none) :
    (b.topics.lookup request.topic = none →
      (b.handleProduce env single false false).response.status ≠ .ok ∧
        b.NothingWritten (b.handleProduce env single false false).broker) ∧
    (b.topics.lookup request.topic ≠ none →
      (b.handleProduce env single false false).response.status ∉ refusals) := by
  have hleader : Status.notLeader ≠ .ok ∧ Status.notLeader ∉ refusals := by decide
  have htopics : Status.unknownTopic ≠ .ok := by decide
  have hevicted := (Broker.NothingWritten.evictExpired b env.cacheNow).lookup_none hnew
  rw [← hs.topic]
  simp only [Broker.handleProduce, Broker.admitProduce, hs.metadata, Bool.false_and,
    Bool.false_eq_true, if_false, if_true, if_neg hs.length, hevicted, Broker.routeProduce, hs.body,
    Broker.resolvePartition]
  split
  · rename_i hadmitted
    split at hadmitted
    · cases hadmitted
      exact ⟨fun _ => ⟨hleader.1, .refl b⟩, fun _ => hleader.2⟩
    · rw [show (b.evictExpired env.cacheNow).topics = b.topics from rfl] at hadmitted
      cases htopic : b.topics.lookup single.topic with
      | none =>
          rw [htopic] at hadmitted
          cases hadmitted
          exact ⟨fun _ => ⟨htopics, .evictExpired b env.cacheNow⟩, fun hno => absurd rfl hno⟩
      | some count =>
          -- The partition is that of the key.
          rw [htopic] at hadmitted
          simp only at hadmitted
          cases hadmitted
  · rename_i d partition body hadmitted
    split at hadmitted
    · cases hadmitted
    · rw [show (b.evictExpired env.cacheNow).topics = b.topics from rfl] at hadmitted
      refine ⟨fun hnone => ?_, fun _ => settleProduce_status d env single partition body⟩
      rw [hnone] at hadmitted
      cases hadmitted

/-- The cache learns about the message itself, and about no other. -/
theorem handleProduce_lookup (b : Broker) (env : ProduceEnv) (request : Request) (rate quota : Bool)
    {key : Bytes} (hother : key ≠ request.cacheKey) {entry : IdempotencyEntry}
    (hentry : (b.handleProduce env request rate quota).broker.idempotencyCache.lookup key
      = some entry) : b.idempotencyCache.lookup key = some entry := by
  have hadmit := admitProduce_writes_nothing b env request rate quota
  unfold Broker.handleProduce at hentry
  split at hentry
  · rename_i d response hadmitted
    rw [hadmitted] at hadmit
    exact hadmit.cache key entry hentry
  · rename_i d partition body hadmitted
    rw [hadmitted] at hadmit
    refine hadmit.cache key entry ?_
    simp only [Broker.settleProduce] at hentry
    split at hentry
    · exact hentry
    · split at hentry
      · rw [acknowledge_frame, Broker.remember] at hentry
        split at hentry
        · rw [AList.lookup_insert_ne hother] at hentry
          exact hentry
        · exact hentry
      · rw [acknowledge_frame] at hentry
        exact hentry

end Pending

/-! ## The loop -/

/-- Messages that are still to come, in a batch that has looked them up in `b₀`
    and is in `b` now: no two have the same number, and those that the cache did
    not know it still does not know. -/
structure Outstanding (b₀ b : Broker) (request : Request) (producerId : UInt64)
    (items : List BatchItem) : Prop where
  sizes : ∀ item ∈ items, item.key.length < 2 ^ 16 ∧ item.value.length < 2 ^ 32
  unknown : ∀ item ∈ items,
    b₀.idempotencyCache.lookup (idempotencyKey request.topic producerId item.sequence) = none →
      b.idempotencyCache.lookup (idempotencyKey request.topic producerId item.sequence) = none
  apart : items.Pairwise (fun a b => a.sequence ≠ b.sequence)

section Loop

variable {b₀ b : Broker} {request : Request} {producerId : UInt64} {item : BatchItem}
  {items : List BatchItem}

theorem Outstanding.tail (h : Outstanding b₀ b request producerId (item :: items)) :
    Outstanding b₀ b request producerId items :=
  ⟨fun later hlater => h.sizes later (List.mem_cons_of_mem item hlater),
    fun later hlater => h.unknown later (List.mem_cons_of_mem item hlater),
    (List.pairwise_cons.mp h.apart).2⟩

/-- A message leaves an answer for itself only. -/
theorem Outstanding.step (h : Outstanding b₀ b request producerId (item :: items))
    (env : ProduceEnv) {single : Request} (hs : single.Carries request producerId item)
    (rate quota : Bool) :
    Outstanding b₀ (b.handleProduce env single rate quota).broker request producerId items := by
  refine ⟨h.tail.sizes, fun later hlater hnone => ?_, h.tail.apart⟩
  have hother : idempotencyKey request.topic producerId later.sequence ≠ single.cacheKey := by
    rw [hs.cacheKey]
    intro heq
    exact (List.pairwise_cons.mp h.apart).1 later hlater
      (idempotencyKey_injective _ _ _ _ _ _ heq).2.2.symm
  refine Option.eq_none_iff_forall_ne_some.mpr fun entry hentry => ?_
  have hbefore := handleProduce_lookup b env single rate quota hother hentry
  rw [h.tail.unknown later hlater hnone] at hbefore
  cases hbefore

/-- The loop over the messages of a batch writes nothing if the topic does not
    exist, and otherwise is not answered with a refusal. -/
theorem produceEntries_refused (calls : Nat → ProduceEnv) (index : Nat) (payload : Bytes)
    (stored : List (Request × UInt32 × Message))
    (h : Outstanding b₀ b request producerId items) :
    let result := Broker.produceEntries request calls
      (items.map (b₀.batchEntry request producerId)) index b payload stored
    (b.topics.lookup request.topic = none → b.NothingWritten result.broker) ∧
      (b.topics.lookup request.topic ≠ none → result.response.status ∉ refusals) := by
  induction items generalizing b index payload stored with
  | nil => exact ⟨fun _ => .refl b, fun _ => (by decide : Status.ok ∉ refusals)⟩
  | cons item items ih =>
      simp only [List.map_cons, Broker.batchEntry]
      cases hfound : b₀.idempotencyCache.lookup
          (idempotencyKey request.topic producerId item.sequence) with
      | some entry => exact ih (index + 1) _ stored h.tail
      | none =>
          have hs := singleRequest_carries request producerId
            (h.sizes item List.mem_cons_self).1 (h.sizes item List.mem_cons_self).2
          have hnew := h.unknown item List.mem_cons_self hfound
          rw [← hs.cacheKey] at hnew
          rcases @handleProduce_pending b (calls index) _ _ _ _ hs hnew with ⟨hmissing, hthere⟩
          simp only [Broker.produceEntries]
          split
          · -- The message fails, and with it the batch.
            exact ⟨fun hnone => (hmissing hnone).2, hthere⟩
          · rename_i hok
            rw [not_not] at hok
            refine ⟨fun hnone => absurd hok (hmissing hnone).1, fun hsome => ?_⟩
            refine (ih (index + 1) _ _ (h.step (calls index) hs false false)).2 ?_
            rcases handleProduce_frame b (calls index) (singleRequest request producerId
              item.sequence item.key item.value) false false with ⟨e, c, cache, windows, hframe⟩
            rw [hframe]
            exact hsome

end Loop

/-- A batch that is answered with `kBadRequest`, `kNotSupported`,
    `kRateLimited`, `kQuotaExceeded` or `kUnknownTopic` has appended no message
    and left no entry in the cache. This is so for every broker, for every
    payload, and whatever happens to the messages on the way. -/
theorem refused_batch_writes_nothing (b : Broker) (env : BatchEnv) (request : Request)
    (hrefused : (b.handleProduceBatch env request).response.status ∈ refusals) :
    b.NothingWritten (b.handleProduceBatch env request).broker := by
  have hadmit := admitBatch_writes_nothing b env request
  have hcases := admitBatch_cases b env request
  unfold Broker.handleProduceBatch at hrefused ⊢
  split
  · rename_i d status hadmitted
    rw [hadmitted] at hadmit
    exact hadmit
  · rename_i d entries hadmitted
    rw [hadmitted] at hadmit hcases hrefused
    rcases hcases with ⟨_, status, herror, _⟩ | ⟨producerId, first, count, hheader, hquota,
      ⟨status, herror, _⟩ | ⟨found, rest, hok, hprepared⟩⟩
    · cases herror
    · cases herror
    · cases hok
      have hcount := batchHeader_count hheader
      rcases prepareBatch_spec hprepared with ⟨parsed, hparsed, hentries⟩
      rcases parseItems_spec hparsed (by omega) with ⟨_, hitems, hapart⟩
      have hout : Outstanding (b.evictExpired env.lookupNow) d request producerId parsed.1 :=
        ⟨fun item hitem => ⟨(hitems item hitem).1, (hitems item hitem).2.1⟩,
          fun _ _ hnone => (Broker.NothingWritten.sameButQuota hquota).lookup_none hnone, hapart⟩
      simp only at hentries
      simp only [hentries] at hrefused ⊢
      rcases produceEntries_refused env.calls 0 (put32 (UInt32.ofNat
        (parsed.1.map ((b.evictExpired env.lookupNow).batchEntry request producerId)).length)) []
        hout with ⟨hmissing, hthere⟩
      by_cases hnone : d.topics.lookup request.topic = none
      · exact hadmit.trans (hmissing hnone)
      · exact absurd hrefused (hthere hnone)

/-- A batch of two messages, the second of which is cut off. -/
theorem refused_batch_torn :
    let b := ((Broker.fresh {}).createTopic [116] 1).1
    let request : Request :=
      { command := .produceBatch
        flags := flagProducerMetadata
        topic := [116]
        payload := put64 1 ++ (put64 5 ++ (put32 2 ++ (encodeItem [] [109] ++ [0]))) }
    (b.handleProduceBatch {} request).response.status = .badRequest ∧
      b.NothingWritten (b.handleProduceBatch {} request).broker := by
  intro b request
  have hstatus : (b.handleProduceBatch {} request).response.status = .badRequest := by
    decide +kernel
  refine ⟨hstatus, refused_batch_writes_nothing b {} request ?_⟩
  rw [hstatus]
  decide

end MqBroker
