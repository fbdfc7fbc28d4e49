import MqBroker.Broker.Batch
import MqBroker.Server.Assignments

/-!
# Batches

A batch as the sequence of its messages, in whatever state a broker is.

What the comparison needs of the broker is that everything in its cache is a
success. `HandleProduce` only remembers those, and nobody else writes to the
cache; `HandleProduceBatch` relies on it when it does not look at the status of
what it finds.

## Main definitions

* `Broker.CachesSuccesses`: What is in the cache was a success.

## Theorems

* `run_cachesSuccesses`: This is so at all times.
* `batch_in_order`: A batch is the sequence of its messages.
-/

namespace MqBroker

/-- What is in the cache is a success. -/
def Broker.CachesSuccesses (b : Broker) : Prop :=
  ∀ key entry, b.idempotencyCache.lookup key = some entry → entry.response.status = .ok

namespace Broker.CachesSuccesses

variable {b b' : Broker}

/-- Fewer entries are no less successes. -/
theorem mono (h : b.CachesSuccesses)
    (hcache : ∀ key entry, b'.idempotencyCache.lookup key = some entry →
      b.idempotencyCache.lookup key = some entry) : b'.CachesSuccesses :=
  fun key entry hentry => h key entry (hcache key entry hentry)

theorem congr (h : b.CachesSuccesses) (hcache : b'.idempotencyCache = b.idempotencyCache) :
    b'.CachesSuccesses :=
  h.mono fun _ _ hentry => hcache ▸ hentry

theorem evictExpired (h : b.CachesSuccesses) (now : Int) :
    (b.evictExpired now).CachesSuccesses := by
  refine h.mono fun key entry hentry => ?_
  rw [Broker.evictExpired, Table.lookup_filterValues] at hentry
  exact (Option.filter_eq_some_iff.mp hentry).1

theorem remember (h : b.CachesSuccesses) (env : ProduceEnv) (request : Request)
    {response : Response} (hok : response.status = .ok) :
    (b.remember env request response).CachesSuccesses := by
  unfold Broker.remember
  split
  · intro key entry hentry
    by_cases hkey : key = request.cacheKey
    · rw [hkey, AList.lookup_insert] at hentry
      rw [← Option.some.inj hentry]
      exact hok
    · rw [AList.lookup_insert_ne hkey] at hentry
      exact h key entry hentry
  · exact h

theorem settleProduce (h : b.CachesSuccesses) (env : ProduceEnv) (request : Request)
    (partition : UInt32) (body : ProduceBody) :
    (b.settleProduce env request partition body).broker.CachesSuccesses := by
  simp only [Broker.settleProduce]
  split
  · exact h
  · rename_i message _
    split
    · refine remember ?_ env request rfl
      rw [acknowledge_frame]
      exact h
    · rw [acknowledge_frame]
      exact h

theorem handleProduce (h : b.CachesSuccesses) (env : ProduceEnv) (request : Request)
    (rate quota : Bool) : (b.handleProduce env request rate quota).broker.CachesSuccesses := by
  have hadmit : (b.admitProduce env request rate quota).1.CachesSuccesses := by
    simp only [Broker.admitProduce]
    split
    · exact h
    · split
      · exact h
      · split
        · split
          · exact h
          · split
            · exact h.evictExpired env.cacheNow
            · rcases routeProduce_frame (b.evictExpired env.cacheNow) env request quota 16 with
                ⟨windows, heq⟩
              rw [heq]
              exact (h.evictExpired env.cacheNow).congr rfl
        · rcases routeProduce_frame b env request quota 0 with ⟨windows, heq⟩
          rw [heq]
          exact h.congr rfl
  unfold Broker.handleProduce
  split
  · rename_i d response hadmitted
    rw [hadmitted] at hadmit
    exact hadmit
  · rename_i d partition body hadmitted
    rw [hadmitted] at hadmit
    exact hadmit.settleProduce env request partition body

theorem produceEntries (h : b.CachesSuccesses) (request : Request) (calls : Nat → ProduceEnv)
    (entries : List BatchEntry) (index : Nat) (payload : Bytes)
    (stored : List (Request × UInt32 × Message)) :
    (Broker.produceEntries request calls entries index b payload
      stored).broker.CachesSuccesses := by
  induction entries generalizing index b payload stored with
  | nil => exact h
  | cons entry rest ih =>
      cases entry with
      | cached response => exact ih h (index + 1) _ stored
      | pending single =>
          have hfirst := h.handleProduce (calls index) single false false
          simp only [Broker.produceEntries]
          split
          · exact hfirst
          · exact ih hfirst (index + 1) _ _

theorem handleProduceBatch (h : b.CachesSuccesses) (env : BatchEnv) (request : Request) :
    (b.handleProduceBatch env request).broker.CachesSuccesses := by
  have hadmit : (b.admitBatch env request).1.CachesSuccesses := by
    rcases admitBatch_cases b env request with ⟨hsame, _⟩ | ⟨_, _, _, _, ⟨windows, heq⟩, _⟩
    · rw [hsame]
      exact h
    · rw [heq]
      exact (h.evictExpired env.lookupNow).congr rfl
  unfold Broker.handleProduceBatch
  split
  · rename_i d status hadmitted
    rw [hadmitted] at hadmit
    exact hadmit
  · rename_i d entries hadmitted
    rw [hadmitted] at hadmit
    exact hadmit.produceEntries request env.calls entries 0 _ []

theorem handleReplicaAppend (h : b.CachesSuccesses) (env : ReplicaEnv) (request : Request)
    (hterm : request.hasFlag flagReplicationTerm = true) :
    (b.handleReplicaAppend env request).1.CachesSuccesses := by
  rcases handleReplicaAppend_cases b env request hterm with
    ⟨hsame, _⟩ | ⟨header, partition, messages, _, _, heq⟩
  · rw [hsame]
    exact h
  · rw [heq]
    rcases applyAppend_cases b env request header partition messages with ⟨hsame, _⟩ |
      ⟨_, stored, e, _, _, _, _, ⟨heq, _⟩ | ⟨heq, _⟩⟩
    · rw [hsame]
      exact h
    · rw [heq]
      exact h.congr rfl
    · rw [heq]
      exact h.congr rfl

theorem handleReplicaHeartbeat (h : b.CachesSuccesses) (now : Int) (request : Request) :
    (b.handleReplicaHeartbeat now request).1.CachesSuccesses := by
  rcases handleReplicaHeartbeat_cases b now request with ⟨_, hsame⟩ | ⟨_, _, heq⟩
  · rw [hsame]
    exact h
  · rw [heq]
    exact h.congr rfl

theorem heartbeatRound (h : b.CachesSuccesses) (env : RoundEnv) :
    (b.heartbeatRound env).CachesSuccesses := by
  rcases heartbeatRound_frame b env with ⟨_, _, heq, _⟩
  rw [heq]
  exact h.congr rfl

/-- Only the handlers that produce write to the cache. -/
theorem dispatched {b' : Broker} (h : b.CachesSuccesses) {request : Request}
    (hdispatched : b.Dispatched request b') : b'.CachesSuccesses := by
  cases hdispatched with
  | same => exact h
  | createTopic saved hsaved =>
      refine h.congr ?_
      rcases handleCreateTopic_cases b saved request with
        ⟨topics, heq, _⟩ | ⟨_, _, _, _, _, heq⟩ <;> rw [heq]
  | deleteTopic env => exact h.mono (handleDeleteTopic_cached b env request)
  | produce env => exact h.handleProduce env request true true
  | produceBatch env => exact h.handleProduceBatch env request
  | heartbeat now => exact h.handleReplicaHeartbeat now request
  | replicaAppend env hterm => exact h.handleReplicaAppend env request hterm
  | replicaVote c => exact h.congr rfl

theorem serve {s : Server} (h : s.broker.CachesSuccesses) (env : ServerEnv) (r : RawRequest) :
    (s.serve env r).1.broker.CachesSuccesses := by
  rcases serve_dispatched s env r with ⟨request, hdispatched⟩
  exact h.dispatched hdispatched

theorem start (config : ServerConfig) (storage : StorageEngine) (topics : Table Bytes UInt32)
    (topicsFile : List (Bytes × UInt32)) (offsetsFile : List ConsumerOffset)
    (stateFile : Option Bytes) :
    (Server.start config storage topics topicsFile offsetsFile
      stateFile).broker.CachesSuccesses := by
  simp only [Server.start]
  split <;> rintro _ _ ⟨⟩

theorem exec {s : Server} (h : s.broker.CachesSuccesses) (event : ServerEvent) :
    (event.exec s).broker.CachesSuccesses := by
  cases event with
  | request env r => exact h.serve env r
  | operate op => exact h
  | heartbeatRound env => exact h.heartbeatRound env
  | pull topic partition payload ios =>
      simp only [ServerEvent.exec, Server.pull]
      split
      · rename_i messages _ _
        split
        · rcases applyFetched_cases s.broker ios topic partition messages with
            ⟨e, cursors, stored, heq, _⟩
          rw [heq]
          exact h.congr rfl
        · exact h
      · exact h
  | cleanup now => exact h
  | restart config kept =>
      simp only [ServerEvent.exec, Server.restart]
      split
      · exact h
      · split
        · exact h
        · exact start _ _ _ _ _ _

end Broker.CachesSuccesses

/-- Whatever has happened to a broker, its cache holds successes. -/
theorem run_cachesSuccesses (config : ServerConfig) (events : List ServerEvent) :
    ((Server.fresh config).run events).broker.CachesSuccesses := by
  refine List.foldlRecOn (motive := fun s : Server => s.broker.CachesSuccesses) _ _
    (Broker.CachesSuccesses.start _ _ _ _ _ _) ?_
  intro s hs event _
  exact hs.exec event

/-- In whatever state a broker is that takes writes, with rate limit and quota off
    and the clock within the lifetimes of the cache: a well-formed batch leaves
    what is left by produce requests for its messages, sent one by one up to the
    first that fails. Only the request ids in the cache are those of the
    requests. The answers of the batch are theirs if all of them succeed, and the
    first status that is no success else. -/
theorem batch_in_order (config : ServerConfig) (events : List ServerEvent) (env : BatchEnv)
    (request : Request) (producerId : UInt64) (items : List BatchItem) (singles : List Request)
    (hbatch : parseBatch request.payload = some (producerId, items))
    (hmetadata : request.hasFlag flagProducerMetadata = true)
    (hsingles : List.Forall₂ (fun item single : _ => Request.Carries single request producerId item)
      items singles)
    (hserved : env.Served ((Server.fresh config).run events).broker request items.length)
    (hunlimited : env.Unlimited ((Server.fresh config).run events).broker items.length)
    (hlifetimes : env.WithinLifetimes ((Server.fresh config).run events).broker items.length) :
    let b := ((Server.fresh config).run events).broker
    let batch := b.handleProduceBatch env request
    let inOrder := b.produceInOrder env.calls singles
    batch.broker.AlikeUnder (fun _ => 0) inOrder.1 ∧
      ((∀ single ∈ singles, single.requestId = request.requestId) → inOrder.1 = batch.broker) ∧
      ((inOrder.2.length = items.length ∧ (∀ answer ∈ inOrder.2, answer.status = .ok) ∧
          batch.response = makeResponse request .ok
            (put32 (UInt32.ofNat items.length) ++ inOrder.2.flatMap Response.payload)) ∨
        ∃ done failed, inOrder.2 = done ++ [failed] ∧ (∀ answer ∈ done, answer.status = .ok) ∧
          failed.status ≠ .ok ∧ batch.response = makeResponse request failed.status) := by
  intro b batch inOrder
  have hsuccesses : ∀ key entry, b.idempotencyCache.lookup key = some entry →
      entry.response.status = .ok ∧ entry.response.payload.length = 12 := by
    intro key entry hentry
    rcases (run_sound config events).broker.cached key entry hentry with ⟨_, place, hplace⟩
    refine ⟨run_cachesSuccesses config events key entry hentry, ?_⟩
    rw [hplace, length_encodePlace]
  have halike := fun (g : UInt64 → UInt64)
      (hids : ∀ single ∈ singles, g single.requestId = g request.requestId) =>
    handleProduceBatch_inOrder hsuccesses hbatch hmetadata hsingles hids hserved hunlimited
      hlifetimes
  rcases halike (fun _ => 0) (fun _ _ => rfl) with ⟨hbrokers, hresponse⟩
  refine ⟨hbrokers, fun hids => (halike (fun id => id) hids).1.eq, ?_⟩
  rcases inTurn_cases (singleTurn env.calls) Response.succeeds b singles.zipIdx with
    ⟨hlength, hall⟩ | ⟨done, failed, hanswers, hdone, hfailed⟩
  · left
    rw [List.length_zipIdx, ← hsingles.length_eq] at hlength
    refine ⟨hlength, fun answer hmem => of_decide_eq_true (hall answer hmem), ?_⟩
    exact hresponse.trans (batchAnswer_ok hall)
  · right
    refine ⟨done, failed, hanswers, fun answer hmem => of_decide_eq_true (hdone answer hmem),
      of_decide_eq_false hfailed, ?_⟩
    refine hresponse.trans ?_
    change batchAnswer request _ (inTurn (singleTurn env.calls) Response.succeeds b
      singles.zipIdx).2 = _
    rw [hanswers]
    exact batchAnswer_failed request _ hdone hfailed

/-! ## Examples -/

/-- Message "m" for topic "t", from producer 1 with sequence 5. -/
def fifthMessage : Bytes := put64 1 ++ (put64 5 ++ (put32 autoPartition ++ encodeItem [] [109]))

/-- It is produced. -/
def fifthEvent : ServerEvent :=
  .request {}
    { command := 0x10
      flags := flagProducerMetadata
      topic := [116]
      payload := fifthMessage }

/-- Messages "m" and "n" for topic "t", from producer 1 with sequences 5 and 6. -/
def twoMessages : Request :=
  { command := .produceBatch
    flags := flagProducerMetadata
    topic := [116]
    payload := put64 1 ++ (put64 5 ++ (put32 2 ++
      (encodeItem [] [109] ++ encodeItem [107] [110]))) }

/-- A batch with a message that was produced before and a new one. -/
theorem batch_in_order_retried :
    let b := ((Server.fresh {}).run [createExample true, fifthEvent]).broker
    (b.produceInOrder (fun _ => {})
      [{ twoMessages with command := .produce, payload := fifthMessage },
        singleRequest twoMessages 1 6 [107] [110]]).1
      = (b.handleProduceBatch {} twoMessages).broker := by
  have hrun : (Server.fresh {}).run [createExample true, fifthEvent]
      = fifthEvent.exec ((createExample true).exec (Server.fresh {})) := rfl
  have hserving : ((Server.fresh {}).run [createExample true, fifthEvent]).broker.refusesWrites
      twoMessages 0 = false := by
    rw [hrun, createExample_exec]
    decide +kernel
  have hquota : ((Server.fresh {}).run [createExample true, fifthEvent]).broker.topicProduceQuota
      = 0 := by
    rw [hrun, createExample_exec]
    decide +kernel
  have hlasts : (0 : Int) < 0 + cacheLifetime := by decide
  refine (batch_in_order {} [createExample true, fifthEvent] {} twoMessages 1
    [⟨5, [], [109]⟩, ⟨6, [107], [110]⟩]
    [{ twoMessages with command := .produce, payload := fifthMessage },
      singleRequest twoMessages 1 6 [107] [110]] (by decide +kernel) (by decide) ?_
    ⟨hserving, fun _ _ => hserving, fun _ _ _ hanswer => absurd hanswer List.not_mem_nil⟩
    ⟨rfl, fun _ _ => rfl, hquota⟩ ⟨fun _ _ _ _ _ => Iff.rfl, fun _ _ _ _ => hlasts⟩).2.1 ?_
  · exact List.Forall₂.cons
      ⟨rfl, rfl, by decide, by decide, by decide, by decide, by decide, by decide +kernel⟩
      (List.Forall₂.cons
        (@singleRequest_carries twoMessages 1 ⟨6, [107], [110]⟩ (by decide) (by decide))
        List.Forall₂.nil)
  · intro single hsingle
    rcases List.mem_cons.mp hsingle with rfl | hsingle
    · rfl
    · rw [List.mem_singleton.mp hsingle]
      rfl

end MqBroker
