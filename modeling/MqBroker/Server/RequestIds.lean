import MqBroker.Server.Metadata

/-!
# Ids of Responses

A client tells responses apart by nothing but their ids. Whatever becomes of a request,
its response has its id: a handler makes its response for the request that it got, and
an answer from the cache, which was made for an earlier request, is given the id of the
one at hand.

## Theorems

* `dispatch_requestId`: What a handler answers has the id of the request.
* `serve_requestId`: So has every response.
-/

namespace MqBroker

open Traced

/-! ## Producing -/

/-- A produce request that is turned away or answered from the cache. -/
theorem admitProduce_requestId {b : Broker} {env : ProduceEnv} {request : Request}
    {rate quota : Bool} {response : Response}
    (h : (b.admitProduce env request rate quota).2 = .error response) :
    response.requestId = request.requestId := by
  have hroute : ∀ (d : Broker) (position : Nat),
      (d.routeProduce env request quota position).2 = .error response →
        response.requestId = request.requestId := by
    intro d position hrouted
    unfold Broker.routeProduce at hrouted
    split at hrouted
    · rw [← Except.error.inj hrouted]
      rfl
    · split at hrouted
      · rw [← Except.error.inj hrouted]
        rfl
      · rw [← Except.error.inj hrouted]
        rfl
      · rename_i body _ _ partition _
        have hquota : ∀ q : Broker × Bool,
            (if q.2 = true then (q.1, Except.ok (partition, body))
              else (q.1, Except.error (makeResponse request .quotaExceeded))).2 = .error response →
            response.requestId = request.requestId := by
          intro q hq
          split at hq
          · cases hq
          · rw [← Except.error.inj hq]
            rfl
        exact hquota _ hrouted
  unfold Broker.admitProduce at h
  split at h
  · rw [← Except.error.inj h]
    rfl
  · split at h
    · rw [← Except.error.inj h]
      rfl
    · split at h
      · split at h
        · rw [← Except.error.inj h]
          rfl
        · simp only at h
          split at h
          · rw [← Except.error.inj h]
          · exact hroute _ 16 h
      · exact hroute b 0 h

theorem handleProduce_requestId (b : Broker) (env : ProduceEnv) (request : Request)
    (rate quota : Bool) :
    (b.handleProduce env request rate quota).response.requestId = request.requestId := by
  unfold Broker.handleProduce
  split
  · rename_i d response hverdict
    exact admitProduce_requestId (congrArg Prod.snd hverdict)
  · simp only [Broker.settleProduce]
    split
    · rfl
    · split <;> rfl

theorem produceEntries_requestId (request : Request) (calls : Nat → ProduceEnv)
    (entries : List BatchEntry) (index : Nat) (b : Broker) (payload : Bytes)
    (stored : List (Request × UInt32 × Message)) :
    (Broker.produceEntries request calls entries index b payload stored).response.requestId
      = request.requestId := by
  induction entries generalizing index b payload stored with
  | nil => rfl
  | cons entry rest ih =>
      cases entry with
      | cached response => exact ih _ _ _ _
      | pending single =>
          simp only [Broker.produceEntries]
          split
          · rfl
          · exact ih _ _ _ _

theorem handleProduceBatch_requestId (b : Broker) (env : BatchEnv) (request : Request) :
    (b.handleProduceBatch env request).response.requestId = request.requestId := by
  unfold Broker.handleProduceBatch
  split
  · rfl
  · exact produceEntries_requestId _ _ _ _ _ _ _

/-! ## Between brokers -/

theorem handleReplicaAppend_requestId (b : Broker) (env : ReplicaEnv) (request : Request) :
    (b.handleReplicaAppend env request).2.requestId = request.requestId := by
  have hstore : ∀ (d : Broker) (partition : UInt32) (messages : List Message),
      (d.storeReplicas env request partition messages).2.requestId = request.requestId := by
    intro d partition messages
    unfold Broker.storeReplicas
    split <;> rfl
  have happly : ∀ header partition messages,
      (b.applyAppend env request header partition messages).2.requestId = request.requestId := by
    intro header partition messages
    simp only [Broker.applyAppend]
    split_ifs <;> first | rfl | exact hstore _ _ _
  simp only [Broker.handleReplicaAppend]
  split
  · rfl
  · split
    · rfl
    · split
      · rfl
      · split
        · rfl
        · split
          · rfl
          · rfl
          · split
            · rfl
            · split
              · rfl
              · exact happly _ _ _

theorem handleReplicaFetch_requestId (b : Broker) (partitionOk : Bool) (request : Request) :
    (b.handleReplicaFetch partitionOk request).requestId = request.requestId := by
  unfold Broker.handleReplicaFetch
  split
  · rfl
  · split
    · rfl
    · rfl
    · split <;> rfl

theorem handleReplicaHeartbeat_requestId (b : Broker) (now : Int) (request : Request) :
    (b.handleReplicaHeartbeat now request).2.requestId = request.requestId := by
  unfold Broker.handleReplicaHeartbeat
  split
  · rfl
  · simp only
    split
    · rfl
    · split <;> rfl

/-! ## Topics -/

theorem handleCreateTopic_requestId (b : Broker) (saved : Bool) (request : Request) :
    (b.handleCreateTopic saved request).2.requestId = request.requestId := by
  unfold Broker.handleCreateTopic
  split
  · rfl
  · simp only
    split
    · split <;> rfl
    · rfl

theorem handleDeleteTopic_requestId (b : Broker) (env : DeleteEnv) (request : Request) :
    (b.handleDeleteTopic env request).2.requestId = request.requestId := by
  unfold Broker.handleDeleteTopic
  split
  · rfl
  · split
    · rfl
    · simp only
      split
      · rfl
      · split <;> rfl

/-! ## All requests -/

/-- What a handler answers has the id of the request. -/
theorem dispatch_requestId (s : Server) (env : ServerEnv) (request : Request) :
    (s.dispatch env request).2.requestId = request.requestId := by
  cases hcommand : request.command with
  | createTopic =>
      simp only [Server.dispatch, hcommand, Server.handleCreateTopic]
      split
      · rfl
      · exact handleCreateTopic_requestId _ _ _
  | deleteTopic =>
      simp only [Server.dispatch, hcommand, Server.handleDeleteTopic]
      split
      · exact handleDeleteTopic_requestId _ _ _
      · split <;> exact handleDeleteTopic_requestId _ _ _
  | listTopic =>
      simp only [Server.dispatch, hcommand, Server.handleListTopic]
      split <;> rfl
  | metrics =>
      simp only [Server.dispatch, hcommand, Server.handleMetrics]
      split <;> rfl
  | produce =>
      simp only [Server.dispatch, hcommand]
      exact handleProduce_requestId _ _ _ _ _
  | produceBatch =>
      simp only [Server.dispatch, hcommand]
      exact handleProduceBatch_requestId _ _ _
  | fetch =>
      simp only [Server.dispatch, hcommand, Server.handleFetch]
      split
      · rfl
      · split
        · rfl
        · rfl
        · split <;> rfl
  | commitOffset =>
      simp only [Server.dispatch, hcommand, Server.handleCommitOffset]
      split
      · rfl
      · split <;> rfl
  | joinGroup =>
      simp only [Server.dispatch, hcommand, handleJoinGroup]
      split
      · rfl
      · split <;> rfl
  | syncGroup =>
      simp only [Server.dispatch, hcommand, Server.handleSyncGroup]
      split
      · rfl
      · split <;> rfl
  | offsetFetch =>
      simp only [Server.dispatch, hcommand, Server.handleOffsetFetch]
      split
      · rfl
      · split <;> rfl
  | heartbeat =>
      simp only [Server.dispatch, hcommand, Server.handleHeartbeat]
      split
      · exact handleReplicaHeartbeat_requestId _ _ _
      · split
        · rfl
        · split <;> rfl
        · rfl
  | replicaFetch =>
      simp only [Server.dispatch, hcommand]
      exact handleReplicaFetch_requestId _ _ _
  | replicaAppend =>
      simp only [Server.dispatch, hcommand]
      exact handleReplicaAppend_requestId _ _ _
  | replicaVote =>
      simp only [Server.dispatch, hcommand, Server.handleReplicaVote]
      split
      · rfl
      · split <;> rfl

/-- A request keeps its id when its token is taken away. -/
theorem acceptRequest_requestId {b : Broker} {clientToken : Bytes} {request normalized : Request}
    (h : b.acceptRequest clientToken request = some normalized) :
    normalized.requestId = request.requestId := by
  rcases acceptRequest_cases h with hbroker | ⟨_, hclient⟩
  · unfold Broker.validateReplicationRequest at hbroker
    split at hbroker
    · cases hbroker
    · split at hbroker
      · cases hbroker
      · split at hbroker
        · cases hbroker
        · split at hbroker
          · cases hbroker
          · split at hbroker
            · cases hbroker
            · simp only at hbroker
              split at hbroker
              · cases hbroker
              · cases hbroker
                rfl
  · unfold validateClientAuth at hclient
    split at hclient
    · cases hclient
    · split at hclient
      · split at hclient
        · cases hclient
        · cases hclient
          rfl
      · simp only at hclient
        split at hclient
        · cases hclient
        · split at hclient
          · cases hclient
          · cases hclient
            rfl

theorem refuse_requestId (s : Server) (request : Request) :
    (s.refuse request).requestId = request.requestId := by
  unfold Server.refuse
  split_ifs <;> rfl

theorem handle_requestId (s : Server) (env : ServerEnv) (request : Request) :
    (s.handle env request).2.requestId = request.requestId := by
  simp only [Server.handle]
  split
  · rfl
  · split
    · exact refuse_requestId _ _
    · rename_i normalized haccept
      split
      · rfl
      · rw [dispatch_requestId]
        exact acceptRequest_requestId haccept

theorem handleUnknown_requestId (s : Server) (request : Request) :
    (s.handleUnknown request).2.requestId = request.requestId := by
  simp only [Server.handleUnknown]
  split
  · rfl
  · split
    · exact refuse_requestId _ _
    · split <;> rfl

/-- Every response has the id of its request. -/
theorem serve_requestId (s : Server) (env : ServerEnv) (r : RawRequest) :
    (s.serve env r).2.requestId = r.requestId := by
  unfold Server.serve
  cases Command.ofCode r.command with
  | none => exact handleUnknown_requestId s _
  | some command => exact handle_requestId s env _

end MqBroker
