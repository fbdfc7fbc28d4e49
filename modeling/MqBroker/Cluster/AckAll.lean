import MqBroker.Broker.Idempotence
import MqBroker.Broker.Pull
import MqBroker.Broker.Topics
import MqBroker.Cluster.Steps
import MqBroker.Lib.Runs

/-!
# What ack=all Means

A leader with its peers, and what clients are told who wait for the replicas.

Requests come one after the other. What happens to a push of `Replicate` is
open: it gets to the peer or not, the peer stores it or not, and the answer gets
back or not. The answers that `HandleProduce` works with are then those of the
peers. Between requests, peers store whatever other pushes and pulls bring, and
the leader hears heartbeats.

A message that is written for such a request is in the log of every peer that
has answered. A response from the cache promises the same, but the cache does
not know how the request that filled it was acknowledged. `waited` is the
history that decides: the keys whose response was given to a request that had
waited.

## Main definitions

* `PushOutcome`, `pushPeers`: The pushes of one message.
* `AckCluster`: A leader, its peers and the last answer.
* `AckCluster.produce`, `AckCluster.produceBatch`: The two requests.
* `AckEvent`, `AckEvent.exec`: What can happen.
* `AckCluster.Placed`, `AckCluster.AnswerKept`: What ack=all promises.
* `AckEvent.FromWaited`: The cache answers from requests that had waited.

## Theorems

* `pushPeers_holders`: Who has a message after its pushes.
* `produceBatch_leader`: The leader does what `HandleProduceBatch` does.
* `produce_served`, `produceBatch_placed`: The two requests.
* `answers_kept`: Every run.
-/

namespace MqBroker

open ReplicationCoordinator

/-! ## Pushes -/

/-- What happens to one push. -/
structure PushOutcome where
  /-- The request gets to the peer. -/
  delivered : Bool := true
  /-- What the outside does to the call of the peer. -/
  env : ReplicaEnv := {}
  /-- The clock when the answer is noted, or nothing when it does not get
      back. -/
  answered : Option Int := some 0

/-- The pushes of `Replicate` to the peers, one after the other, with the
    answers that count. Where nothing is said about a push, it does not get to
    its peer. -/
def pushPeers (topic : Bytes) (partition : UInt32) (message : Message) :
    List ReplicationPeer → List PushOutcome → Broker → (Bytes → Broker) →
    (Bytes → Broker) × List (Option Int)
  | peer :: rest, outcome :: outcomes, leader, peers =>
      match outcome.delivered, appendRequest leader.replicationAuthToken 1
        (leader.appendCall topic partition [message]) with
      | true, some request =>
          let result := (peers peer.nodeId).receiveAppend outcome.env request
          let answer := if result.2.status = .ok then outcome.answered else none
          let noted := match answer with
            | none => leader
            | some now =>
                { leader with
                  coordinator := leader.coordinator.observeHeartbeat (partitionKey topic partition)
                    peer.nodeId message.offset now }
          let pushed := pushPeers topic partition message rest outcomes noted
            (Function.update peers peer.nodeId result.1)
          (pushed.1, answer :: pushed.2)
      | _, _ =>
          let pushed := pushPeers topic partition message rest outcomes leader peers
          (pushed.1, none :: pushed.2)
  | _, _, _, peers => (peers, [])

/-! ## Requests -/

/-- A leader with its peers. -/
structure AckCluster where
  leader : Broker
  peers : Bytes → Broker
  /-- The keys whose response was given to a request that had waited for the
      replicas, and whose messages were not damaged since. -/
  waited : List ProducerKey := []
  /-- The request that was just answered with `kOk`, and the places it was
      told. -/
  answer : Option (Request × List (UInt32 × UInt64)) := none

/-- A leader and its peers before the first request. -/
def AckCluster.boot (config : BrokersConfig) : AckCluster where
  leader := bootBroker config config.first
  peers := bootBroker config

/-- The places in the payload of a response: a partition and an offset for each
    message. -/
def reports (payload : Bytes) : Nat → Nat → List (UInt32 × UInt64)
  | 0, _ => []
  | count + 1, position =>
      (get32 payload position, get64 payload (position + 4)) :: reports payload count (position + 12)

namespace AckCluster

variable (s : AckCluster)

/-- The peers after the pushes of a call of `HandleProduce`, and their
    answers. -/
def pushes (env : ProduceEnv) (outcomes : List PushOutcome) (request : Request)
    (rate quota : Bool) : (Bytes → Broker) × List (Option Int) :=
  match s.leader.admitProduce env request rate quota with
  | (_, .error _) => (s.peers, [])
  | (b, .ok (partition, body)) =>
      match b.storeProduce env request partition body with
      | (_, none) => (s.peers, [])
      | (b, some message) =>
          if ¬ request.waitsForAll ∨ b.replicationPeers = [] ∨ b.replicationQuorum ≤ 1 then
            (s.peers, [])
          else pushPeers request.topic partition message b.replicationPeers outcomes b s.peers

/-- The keys that have waited after a call. -/
def waitedAfter (request : Request) (result : ProduceResult) : List ProducerKey :=
  if result.response.status = .ok ∧ result.stored.isSome ∧ request.hasFlag flagProducerMetadata then
    if request.waitsForAll then request.producerKey :: s.waited
    else s.waited.filter (fun k => k ≠ request.producerKey)
  else s.waited

/-- `HandleProduce`, with the answers of the peers. -/
def produce (env : ProduceEnv) (outcomes : List PushOutcome) (request : Request)
    (rate quota : Bool) : AckCluster × Response :=
  let pushed := s.pushes env outcomes request rate quota
  let result := s.leader.handleProduce { env with answers := pushed.2 } request rate quota
  ({ s with
    leader := result.broker
    peers := pushed.1
    waited := s.waitedAfter request result }, result.response)

/-- The last loop of `HandleProduceBatch`. -/
def produceEntries (request : Request) (calls : Nat → ProduceEnv)
    (outcomes : Nat → List PushOutcome) :
    List BatchEntry → Nat → AckCluster → Bytes → AckCluster × Response
  | [], _, s, payload => (s, makeResponse request .ok payload)
  | .cached response :: rest, index, s, payload =>
      produceEntries request calls outcomes rest (index + 1) s (payload ++ response.payload)
  | .pending single :: rest, index, s, payload =>
      let result := s.produce (calls index) (outcomes index) single false false
      if result.2.status ≠ .ok then (result.1, makeResponse request result.2.status)
      else
        produceEntries request calls outcomes rest (index + 1) result.1
          (payload ++ result.2.payload)

/-- `HandleProduceBatch`, with the answers of the peers to each item. -/
def produceBatch (env : BatchEnv) (outcomes : Nat → List PushOutcome) (request : Request) :
    AckCluster × Response :=
  match s.leader.admitBatch env request with
  | (b, .error status) => ({ s with leader := b }, makeResponse request status)
  | (b, .ok entries) =>
      produceEntries request env.calls outcomes entries 0 { s with leader := b }
        (put32 (UInt32.ofNat entries.length))

/-- The cluster after an answer that names `count` places from `position` on. -/
def answered (request : Request) (result : AckCluster × Response) (count position : Nat) :
    AckCluster :=
  { result.1 with
    answer := if result.2.status = .ok then
        some (request, reports result.2.payload count position)
      else none }

end AckCluster

/-! ## Events -/

/-- What can happen to a leader and its peers. -/
inductive AckEvent
  /-- A topic is created on the leader. -/
  | createTopic (saved : Bool) (request : Request)
  | deleteTopic (env : DeleteEnv) (request : Request)
  | produce (env : ProduceEnv) (outcomes : List PushOutcome) (request : Request)
  | produceBatch (env : BatchEnv) (outcomes : Nat → List PushOutcome) (request : Request)
  /-- The coordinator of the leader does something. -/
  | operate (op : Op)
  /-- A topic is created on a peer. -/
  | createPeerTopic (n : Bytes) (saved : Bool) (request : Request)
  /-- A peer handles some other replica append. -/
  | append (n : Bytes) (env : ReplicaEnv) (request : Request)
  /-- A peer stores what it has pulled. -/
  | pull (n : Bytes) (ios : Nat → StoreIo) (topic : Bytes) (partition : UInt32)
      (messages : List Message)

/-- The cluster with one peer replaced. -/
def AckCluster.setPeer (s : AckCluster) (n : Bytes) (b : Broker) : AckCluster :=
  { s with peers := Function.update s.peers n b, answer := none }

/-- The cluster after an event. A topic whose files could not be removed may
    have lost messages, with their responses still in the cache. -/
def AckEvent.exec (s : AckCluster) : AckEvent → AckCluster
  | .createTopic saved request =>
      { s with leader := (s.leader.handleCreateTopic saved request).1, answer := none }
  | .deleteTopic env request =>
      { s with
        leader := (s.leader.handleDeleteTopic env request).1
        waited := if env.removed then s.waited
          else s.waited.filter (fun k => k.topic ≠ request.topic)
        answer := none }
  | .produce env outcomes request =>
      AckCluster.answered request (s.produce env outcomes request true true) 1 0
  | .produceBatch env outcomes request =>
      let result := s.produceBatch env outcomes request
      AckCluster.answered request result (get32 result.2.payload 0).toNat 4
  | .operate op =>
      { s with
        leader := { s.leader with coordinator := op.exec s.leader.coordinator }
        answer := none }
  | .createPeerTopic n saved request => s.setPeer n ((s.peers n).handleCreateTopic saved request).1
  | .append n env request => s.setPeer n ((s.peers n).receiveAppend env request).1
  | .pull n ios topic partition messages =>
      s.setPeer n ((s.peers n).applyFetched ios topic partition messages).1

/-! ## What is promised -/

/-- The message at an offset is in the log of the leader and of enough peers to
    reach the replication quorum. -/
def AckCluster.Placed (s : AckCluster) (topic : Bytes) (partition : UInt32) (offset : UInt64) :
    Prop :=
  ∃ m ∈ (s.leader.storage.partition topic partition).messages, m.offset = offset ∧
    ∃ holders : Finset Bytes,
      (∀ n ∈ holders, n ∈ s.leader.replicationPeers.map ReplicationPeer.nodeId ∧
        m ∈ ((s.peers n).storage.partition topic partition).messages) ∧
      s.leader.replicationQuorum ≤ 1 + holders.card

/-- Every place that a request with ack=all was told is one of a message that
    is placed. -/
def AckCluster.AnswerKept (s : AckCluster) : Prop :=
  ∀ request places, s.answer = some (request, places) → request.waitsForAll = true →
    ∀ place ∈ places, s.Placed request.topic place.1 place.2

/-- What the cache has for a key at some time was given to a request that had
    waited. -/
def AckCluster.CachedWaited (s : AckCluster) (now : Int) (k : ProducerKey) : Prop :=
  (s.leader.evictExpired now).idempotencyCache.lookup k.cacheKey ≠ none → k ∈ s.waited

/-- A request with ack=all is answered from the cache only where the response
    was given to a request that had waited, too. -/
def AckEvent.FromWaited (s : AckCluster) : AckEvent → Prop
  | .produce env _ request =>
      request.waitsForAll = true → request.hasFlag flagProducerMetadata = true →
        s.CachedWaited env.cacheNow request.producerKey
  | .produceBatch env _ request =>
      request.waitsForAll = true → ∀ header ∈ batchHeader request.payload,
        ∀ i < header.2.2, s.CachedWaited env.lookupNow
          ⟨request.topic, header.1, header.2.1 + UInt64.ofNat i⟩
  | _ => True

instance (s : AckCluster) (now : Int) (k : ProducerKey) : Decidable (s.CachedWaited now k) :=
  inferInstanceAs (Decidable (_ → _))

instance (s : AckCluster) (e : AckEvent) : Decidable (e.FromWaited s) :=
  match e with
  | .produce _ _ _ => inferInstanceAs (Decidable (_ → _ → _))
  | .produceBatch _ _ _ => inferInstanceAs (Decidable (_ → _))
  | .createTopic _ _ | .deleteTopic _ _ | .operate _ | .createPeerTopic _ _ _ | .append _ _ _
  | .pull _ _ _ _ _ => inferInstanceAs (Decidable True)

/-! ## Brokers that grow -/

/-- A broker with the same settings, whose logs are only longer. -/
structure Broker.Grown (b b' : Broker) : Prop where
  settings : b'.settings = b.settings
  logs : ∀ t n, (b.storage.partition t n).messages <+: (b'.storage.partition t n).messages

section Grown

theorem Broker.Grown.refl (b : Broker) : b.Grown b := ⟨rfl, fun _ _ => List.prefix_rfl⟩

theorem Broker.Grown.trans {b c d : Broker} (h : b.Grown c) (h' : c.Grown d) : b.Grown d :=
  ⟨h'.settings.trans h.settings, fun t n => (h.logs t n).trans (h'.logs t n)⟩

theorem Broker.Step.grown {b b' : Broker} {ops : List Op} {topic : Bytes} {partition : UInt32}
    {ms : List Message} (h : b.Step b' ops topic partition ms) : b.Grown b' :=
  ⟨h.settings, h.storage.isPrefix⟩

/-- Whatever is in a replica append, it does not take anything away. -/
theorem receiveAppend_grown (b : Broker) (env : ReplicaEnv) (request : Request) :
    b.Grown (b.receiveAppend env request).1 := by
  unfold Broker.receiveAppend
  split
  · exact .refl b
  · split
    · exact .refl b
    · split
      · exact .refl b
      · split
        · exact .refl b
        · rename_i normalized _
          rw [handleReplicaAppend_eq]
          split
          · exact .refl b
          · rename_i header partition messages _
            rcases applyAppend_step b env normalized header partition messages with ⟨_, _, hstep, _⟩
            exact hstep.grown

theorem handleCreateTopic_grown (b : Broker) (saved : Bool) (request : Request) :
    b.Grown (b.handleCreateTopic saved request).1 := by
  rcases handleCreateTopic_cases b saved request with ⟨topics, heq, _⟩ | ⟨_, _, _, _, _, heq⟩
  · rw [heq]
    exact ⟨rfl, fun _ _ => List.prefix_rfl⟩
  · rw [heq]
    exact ⟨rfl, fun _ _ => List.prefix_rfl⟩

theorem applyFetched_grown (b : Broker) (ios : Nat → StoreIo) (topic : Bytes) (partition : UInt32)
    (messages : List Message) : b.Grown (b.applyFetched ios topic partition messages).1 := by
  rcases applyFetched_cases b ios topic partition messages with
    ⟨e, cursors, stored, heq, _, _, hext, _⟩
  rw [heq]
  exact ⟨rfl, hext.isPrefix⟩

end Grown

/-! ## Who has a message after its pushes -/

section Push

variable {topic : Bytes} {partition : UInt32} {message : Message}

/-- The next offset of a log. -/
def Broker.nextOf (b : Broker) (topic : Bytes) (partition : UInt32) : UInt64 :=
  (b.storage.partition topic partition).nextOffset

/-- One push. A peer that accepts it had the offset of the message next, has
    the message, and does not have that offset next any more. -/
theorem push_one (b leader : Broker) (env : ReplicaEnv) {request : Request}
    (hbuilt : appendRequest leader.replicationAuthToken 1
      (leader.appendCall topic partition [message]) = some request)
    (hconfigured : b.replicationConfigured = true)
    (htoken : b.replicationAuthToken = leader.replicationAuthToken)
    (hauto : partition ≠ autoPartition) (hstorable : message.Storable) :
    b.Grown (b.receiveAppend env request).1 ∧
      (b.nextOf topic partition ≠ message.offset →
        (b.receiveAppend env request).1.nextOf topic partition ≠ message.offset) ∧
      ((b.receiveAppend env request).2.status = .ok →
        b.nextOf topic partition = message.offset ∧
        message ∈ ((b.receiveAppend env request).1.storage.partition topic partition).messages ∧
        (b.receiveAppend env request).1.nextOf topic partition ≠ message.offset) := by
  rcases receiveAppend_follow b env (leader.appendCall topic partition [message]) hbuilt hconfigured
    htoken hauto (show [message].length ≤ 10000 by rw [List.length_singleton]; omega) (fun m hm => by
      rw [List.mem_singleton.mp hm]; exact hstorable) with ⟨ops, ms, hstep, hpre, hwhole, _⟩
  have hnext : (b.receiveAppend env request).1.nextOf topic partition
      = b.nextOf topic partition + UInt64.ofNat ms.length := hstep.storage.nextOffset
  have hmessages : ((b.receiveAppend env request).1.storage.partition topic partition).messages
      = (b.storage.partition topic partition).messages ++ ms := hstep.storage.messages
  refine ⟨hstep.grown, ?_, ?_⟩
  · intro hne
    rcases List.prefix_cons_iff.mp hpre with rfl | ⟨tail, rfl, htail⟩
    · rw [hnext, List.length_nil, show UInt64.ofNat 0 = 0 from rfl, UInt64.add_zero]
      exact hne
    · exact absurd hstep.numbered.1.symm hne
  · intro hok
    have hms : ms = [message] := (hwhole hok).1
    subst hms
    have hold : message.offset = b.nextOf topic partition := hstep.numbered.1
    refine ⟨hold.symm, ?_, ?_⟩
    · rw [hmessages]
      exact List.mem_append_right _ List.mem_cons_self
    · rw [hnext, hold, List.length_singleton]
      intro hwrap
      have hone : UInt64.ofNat 1 = 0 := UInt64.add_eq_left.mp hwrap
      exact absurd hone (by decide)

/-- Who has a message after its pushes: those whose answers count. None of them
    had the message before, so nobody is counted twice. -/
theorem pushPeers_holders (list : List ReplicationPeer) (outcomes : List PushOutcome)
    (leader : Broker) (peers : Bytes → Broker)
    (hpeers : ∀ n, (peers n).replicationConfigured = true ∧
      (peers n).replicationAuthToken = leader.replicationAuthToken)
    (hauto : partition ≠ autoPartition) (hstorable : message.Storable) :
    (∀ n, (peers n).Grown ((pushPeers topic partition message list outcomes leader peers).1 n)) ∧
      ∃ holders : Finset Bytes,
        (∀ n ∈ holders, n ∈ list.map ReplicationPeer.nodeId ∧
          (peers n).nextOf topic partition = message.offset ∧
          message ∈ (((pushPeers topic partition message list outcomes leader peers).1
            n).storage.partition topic partition).messages) ∧
        ∀ c, (replicateLoop (partitionKey topic partition) message.offset list
          (pushPeers topic partition message list outcomes leader peers).2 c).2 = holders.card := by
  induction list generalizing outcomes leader peers with
  | nil =>
      refine ⟨fun n => .refl _, ∅, fun n hn => absurd hn (Finset.notMem_empty n), fun c => ?_⟩
      simp only [replicateLoop, Finset.card_empty]
  | cons peer rest ih =>
      cases outcomes with
      | nil =>
          refine ⟨fun n => .refl _, ∅, fun n hn => absurd hn (Finset.notMem_empty n), fun c => ?_⟩
          simp only [pushPeers, replicateLoop, Finset.card_empty]
      | cons outcome outcomes =>
          -- A push that does not get to the peer counts for nothing.
          have hlost : ∀ pushed : (Bytes → Broker) × List (Option Int),
              pushed = pushPeers topic partition message rest outcomes leader peers →
              (∀ n, (peers n).Grown (pushed.1 n)) ∧
              ∃ holders : Finset Bytes,
                (∀ n ∈ holders, n ∈ (peer :: rest).map ReplicationPeer.nodeId ∧
                  (peers n).nextOf topic partition = message.offset ∧
                  message ∈ ((pushed.1 n).storage.partition topic partition).messages) ∧
                ∀ c, (replicateLoop (partitionKey topic partition) message.offset (peer :: rest)
                  (none :: pushed.2) c).2 = holders.card := by
            rintro pushed rfl
            rcases ih outcomes leader peers hpeers with ⟨hgrown, holders, hholders, hcount⟩
            refine ⟨hgrown, holders, fun n hn => ?_, fun c => ?_⟩
            · rcases hholders n hn with ⟨hmem, hhas⟩
              exact ⟨List.mem_cons_of_mem _ hmem, hhas⟩
            · rw [replicateLoop]
              exact hcount c
          simp only [pushPeers]
          split
          · rename_i request _ hbuilt
            rcases push_one (peers peer.nodeId) leader outcome.env hbuilt (hpeers peer.nodeId).1
              (hpeers peer.nodeId).2 hauto hstorable with ⟨hstep, hkept, haccepted⟩
            have hupdated : ∀ n, (peers n).Grown (Function.update peers peer.nodeId
                ((peers peer.nodeId).receiveAppend outcome.env request).1 n) ∧
                ((Function.update peers peer.nodeId ((peers peer.nodeId).receiveAppend outcome.env
                  request).1 n).nextOf topic partition = message.offset →
                  (peers n).nextOf topic partition = message.offset) := by
              intro n
              by_cases hn : n = peer.nodeId
              · subst hn
                rw [Function.update_self]
                exact ⟨hstep, fun hnext => not_not.mp fun hne => hkept hne hnext⟩
              · rw [Function.update_of_ne hn]
                exact ⟨.refl _, id⟩
            have hsettings : ∀ n, (Function.update peers peer.nodeId ((peers
                peer.nodeId).receiveAppend outcome.env request).1 n).replicationConfigured = true ∧
                (Function.update peers peer.nodeId ((peers peer.nodeId).receiveAppend outcome.env
                  request).1 n).replicationAuthToken = leader.replicationAuthToken := by
              intro n
              have hsame := (hupdated n).1.settings
              exact ⟨(congrArg (fun x => x.2.2.2.1) hsame).trans (hpeers n).1,
                (congrArg (fun x => x.2.2.1) hsame).trans (hpeers n).2⟩
            cases hanswer : (if ((peers peer.nodeId).receiveAppend outcome.env
              request).2.status = .ok then outcome.answered else none) with
            | none =>
                rcases ih outcomes leader _ hsettings with ⟨hgrown, holders, hholders, hcount⟩
                refine ⟨fun n => (hupdated n).1.trans (hgrown n), holders, fun n hn => ?_,
                  fun c => ?_⟩
                · rcases hholders n hn with ⟨hmem, hnext, hhas⟩
                  exact ⟨List.mem_cons_of_mem _ hmem, (hupdated n).2 hnext, hhas⟩
                · rw [replicateLoop]
                  exact hcount c
            | some now =>
                have hok : ((peers peer.nodeId).receiveAppend outcome.env request).2.status
                    = .ok := by
                  by_contra hno
                  rw [if_neg hno] at hanswer
                  cases hanswer
                rcases haccepted hok with ⟨hbefore, hstored, hafter⟩
                rcases ih outcomes { leader with
                  coordinator := leader.coordinator.observeHeartbeat (partitionKey topic partition)
                    peer.nodeId message.offset now } _ hsettings with
                  ⟨hgrown, holders, hholders, hcount⟩
                -- The peer has moved on, so it is not among those of the rest.
                have hnew : peer.nodeId ∉ holders := by
                  intro hmem
                  have hnext := (hholders _ hmem).2.1
                  rw [Function.update_self] at hnext
                  exact hafter hnext
                refine ⟨fun n => (hupdated n).1.trans (hgrown n), insert peer.nodeId holders,
                  fun n hn => ?_, fun c => ?_⟩
                · rcases Finset.mem_insert.mp hn with rfl | hn
                  · refine ⟨List.mem_cons_self, hbefore, (((hgrown _).logs _ _).subset ?_)⟩
                    rw [Function.update_self]
                    exact hstored
                  · rcases hholders n hn with ⟨hmem, hnext, hhas⟩
                    exact ⟨List.mem_cons_of_mem _ hmem, (hupdated n).2 hnext, hhas⟩
                · rw [replicateLoop, Finset.card_insert_of_notMem hnew]
                  simp only
                  rw [hcount]
          · exact hlost _ rfl

end Push

/-! ## The invariant -/

/-- What lasts through every run: the settings, valid topics, and that what the
    cache has for a key that waited names a message that is placed. -/
structure AckCluster.Kept (config : BrokersConfig) (s : AckCluster) : Prop where
  leader : s.leader.settings = (bootBroker config config.first).settings
  peers : ∀ n, (s.peers n).settings = (bootBroker config n).settings
  topics : ∀ t count, s.leader.topics.lookup t = some count → ValidTopic t count
  waited : ∀ k ∈ s.waited, ∀ entry, s.leader.idempotencyCache.lookup k.cacheKey = some entry →
    ∃ place, entry.response.payload = encodePlace place ∧ s.Placed k.topic place.1 place.2

/-- The cache has nothing that it did not have before. -/
def Broker.Shrunk (b b' : Broker) : Prop :=
  ∀ key entry, b'.idempotencyCache.lookup key = some entry →
    b.idempotencyCache.lookup key = some entry

section Invariant

variable {config : BrokersConfig} {s s' : AckCluster}

theorem AckCluster.Kept.token (h : s.Kept config) (n : Bytes) :
    (s.peers n).replicationConfigured = true ∧
      (s.peers n).replicationAuthToken = s.leader.replicationAuthToken := by
  refine ⟨congrArg (fun x => x.2.2.2.1) (h.peers n), ?_⟩
  rw [show (s.peers n).replicationAuthToken = _ from congrArg (fun x => x.2.2.1) (h.peers n),
    show s.leader.replicationAuthToken = _ from congrArg (fun x => x.2.2.1) h.leader]
  rfl

/-- A message stays where it is placed, as long as the logs of its topic only
    grow. -/
theorem AckCluster.Placed.mono {topic : Bytes} {partition : UInt32} {offset : UInt64}
    (h : s.Placed topic partition offset) (hsettings : s'.leader.settings = s.leader.settings)
    (hleader : (s.leader.storage.partition topic partition).messages
      <+: (s'.leader.storage.partition topic partition).messages)
    (hpeers : ∀ n, (s.peers n).Grown (s'.peers n)) : s'.Placed topic partition offset := by
  rcases h with ⟨m, hm, hoffset, holders, hholders, hquorum⟩
  refine ⟨m, hleader.subset hm, hoffset, holders, fun n hn => ?_, ?_⟩
  · rw [show s'.leader.replicationPeers = _ from congrArg (fun x => x.2.1) hsettings]
    exact ⟨(hholders n hn).1, ((hpeers n).logs topic partition).subset (hholders n hn).2⟩
  · rw [show s'.leader.replicationQuorum = _ from congrArg (fun x => x.2.2.2.2) hsettings]
    exact hquorum

theorem Broker.Shrunk.refl (b : Broker) : b.Shrunk b := fun _ _ h => h

theorem evictExpired_shrunk (b : Broker) (now : Int) : b.Shrunk (b.evictExpired now) := by
  intro key entry h
  rw [Broker.evictExpired, Table.lookup_filterValues, Option.filter_eq_some_iff] at h
  exact h.1

/-- An event that leaves topics and keys alone, lets brokers grow and puts
    nothing into the cache. -/
theorem AckCluster.Kept.grown (h : s.Kept config) (hleader : s.leader.Grown s'.leader)
    (htopics : ∀ t, s'.leader.topics.lookup t = s.leader.topics.lookup t)
    (hpeers : ∀ n, (s.peers n).Grown (s'.peers n)) (hcache : s.leader.Shrunk s'.leader)
    (hwaited : s'.waited = s.waited) : s'.Kept config := by
  refine ⟨hleader.settings.trans h.leader, fun n => (hpeers n).settings.trans (h.peers n), ?_, ?_⟩
  · intro t count hcount
    rw [htopics] at hcount
    exact h.topics t count hcount
  · intro k hk entry hentry
    rw [hwaited] at hk
    rcases h.waited k hk entry (hcache _ _ hentry) with ⟨place, hpayload, hplaced⟩
    exact ⟨place, hpayload, hplaced.mono hleader.settings (hleader.logs _ _) hpeers⟩

end Invariant

/-! ## One message -/

section Produce

variable {b b' : Broker} {env : ProduceEnv} {request : Request} {rate quota : Bool}

/-- Admission puts nothing into the cache. -/
theorem admitProduce_shrunk (b : Broker) (env : ProduceEnv) (request : Request)
    (rate quota : Bool) : b.Shrunk (b.admitProduce env request rate quota).1 := by
  have hroute : ∀ (d : Broker) (position : Nat),
      d.Shrunk (d.routeProduce env request quota position).1 := by
    intro d position
    rcases routeProduce_frame d env request quota position with ⟨windows, heq⟩
    rw [heq]
    exact .refl d
  simp only [Broker.admitProduce]
  split
  · exact .refl b
  · split
    · exact .refl b
    · split
      · split
        · exact .refl b
        · split
          · exact evictExpired_shrunk b env.cacheNow
          · intro key entry h
            exact evictExpired_shrunk b env.cacheNow key entry (hroute _ 16 key entry h)
      · exact hroute b 0

/-- A request that is answered with `kOk` before anything is written gets what
    is in the cache. -/
theorem admitProduce_replayed {response : Response}
    (h : b.admitProduce env request rate quota = (b', .error response))
    (hok : response.status = .ok) :
    request.hasFlag flagProducerMetadata = true ∧
      ∃ entry, (b.evictExpired env.cacheNow).idempotencyCache.lookup request.cacheKey = some entry ∧
        response.payload = entry.response.payload := by
  by_cases hmeta : request.hasFlag flagProducerMetadata = true
  · rcases admitProduce_cases b env request rate quota hmeta with
      ⟨_, r, hr, hstatus⟩ | ⟨entry, hentry, hadmits⟩ | ⟨_, _, ⟨r, hr, hstatus⟩ | ⟨_, _, hr⟩⟩
    · rw [h] at hr
      cases hr
      exact absurd hok hstatus
    · rw [h] at hadmits
      cases hadmits
      exact ⟨hmeta, entry, hentry, rfl⟩
    · rw [h] at hr
      cases hr
      exact absurd hok hstatus
    · rw [h] at hr
      cases hr
  · -- Without metadata there is no look at the cache, and every refusal is an error.
    exfalso
    simp only [Broker.admitProduce, if_neg hmeta] at h
    split at h
    · cases h
      cases hok
    · split at h
      · cases h
        cases hok
      · rcases routeProduce_cases b env request quota 0 with ⟨_, ⟨r, hr, hstatus⟩ | ⟨_, _, hr⟩⟩
        · rw [h] at hr
          cases hr
          exact hstatus hok
        · rw [h] at hr
          cases hr

/-- `Replicate` only succeeds with enough answers. -/
theorem replicate_quorum {topic : Bytes} {partition : UInt32} {m : Message}
    (h : (b.replicate env topic partition m).2 = true) :
    ¬ (b.replicationPeers = [] ∨ b.replicationQuorum ≤ 1) ∧
      b.replicationQuorum ≤ 1 + (replicateLoop (partitionKey topic partition) m.offset
        b.replicationPeers env.answers b.coordinator).2 := by
  simp only [Broker.replicate] at h
  split at h
  · cases h
  · rename_i hpeers
    split at h
    · cases h
    · rename_i hanswers
      exact ⟨hpeers, not_lt.mp hanswers⟩

/-- A message that can be gone on with has come into the log. -/
theorem storeProduce_newMessage {partition : UInt32} {body : ProduceBody} {m : Message}
    (h : b.storeProduce env request partition body = (b', some m)) :
    (b.storage.newMessage (b.storage.append env.io env.timestampMs request.topic partition body.key
      body.value).1 request.topic partition).isSome = true := by
  rcases store_append_cases b.storage env.io env.timestampMs request.topic partition body.key
    body.value with ⟨hstored, _⟩ | ⟨_, err, hresult⟩
  · rw [newMessage_stored hstored]
    rfl
  · simp only [Broker.storeProduce, hresult] at h
    cases h

/-- The three ways of a call of `HandleProduce`: it is answered before anything
    is written, nothing is written, or the message is stored and goes on to its
    replicas. -/
theorem produce_eq (s : AckCluster) (env : ProduceEnv) (outcomes : List PushOutcome)
    (request : Request) (rate quota : Bool) :
    s.produce env outcomes request rate quota
      = match s.leader.admitProduce env request rate quota with
        | (b, .error response) => ({ s with leader := b }, response)
        | (b, .ok (partition, body)) =>
            match b.storeProduce env request partition body with
            | (d, none) => ({ s with leader := d }, makeResponse request .storageError)
            | (d, some m) =>
                let pushed :=
                  if ¬ request.waitsForAll ∨ d.replicationPeers = [] ∨ d.replicationQuorum ≤ 1 then
                    (s.peers, [])
                  else pushPeers request.topic partition m d.replicationPeers outcomes d s.peers
                let acknowledged := d.acknowledge { env with answers := pushed.2 } request partition m
                if acknowledged.2 then
                  ({ s with
                    leader := acknowledged.1.remember env request (produced request partition m)
                    peers := pushed.1
                    waited :=
                      if request.hasFlag flagProducerMetadata then
                        if request.waitsForAll then request.producerKey :: s.waited
                        else s.waited.filter (fun k => k ≠ request.producerKey)
                      else s.waited }, produced request partition m)
                else
                  ({ s with leader := acknowledged.1, peers := pushed.1 },
                    makeResponse request .storageError) := by
  unfold AckCluster.produce AckCluster.pushes
  -- The answers play no role before the message is stored.
  have hadmission : ∀ answers, s.leader.admitProduce { env with answers := answers } request rate quota
      = s.leader.admitProduce env request rate quota := fun _ => rfl
  cases hadmits : s.leader.admitProduce env request rate quota with
  | mk b outcome =>
      cases outcome with
      | error response =>
          simp only [Broker.handleProduce, hadmission, hadmits, AckCluster.waitedAfter,
            Option.isSome_none, Bool.false_eq_true, false_and, and_false, if_false]
      | ok admitted =>
          rcases admitted with ⟨partition, body⟩
          have hstores : ∀ answers, b.storeProduce { env with answers := answers } request partition
              body = b.storeProduce env request partition body := fun _ => rfl
          simp only [Broker.handleProduce, hadmission, hadmits, settleProduce_eq, hstores]
          cases hstore : b.storeProduce env request partition body with
          | mk d stored =>
              cases stored with
              | none =>
                  simp only [AckCluster.waitedAfter, makeResponse, reduceCtorEq, false_and,
                    if_false]
              | some m =>
                  have hnew := storeProduce_newMessage hstore
                  simp only
                  generalize (if ¬ request.waitsForAll = true ∨ d.replicationPeers = [] ∨
                    d.replicationQuorum ≤ 1 then (s.peers, []) else pushPeers request.topic
                      partition m d.replicationPeers outcomes d s.peers) = pushed
                  cases hack : (d.acknowledge { env with answers := pushed.2 } request partition
                    m).2 with
                  | true =>
                      simp only [AckCluster.waitedAfter, hnew, produced, makeResponse, true_and,
                        if_true]
                      rfl
                  | false =>
                      simp only [AckCluster.waitedAfter, makeResponse, reduceCtorEq, false_and,
                        if_false, Bool.false_eq_true]

theorem storeProduce_frame (b : Broker) (env : ProduceEnv) (request : Request)
    (partition : UInt32) (body : ProduceBody) :
    ∃ storage coordinator, (b.storeProduce env request partition body).1
      = { b with storage := storage, coordinator := coordinator } := by
  simp only [Broker.storeProduce]
  split <;> exact ⟨_, _, rfl⟩

variable {config : BrokersConfig} {s : AckCluster}

/-- A response that is put into the cache. The key has waited from now on just
    if the request has, and then its message is placed. -/
theorem remember_kept (h : s.Kept config) (env : ProduceEnv) (request : Request)
    (place : UInt32 × UInt64) {response : Response}
    (hpayload : response.payload = encodePlace place)
    (hplaced : request.waitsForAll = true → s.Placed request.topic place.1 place.2) :
    AckCluster.Kept config { s with
      leader := s.leader.remember env request response
      waited :=
        if request.hasFlag flagProducerMetadata then
          if request.waitsForAll then request.producerKey :: s.waited
          else s.waited.filter (fun k => k ≠ request.producerKey)
        else s.waited } := by
  unfold Broker.remember
  by_cases hmeta : request.hasFlag flagProducerMetadata = true
  · simp only [if_pos hmeta]
    refine ⟨h.leader, h.peers, h.topics, ?_⟩
    intro k hk entry hentry
    simp only at hk hentry
    by_cases hkey : k = request.producerKey
    · -- The entry is the new one.
      subst hkey
      rw [show request.producerKey.cacheKey = request.cacheKey from rfl, AList.lookup_insert]
        at hentry
      cases hentry
      refine ⟨place, hpayload, hplaced ?_⟩
      by_contra hno
      rw [if_neg hno] at hk
      exact of_decide_eq_true (List.mem_filter.mp hk).2 rfl
    · have hother : k.cacheKey ≠ request.cacheKey :=
        fun heq => hkey (ProducerKey.cacheKey_injective k request.producerKey heq)
      rw [AList.lookup_insert_ne hother] at hentry
      refine h.waited k ?_ entry hentry
      split at hk
      · exact (List.mem_cons.mp hk).resolve_left hkey
      · exact (List.mem_filter.mp hk).1
  · simp only [if_neg hmeta]
    exact h

/-- What a call of `HandleProduce` leaves behind. If the request waits for the
    replicas, nothing is forgotten, what is new in the cache has waited, and the
    place it is told is one of a message that is placed. -/
structure AckCluster.Served (config : BrokersConfig) (s : AckCluster) (env : ProduceEnv)
    (request : Request) (result : AckCluster × Response) : Prop where
  kept : result.1.Kept config
  leader : s.leader.Grown result.1.leader
  peers : ∀ n, (s.peers n).Grown (result.1.peers n)
  waited : request.waitsForAll = true → ∀ k ∈ s.waited, k ∈ result.1.waited
  cache : request.waitsForAll = true → ∀ k : ProducerKey,
    result.1.leader.idempotencyCache.lookup k.cacheKey ≠ none →
      s.leader.idempotencyCache.lookup k.cacheKey ≠ none ∨ k ∈ result.1.waited
  placed : request.waitsForAll = true → result.2.status = .ok →
    (request.hasFlag flagProducerMetadata = true →
      s.CachedWaited env.cacheNow request.producerKey) →
    ∃ place, result.2.payload = encodePlace place ∧
      result.1.Placed request.topic place.1 place.2

/-- A call that puts nothing into the cache and is not answered with `kOk`. -/
theorem AckCluster.Served.unwritten {env : ProduceEnv} {request : Request} {b : Broker}
    {peers : Bytes → Broker} {response : Response} (h : s.Kept config)
    (hleader : s.leader.Grown b) (htopics : ∀ t, b.topics.lookup t = s.leader.topics.lookup t)
    (hpeers : ∀ n, (s.peers n).Grown (peers n)) (hcache : s.leader.Shrunk b)
    (hstatus : response.status ≠ .ok) :
    AckCluster.Served config s env request ({ s with leader := b, peers := peers }, response) := by
  refine ⟨h.grown hleader htopics hpeers hcache rfl, hleader, hpeers, fun _ k hk => hk, ?_,
    fun _ hok => absurd hok hstatus⟩
  intro _ k hlookup
  left
  rcases Option.ne_none_iff_exists'.mp hlookup with ⟨entry, hentry⟩
  rw [hcache _ _ hentry]
  exact Option.some_ne_none entry

/-- A message that is stored goes on to its replicas. -/
theorem stored_served (h : s.Kept config) {d : Broker} (hgrown : s.leader.Grown d)
    (htopics : ∀ t, d.topics.lookup t = s.leader.topics.lookup t) (hcache : s.leader.Shrunk d)
    (partition : UInt32) (m : Message) {request : Request}
    (hmem : m ∈ (d.storage.partition request.topic partition).messages) (hstorable : m.Storable)
    (hauto : partition ≠ autoPartition) (env : ProduceEnv) (outcomes : List PushOutcome) :
    let pushed :=
      if ¬ request.waitsForAll ∨ d.replicationPeers = [] ∨ d.replicationQuorum ≤ 1 then
        (s.peers, [])
      else pushPeers request.topic partition m d.replicationPeers outcomes d s.peers
    let acknowledged := d.acknowledge { env with answers := pushed.2 } request partition m
    AckCluster.Served config s env request
      (if acknowledged.2 then
        ({ s with
          leader := acknowledged.1.remember env request (produced request partition m)
          peers := pushed.1
          waited :=
            if request.hasFlag flagProducerMetadata then
              if request.waitsForAll then request.producerKey :: s.waited
              else s.waited.filter (fun k => k ≠ request.producerKey)
            else s.waited }, produced request partition m)
      else
        ({ s with leader := acknowledged.1, peers := pushed.1 },
          makeResponse request .storageError)) := by
  intro pushed acknowledged
  have htoken : ∀ n, (s.peers n).replicationConfigured = true ∧
      (s.peers n).replicationAuthToken = d.replicationAuthToken := by
    intro n
    rw [show d.replicationAuthToken = _ from congrArg (fun x => x.2.2.1) hgrown.settings]
    exact h.token n
  have hpushed := @pushPeers_holders request.topic partition m d.replicationPeers outcomes d
    s.peers htoken hauto hstorable
  have hpeers : ∀ n, (s.peers n).Grown (pushed.1 n) := by
    intro n
    unfold pushed
    split
    · exact .refl _
    · exact hpushed.1 n
  -- Replication changes nothing of the leader but its coordinator.
  have hframe : acknowledged.1 = { d with coordinator := acknowledged.1.coordinator } :=
    acknowledge_frame d _ request partition m
  have hleader : s.leader.Grown acknowledged.1 := by
    rw [hframe]
    exact ⟨hgrown.settings, hgrown.logs⟩
  have hsame : ∀ t, acknowledged.1.topics.lookup t = s.leader.topics.lookup t := by
    rw [hframe]
    exact htopics
  have hshrunk : s.leader.Shrunk acknowledged.1 := by
    rw [hframe]
    exact hcache
  by_cases hack : acknowledged.2 = true
  · rw [if_pos hack]
    have hkept : AckCluster.Kept config { s with leader := acknowledged.1, peers := pushed.1 } :=
      h.grown hleader hsame hpeers hshrunk rfl
    have hplaced : request.waitsForAll = true → AckCluster.Placed { s with
        leader := acknowledged.1
        peers := pushed.1 } request.topic partition m.offset := by
      intro hwaits
      have hreplicated : (d.replicate { env with answers := pushed.2 } request.topic partition
          m).2 = true := by
        unfold acknowledged Broker.acknowledge at hack
        rwa [if_pos hwaits] at hack
      rcases replicate_quorum hreplicated with ⟨hany, hquorum⟩
      have hpush : pushed = pushPeers request.topic partition m d.replicationPeers outcomes d
          s.peers := if_neg (by
        rw [not_or, not_not]
        exact ⟨hwaits, hany⟩)
      rcases hpushed.2 with ⟨holders, hholders, hcount⟩
      rw [← hpush] at hholders hcount
      rw [hcount] at hquorum
      refine ⟨m, ?_, rfl, holders, ?_, ?_⟩
      · simp only
        rw [hframe]
        exact hmem
      · intro n hn
        simp only
        rw [hframe]
        exact ⟨(hholders n hn).1, (hholders n hn).2.2⟩
      · simp only
        rw [hframe]
        exact hquorum
    rcases remember_frame acknowledged.1 env request (produced request partition m) with
      ⟨cache, hremember⟩
    refine ⟨remember_kept hkept env request (partition, m.offset) rfl hplaced, ?_, hpeers, ?_, ?_,
      ?_⟩
    · simp only
      rw [hremember]
      exact ⟨hleader.settings, hleader.logs⟩
    · intro hwaits k hk
      simp only [hwaits, if_true]
      split
      · exact List.mem_cons_of_mem _ hk
      · exact hk
    · intro hwaits k hlookup
      simp only [hwaits, if_true] at hlookup ⊢
      unfold Broker.remember at hlookup
      by_cases hkey : k = request.producerKey ∧ request.hasFlag flagProducerMetadata = true
      · rw [if_pos hkey.2, hkey.1]
        exact Or.inr List.mem_cons_self
      · -- Any other entry was there before.
        left
        have hold : acknowledged.1.idempotencyCache.lookup k.cacheKey ≠ none := by
          split at hlookup
          · rename_i hmeta
            have hother : k.cacheKey ≠ request.cacheKey := fun heq =>
              hkey ⟨ProducerKey.cacheKey_injective k request.producerKey heq, hmeta⟩
            simp only [AList.lookup_insert_ne hother] at hlookup
            exact hlookup
          · exact hlookup
        rcases Option.ne_none_iff_exists'.mp hold with ⟨entry, hentry⟩
        rw [hshrunk _ _ hentry]
        exact Option.some_ne_none entry
    · intro hwaits _ _
      refine ⟨(partition, m.offset), rfl, (hplaced hwaits).mono ?_ ?_ fun n => .refl _⟩
      · simp only
        rw [hremember]
        rfl
      · simp only
        rw [hremember]
  · rw [if_neg hack]
    exact .unwritten h hleader hsame hpeers hshrunk (error_status (by decide))

/-- One call of `HandleProduce`. -/
theorem produce_served (h : s.Kept config) (env : ProduceEnv) (outcomes : List PushOutcome)
    (request : Request) (rate quota : Bool) :
    AckCluster.Served config s env request (s.produce env outcomes request rate quota) := by
  have hadmitted := (admitProduce_step s.leader env request rate quota [] 0).grown
  have htopics : (s.leader.admitProduce env request rate quota).1.topics = s.leader.topics :=
    (admitProduce_step s.leader env request rate quota [] 0).topics
  have hshrunk := admitProduce_shrunk s.leader env request rate quota
  rw [produce_eq]
  cases hadmits : s.leader.admitProduce env request rate quota with
  | mk b outcome =>
      rw [hadmits] at hadmitted htopics hshrunk
      have hsame : ∀ t, b.topics.lookup t = s.leader.topics.lookup t := by
        intro t
        rw [show b.topics = s.leader.topics from htopics]
      cases outcome with
      | error response =>
          simp only
          by_cases hok : response.status = .ok
          · -- The response is one of the cache.
            refine ⟨h.grown hadmitted hsame (fun n => .refl _) hshrunk rfl, hadmitted,
              fun n => .refl _, fun _ k hk => hk, ?_, ?_⟩
            · intro _ k hlookup
              left
              rcases Option.ne_none_iff_exists'.mp hlookup with ⟨entry, hentry⟩
              rw [hshrunk _ _ hentry]
              exact Option.some_ne_none entry
            · intro _ _ hwaited
              rcases admitProduce_replayed hadmits hok with ⟨hmeta, entry, hentry, hpayload⟩
              have hkey : request.producerKey ∈ s.waited := by
                refine hwaited hmeta ?_
                rw [show request.producerKey.cacheKey = request.cacheKey from rfl, hentry]
                exact Option.some_ne_none entry
              rcases h.waited _ hkey entry (evictExpired_shrunk _ _ _ _ hentry) with
                ⟨place, hplace, hplaced⟩
              exact ⟨place, hpayload.trans hplace,
                hplaced.mono hadmitted.settings (hadmitted.logs _ _) fun n => .refl _⟩
          · exact .unwritten h hadmitted hsame (fun n => .refl _) hshrunk hok
      | ok admitted =>
          rcases admitted with ⟨partition, body⟩
          simp only
          rcases storeProduce_step b env request partition body with
            ⟨ops, ms, hstep, hone, _, _⟩
          rcases storeProduce_frame b env request partition body with ⟨storage, coordinator, hframe⟩
          cases hstore : b.storeProduce env request partition body with
          | mk d stored =>
              rw [hstore] at hstep hone hframe
              have hgrown : s.leader.Grown d := hadmitted.trans hstep.grown
              have hcache : s.leader.Shrunk d := by
                rw [show d = _ from hframe]
                exact hshrunk
              have hkept : ∀ t, d.topics.lookup t = s.leader.topics.lookup t := by
                intro t
                rw [show d = _ from hframe]
                exact hsame t
              cases stored with
              | none =>
                  exact .unwritten h hgrown hkept (fun n => .refl _) hcache
                    (error_status (by decide))
              | some m =>
                  have hms : ms = [m] := hone m rfl
                  have hmem : m ∈ (d.storage.partition request.topic partition).messages := by
                    rw [hstep.storage.messages, hms]
                    exact List.mem_append_right _ List.mem_cons_self
                  have hauto := admitProduce_partition
                    (fun t count hcount => (h.topics t count hcount).2.1) hadmits
                  exact stored_served h hgrown hkept hcache partition m hmem
                    (hstep.storable m (by rw [hms]; exact List.mem_cons_self)) hauto env outcomes

end Produce

/-! ## Batches -/

/-- What is known of an item of a batch that waits for the replicas: a cached
    response names a message that is placed, and the request of any other item
    waits as well and was not in the cache of the broker `b₀`. -/
def BatchEntry.Ready (s : AckCluster) (b₀ : Broker) (topic : Bytes) : BatchEntry → Prop
  | .cached response =>
      ∃ place, response.payload = encodePlace place ∧ s.Placed topic place.1 place.2
  | .pending single =>
      b₀.idempotencyCache.lookup single.producerKey.cacheKey = none ∧ single.topic = topic ∧
        single.waitsForAll = true

section Batch

variable {config : BrokersConfig} {s s' : AckCluster}

theorem BatchEntry.Ready.mono {b₀ : Broker} {topic : Bytes} {entry : BatchEntry}
    (h : entry.Ready s b₀ topic) (hleader : s.leader.Grown s'.leader)
    (hpeers : ∀ n, (s.peers n).Grown (s'.peers n)) : entry.Ready s' b₀ topic := by
  cases entry with
  | cached response =>
      rcases h with ⟨place, hpayload, hplaced⟩
      exact ⟨place, hpayload, hplaced.mono hleader.settings (hleader.logs _ _) hpeers⟩
  | pending single => exact h

/-- A flag that is set does not touch the others. -/
theorem flag_and_mask (x flag mask : UInt16) (h : flag &&& mask = 0) :
    ((x &&& ~~~flag) ||| flag) &&& mask = x &&& mask := by
  apply UInt16.toBitVec_inj.mp
  ext i hi
  have hbit := congrArg (fun y : UInt16 => y.toBitVec[i]) h
  simp only [UInt16.toBitVec_and, BitVec.getElem_and] at hbit
  simp only [UInt16.toBitVec_and, UInt16.toBitVec_or, UInt16.toBitVec_not, BitVec.getElem_and,
    BitVec.getElem_or, BitVec.getElem_not]
  have hzero : (0 : UInt16).toBitVec[i] = false := BitVec.getElem_zero hi
  rw [hzero] at hbit
  cases hflag : flag.toBitVec[i] with
  | false => simp only [Bool.not_false, Bool.and_true, Bool.or_false]
  | true =>
      rw [hflag, Bool.true_and] at hbit
      rw [hbit, Bool.and_false, Bool.and_false]

/-- The request for an item waits if the batch does. -/
theorem singleRequest_waitsForAll (request : Request) (producerId sequence : UInt64)
    (key value : Bytes) :
    (singleRequest request producerId sequence key value).waitsForAll = request.waitsForAll := by
  unfold Request.waitsForAll
  rw [show (singleRequest request producerId sequence key value).flags
    = (request.flags &&& ~~~flagProducerMetadata) ||| flagProducerMetadata from rfl,
    flag_and_mask _ _ _ (by decide)]

/-- The items of a batch that waits are ready, if what the cache has for them
    is placed. -/
theorem prepareBatch_ready (request : Request) (producerId : UInt64) (b₀ : Broker) (count : Nat)
    (sequence : UInt64) (position : Nat) (newBytes : UInt64)
    {prepared : List BatchEntry × Nat × UInt64} (hwaits : request.waitsForAll = true)
    (hcached : ∀ i < count, ∀ entry, b₀.idempotencyCache.lookup (idempotencyKey request.topic
      producerId (sequence + UInt64.ofNat i)) = some entry →
      ∃ place, entry.response.payload = encodePlace place ∧
        s.Placed request.topic place.1 place.2)
    (h : prepareBatch request producerId (b₀.lookupBatch request producerId count sequence) sequence
      position newBytes = .ok prepared) :
    ∀ entry ∈ prepared.1, entry.Ready s b₀ request.topic := by
  induction count generalizing sequence position newBytes prepared with
  | zero =>
      cases h
      exact fun entry hentry => absurd hentry List.not_mem_nil
  | succ count ih =>
      rw [Broker.lookupBatch] at h
      rcases prepareBatch_cons request producerId _ (b₀.lookupBatch request producerId count
        (sequence + 1)) sequence position newBytes with
        ⟨status, herror, _⟩ | ⟨first, next, bytes, tail, htail, hok, hfirst⟩
      · rw [herror] at h
        cases h
      · rw [hok] at h
        cases h
        have hrest := ih (sequence + 1) next bytes (fun i hi => by
          rw [ofNat_succ_add]
          exact hcached (i + 1) (by omega)) htail
        intro entry hentry
        rcases List.mem_cons.mp hentry with rfl | hentry
        · rcases hfirst with ⟨response, hfound, rfl, _⟩ | ⟨hmissing, key, value, rfl⟩
          · rw [Option.map_eq_some_iff] at hfound
            rcases hfound with ⟨found, hlookup, rfl⟩
            refine hcached 0 (Nat.succ_pos count) found ?_
            rw [show UInt64.ofNat 0 = 0 from rfl, UInt64.add_zero]
            exact hlookup
          · rw [Option.map_eq_none_iff] at hmissing
            refine ⟨?_, rfl, ?_⟩
            · rw [(singleRequest_producerKey request producerId sequence key value).1]
              exact hmissing
            · rw [singleRequest_waitsForAll, hwaits]
        · exact hrest entry hentry

/-- The loop over the items keeps the invariant. -/
theorem produceEntries_kept (request : Request) (calls : Nat → ProduceEnv)
    (outcomes : Nat → List PushOutcome) (entries : List BatchEntry) (index : Nat)
    (payload : Bytes) (h : s.Kept config) :
    (AckCluster.produceEntries request calls outcomes entries index s payload).1.Kept config := by
  induction entries generalizing index s payload with
  | nil => exact h
  | cons entry rest ih =>
      cases entry with
      | cached response => exact ih (index + 1) (payload ++ response.payload) h
      | pending single =>
          have hserved := produce_served h (calls index) (outcomes index) single false false
          simp only [AckCluster.produceEntries]
          split
          · exact hserved.kept
          · exact ih (index + 1) _ hserved.kept

/-- When a batch that waits is answered with `kOk`, its payload is a list of
    places, one for each item, and all of them are those of messages that are
    placed. -/
theorem produceEntries_placed (request : Request) (b₀ : Broker) (calls : Nat → ProduceEnv)
    (outcomes : Nat → List PushOutcome) (entries : List BatchEntry) (index : Nat)
    (payload : Bytes) (h : s.Kept config)
    (hready : ∀ entry ∈ entries, entry.Ready s b₀ request.topic)
    (hcache : ∀ k : ProducerKey, s.leader.idempotencyCache.lookup k.cacheKey ≠ none →
      b₀.idempotencyCache.lookup k.cacheKey ≠ none ∨ k ∈ s.waited) :
    let result := AckCluster.produceEntries request calls outcomes entries index s payload
    s.leader.Grown result.1.leader ∧ (∀ n, (s.peers n).Grown (result.1.peers n)) ∧
      (result.2.status = .ok → ∃ places : List (UInt32 × UInt64),
        result.2.payload = payload ++ places.flatMap encodePlace ∧
        places.length = entries.length ∧
        ∀ place ∈ places, result.1.Placed request.topic place.1 place.2) := by
  induction entries generalizing index s payload with
  | nil =>
      refine ⟨.refl _, fun n => .refl _, fun _ => ⟨[], ?_, rfl, fun place hplace =>
        absurd hplace List.not_mem_nil⟩⟩
      simp only [AckCluster.produceEntries, makeResponse, List.flatMap_nil, List.append_nil]
  | cons entry rest ih =>
      cases entry with
      | cached response =>
          rcases hready _ List.mem_cons_self with ⟨place, hpayload, hplaced⟩
          rcases ih (index + 1) (payload ++ response.payload) h
            (fun x hx => hready x (List.mem_cons_of_mem _ hx)) hcache with
            ⟨hleader, hpeers, hanswer⟩
          refine ⟨hleader, hpeers, fun hok => ?_⟩
          rcases hanswer hok with ⟨places, hplaces, hlength, hall⟩
          refine ⟨place :: places, ?_, congrArg Nat.succ hlength, ?_⟩
          · simp only [AckCluster.produceEntries]
            rw [hplaces, hpayload, List.flatMap_cons, List.append_assoc]
          · intro x hx
            rcases List.mem_cons.mp hx with rfl | hx
            · exact hplaced.mono hleader.settings (hleader.logs _ _) hpeers
            · exact hall x hx
      | pending single =>
          rcases hready _ List.mem_cons_self with ⟨hmissing, htopic, hsingle⟩
          have hserved := produce_served h (calls index) (outcomes index) single false false
          simp only [AckCluster.produceEntries]
          split
          · rename_i hfailed
            exact ⟨hserved.leader, hserved.peers, fun hok => absurd hok hfailed⟩
          · rename_i hok
            -- Whatever the cache has for this item is from an earlier item, which has waited.
            have hwaited : s.CachedWaited (calls index).cacheNow single.producerKey := by
              intro hlookup
              rcases Option.ne_none_iff_exists'.mp hlookup with ⟨found, hfound⟩
              have hbefore : s.leader.idempotencyCache.lookup single.producerKey.cacheKey
                  ≠ none := by
                rw [evictExpired_shrunk _ _ _ _ hfound]
                exact Option.some_ne_none found
              exact (hcache _ hbefore).resolve_left fun hne => hne hmissing
            rcases hserved.placed hsingle (not_not.mp hok) fun _ => hwaited with
              ⟨place, hpayload, hplaced⟩
            rw [htopic] at hplaced
            rcases ih (index + 1) (payload ++ _) hserved.kept
              (fun x hx => (hready x (List.mem_cons_of_mem _ hx)).mono hserved.leader
                hserved.peers)
              (fun k hlookup => (hserved.cache hsingle k hlookup).elim
                (fun hbefore => (hcache k hbefore).imp_right (hserved.waited hsingle k)) Or.inr)
              with ⟨hleader, hpeers, hanswer⟩
            refine ⟨hserved.leader.trans hleader, fun n => (hserved.peers n).trans (hpeers n),
              fun hfinal => ?_⟩
            rcases hanswer hfinal with ⟨places, hplaces, hlength, hall⟩
            refine ⟨place :: places, ?_, congrArg Nat.succ hlength, ?_⟩
            · rw [hplaces, hpayload, List.flatMap_cons, List.append_assoc]
            · intro x hx
              rcases List.mem_cons.mp hx with rfl | hx
              · exact hplaced.mono hleader.settings (hleader.logs _ _) hpeers
              · exact hall x hx

/-- What is read from a payload are the places that were written into it. -/
theorem reports_places (front : Bytes) (places : List (UInt32 × UInt64)) :
    reports (front ++ places.flatMap encodePlace) places.length front.length = places := by
  induction places generalizing front with
  | nil => rfl
  | cons place rest ih =>
      rcases read_place front (rest.flatMap encodePlace) place.1 place.2 with
        ⟨hpartition, hoffset⟩
      have hlength : front.length + 12 = (front ++ encodePlace place).length := by
        simp only [encodePlace, List.length_append, length_put32, length_put64]
      rw [List.flatMap_cons, List.length_cons, reports]
      rw [hlength, ← List.append_assoc front, ih, List.append_assoc]
      exact congrArg (· :: rest) (Prod.ext hpartition hoffset)

/-- What comes before the items of a batch puts nothing into the cache. -/
theorem admitBatch_kept (h : s.Kept config) (env : BatchEnv) (request : Request) :
    s.leader.Grown (s.leader.admitBatch env request).1 ∧
      AckCluster.Kept config { s with leader := (s.leader.admitBatch env request).1 } := by
  have hframe : ∃ cache windows, (s.leader.admitBatch env request).1 = { s.leader with
      idempotencyCache := cache
      topicQuotaWindows := windows } ∧
      ∀ key entry, cache.lookup key = some entry →
        s.leader.idempotencyCache.lookup key = some entry := by
    rcases admitBatch_cases s.leader env request with
      ⟨hsame, _⟩ | ⟨_, _, _, _, ⟨windows, hsame⟩, _⟩
    · exact ⟨_, _, hsame, Broker.Shrunk.refl s.leader⟩
    · exact ⟨_, windows, hsame, evictExpired_shrunk s.leader env.lookupNow⟩
  rcases hframe with ⟨cache, windows, hframe, hcache⟩
  rw [hframe]
  have hgrown : s.leader.Grown { s.leader with
      idempotencyCache := cache
      topicQuotaWindows := windows } := ⟨rfl, fun _ _ => List.prefix_rfl⟩
  exact ⟨hgrown, h.grown hgrown (fun _ => rfl) (fun n => .refl _) hcache rfl⟩

theorem produceBatch_kept (h : s.Kept config) (env : BatchEnv)
    (outcomes : Nat → List PushOutcome) (request : Request) :
    (s.produceBatch env outcomes request).1.Kept config := by
  have hadmitted := (admitBatch_kept h env request).2
  unfold AckCluster.produceBatch
  split
  · rename_i b status hadmits
    rw [hadmits] at hadmitted
    exact hadmitted
  · rename_i b entries hadmits
    rw [hadmits] at hadmitted
    exact produceEntries_kept _ _ _ _ _ _ hadmitted

/-- A batch that waits is told places of messages that are placed. -/
theorem produceBatch_placed (h : s.Kept config) {env : BatchEnv}
    {outcomes : Nat → List PushOutcome} {request : Request} (hwaits : request.waitsForAll = true)
    (hfrom : AckEvent.FromWaited s (.produceBatch env outcomes request))
    (hok : (s.produceBatch env outcomes request).2.status = .ok) :
    ∃ places : List (UInt32 × UInt64), (s.produceBatch env outcomes request).2.payload
        = put32 (UInt32.ofNat places.length) ++ places.flatMap encodePlace ∧
      places.length ≤ 10000 ∧
      ∀ place ∈ places, (s.produceBatch env outcomes request).1.Placed request.topic place.1
        place.2 := by
  rcases admitBatch_kept h env request with ⟨hgrown, hadmitted⟩
  have hcases := admitBatch_cases s.leader env request
  revert hok
  unfold AckCluster.produceBatch
  cases hadmits : s.leader.admitBatch env request with
  | mk b outcome =>
      rw [hadmits] at hgrown hadmitted hcases
      rcases hcases with
        ⟨_, status, hstatus, hno⟩ | ⟨producerId, first, count, hheader, ⟨windows, hsame⟩,
          ⟨status, hstatus, hno⟩ | ⟨entries, rest, hentries, hprepared⟩⟩
      · cases hstatus
        exact fun hok => absurd hok hno
      · cases hstatus
        exact fun hok => absurd hok hno
      · cases hentries
        intro hok
        -- What the cache has for an item is of a request that has waited.
        have hcached : ∀ i < count, ∀ entry, (s.leader.evictExpired
            env.lookupNow).idempotencyCache.lookup (idempotencyKey request.topic producerId
              (first + UInt64.ofNat i)) = some entry →
            ∃ place, entry.response.payload = encodePlace place ∧
              AckCluster.Placed { s with leader := b } request.topic place.1 place.2 := by
          intro i hi entry hentry
          have hkey := hfrom hwaits _ hheader i hi
            fun hnone => Option.some_ne_none entry (hentry.symm.trans hnone)
          rcases h.waited _ hkey entry (evictExpired_shrunk _ _ _ _ hentry) with
            ⟨place, hpayload, hplaced⟩
          exact ⟨place, hpayload,
            hplaced.mono hgrown.settings (hgrown.logs _ _) fun n => .refl _⟩
        have hready := prepareBatch_ready request producerId _ count first 20 0 hwaits hcached
          hprepared
        rcases produceEntries_placed request _ env.calls outcomes entries 0
          (put32 (UInt32.ofNat entries.length)) hadmitted hready (fun k hlookup => Or.inl (by
            rw [show b = _ from hsame] at hlookup
            exact hlookup)) with ⟨_, _, hanswer⟩
        rcases hanswer hok with ⟨places, hpayload, hlength, hplaced⟩
        refine ⟨places, hpayload.trans (by rw [hlength]), ?_, hplaced⟩
        have hcount := batchHeader_count hheader
        have hentries : entries.length = _ := prepareBatch_length _ _ hprepared
        rw [lookupBatch_length] at hentries
        omega

/-- The loop of a broker only asks for the calls that are still to come. -/
theorem produceEntries_calls (request : Request) {calls calls' : Nat → ProduceEnv}
    (entries : List BatchEntry) (index : Nat) (b : Broker) (payload : Bytes)
    (stored : List (Request × UInt32 × Message)) (h : ∀ i ≥ index, calls i = calls' i) :
    Broker.produceEntries request calls entries index b payload stored
      = Broker.produceEntries request calls' entries index b payload stored := by
  induction entries generalizing index b payload stored with
  | nil => rfl
  | cons entry rest ih =>
      have hrest : ∀ i ≥ index + 1, calls i = calls' i := fun i hi => h i (by omega)
      cases entry with
      | cached response =>
          rw [Broker.produceEntries, Broker.produceEntries]
          exact ih _ _ _ _ hrest
      | pending single =>
          simp only [Broker.produceEntries, h index le_rfl]
          split
          · rfl
          · exact ih _ _ _ _ hrest

/-- The loop with the answers of the peers is that of the broker for some
    answers. -/
theorem produceEntries_leader (request : Request) (calls : Nat → ProduceEnv)
    (outcomes : Nat → List PushOutcome) (entries : List BatchEntry) (index : Nat) (s : AckCluster)
    (payload : Bytes) (stored : List (Request × UInt32 × Message)) :
    ∃ (answers : Nat → List (Option Int)) (all : List (Request × UInt32 × Message)),
      Broker.produceEntries request (fun i => { calls i with answers := answers i }) entries index
        s.leader payload stored
        = ⟨(AckCluster.produceEntries request calls outcomes entries index s payload).1.leader,
          (AckCluster.produceEntries request calls outcomes entries index s payload).2, all⟩ := by
  induction entries generalizing index s payload stored with
  | nil => exact ⟨fun _ => [], stored, rfl⟩
  | cons entry rest ih =>
      cases entry with
      | cached response => exact ih (index + 1) s (payload ++ response.payload) stored
      | pending single =>
          let own := (s.pushes (calls index) (outcomes index) single false false).2
          let call := s.leader.handleProduce { calls index with answers := own } single false false
          let result := s.produce (calls index) (outcomes index) single false false
          have hleader : call.broker = result.1.leader := rfl
          have hresponse : call.response = result.2 := rfl
          rcases ih (index + 1) result.1 (payload ++ result.2.payload)
            (stored ++ call.stored.toList.map (fun m => (single, m))) with ⟨answers, all, hrest⟩
          by_cases hok : result.2.status ≠ .ok
          · refine ⟨fun _ => own, stored ++ call.stored.toList.map (fun m => (single, m)), ?_⟩
            rw [Broker.produceEntries, AckCluster.produceEntries, if_pos hok]
            exact if_pos hok
          · -- Later calls get the answers of the rest.
            refine ⟨fun i => if i = index then own else answers i, all, ?_⟩
            rw [AckCluster.produceEntries, if_neg hok, ← hrest, Broker.produceEntries]
            simp only [if_true]
            rw [show s.leader.handleProduce _ single false false = call from rfl, hresponse,
              if_neg hok, hleader]
            refine produceEntries_calls request rest (index + 1) _ _ _ fun i hi => ?_
            rw [if_neg (by omega)]

/-- The leader does what `HandleProduceBatch` does. -/
theorem produceBatch_leader (s : AckCluster) (env : BatchEnv) (outcomes : Nat → List PushOutcome)
    (request : Request) :
    ∃ (answers : Nat → List (Option Int)) (all : List (Request × UInt32 × Message)),
      s.leader.handleProduceBatch { env with
        calls := fun i => { env.calls i with answers := answers i } } request
        = ⟨(s.produceBatch env outcomes request).1.leader,
          (s.produceBatch env outcomes request).2, all⟩ := by
  have hadmission : ∀ calls, s.leader.admitBatch { env with calls := calls } request
      = s.leader.admitBatch env request := fun _ => rfl
  simp only [Broker.handleProduceBatch, AckCluster.produceBatch, hadmission]
  cases s.leader.admitBatch env request with
  | mk b outcome =>
      cases outcome with
      | error status => exact ⟨fun _ => [], [], rfl⟩
      | ok entries =>
          exact produceEntries_leader request env.calls outcomes entries 0 { s with leader := b } _
            []

end Batch

/-! ## Every event -/

section Events

variable {config : BrokersConfig} {s : AckCluster}

/-- What the deletion of a topic does to the responses in the cache: those of
    the topic go together with its logs, if the files can be removed. -/
theorem handleDeleteTopic_cache (b : Broker)
    (hvalid : ∀ t count, b.topics.lookup t = some count → ValidTopic t count) (env : DeleteEnv)
    (request : Request) :
    (b.handleDeleteTopic env request).1.settings = b.settings ∧
    b.Shrunk (b.handleDeleteTopic env request).1 ∧
    ((b.handleDeleteTopic env request).1.storage = b.storage ∨ env.removed = false ∨
      ∀ k : ProducerKey, k.topic = request.topic →
        (b.handleDeleteTopic env request).1.idempotencyCache.lookup k.cacheKey = none) := by
  have hback : ∀ (d : Broker) (count : UInt32),
      ∃ topics, (d.createTopic request.topic count).1 = { d with topics := topics } := by
    intro d count
    rcases createTopic_outcome d request.topic count with ⟨_, _, heq⟩ | heq
    · exact ⟨_, by rw [heq]⟩
    · exact ⟨_, by rw [heq]⟩
  simp only [Broker.handleDeleteTopic]
  split
  · exact ⟨rfl, .refl b, Or.inl rfl⟩
  · split
    · exact ⟨rfl, .refl b, Or.inl rfl⟩
    · rename_i count hcount
      split
      · rcases hback { b with topics := b.topics.erase request.topic } count with ⟨topics, heq⟩
        rw [heq]
        exact ⟨rfl, .refl b, Or.inl rfl⟩
      · split
        · rename_i hfailed
          rcases hback { b with
            topics := b.topics.erase request.topic
            storage := (b.storage.deleteTopic env request.topic).1 } count with ⟨topics, heq⟩
          rw [heq]
          refine ⟨rfl, .refl b, Or.inr (Or.inl ?_)⟩
          by_contra hremoved
          exact hfailed (deleteTopic_removed b.storage (hvalid _ _ hcount).1
            (Bool.not_eq_false _ ▸ hremoved)).1
        · refine ⟨rfl, ?_, Or.inr (Or.inr ?_)⟩
          · intro key entry hentry
            simp only [Table.lookup_filterKeys] at hentry
            split at hentry
            · exact hentry
            · cases hentry
          · intro k hk
            have hprefix : request.topic ++ [keySeparator] <+: k.cacheKey := by
              rw [← hk]
              exact ⟨_, by rw [List.append_assoc]; rfl⟩
            simp only [Table.lookup_filterKeys, hprefix, not_true_eq_false, decide_false,
              Bool.false_eq_true, if_false]

/-- The logs of other topics stay as they are. -/
theorem handleDeleteTopic_other (b : Broker)
    (hvalid : ∀ t count, b.topics.lookup t = some count → ValidTopic t count) (env : DeleteEnv)
    (request : Request) {t : Bytes} (ht : t ≠ request.topic) (n : UInt32) :
    (b.handleDeleteTopic env request).1.storage.partition t n = b.storage.partition t n := by
  have hdeleted : (b.topics.lookup request.topic).isSome = true →
      (b.storage.deleteTopic env request.topic).1.partition t n = b.storage.partition t n := by
    intro hsome
    rcases Option.isSome_iff_exists.mp hsome with ⟨count, hcount⟩
    have hname := (hvalid _ _ hcount).1
    by_cases hremoved : env.removed = true
    · rw [(deleteTopic_removed b.storage hname hremoved).2, if_neg ht]
    · rw [(deleteTopic_left b.storage hname hremoved).2, if_neg ht]
  rcases handleDeleteTopic_cases b hvalid env request with
    ⟨_, _, hstorage | ⟨_, hsome, hstorage⟩⟩ | ⟨_, hsome, _, _, hstorage⟩
  · rw [hstorage]
  · rw [hstorage, hdeleted hsome]
  · rw [hstorage, hdeleted hsome]

theorem deleteTopic_kept (h : s.Kept config) (env : DeleteEnv) (request : Request) :
    AckCluster.Kept config { s with
      leader := (s.leader.handleDeleteTopic env request).1
      waited := if env.removed then s.waited
        else s.waited.filter (fun k => k.topic ≠ request.topic)
      answer := none } := by
  rcases handleDeleteTopic_cache s.leader h.topics env request with
    ⟨hsettings, hshrunk, hcache⟩
  refine ⟨hsettings.trans h.leader, h.peers, ?_, ?_⟩
  · intro t count hcount
    rcases handleDeleteTopic_cases s.leader h.topics env request with
      ⟨_, htopics, _⟩ | ⟨_, _, _, htopics, _⟩
    · exact h.topics t count (by rw [← htopics t]; exact hcount)
    · rw [htopics] at hcount
      split at hcount
      · cases hcount
      · exact h.topics t count hcount
  · intro k hk entry hentry
    simp only at hk hentry
    have hbefore : k ∈ s.waited := by
      split at hk
      · exact hk
      · exact (List.mem_filter.mp hk).1
    rcases h.waited k hbefore entry (hshrunk _ _ hentry) with ⟨place, hpayload, hplaced⟩
    refine ⟨place, hpayload, hplaced.mono hsettings ?_ fun n => .refl _⟩
    by_cases hkey : k.topic = request.topic
    · -- The topic still has its logs: with them, the response would be gone.
      rcases hcache with hstorage | hremoved | hnone
      · simp only
        rw [hstorage]
      · rw [hremoved, if_neg Bool.false_ne_true] at hk
        exact absurd hkey (of_decide_eq_true (List.mem_filter.mp hk).2)
      · rw [hnone k hkey] at hentry
        cases hentry
    · simp only
      rw [handleDeleteTopic_other s.leader h.topics env request hkey]

theorem createTopic_kept (h : s.Kept config) (saved : Bool) (request : Request) :
    AckCluster.Kept config { s with
      leader := (s.leader.handleCreateTopic saved request).1
      answer := none } := by
  have hgrown := handleCreateTopic_grown s.leader saved request
  refine ⟨hgrown.settings.trans h.leader, h.peers, ?_, ?_⟩
  · intro t count hcount
    simp only at hcount
    rcases handleCreateTopic_cases s.leader saved request with
      ⟨topics, heq, hsame⟩ | ⟨new, _, _, hvalid, _, heq⟩
    · rw [heq] at hcount
      exact h.topics t count ((hsame t).symm.trans hcount)
    · rw [heq] at hcount
      by_cases ht : t = request.topic
      · subst ht
        simp only [AList.lookup_insert] at hcount
        cases hcount
        exact hvalid
      · simp only [AList.lookup_insert_ne ht] at hcount
        exact h.topics t count hcount
  · intro k hk entry hentry
    have hbefore : s.leader.idempotencyCache.lookup k.cacheKey = some entry := by
      simp only at hentry
      rcases handleCreateTopic_cases s.leader saved request with
        ⟨_, heq, _⟩ | ⟨_, _, _, _, _, heq⟩
      · rw [heq] at hentry
        exact hentry
      · rw [heq] at hentry
        exact hentry
    rcases h.waited k hk entry hbefore with ⟨place, hpayload, hplaced⟩
    exact ⟨place, hpayload, hplaced.mono hgrown.settings (hgrown.logs _ _) fun n => .refl _⟩

/-- A peer that only gets more. -/
theorem setPeer_kept (h : s.Kept config) {n : Bytes} {b : Broker} (hgrown : (s.peers n).Grown b) :
    (s.setPeer n b).Kept config := by
  refine h.grown (.refl _) (fun _ => rfl) (fun x => ?_) (Broker.Shrunk.refl _) rfl
  simp only [AckCluster.setPeer]
  by_cases hx : x = n
  · subst hx
    rw [Function.update_self]
    exact hgrown
  · rw [Function.update_of_ne hx]
    exact .refl _

theorem AckCluster.Kept.answered {result : AckCluster × Response} (h : result.1.Kept config)
    (request : Request) (count position : Nat) :
    (AckCluster.answered request result count position).Kept config :=
  ⟨h.leader, h.peers, h.topics, h.waited⟩

/-- Every event keeps the invariant. -/
theorem AckEvent.exec_kept (h : s.Kept config) (e : AckEvent) : (e.exec s).Kept config := by
  cases e with
  | createTopic saved request => exact createTopic_kept h saved request
  | deleteTopic env request => exact deleteTopic_kept h env request
  | produce env outcomes request =>
      exact (produce_served h env outcomes request true true).kept.answered _ _ _
  | produceBatch env outcomes request =>
      exact (produceBatch_kept h env outcomes request).answered _ _ _
  | operate op =>
      exact h.grown ⟨rfl, fun _ _ => List.prefix_rfl⟩ (fun _ => rfl) (fun n => .refl _)
        (Broker.Shrunk.refl _) rfl
  | createPeerTopic n saved request => exact setPeer_kept h (handleCreateTopic_grown _ _ _)
  | append n env request => exact setPeer_kept h (receiveAppend_grown _ _ _)
  | pull n ios topic partition messages => exact setPeer_kept h (applyFetched_grown _ _ _ _ _)

/-- An answer is kept, if what comes from the cache is of requests that had
    waited. -/
theorem AckEvent.exec_answerKept (h : s.Kept config) {e : AckEvent} (hfrom : e.FromWaited s) :
    (e.exec s).AnswerKept := by
  have hnone : ∀ t : AckCluster, t.answer = none → t.AnswerKept := by
    intro t ht request places hanswer
    rw [ht] at hanswer
    cases hanswer
  cases e with
  | produce env outcomes request =>
      intro r places hanswer hwaits place hplace
      have hserved := produce_served h env outcomes request true true
      simp only [AckEvent.exec, AckCluster.answered] at hanswer
      split at hanswer
      · rename_i hok
        cases hanswer
        rcases hserved.placed hwaits hok (hfrom hwaits) with ⟨named, hpayload, hplaced⟩
        have hreports := reports_places [] [named]
        rw [List.flatMap_cons, List.flatMap_nil, List.append_nil, List.nil_append, ← hpayload]
          at hreports
        rw [show reports _ 1 0 = _ from hreports] at hplace
        rw [List.mem_singleton.mp hplace]
        exact hplaced
      · cases hanswer
  | produceBatch env outcomes request =>
      intro r places hanswer hwaits place hplace
      simp only [AckEvent.exec, AckCluster.answered] at hanswer
      split at hanswer
      · rename_i hok
        cases hanswer
        rcases produceBatch_placed h hwaits hfrom hok with ⟨named, hpayload, hlength, hplaced⟩
        have hcount : (get32 (s.produceBatch env outcomes request).2.payload 0).toNat
            = named.length := by
          rw [hpayload, get32_put32]
          exact UInt32.toNat_ofNat_of_lt' (lt_of_le_of_lt hlength (by decide))
        have hreports := reports_places (put32 (UInt32.ofNat named.length)) named
        rw [length_put32, ← hpayload] at hreports
        rw [hcount, hreports] at hplace
        exact hplaced place hplace
      · cases hanswer
  | createTopic saved request => exact hnone _ rfl
  | deleteTopic env request => exact hnone _ rfl
  | operate op => exact hnone _ rfl
  | createPeerTopic n saved request => exact hnone _ rfl
  | append n env request => exact hnone _ rfl
  | pull n ios topic partition messages => exact hnone _ rfl

end Events

/-- A leader with one peer, which ack=all waits for. -/
def ackPair : BrokersConfig where
  members := [[76], [70]]
  first := [76]
  token := [116]
  quorum := 2

/-- Both create the topic, and the leader hears from the peer. -/
def ackStart : List AckEvent :=
  let request : Request := { command := .createTopic, topic := eventsTopic, payload := put32 1 }
  [.createTopic true request, .createPeerTopic [70] true request,
    .operate (.observeHeartbeat (partitionKey eventsTopic 0) [70] 0 0)]

/-- A message that the peer stores, its retry, and a batch that has it
    again. -/
def ackRetried : List AckEvent :=
  ackStart ++ [.produce {} [{}] eventsRequest, .produce {} [] eventsRequest,
    .produceBatch {} (fun _ => [{}]) eventsBatch]

/-- A message is stored for a request that does not wait. Its retry does. -/
def unwaitedRetry : List AckEvent :=
  ackStart ++ [.produce {} [] { eventsRequest with flags := flagProducerMetadata ||| 1 },
    .produce {} [] eventsRequest]

end MqBroker
