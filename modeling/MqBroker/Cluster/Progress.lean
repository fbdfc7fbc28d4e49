import MqBroker.Cluster.Committed
import MqBroker.Cluster.LogPosition

/-!
# What the Leader Knows of Its Peers

A leader counts the replicas of a message by the offsets it has noted for its
peers. Three things lead to a note: a peer reports what it has pulled, a push
of `Replicate` is answered, or a heartbeat of the leader itself is answered.

The three do not note the same number. `Replicate` notes the offset of the
message it has pushed. A peer reports the offset behind its last message, which
is one more than it has stored: that is right by the time the leader hears of it
only if the peer has stored another message since. And for a heartbeat the
leader notes its own commit index, of which the peer need not have heard at all:
that does no harm if the leader has counted the peer for as much before, since
the larger offset is kept.

The run of a cluster with a fixed leader is cut as in `BrokerCluster`. Pulls
and heartbeats come on top of it: a heartbeat is a request on the wire, heard
any time later and any number of times, or never.

## Main definitions

* `ReplicationCoordinator.replicatedOffset`: The offset noted for a peer.
* `ProgressCluster`: A cluster with the heartbeats under way.
* `ProgressEvent`, `ProgressEvent.exec`: What can happen.
* `ProgressCluster.OffsetsCovered`: No peer is counted for what it does not
  have.
* `ProgressEvent.Harmless`: A report that is behind the times, or a commit index
  that adds nothing.

## Theorems

* `observeHeartbeat_replicatedOffset`: What a heartbeat notes.
* `fixed_partitionReplicas`: Which events of a cluster note nothing.
* `answer_stored`: A push that was answered is in the log of the peer.
* `exec_tracked`: What lasts through every run.
* `offsets_covered`: Every run in which these notes are harmless.
-/

namespace MqBroker

open ReplicationCoordinator

/-! ## Events -/

/-- The offset that is noted for a peer, as `AdvanceCommit` and
    `IsQuorumReplicated` compare it. -/
def ReplicationCoordinator.replicatedOffset (c : ReplicationCoordinator) (q node : Bytes) :
    UInt64 :=
  ((c.partitionReplicas.get q).get node).replicatedOffset

/-- A heartbeat on the wire, with the number of messages its sender had in the
    partition by then, which nobody reads. -/
structure Beat where
  sender : Bytes
  receiver : Bytes
  topic : Bytes
  heartbeat : ReplicaHeartbeat
  request : Request
  stored : Nat
deriving DecidableEq, Repr

/-- A cluster with the heartbeats under way, and those that were answered with
    `kOk`. -/
structure ProgressCluster where
  cluster : BrokerCluster
  beats : List Beat := []
  heard : List Nat := []

/-- The cluster before the first event. -/
def ProgressCluster.boot (config : BrokersConfig) : ProgressCluster where
  cluster := bootBrokers config

/-- What can happen while the configured leader leads. Only the leader takes
    produce requests and pushes, and there are no elections and no restarts.
    Fetches are events of their own. -/
def ClusterEvent.fixedLeader (config : BrokersConfig) : ClusterEvent → Bool
  | .operate n (.observeHeartbeatRound _) => n = config.first
  | .receive n _ _ _ _ => n = config.first
  | .pushPending n _ _ _ _ => n = config.first
  | .operate _ _ => false
  | .askVotes _ _ => false
  | .vote _ _ => false
  | .fetch _ _ _ _ _ _ _ _ => false
  | .restart _ => false
  | _ => true

/-- What can happen in a cluster with a fixed leader. -/
inductive ProgressEvent
  | cluster (e : ClusterEvent)
  /-- A peer pulls from the leader, and reports if it could store all it got.
      The answer may be older than the log of the leader is now. -/
  | pull (n topic : Bytes) (partition : UInt32) (start : UInt64) (count : Nat)
      (partitionOk : Bool) (ios : Nat → StoreIo)
  /-- The loop of the leader sends a heartbeat. -/
  | beat (peer topic : Bytes) (partition : UInt32)
  /-- A node handles a heartbeat. -/
  | hear (beat : Nat) (now : Int)
  /-- The leader hears that its heartbeat succeeded. -/
  | echo (beat : Nat) (now : Int)

namespace ProgressCluster

variable (config : BrokersConfig) (s : ProgressCluster)

/-- A heartbeat is put on the wire, if there is a request for it. -/
def send (sender receiver topic : Bytes) (h : ReplicaHeartbeat) : ProgressCluster :=
  match heartbeatSent (s.cluster.nodes sender).replicationAuthToken topic h with
  | none => s
  | some request =>
      { s with beats := s.beats ++ [⟨sender, receiver, topic, h, request,
          (s.cluster.wal sender topic h.partition).length⟩] }

/-- A peer stores what it has pulled. The offset it reports is the one behind
    the last message. -/
def pull (n topic : Bytes) (partition : UInt32) (start : UInt64) (count : Nat)
    (partitionOk : Bool) (ios : Nat → StoreIo) : ProgressCluster :=
  let messages := ((s.cluster.nodes config.first).pendingMessages partitionOk topic partition
    start).take count
  let applied := (s.cluster.nodes n).applyFetched ios topic partition messages
  let stored := { s with cluster := s.cluster.set n applied.1 }
  match applied.2 with
  | none => stored
  | some offset => stored.send n config.first topic (heartbeatArgs partition n offset 0 0)

/-- The heartbeat of the leader carries its commit index, twice, and its
    term. -/
def beat (peer topic : Bytes) (partition : UInt32) : ProgressCluster :=
  let c := (s.cluster.nodes config.first).coordinator
  let commit := c.partitionCommitIndex (partitionKey topic partition)
  s.send config.first peer topic (heartbeatArgs partition config.first commit c.currentTerm commit)

/-- A node handles a heartbeat, and a `kOk` is kept. -/
def hear (index : Nat) (now : Int) (b : Beat) : ProgressCluster :=
  match (s.cluster.nodes b.receiver).heartbeatOf b.request with
  | none => s
  | some normalized =>
      let result := (s.cluster.nodes b.receiver).handleReplicaHeartbeat now normalized
      { s with
        cluster := s.cluster.set b.receiver result.1
        heard := if result.2.status = .ok then s.heard ++ [index] else s.heard }

/-- The leader notes for a peer that has answered the commit index it has by
    now itself. -/
def echo (now : Int) (b : Beat) : ProgressCluster :=
  let leader := s.cluster.nodes config.first
  let key := partitionKey b.topic b.heartbeat.partition
  { s with
    cluster := s.cluster.set config.first { leader with
      coordinator := leader.coordinator.observeHeartbeat key b.receiver
        (leader.coordinator.partitionCommitIndex key) now } }

end ProgressCluster

/-- The cluster after an event. -/
def ProgressEvent.exec (config : BrokersConfig) (s : ProgressCluster) :
    ProgressEvent → ProgressCluster
  | .cluster e =>
      if e.fixedLeader config then { s with cluster := e.exec config s.cluster } else s
  | .pull n topic partition start count partitionOk ios =>
      if n ∈ config.members ∧ n ≠ config.first then
        s.pull config n topic partition start count partitionOk ios
      else s
  | .beat peer topic partition =>
      if peer ∈ config.members ∧ peer ≠ config.first then s.beat config peer topic partition else s
  | .hear index now =>
      match s.beats[index]? with
      | none => s
      | some b => s.hear index now b
  | .echo index now =>
      match s.beats[index]? with
      | none => s
      | some b => if index ∈ s.heard ∧ b.sender = config.first then s.echo config now b else s

/-! ## What is promised -/

/-- For every peer and partition, the leader has noted no offset beyond the
    last message of the peer, and 0 for an empty log. -/
def ProgressCluster.OffsetsCovered (config : BrokersConfig) (s : ProgressCluster) : Prop :=
  ∀ peer ∈ config.members, peer ≠ config.first → ∀ topic partition,
    (s.cluster.nodes config.first).coordinator.replicatedOffset (partitionKey topic partition) peer
      ≤ lastOffset (s.cluster.wal peer topic partition)

/-- The two notes that do not go by the last message of the peer do no harm. The
    leader hears of a pull when the peer has stored another message since it
    reported, and where a heartbeat was answered, the commit index that the leader
    notes is not above what it has noted for the peer already. -/
def ProgressEvent.Harmless (config : BrokersConfig) (s : ProgressCluster) : ProgressEvent → Prop
  | .hear index _ =>
      ∀ b ∈ s.beats[index]?, b.receiver = config.first →
        b.stored < (s.cluster.wal b.sender b.topic b.heartbeat.partition).length
  | .echo index _ =>
      ∀ b ∈ s.beats[index]?, index ∈ s.heard → b.sender = config.first →
        let c := (s.cluster.nodes config.first).coordinator
        let key := partitionKey b.topic b.heartbeat.partition
        c.partitionCommitIndex key ≤ c.replicatedOffset key b.receiver
  | _ => True

/-- No log comes near the largest offset. -/
def ProgressCluster.Short (config : BrokersConfig) (s : ProgressCluster) : Prop :=
  ∀ n ∈ config.members, (s.cluster.nodes n).Short

instance (config : BrokersConfig) (s : ProgressCluster) (e : ProgressEvent) :
    Decidable (e.Harmless config s) :=
  match e with
  | .hear index _ => inferInstanceAs (Decidable (∀ b ∈ s.beats[index]?, _ → _ < _))
  | .echo index _ => inferInstanceAs (Decidable (∀ b ∈ s.beats[index]?, _ → _ → _ ≤ _))
  | .cluster _ => isTrue trivial
  | .pull _ _ _ _ _ _ _ => isTrue trivial
  | .beat _ _ _ => isTrue trivial

instance (config : BrokersConfig) (s : ProgressCluster) : Decidable (s.Short config) :=
  inferInstanceAs (Decidable (∀ n ∈ config.members, (s.cluster.nodes n).Short))

/-! ## What is noted -/

section Notes

variable (c : ReplicationCoordinator)

/-- A heartbeat notes the larger of the old offset and the new one, for its
    node and its partition. -/
theorem observeHeartbeat_replicatedOffset (p node : Bytes) (offset : UInt64) (now : Int)
    (q peer : Bytes) :
    (c.observeHeartbeat p node offset now).replicatedOffset q peer = c.replicatedOffset q peer ∨
      (q = p ∧ peer = node ∧ (c.observeHeartbeat p node offset now).replicatedOffset q peer
        = max (c.replicatedOffset q peer) offset) := by
  unfold observeHeartbeat
  split
  · exact Or.inl rfl
  · split
    · exact Or.inl rfl
    · simp only [replicatedOffset, setProgress]
      by_cases hq : q = p
      · subst hq
        rw [Table.get_insert_self]
        by_cases hpeer : peer = node
        · subst hpeer
          rw [Table.get_insert_self]
          exact Or.inr ⟨rfl, rfl, rfl⟩
        · rw [Table.get_insert_ne _ _ _ _ hpeer]
          exact Or.inl rfl
      · rw [Table.get_insert_ne _ _ _ _ hq]
        exact Or.inl rfl

@[simp] theorem persist_partitionReplicas : c.persist.partitionReplicas = c.partitionReplicas := by
  unfold persist
  split <;> rfl

theorem advanceCommit_partitionReplicas (p : Bytes) (offset : UInt64) (now : Int) :
    (c.advanceCommit p offset now).1.partitionReplicas = c.partitionReplicas := by
  simp only [advanceCommit]
  split
  · rfl
  · split
    · rfl
    · split
      · rfl
      · exact persist_partitionReplicas _

theorem observeHeartbeatRound_partitionReplicas (majorityResponded : Bool) :
    (c.observeHeartbeatRound majorityResponded).1.partitionReplicas = c.partitionReplicas := by
  simp only [observeHeartbeatRound]
  split
  · rfl
  · split
    · rfl
    · split <;> rfl

theorem storeProduce_partitionReplicas (b : Broker) (env : ProduceEnv) (request : Request)
    (partition : UInt32) (body : ProduceBody) :
    (b.storeProduce env request partition body).1.coordinator.partitionReplicas
      = b.coordinator.partitionReplicas := by
  rcases storeProduce_step b env request partition body with ⟨ops, ms, hstep, _, _, hops⟩
  rw [hstep.coordinator]
  rcases hops with rfl | ⟨offset, rfl⟩ <;> rfl

end Notes

/-! ## Pushes and their answers -/

/-- What is known of a call while the leader is fixed: it is one of the leader,
    and the push whose answer it awaits is one of its message. -/
structure CallFixed (config : BrokersConfig) (s : BrokerCluster) (c : ReplicateCall) : Prop where
  node : c.node = config.first
  pending : ∀ v i, c.pending = some (v, i) → ∃ p, s.pushes[i]? = some p ∧
    p.call.topic = c.request.topic ∧ p.call.partition = c.partition ∧ p.call.messages = [c.message]

/-- What is known of a cluster while the leader is fixed: only the leader has
    requests and pushes, and a node that has accepted a push has its messages. -/
structure LeaderFixed (config : BrokersConfig) (s : BrokerCluster) : Prop where
  logged : Logged config s
  pushable : Pushable s
  admitted : ∀ a ∈ s.admitted, a.node = config.first
  calls : ∀ c ∈ s.calls, CallFixed config s c
  pushes : ∀ p ∈ s.pushes, p.leader = config.first
  accepted : ∀ i v, (i, v) ∈ s.accepted → ∃ p, s.pushes[i]? = some p ∧
    (p.call.messages.length ≤ 10000 → ∀ m ∈ p.call.messages,
      m ∈ s.wal v p.call.topic p.call.partition)

section Fixed

variable {config : BrokersConfig} {s : BrokerCluster} {e : ClusterEvent}

theorem ClusterEvent.fixedLeader_restartsWhole (he : e.fixedLeader config = true) :
    e.RestartsWhole s := by
  cases e with
  | restart n => cases he
  | _ => trivial

/-- Logs only grow while the leader is fixed. -/
theorem fixed_wal (h : LeaderFixed config s) (he : e.fixedLeader config = true) (n t : Bytes)
    (p : UInt32) : s.wal n t p <+: (e.exec config s).wal n t p :=
  exec_wal h.logged e n ((ClusterEvent.fixedLeader_restartsWhole he).recovers n) t p

/-- Requests are admitted by the leader. -/
theorem fixed_admitted (h : LeaderFixed config s) (he : e.fixedLeader config = true) :
    ∀ a ∈ (e.exec config s).admitted, a.node = config.first := by
  intro a ha
  cases e with
  | receive n env request rate quota =>
      simp only [ClusterEvent.exec, BrokerCluster.receive] at ha
      split at ha
      · split at ha
        · exact h.admitted a ha
        · split at ha
          · exact h.admitted a ha
          · rcases List.mem_append.mp ha with ha | ha
            · exact h.admitted a ha
            · rw [List.mem_singleton.mp ha]
              exact of_decide_eq_true he
      · exact h.admitted a ha
  | store index =>
      simp only [ClusterEvent.exec] at ha
      split at ha
      · exact h.admitted a ha
      · rename_i stored _
        rcases store_frame (s := { s with admitted := s.admitted.eraseIdx index }) stored with
          ⟨b, calls, heq⟩
        rw [heq] at ha
        exact h.admitted a (List.mem_of_mem_eraseIdx ha)
  | restart n => cases he
  | _ =>
      refine h.admitted a ?_
      rw [← (exec_kept config s _).admitted]
      · exact ha
      · simp only [ClusterEvent.lists]
        decide

/-- Calls are those of the leader. -/
theorem fixed_calls_node (h : LeaderFixed config s) (he : e.fixedLeader config = true) :
    ∀ c ∈ (e.exec config s).calls, c.node = config.first := by
  intro c hc
  have hold : ∀ d ∈ s.calls, d.node = config.first := fun d hd => (h.calls d hd).node
  -- A step of `Replicate` keeps the node of its call.
  have hset : ∀ (index : Nat) (call d : ReplicateCall), s.calls[index]? = some call →
      c ∈ s.calls.set index d → d.node = call.node → c.node = config.first := by
    intro index call d hcall hmem hnode
    rcases List.mem_or_eq_of_mem_set hmem with hkept | rfl
    · exact hold c hkept
    · rw [hnode]
      exact hold call (List.mem_of_getElem? hcall)
  cases e with
  | store index =>
      cases ha : s.admitted[index]? with
      | none =>
          simp only [ClusterEvent.exec, ha] at hc
          exact hold c hc
      | some a =>
          simp only [ClusterEvent.exec, ha] at hc
          rcases store_moved config index a ha (s.admitted.eraseIdx index) with
            ⟨_, _, _, _, hcalls | ⟨m, _, hcalls⟩⟩
          · rw [hcalls] at hc
            exact hold c hc
          · rw [hcalls] at hc
            rcases List.mem_append.mp hc with hc | hc
            · exact hold c hc
            · rw [List.mem_singleton.mp hc]
              exact h.admitted a (List.mem_of_getElem? ha)
  | push index =>
      simp only [ClusterEvent.exec] at hc
      split at hc
      · exact hold c hc
      · rename_i call hcall
        unfold BrokerCluster.pushNext at hc
        split at hc
        · exact hset index call _ hcall hc rfl
        · exact hold c hc
  | answer index now =>
      simp only [ClusterEvent.exec] at hc
      split at hc
      · exact hold c hc
      · rename_i call hcall
        unfold BrokerCluster.noteAnswer at hc
        split at hc
        · exact hold c hc
        · split at hc
          · exact hold c hc
          · exact hset index call _ hcall hc rfl
  | giveUp index =>
      simp only [ClusterEvent.exec] at hc
      split at hc
      · exact hold c hc
      · rename_i call hcall
        exact hset index call _ hcall hc rfl
  | finish index now =>
      simp only [ClusterEvent.exec, BrokerCluster.finishCall] at hc
      split at hc
      · exact hold c hc
      · split at hc
        · exact hold c hc
        · split at hc
          · exact hold c (List.mem_of_mem_eraseIdx hc)
          · split at hc <;> exact hold c (List.mem_of_mem_eraseIdx hc)
  | restart n => cases he
  | _ =>
      refine hold c ?_
      rw [← (exec_kept config s _).calls]
      · exact hc
      · simp only [ClusterEvent.lists]
        decide

/-- A call awaits the answer to a push of its message. -/
theorem fixed_calls (h : LeaderFixed config s) (he : e.fixedLeader config = true) :
    ∀ c ∈ (e.exec config s).calls, CallFixed config (e.exec config s) c := by
  intro c hc
  refine ⟨fixed_calls_node h he c hc, ?_⟩
  intro v i hpending
  cases exec_calls h.logged e c hc with
  | kept hold =>
      rcases (h.calls c hold).pending v i hpending with ⟨p, hp, hcall⟩
      exact ⟨p, push_kept h.logged e hp, hcall⟩
  | stored _ _ _ hnone _ _ =>
      rw [hnone] at hpending
      cases hpending
  | pushed c₀ hold peer rest _ _ pending heq hfrom =>
      rw [heq] at hpending
      rcases hfrom with rfl | ⟨rfl, request, hpushes⟩
      · cases hpending
      · rcases Prod.mk.inj (Option.some.inj hpending) with ⟨rfl, rfl⟩
        rw [heq]
        refine ⟨⟨c₀.node, (s.nodes c₀.node).appendCall c₀.request.topic c₀.partition
          [c₀.message], request⟩, ?_, rfl, rfl, rfl⟩
        rw [hpushes]
        exact List.getElem?_concat_length
  | answered c₀ _ _ _ _ _ heq =>
      rw [heq] at hpending
      cases hpending
  | gaveUp c₀ _ heq =>
      rw [heq] at hpending
      cases hpending

/-- Only the leader pushes. -/
theorem fixed_pushes (h : LeaderFixed config s) (he : e.fixedLeader config = true) :
    ∀ p ∈ (e.exec config s).pushes, p.leader = config.first := by
  intro p hp
  rcases exec_pushes h.logged e p hp with hold | hnew
  · exact h.pushes p hold
  · rcases hnew.messages with ⟨c, hc, hnode, _⟩ | ⟨partitionOk, start, rfl, _⟩
    · rw [← hnode]
      exact (h.calls c hc).node
    · exact of_decide_eq_true he

/-- A node that accepts a push has its messages from then on. -/
theorem fixed_accepted (h : LeaderFixed config s) (he : e.fixedLeader config = true) (i : Nat)
    (v : Bytes) (hmem : (i, v) ∈ (e.exec config s).accepted) :
    ∃ p, (e.exec config s).pushes[i]? = some p ∧
      (p.call.messages.length ≤ 10000 → ∀ m ∈ p.call.messages,
        m ∈ (e.exec config s).wal v p.call.topic p.call.partition) := by
  rcases exec_accepted e i v hmem with hold | ⟨env, p, rfl, hp, hv, hne, hok⟩
  · rcases h.accepted i v hold with ⟨p, hp, hhas⟩
    exact ⟨p, push_kept h.logged e hp,
      fun hcount m hm => (fixed_wal h he v _ _).subset (hhas hcount m hm)⟩
  · refine ⟨p, push_kept h.logged _ hp, fun hcount m hm => ?_⟩
    rcases deliver_follow h.logged i v env p (List.mem_of_getElem? hp)
      ⟨hcount, h.pushable.pushes p (List.mem_of_getElem? hp)⟩ with
      ⟨ops, ms, hmoved, _, hwhole, _⟩
    simp only [ClusterEvent.exec, hp, if_pos (And.intro hv hne)]
    rw [hmoved.wal.1, (hwhole hok).1]
    exact List.mem_append_right _ hm

/-- The events of a fixed leader keep what is known. -/
theorem LeaderFixed.exec (h : LeaderFixed config s) (he : e.fixedLeader config = true) :
    LeaderFixed config (e.exec config s) :=
  ⟨h.logged.exec e, h.pushable.exec h.logged e (ClusterEvent.fixedLeader_restartsWhole he),
    fixed_admitted h he, fixed_calls h he, fixed_pushes h he, fixed_accepted h he⟩

theorem leaderFixed_boot (config : BrokersConfig) : LeaderFixed config (bootBrokers config) :=
  ⟨logged_boot config, pushable_boot config, fun _ ha => absurd ha List.not_mem_nil,
    fun _ hc => absurd hc List.not_mem_nil, fun _ hp => absurd hp List.not_mem_nil,
    fun _ _ hmem => absurd hmem List.not_mem_nil⟩

/-- A broker that makes a step by itself extends its logs. -/
theorem set_wal {n : Bytes} {b : Broker} {ops : List Op} {t : Bytes} {p : UInt32}
    {ms : List Message} (hstep : (s.nodes n).Step b ops t p ms) (m t' : Bytes) (p' : UInt32) :
    s.wal m t' p' <+: (s.set n b).wal m t' p' := by
  by_cases hm : m = n
  · rw [hm, BrokerCluster.wal, BrokerCluster.wal, set_nodes_self]
    exact hstep.storage.isPrefix t' p'
  · rw [BrokerCluster.wal, BrokerCluster.wal, set_nodes_ne s b hm]

/-- What is known survives such a step. -/
theorem LeaderFixed.set (h : LeaderFixed config s) {n : Bytes} {b : Broker} {ops : List Op}
    {t : Bytes} {p : UInt32} {ms : List Message} (hstep : (s.nodes n).Step b ops t p ms) :
    LeaderFixed config (s.set n b) := by
  have hself := set_nodes_self s n b
  have hkept : NodesKept s (s.set n b) := by
    refine h.logged.nodesKept (fun m hm => set_nodes_ne s b hm) ?_ ?_ ?_
    · rw [hself, hstep.settings]
    · rw [hself]
      exact hstep.storage.counted (h.logged.counted n) hstep.numbered
    · rw [hself, hstep.topics]
      exact h.logged.topics n
  refine ⟨⟨?_, hkept.counted, hkept.topics, h.logged.admitted, h.logged.pushes, ?_⟩, ⟨?_,
    h.pushable.pushes⟩, h.admitted, fun c hc => ⟨(h.calls c hc).node, (h.calls c hc).pending⟩,
    h.pushes, ?_⟩
  · intro m
    rw [hkept.settings m, h.logged.settings m]
  · intro c hc
    rcases h.logged.calls c hc with ⟨hnode, hpartition, hmessage⟩
    exact ⟨hnode, hpartition, (set_wal hstep _ _ _).subset hmessage⟩
  · -- The new messages could be stored, so they can be pushed.
    intro m t' p' x hx
    have hwal := (Moved.of_set (s := s) hstep rfl).wal
    by_cases hplace : (t', p') = (t, p)
    · rcases Prod.mk.inj hplace with ⟨rfl, rfl⟩
      by_cases hm : m = n
      · rw [hm, hwal.1] at hx
        rcases List.mem_append.mp hx with hold | hnew
        · exact h.pushable.logs n t' p' x hold
        · exact hstep.storable x hnew
      · rw [hwal.2.1 m hm] at hx
        exact h.pushable.logs m t' p' x hx
    · rw [hwal.2.2 m t' p' hplace] at hx
      exact h.pushable.logs m t' p' x hx
  · intro i v hmem
    rcases h.accepted i v hmem with ⟨q, hq, hhas⟩
    exact ⟨q, hq, fun hcount m hm => (set_wal hstep _ _ _).subset (hhas hcount m hm)⟩

/-! ## Notes of the leader -/

theorem set_partitionReplicas {n : Bytes} {b : Broker} (m : Bytes)
    (hb : b.coordinator.partitionReplicas = (s.nodes n).coordinator.partitionReplicas) :
    ((s.set n b).nodes m).coordinator.partitionReplicas
      = (s.nodes m).coordinator.partitionReplicas := by
  by_cases hm : m = n
  · rw [hm, set_nodes_self, hb]
  · rw [set_nodes_ne s b hm]

/-- Nothing but an answer leads to a note. -/
theorem fixed_partitionReplicas (h : LeaderFixed config s) (he : e.fixedLeader config = true)
    (hanswer : ∀ index now, e ≠ .answer index now) :
    ((e.exec config s).nodes config.first).coordinator.partitionReplicas
      = (s.nodes config.first).coordinator.partitionReplicas := by
  cases e with
  | createTopic n name count =>
      simp only [ClusterEvent.exec]
      split
      · refine set_partitionReplicas config.first ?_
        rcases createTopic_cases (s.nodes n) name count with heq | ⟨_, heq⟩ <;> rw [heq]
      · rfl
  | operate n op =>
      cases op with
      | observeHeartbeatRound responded =>
          simp only [ClusterEvent.exec]
          split
          · exact set_partitionReplicas config.first
              (observeHeartbeatRound_partitionReplicas _ responded)
          · rfl
      | _ => cases he
  | receive n env request rate quota =>
      simp only [ClusterEvent.exec]
      split
      · simp only [BrokerCluster.receive]
        split
        · rfl
        · have hkept : ((s.nodes n).admitProduce env request rate
              quota).1.coordinator.partitionReplicas
              = (s.nodes n).coordinator.partitionReplicas := by
            rcases admitProduce_frame (s.nodes n) env request rate quota with ⟨cache, windows, heq⟩
            rw [heq]
          split
          · rename_i hadmits
            rw [hadmits] at hkept
            exact set_partitionReplicas config.first hkept
          · rename_i hadmits
            rw [hadmits] at hkept
            exact set_partitionReplicas config.first hkept
      · rfl
  | store index =>
      simp only [ClusterEvent.exec]
      split
      · rfl
      · rename_i a _
        have hkept := storeProduce_partitionReplicas (s.nodes a.node) a.env a.request a.partition
          a.body
        simp only [BrokerCluster.store]
        split
        · rename_i hstore
          rw [hstore] at hkept
          exact set_partitionReplicas config.first hkept
        · rename_i b message hstore
          rw [hstore] at hkept
          split
          · refine set_partitionReplicas config.first ?_
            rcases remember_frame b a.env a.request (produced a.request a.partition message) with
              ⟨cache, heq⟩
            rw [heq]
            exact hkept
          · split <;> exact set_partitionReplicas config.first hkept
  | push index =>
      simp only [ClusterEvent.exec]
      split
      · rfl
      · unfold BrokerCluster.pushNext
        split
        · simp only [send_nodes]
        · rfl
  | pushPending n topic partition start partitionOk =>
      simp only [ClusterEvent.exec]
      split
      · rw [send_nodes]
      · rfl
  | deliver index n env =>
      simp only [ClusterEvent.exec]
      split
      · rfl
      · rename_i p hp
        split
        · -- Pushes are those of the leader, so it is another node that handles them.
          rename_i hn
          have hne : config.first ≠ n := by
            rw [← h.pushes p (List.mem_of_getElem? hp)]
            exact hn.2.symm
          simp only [BrokerCluster.deliver]
          rw [set_nodes_ne s _ hne]
        · rfl
  | answer index now => exact absurd rfl (hanswer index now)
  | giveUp index =>
      simp only [ClusterEvent.exec]
      split <;> rfl
  | finish index now =>
      simp only [ClusterEvent.exec]
      split
      · rfl
      · rename_i call _
        simp only [BrokerCluster.finishCall]
        split
        · rfl
        · split
          · rfl
          · have hkept := advanceCommit_partitionReplicas (s.nodes call.node).coordinator
              (partitionKey call.request.topic call.partition) call.message.offset now
            split
            · exact set_partitionReplicas config.first hkept
            · refine set_partitionReplicas config.first ?_
              rcases remember_frame { s.nodes call.node with
                coordinator := ((s.nodes call.node).coordinator.advanceCommit (partitionKey
                  call.request.topic call.partition) call.message.offset now).1 } { doneNow := now }
                call.request (produced call.request call.partition call.message) with ⟨cache, heq⟩
              rw [heq]
              exact hkept
  | _ => cases he

/-- What an answered push leads to: the peer has the message whose offset is
    noted. -/
theorem answer_stored (h : LeaderFixed config s) (index : Nat) (now : Int) (q peer : Bytes) :
    (((ClusterEvent.answer index now).exec config s).nodes config.first).coordinator.replicatedOffset
        q peer = (s.nodes config.first).coordinator.replicatedOffset q peer ∨
      ∃ t p m, q = partitionKey t p ∧ m ∈ s.wal peer t p ∧
        (((ClusterEvent.answer index now).exec config s).nodes
            config.first).coordinator.replicatedOffset q peer
          = max ((s.nodes config.first).coordinator.replicatedOffset q peer) m.offset := by
  simp only [ClusterEvent.exec]
  split
  · exact Or.inl rfl
  · rename_i call hcall
    have hfixed := h.calls call (List.mem_of_getElem? hcall)
    unfold BrokerCluster.noteAnswer
    split
    · exact Or.inl rfl
    · rename_i v push hpending
      split
      · exact Or.inl rfl
      · rename_i haccepted
        simp only [BrokerCluster.operate, hfixed.node]
        rw [set_nodes_self]
        rcases observeHeartbeat_replicatedOffset (s.nodes config.first).coordinator (partitionKey
          call.request.topic call.partition) v call.message.offset now q peer with
          hsame | ⟨hq, hpeer, hnew⟩
        · exact Or.inl hsame
        · refine Or.inr ⟨call.request.topic, call.partition, call.message, hq, ?_, hnew⟩
          -- The answered push is the one of this call.
          rcases hfixed.pending v push hpending with ⟨p, hp, htopic, hpartition, hmessages⟩
          rcases h.accepted push v (not_not.mp haccepted) with ⟨p', hp', hhas⟩
          rw [hp] at hp'
          rw [← Option.some.inj hp', hmessages, htopic, hpartition] at hhas
          rw [hpeer]
          exact hhas (by rw [List.length_singleton]; omega) call.message List.mem_cons_self

/-- What an event of the cluster leads the leader to note, the peer has. -/
theorem fixed_noted (h : LeaderFixed config s) (he : e.fixedLeader config = true)
    (q peer : Bytes) :
    ((e.exec config s).nodes config.first).coordinator.replicatedOffset q peer
        = (s.nodes config.first).coordinator.replicatedOffset q peer ∨
      ∃ t p m, q = partitionKey t p ∧ m ∈ s.wal peer t p ∧
        ((e.exec config s).nodes config.first).coordinator.replicatedOffset q peer
          = max ((s.nodes config.first).coordinator.replicatedOffset q peer) m.offset := by
  by_cases hanswer : ∀ index now, e ≠ .answer index now
  · left
    unfold replicatedOffset
    rw [fixed_partitionReplicas h he hanswer]
  · push Not at hanswer
    rcases hanswer with ⟨index, now, rfl⟩
    exact answer_stored h index now q peer

end Fixed

/-! ## The invariant -/

/-- Every noted offset is in the log of the peer. -/
def ProgressCluster.Noted (config : BrokersConfig) (s : ProgressCluster) : Prop :=
  ∀ peer topic partition, (s.cluster.nodes peer).Has topic partition
    ((s.cluster.nodes config.first).coordinator.replicatedOffset (partitionKey topic partition) peer)

/-- What is known of a heartbeat on the wire: its bytes are those of
    `Heartbeat`, and it goes from the leader to a peer, or it is a report under
    the name of the peer that sent it, of one more than the last offset. -/
structure Beat.Valid (config : BrokersConfig) (b : Beat) : Prop where
  built : heartbeatSent config.token b.topic b.heartbeat = some b.request
  kind : b.receiver ≠ config.first ∨ (b.heartbeat.nodeId = b.sender ∧ b.heartbeat.termed = none ∧
    b.heartbeat.replicatedOffset = UInt64.ofNat b.stored)

/-- What lasts through every run. -/
structure ProgressCluster.Tracked (config : BrokersConfig) (s : ProgressCluster) : Prop where
  fixed : LeaderFixed config s.cluster
  beats : ∀ b ∈ s.beats, b.Valid config

section Runs

variable {config : BrokersConfig} {s s' : ProgressCluster}

theorem Broker.Has.mono {b b' : Broker} {topic : Bytes} {partition : UInt32} {offset : UInt64}
    (h : b.Has topic partition offset)
    (hlog : b.log topic partition <+: b'.log topic partition) : b'.Has topic partition offset := by
  rcases h with hzero | ⟨m, hm, hoffset⟩
  · exact Or.inl hzero
  · exact Or.inr ⟨m, hlog.subset hm, hoffset⟩

/-- An offset that is in a log is not beyond the last one. -/
theorem Broker.Has.le_lastOffset {b : Broker} (hcounted : b.storage.Counted) (hshort : b.Short)
    {topic : Bytes} {partition : UInt32} {offset : UInt64} (h : b.Has topic partition offset) :
    offset ≤ lastOffset (b.log topic partition) := by
  rcases h with rfl | ⟨m, hm, rfl⟩
  · exact UInt64.le_iff_toNat_le.mpr (Nat.zero_le _)
  · have hnumbered := (hcounted topic partition).numbered
    have hlength := hshort topic partition
    rcases List.mem_iff_getElem.mp hm with ⟨i, hi, rfl⟩
    rw [Broker.log] at hlength ⊢
    rw [numbered_lastOffset hnumbered (List.ne_nil_of_mem hm), numbered_getElem 0 _ hnumbered i hi,
      UInt64.zero_add, UInt64.zero_add, UInt64.le_iff_toNat_le, UInt64.toNat_ofNat',
      UInt64.toNat_ofNat', Nat.mod_eq_of_lt (by omega), Nat.mod_eq_of_lt (by omega)]
    omega

/-- Notes stay in the logs when logs only grow and what is new is in the log of
    its peer. -/
theorem ProgressCluster.Noted.later (h : s.Noted config)
    (hwal : ∀ n t p, s.cluster.wal n t p <+: s'.cluster.wal n t p)
    (hnote : ∀ q peer,
      (s'.cluster.nodes config.first).coordinator.replicatedOffset q peer
          = (s.cluster.nodes config.first).coordinator.replicatedOffset q peer ∨
        ∃ t p offset, q = partitionKey t p ∧ (s.cluster.nodes peer).Has t p offset ∧
          (s'.cluster.nodes config.first).coordinator.replicatedOffset q peer
            = max ((s.cluster.nodes config.first).coordinator.replicatedOffset q peer) offset) :
    s'.Noted config := by
  intro peer topic partition
  have hgrown := hwal peer topic partition
  rcases hnote (partitionKey topic partition) peer with hsame | ⟨t, p, offset, hkey, hhas, hnew⟩
  · rw [hsame]
    exact (h peer topic partition).mono hgrown
  · rcases partitionKey_injective _ _ _ _ hkey with ⟨rfl, rfl⟩
    rw [hnew]
    -- The larger of two offsets in the log is one of them.
    rcases max_choice ((s.cluster.nodes config.first).coordinator.replicatedOffset
      (partitionKey topic partition) peer) offset with hmax | hmax
    · rw [hmax]
      exact (h peer topic partition).mono hgrown
    · rw [hmax]
      exact hhas.mono hgrown

/-- What is sent as a heartbeat is what `HandleHeartbeat` gets. -/
theorem heartbeatOf_sent {b : Broker} {token topic : Bytes} {h : ReplicaHeartbeat}
    {request : Request} (hsent : heartbeatSent token topic h = some request)
    (hconfigured : b.replicationConfigured = true) (htoken : b.replicationAuthToken = token) :
    b.heartbeatOf request
      = some { heartbeatRequest token topic h with payload := heartbeatPayload h } := by
  rcases validate_heartbeatSent h hsent b hconfigured htoken with ⟨rfl, _, _, hvalidate⟩
  rcases heartbeatRequest_flags h token topic with ⟨hreplication, hauth, hknown⟩
  have hversion : ¬ (heartbeatRequest token topic h).version ≠ currentVersion := not_not.mpr rfl
  have hkind : (heartbeatRequest token topic h).isReplication = true ∨
      (heartbeatRequest token topic h).hasFlag flagReplication = true := Or.inr hreplication
  unfold Broker.heartbeatOf Broker.acceptRequest
  rw [if_neg hversion, if_neg hknown, if_neg (by rw [hauth]; simp only [Bool.false_eq_true,
    and_false, not_false_eq_true]), if_pos hkind, hvalidate]
  simp only [Option.filter_some]
  exact if_pos (decide_eq_true ⟨rfl, hreplication⟩)

/-- A heartbeat that is handled is the one that was sent: its operation is
    done, or nothing. -/
theorem handle_sent {b : Broker} {token topic : Bytes} {h : ReplicaHeartbeat} {request : Request}
    (hsent : heartbeatSent token topic h = some request)
    (hconfigured : b.replicationConfigured = true) (htoken : b.replicationAuthToken = token)
    (now : Int) (normalized : Request) (hof : b.heartbeatOf request = some normalized) :
    (b.handleReplicaHeartbeat now normalized).1 = b ∨
      (b.handleReplicaHeartbeat now normalized).1
        = { b with coordinator := (h.op topic now).exec b.coordinator } := by
  rcases validate_heartbeatSent h hsent b hconfigured htoken with ⟨_, hid, hsize, _⟩
  rw [heartbeatOf_sent hsent hconfigured htoken] at hof
  cases hof
  rcases handleReplicaHeartbeat_cases b now
    { heartbeatRequest token topic h with payload := heartbeatPayload h } with
    ⟨_, hsame⟩ | ⟨h', hread, heq⟩
  · exact Or.inl hsame
  · -- A heartbeat without a topic is refused.
    have htopic : topic ≠ [] := by
      rintro rfl
      simp only [heartbeatRequest, readReplicaHeartbeat, Traced.result_check_bind, ne_eq,
        not_true_eq_false, false_and, if_false] at hread
      cases hread
    have hback := readReplicaHeartbeat_payload h topic htopic hid hsize
    obtain rfl : h' = h := Except.ok.inj (hread.symm.trans hback)
    exact Or.inr heq

/-! ## One event -/

theorem send_cluster (sender receiver topic : Bytes) (h : ReplicaHeartbeat) :
    (s.send sender receiver topic h).cluster = s.cluster := by
  unfold ProgressCluster.send
  split <;> rfl

/-- A heartbeat that is put on the wire. -/
theorem send_tracked (hs : s.Tracked config) (sender receiver topic : Bytes)
    (h : ReplicaHeartbeat)
    (hkind : receiver ≠ config.first ∨ (h.nodeId = sender ∧ h.termed = none ∧
      h.replicatedOffset = UInt64.ofNat (s.cluster.wal sender topic h.partition).length)) :
    (s.send sender receiver topic h).Tracked config := by
  unfold ProgressCluster.send
  rw [hs.fixed.logged.token sender]
  split
  · exact hs
  · rename_i request hsent
    refine ⟨hs.fixed, ?_⟩
    intro b hb
    rcases List.mem_append.mp hb with hold | hnew
    · exact hs.beats b hold
    · rw [List.mem_singleton.mp hnew]
      exact ⟨hsent, hkind⟩

/-- A pull is a step of the peer, without a word to its coordinator. -/
theorem applyFetched_step (b : Broker) (ios : Nat → StoreIo) (topic : Bytes) (partition : UInt32)
    (messages : List Message) :
    ∃ ms, b.Step (b.applyFetched ios topic partition messages).1 [] topic partition ms ∧
      (b.applyFetched ios topic partition messages).1.coordinator = b.coordinator := by
  rcases applyFetched_cases b ios topic partition messages with
    ⟨e, cursors, stored, heq, _, _, hext, hnumbered, hstorable, _⟩
  rw [heq]
  exact ⟨stored, ⟨rfl, rfl, rfl, hext, hnumbered, hstorable⟩, rfl⟩

/-- The pull of a peer. -/
theorem pull_tracked (hs : s.Tracked config) (hnoted : s.Noted config) (n topic : Bytes)
    (partition : UInt32) (start : UInt64) (count : Nat) (partitionOk : Bool)
    (ios : Nat → StoreIo) :
    (s.pull config n topic partition start count partitionOk ios).Tracked config ∧
      (s.pull config n topic partition start count partitionOk ios).Noted config := by
  rcases applyFetched_step (s.cluster.nodes n) ios topic partition (((s.cluster.nodes
    config.first).pendingMessages partitionOk topic partition start).take count) with
    ⟨ms, hstep, hcoordinator⟩
  have hfixed := hs.fixed.set hstep
  have hlater : ProgressCluster.Noted config { s with
      cluster := (s.cluster.set n ((s.cluster.nodes n).applyFetched ios topic partition
        (((s.cluster.nodes config.first).pendingMessages partitionOk topic partition
          start).take count)).1) } := by
    refine hnoted.later (fun m t p => set_wal hstep m t p) (fun q peer => Or.inl ?_)
    unfold replicatedOffset
    rw [set_partitionReplicas config.first (by rw [hcoordinator])]
  unfold ProgressCluster.pull
  simp only
  split
  · exact ⟨⟨hfixed, hs.beats⟩, hlater⟩
  · rename_i offset hoffset
    refine ⟨send_tracked ?_ _ _ _ _ ?_, ?_⟩
    · exact ⟨hfixed, hs.beats⟩
    · -- The offset behind a log is the number of its messages.
      refine Or.inr ⟨rfl, rfl, ?_⟩
      have hcounted := hfixed.logged.counted n topic partition
      rw [set_nodes_self] at hcounted
      simp only [heartbeatArgs, BrokerCluster.wal]
      rw [set_nodes_self, applyFetched_reported hoffset]
      exact hcounted.next
    · unfold ProgressCluster.Noted
      rw [send_cluster]
      exact hlater

/-- A heartbeat of the leader. -/
theorem beat_tracked (hs : s.Tracked config) (hnoted : s.Noted config) (peer topic : Bytes)
    (partition : UInt32) (hpeer : peer ≠ config.first) :
    (s.beat config peer topic partition).Tracked config ∧
      (s.beat config peer topic partition).Noted config := by
  refine ⟨send_tracked hs _ _ _ _ (Or.inl hpeer), ?_⟩
  unfold ProgressCluster.beat ProgressCluster.Noted
  rw [send_cluster]
  exact hnoted

/-- Behind the messages that a log had once, there is the offset of their
    number as soon as it has more. -/
theorem has_of_stored {b : Broker} (hcounted : b.storage.Counted) {topic : Bytes}
    {partition : UInt32} {stored : Nat} (h : stored < (b.log topic partition).length) :
    b.Has topic partition (UInt64.ofNat stored) := by
  refine Or.inr ⟨_, List.getElem_mem h, ?_⟩
  exact (numbered_getElem 0 _ (hcounted topic partition).numbered stored h).trans
    (UInt64.zero_add _)

/-- A heartbeat that is handled. A report to the leader is heard late enough. -/
theorem hear_tracked (hs : s.Tracked config) (hnoted : s.Noted config) (index : Nat) (now : Int)
    (b : Beat) (hb : b ∈ s.beats)
    (hlate : b.receiver = config.first →
      b.stored < (s.cluster.wal b.sender b.topic b.heartbeat.partition).length) :
    (s.hear index now b).Tracked config ∧ (s.hear index now b).Noted config := by
  have hvalid := hs.beats b hb
  unfold ProgressCluster.hear
  split
  · exact ⟨hs, hnoted⟩
  · rename_i normalized hof
    simp only
    -- Of the broker only the coordinator can change.
    rcases handle_sent hvalid.built (hs.fixed.logged.configured b.receiver)
      (hs.fixed.logged.token b.receiver) now normalized hof with hsame | heq
    · rw [hsame, set_self]
      exact ⟨⟨hs.fixed, hs.beats⟩, hnoted⟩
    · rw [heq]
      have hstep : (s.cluster.nodes b.receiver).Step { s.cluster.nodes b.receiver with
          coordinator := (b.heartbeat.op b.topic now).exec
            (s.cluster.nodes b.receiver).coordinator } [b.heartbeat.op b.topic now] [] 0 [] :=
        .quiet [] 0 rfl rfl rfl rfl
      refine ⟨⟨hs.fixed.set hstep, hs.beats⟩, hnoted.later (fun m t p => set_wal hstep m t p) ?_⟩
      intro q peer
      by_cases hreceiver : b.receiver = config.first
      · rcases hvalid.kind with hother | ⟨hid, htermed, hreported⟩
        · exact absurd hreceiver hother
        · simp only [hreceiver, ReplicaHeartbeat.op, htermed, Op.exec, hid]
          rw [set_nodes_self]
          rcases observeHeartbeat_replicatedOffset (s.cluster.nodes config.first).coordinator
            (partitionKey b.topic b.heartbeat.partition) b.sender b.heartbeat.replicatedOffset now q
            peer with hsame | ⟨hq, hpeer, hnew⟩
          · exact Or.inl hsame
          · refine Or.inr ⟨b.topic, b.heartbeat.partition, b.heartbeat.replicatedOffset, hq, ?_,
              hnew⟩
            rw [hpeer, hreported]
            exact has_of_stored (hs.fixed.logged.counted b.sender) (hlate hreceiver)
      · simp only
        rw [set_nodes_ne s.cluster _ (Ne.symm hreceiver)]
        exact Or.inl rfl

/-- The note of a commit index that adds nothing. -/
theorem echo_tracked (hs : s.Tracked config) (hnoted : s.Noted config) (now : Int) (b : Beat)
    (hnothing : (s.cluster.nodes config.first).coordinator.partitionCommitIndex
        (partitionKey b.topic b.heartbeat.partition)
      ≤ (s.cluster.nodes config.first).coordinator.replicatedOffset
        (partitionKey b.topic b.heartbeat.partition) b.receiver) :
    (s.echo config now b).Tracked config ∧ (s.echo config now b).Noted config := by
  have hstep : (s.cluster.nodes config.first).Step { s.cluster.nodes config.first with
      coordinator := (s.cluster.nodes config.first).coordinator.observeHeartbeat
        (partitionKey b.topic b.heartbeat.partition) b.receiver
        ((s.cluster.nodes config.first).coordinator.partitionCommitIndex
          (partitionKey b.topic b.heartbeat.partition)) now }
      [.observeHeartbeat (partitionKey b.topic b.heartbeat.partition) b.receiver
        ((s.cluster.nodes config.first).coordinator.partitionCommitIndex
          (partitionKey b.topic b.heartbeat.partition)) now] [] 0 [] :=
    .quiet [] 0 rfl rfl rfl rfl
  refine ⟨⟨hs.fixed.set hstep, hs.beats⟩, hnoted.later (fun m t p => set_wal hstep m t p) ?_⟩
  intro q peer
  unfold ProgressCluster.echo
  simp only
  rw [set_nodes_self]
  rcases observeHeartbeat_replicatedOffset (s.cluster.nodes config.first).coordinator
    (partitionKey b.topic b.heartbeat.partition) b.receiver
    ((s.cluster.nodes config.first).coordinator.partitionCommitIndex
      (partitionKey b.topic b.heartbeat.partition)) now q peer with hsame | ⟨hq, hpeer, hnew⟩
  · exact Or.inl hsame
  · -- The larger of the two is what was noted before.
    subst hq hpeer
    rw [hnew]
    exact Or.inl (max_eq_left hnothing)

/-- Every event with harmless notes keeps what is known, and all notes in the
    logs. -/
theorem exec_tracked (e : ProgressEvent) (hs : s.Tracked config) (hnoted : s.Noted config)
    (he : e.Harmless config s) :
    (e.exec config s).Tracked config ∧ (e.exec config s).Noted config := by
  cases e with
  | cluster e =>
      simp only [ProgressEvent.exec]
      split
      · rename_i hfixed
        refine ⟨⟨hs.fixed.exec hfixed, hs.beats⟩,
          hnoted.later (fun n t p => fixed_wal hs.fixed hfixed n t p) ?_⟩
        intro q peer
        rcases fixed_noted hs.fixed hfixed q peer with hsame | ⟨t, p, m, hq, hm, hnew⟩
        · exact Or.inl hsame
        · exact Or.inr ⟨t, p, m.offset, hq, Or.inr ⟨m, hm, rfl⟩, hnew⟩
      · exact ⟨hs, hnoted⟩
  | pull n topic partition start count partitionOk ios =>
      simp only [ProgressEvent.exec]
      split
      · exact pull_tracked hs hnoted n topic partition start count partitionOk ios
      · exact ⟨hs, hnoted⟩
  | beat peer topic partition =>
      simp only [ProgressEvent.exec]
      split
      · rename_i hpeer
        exact beat_tracked hs hnoted peer topic partition hpeer.2
      · exact ⟨hs, hnoted⟩
  | hear index now =>
      simp only [ProgressEvent.exec]
      split
      · exact ⟨hs, hnoted⟩
      · rename_i b hb
        exact hear_tracked hs hnoted index now b (List.mem_of_getElem? hb) (he b hb)
  | echo index now =>
      simp only [ProgressEvent.exec]
      split
      · exact ⟨hs, hnoted⟩
      · rename_i b hb
        split
        · rename_i hheard
          exact echo_tracked hs hnoted now b (he b hb hheard.1 hheard.2)
        · exact ⟨hs, hnoted⟩

theorem bootBroker_partitionReplicas (config : BrokersConfig) (n : Bytes) :
    (bootBroker config n).coordinator.partitionReplicas = ∅ := by
  simp only [bootBroker, Broker.configureReplication]
  rw [← List.foldl_map (f := ReplicationPeer.nodeId) (g := registerReplica)]
  rcases foldl_registerReplica_eq (restart n (if decide (n ≠ config.first) = true then .follower
    else .leader) 10000 true none) ((config.peers n).map ReplicationPeer.nodeId) with
    ⟨replicas, heq⟩
  rw [heq]
  rfl

/-- A leader that has just been started has noted nothing. -/
theorem noted_boot (config : BrokersConfig) : (ProgressCluster.boot config).Noted config := by
  intro peer topic partition
  left
  change (bootBroker config config.first).coordinator.replicatedOffset _ peer = 0
  rw [replicatedOffset, bootBroker_partitionReplicas]
  rfl

end Runs

/-- In every run in which the leader hears of a pull only when the peer has stored
    more since, notes no commit index above what it has noted for the peer
    before, and no log comes near the largest offset, it never counts a peer for
    more than it has. -/
theorem offsets_covered (config : BrokersConfig) (events : List ProgressEvent)
    (h : Along (ProgressEvent.exec config)
      (fun s e => e.Harmless config s ∧ (e.exec config s).Short config) (.boot config) events) :
    Always (ProgressEvent.exec config) (ProgressCluster.OffsetsCovered config) (.boot config)
      events := by
  have hstart : (ProgressCluster.boot config).Tracked config :=
    ⟨leaderFixed_boot config, fun b hb => absurd hb List.not_mem_nil⟩
  have hshort : (ProgressCluster.boot config).Short config := by
    intro n _ topic partition
    change ([] : List Message).length + 10000 < 2 ^ 64
    decide
  have hall : Always (ProgressEvent.exec config)
      (fun s => (s.Tracked config ∧ s.Noted config) ∧ s.Short config) (.boot config) events :=
    Always.of_along (fun s e hs he => ⟨exec_tracked e hs.1.1 hs.1.2 he.1, he.2⟩)
      ⟨⟨hstart, noted_boot config⟩, hshort⟩ h
  refine hall.mono ?_
  rintro s ⟨⟨hs, hnoted⟩, hshort⟩ peer hpeer _ topic partition
  exact (hnoted peer topic partition).le_lastOffset (hs.fixed.logged.counted peer)
    (hshort peer hpeer)

/-- A leader with one peer, where writes do not wait for it. -/
def leaderAndPeer : BrokersConfig where
  members := [[76], [70]]
  first := [76]
  token := [116]
  quorum := 1

/-- Both create a topic, the peer answers the first heartbeat, and the leader
    stores one message. -/
def oneProduced : List ProgressEvent :=
  [.cluster (.createTopic [76] [112] 1), .cluster (.createTopic [70] [112] 1),
    .beat [70] [112] 0, .hear 0 0, .echo 0 0,
    .cluster (.receive [76] {} messageRequest true true), .cluster (.store 0)]

/-- The report of a pull is heard when the next message is there as well. -/
def lateReport : List ProgressEvent :=
  oneProduced ++ [.pull [70] [112] 0 0 10 true (fun _ => {}),
    .cluster (.receive [76] {} messageRequest true true), .cluster (.store 0),
    .pull [70] [112] 0 1 10 true (fun _ => {}), .hear 1 0]

theorem offsets_covered_late :
    ((lateReport.foldl (ProgressEvent.exec leaderAndPeer) (.boot leaderAndPeer)).cluster.nodes
        [76]).coordinator.replicatedOffset (partitionKey [112] 0) [70] = 1 ∧
    Always (ProgressEvent.exec leaderAndPeer) (ProgressCluster.OffsetsCovered leaderAndPeer)
      (.boot leaderAndPeer) lateReport :=
  ⟨by decide +kernel, offsets_covered leaderAndPeer lateReport (by decide +kernel)⟩

/-- A peer pulls the first message, of offset 0, and reports offset 1. The
    leader takes it at its word. -/
theorem offsets_uncovered :
    ¬ Always (ProgressEvent.exec leaderAndPeer) (ProgressCluster.OffsetsCovered leaderAndPeer)
      (.boot leaderAndPeer)
      (oneProduced ++ [.pull [70] [112] 0 0 10 true (fun _ => {}), .hear 1 0]) := by
  intro h
  have hlast := h.2.2.2.2.2.2.2.2.2 [70] (by decide) (by decide) [112] 0
  exact absurd hlast (by decide +kernel)

end MqBroker
