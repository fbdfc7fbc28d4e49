import MqBroker.Broker.Produce
import MqBroker.Broker.ReplicaAppend

/-!
# A Cluster of Brokers

All brokers of a cluster and what is under way between them: vote requests,
pushes, and produce calls that wait for their replicas.

Nothing of a broker is locked while it talks to another one, so every call is
cut where others may come in. A produce request is admitted, later stored, and
if it waits for the replicas it becomes a call that pushes its message to one
peer after the other, notes the answers and finishes. A push is a request on
the wire: it is delivered to a node or not, any time after it was sent, and
what the node answers is kept. Requests are never taken off the wire, so delay,
loss, reordering and duplication are all just sequences of events.

Three more things write to a log or send from it. The replication loop of a
leader pushes what it has read from its log, a follower fetches by itself, and
a restart recovers the logs from their files. An event that is not possible
does nothing, so that a run is any list of events at all.

## Main definitions

* `BrokersConfig`, `bootBrokers`: A cluster before its first request.
* `BrokerCluster`: The brokers and what is under way.
* `Broker.appendCall`: What a leader pushes.
* `ClusterEvent`, `ClusterEvent.exec`: What can happen.
* `BrokerCluster.run`: The cluster after a list of events.
* `BrokerCluster.wal`: The messages of a log.
-/

namespace MqBroker

open ReplicationCoordinator

/-! ## State -/

/-- The nodes of a cluster and the settings of their brokers. -/
structure BrokersConfig where
  members : List Bytes
  /-- The node that is configured as leader. -/
  first : Bytes
  token : Bytes
  /-- The replication quorum, 0 for all nodes. -/
  quorum : Nat
  storage : Bytes → StorageConfig := fun _ => {}

/-- The peers of a node: all other members. -/
def BrokersConfig.peers (config : BrokersConfig) (n : Bytes) : List ReplicationPeer :=
  (config.members.filter (fun m => m ≠ n)).map (fun m => { nodeId := m })

/-- A vote request on the wire. -/
structure VoteRequest where
  term : UInt64
  candidate : Bytes
  lastLogIndex : UInt64
  lastLogTerm : UInt64
deriving DecidableEq, Repr

/-- A replica append on the wire: who sent it, the call and its bytes. -/
structure Push where
  leader : Bytes
  call : AppendCall
  request : Request
deriving DecidableEq, Repr

/-- A produce request that was admitted and is not stored yet. -/
structure AdmittedProduce where
  node : Bytes
  env : ProduceEnv
  request : Request
  partition : UInt32
  body : ProduceBody
deriving Repr

/-- A call of `Replicate`: the peers that are still to be called, the one
    whose answer is awaited with the push it got, and those that answered. -/
structure ReplicateCall where
  node : Bytes
  request : Request
  partition : UInt32
  message : Message
  waiting : List ReplicationPeer
  pending : Option (Bytes × Nat) := none
  acknowledged : List Bytes := []
deriving DecidableEq, Repr

/-- A `kOk` to a request that waits for the replicas: the leader that gave it,
    its term, and the message. -/
structure Acknowledgement where
  term : UInt64
  node : Bytes
  topic : Bytes
  partition : UInt32
  message : Message
deriving DecidableEq, Repr

/-- The brokers of a cluster and what is under way. Votes, requests, answers
    and acknowledgements are never forgotten. -/
structure BrokerCluster where
  nodes : Bytes → Broker
  /-- The votes granted: term, voter and candidate. -/
  grants : List (UInt64 × Bytes × Bytes) := []
  ballots : List VoteRequest := []
  pushes : List Push := []
  /-- The pushes that were answered with `kOk`, with the node that did. -/
  accepted : List (Nat × Bytes) := []
  admitted : List AdmittedProduce := []
  calls : List ReplicateCall := []
  acked : List Acknowledgement := []

/-- A configured broker on an empty data directory. -/
def bootBroker (config : BrokersConfig) (n : Bytes) : Broker :=
  (Broker.fresh (config.storage n)).configureReplication n (config.peers n) config.quorum
    (n ≠ config.first) config.token none

/-- The cluster before the first event. -/
def bootBrokers (config : BrokersConfig) : BrokerCluster where
  nodes := bootBroker config

/-! ## What a leader pushes -/

/-- The index before an offset. Offset 0 has no predecessor, and offset 1 has
    the predecessor 0. -/
def prevIndex (offset : UInt64) : UInt64 := if offset = 0 then 0 else offset - 1

/-- The call that `Replicate` and the replication loop make for messages of
    their log. The term of the previous entry is the largest term of any
    partition, at the time of the call. -/
def Broker.appendCall (b : Broker) (topic : Bytes) (partition : UInt32) (messages : List Message) :
    AppendCall where
  topic := topic
  partition := partition
  messages := messages
  term := b.coordinator.currentTerm
  commitIndex := b.coordinator.partitionCommitIndex (partitionKey topic partition)
  leaderId := b.nodeId
  prevLogIndex := prevIndex ((messages.head?.map Message.offset).getD 0)
  prevLogTerm := b.coordinator.lastLogTerm

/-- What the replication loop reads from the log to push it. -/
def Broker.pendingMessages (b : Broker) (partitionOk : Bool) (topic : Bytes) (partition : UInt32)
    (start : UInt64) : List Message :=
  match b.storage.read partitionOk topic partition start 1048576 with
  | .error _ => []
  | .ok messages => messages

/-- A broker that is started again on its files. Topics are stored, caches are
    not. -/
def Broker.restarted (b : Broker) (follower : Bool) : Broker :=
  Broker.configureReplication
    { b with
      storage := { b.storage with
        partitions := b.storage.partitions.mapValues
          (fun p => recover b.storage.config p.files) }
      idempotencyCache := ∅
      replicationOffsets := ∅
      topicQuotaWindows := ∅ }
    b.nodeId b.replicationPeers b.replicationQuorum follower b.replicationAuthToken
    b.coordinator.stateFile

/-! ## Events -/

/-- What can happen in a cluster. -/
inductive ClusterEvent
  /-- A topic is created on one node. Topics are not replicated. -/
  | createTopic (n name : Bytes) (count : UInt32)
  /-- A step of an election or a heartbeat. -/
  | operate (n : Bytes) (op : Op)
  /-- A candidate sends its vote requests. -/
  | askVotes (n : Bytes) (term : UInt64)
  /-- A node handles a vote request. -/
  | vote (n : Bytes) (ballot : Nat)
  /-- A produce request arrives, by itself or as an item of a batch. -/
  | receive (n : Bytes) (env : ProduceEnv) (request : Request) (rate quota : Bool)
  /-- An admitted request is stored. -/
  | store (index : Nat)
  /-- `Replicate` calls the next peer. -/
  | push (call : Nat)
  /-- The replication loop pushes from its log. -/
  | pushPending (n topic : Bytes) (partition : UInt32) (start : UInt64) (partitionOk : Bool)
  /-- A node handles a push. -/
  | deliver (push : Nat) (n : Bytes) (env : ReplicaEnv)
  /-- `Replicate` hears that its push succeeded. -/
  | answer (call : Nat) (now : Int)
  /-- `Replicate` stops waiting for an answer. -/
  | giveUp (call : Nat)
  /-- `Replicate` has called all peers. -/
  | finish (call : Nat) (now : Int)
  /-- A node fetches from another one by itself, and stores what it got, or
      as much of it as it had got when the answer was read. -/
  | fetch (n source topic : Bytes) (partition : UInt32) (start : UInt64) (count : Nat)
      (partitionOk : Bool) (ios : Nat → StoreIo)
  /-- A node is stopped and started again. -/
  | restart (n : Bytes)

namespace BrokerCluster

variable (config : BrokersConfig) (s : BrokerCluster)

/-- The messages of a log. -/
def wal (n topic : Bytes) (partition : UInt32) : List Message :=
  ((s.nodes n).storage.partition topic partition).messages

/-- The cluster with one broker replaced. -/
def set (n : Bytes) (b : Broker) : BrokerCluster :=
  { s with nodes := Function.update s.nodes n b }

/-- An operation on the coordinator of a node, with the vote it casts. -/
def operate (n : Bytes) (op : Op) : BrokerCluster :=
  { s.set n { s.nodes n with coordinator := op.exec (s.nodes n).coordinator } with
    grants := s.grants ++ (op.vote (s.nodes n).coordinator).toList.map (fun v => (v.1, n, v.2)) }

/-- The operations that come from the network or from a timer, and whatever the
    file system does with saves. A vote is only counted where it was granted. A
    heartbeat carries a term its sender has reached; whether the sender still
    leads is not checked by the code. -/
def offered (n : Bytes) : Op → Bool
  | .beginElection => (s.nodes n).coordinator.currentTerm.toNat < 2 ^ 64 - 1
  | .observePreVote _ _ _ => true
  | .observeVote t voter granted => granted → (t, voter, n) ∈ s.grants
  | .observeHeartbeat _ _ _ _ => true
  | .observeHeartbeatRound _ => true
  | .observeAppend _ t leader _ _ _ =>
      leader ∈ config.members ∧ leader ≠ n ∧ t ≤ (s.nodes leader).coordinator.currentTerm
  | .fileSystem _ => true
  | _ => false

/-- The acknowledgement that lies in a response from the cache, for the
    message at the offset it names. The cache does not know how the request
    that filled it was acknowledged. -/
def replayed (n : Bytes) (request : Request) (response : Response) : List Acknowledgement :=
  let partition := get32 response.payload 0
  if response.status = .ok ∧ request.waitsForAll then
    ((s.wal n request.topic partition)[(get64 response.payload 4).toNat]?).toList.map
      (fun m => ⟨(s.nodes n).coordinator.currentTerm, n, request.topic, partition, m⟩)
  else []

/-- A produce request arrives. Requests with the flag of the brokers do not
    get this far. -/
def receive (n : Bytes) (env : ProduceEnv) (request : Request) (rate quota : Bool) : BrokerCluster :=
  if request.hasFlag flagReplication then s
  else
    match (s.nodes n).admitProduce env request rate quota with
    | (b, .error response) => { s.set n b with acked := s.acked ++ s.replayed n request response }
    | (b, .ok (partition, body)) =>
        { s.set n b with admitted := s.admitted ++ [⟨n, env, request, partition, body⟩] }

/-- An admitted request is stored. A request that waits for the replicas goes
    on as a call, any other is answered. -/
def store (a : AdmittedProduce) : BrokerCluster :=
  match (s.nodes a.node).storeProduce a.env a.request a.partition a.body with
  | (b, none) => s.set a.node b
  | (b, some message) =>
      if ¬ a.request.waitsForAll then
        s.set a.node (b.remember a.env a.request (produced a.request a.partition message))
      else if b.replicationPeers = [] ∨ b.replicationQuorum ≤ 1 then s.set a.node b
      else
        { s.set a.node b with
          calls := s.calls ++ [{
            node := a.node, request := a.request, partition := a.partition, message := message,
            waiting := b.replicationPeers }] }

/-- A push is put on the wire, if there is a request for it. -/
def send (n : Bytes) (a : AppendCall) : BrokerCluster :=
  match appendRequest (s.nodes n).replicationAuthToken 1 a with
  | none => s
  | some request => { s with pushes := s.pushes ++ [⟨n, a, request⟩] }

/-- `Replicate` calls its next peer. -/
def pushNext (index : Nat) (call : ReplicateCall) : BrokerCluster :=
  match call.pending, call.waiting with
  | none, peer :: rest =>
      let sent := s.send call.node ((s.nodes call.node).appendCall call.request.topic
        call.partition [call.message])
      { sent with
        calls := s.calls.set index
          { call with
            waiting := rest
            pending := if s.pushes.length < sent.pushes.length then
              some (peer.nodeId, s.pushes.length) else none } }
  | _, _ => s

/-- `Replicate` notes a successful push. -/
def noteAnswer (index : Nat) (now : Int) (call : ReplicateCall) : BrokerCluster :=
  match call.pending with
  | none => s
  | some (peer, push) =>
      if (push, peer) ∉ s.accepted then s
      else
        { s.operate call.node (.observeHeartbeat (partitionKey call.request.topic call.partition)
            peer call.message.offset now) with
          calls := s.calls.set index
            { call with pending := none, acknowledged := call.acknowledged ++ [peer] } }

/-- `Replicate` returns: it counts the answers and tries to commit. The
    response is cached when there is one. -/
def finishCall (index : Nat) (now : Int) (call : ReplicateCall) : BrokerCluster :=
  if call.waiting ≠ [] ∨ call.pending ≠ none then s
  else
    let b := s.nodes call.node
    let s := { s with calls := s.calls.eraseIdx index }
    if 1 + call.acknowledged.length < b.replicationQuorum then s
    else
      let committed := b.coordinator.advanceCommit (partitionKey call.request.topic call.partition)
        call.message.offset now
      let b := { b with coordinator := committed.1 }
      if ¬ committed.2 then s.set call.node b
      else
        { s.set call.node (b.remember { doneNow := now } call.request
            (produced call.request call.partition call.message)) with
          acked := s.acked ++ [⟨b.coordinator.currentTerm, call.node, call.request.topic,
            call.partition, call.message⟩] }

/-- A node handles a push, and a `kOk` is kept. -/
def deliver (index : Nat) (n : Bytes) (env : ReplicaEnv) (p : Push) : BrokerCluster :=
  let result := (s.nodes n).receiveAppend env p.request
  { s.set n result.1 with
    accepted := if result.2.status = .ok then s.accepted ++ [(index, n)] else s.accepted }

/-- A node stores what it has fetched. -/
def fetch (n source topic : Bytes) (partition : UInt32) (start : UInt64) (count : Nat)
    (partitionOk : Bool) (ios : Nat → StoreIo) : BrokerCluster :=
  let messages := ((s.nodes source).pendingMessages partitionOk topic partition start).take count
  s.set n { s.nodes n with
    storage := (appendReplicas ios topic partition messages 0 (s.nodes n).storage).1 }

/-- A node is stopped, with its calls, and started again. -/
def restart (n : Bytes) : BrokerCluster :=
  { s.set n ((s.nodes n).restarted (n ≠ config.first)) with
    admitted := s.admitted.filter (fun a => a.node ≠ n)
    calls := s.calls.filter (fun call => call.node ≠ n) }

end BrokerCluster

/-- The cluster after an event. -/
def ClusterEvent.exec (config : BrokersConfig) (s : BrokerCluster) : ClusterEvent → BrokerCluster
  | .createTopic n name count =>
      if n ∈ config.members then s.set n ((s.nodes n).createTopic name count).1 else s
  | .operate n op => if n ∈ config.members ∧ s.offered config n op then s.operate n op else s
  | .askVotes n t =>
      if (t, n, n) ∈ s.grants then
        { s with
          ballots := s.ballots ++ [⟨t, n, (s.nodes n).coordinator.lastLogIndex,
            (s.nodes n).coordinator.lastLogTerm⟩] }
      else s
  | .vote n index =>
      match s.ballots[index]? with
      | none => s
      | some ballot =>
          if n ∈ config.members then
            s.operate n (.requestVote ballot.term ballot.candidate ballot.lastLogIndex
              ballot.lastLogTerm)
          else s
  | .receive n env request rate quota =>
      if n ∈ config.members then s.receive n env request rate quota else s
  | .store index =>
      match s.admitted[index]? with
      | none => s
      | some a => BrokerCluster.store { s with admitted := s.admitted.eraseIdx index } a
  | .push index =>
      match s.calls[index]? with
      | none => s
      | some call => s.pushNext index call
  | .pushPending n topic partition start partitionOk =>
      if n ∈ config.members ∧ partition < (((s.nodes n).topics.lookup topic).getD 0) then
        s.send n ((s.nodes n).appendCall topic partition
          ((s.nodes n).pendingMessages partitionOk topic partition start))
      else s
  | .deliver index n env =>
      match s.pushes[index]? with
      | none => s
      | some p => if n ∈ config.members ∧ n ≠ p.leader then s.deliver index n env p else s
  | .answer index now =>
      match s.calls[index]? with
      | none => s
      | some call => s.noteAnswer index now call
  | .giveUp index =>
      match s.calls[index]? with
      | none => s
      | some call => { s with calls := s.calls.set index { call with pending := none } }
  | .finish index now =>
      match s.calls[index]? with
      | none => s
      | some call => s.finishCall index now call
  | .fetch n source topic partition start count partitionOk ios =>
      if n ∈ config.members ∧ source ∈ config.members then
        s.fetch n source topic partition start count partitionOk ios
      else s
  | .restart n => if n ∈ config.members then s.restart config n else s

/-- The cluster after a list of events. -/
def BrokerCluster.run (config : BrokersConfig) (s : BrokerCluster) (events : List ClusterEvent) :
    BrokerCluster :=
  events.foldl (ClusterEvent.exec config) s

end MqBroker
