import MqBroker.Broker.Bounds
import MqBroker.Broker.Heartbeat
import MqBroker.Broker.HeartbeatRound
import MqBroker.Broker.JoinGroup
import MqBroker.Broker.Pull
import MqBroker.Broker.Topics
import MqBroker.Protocol.Codec

/-!
# The Whole Broker

`Broker::Handle` with all of its handlers, on a broker with everything it has:
topics, logs and replication as before, and beside them the consumer groups,
the committed offsets, the permissions of clients, the counters, and the two
files that survive a restart.

A request is taken as one step. Handlers of different requests can overlap in
the code, but what they share is locked by itself, and every handler here is
made of steps that were looked at one by one elsewhere.

The files hold what was last saved. A save can fail because of the file system
or because a list is too long for it; the old file is then still there.

## Main definitions

* `Server`: The state.
* `ServerEnv`: What the outside does to the handling of a request.
* `Server.authorizeClientRequest`: `AuthorizeClientRequest`.
* `Server.handleListTopic`, `Server.handleSyncGroup`, `Server.handleFetch` and
  so on: The handlers.
* `Server.handle`: `Handle`, for the commands of the protocol.
* `Server.serve`: `Handle`, for whatever a frame holds.
-/

namespace MqBroker

open Traced

/-! ## Commands -/

/-- The commands of the protocol. -/
def Command.all : List Command :=
  [.createTopic, .deleteTopic, .listTopic, .metrics, .produce, .produceBatch, .syncGroup,
    .offsetFetch, .fetch, .commitOffset, .joinGroup, .heartbeat, .replicaFetch, .replicaAppend,
    .replicaVote]

/-- The command of a byte, if there is one. -/
def Command.ofCode (code : UInt8) : Option Command :=
  Command.all.find? (fun command => command.code = code)

/-- A request with its command. -/
def RawRequest.request (r : RawRequest) (command : Command) : Request :=
  ⟨r.version, command, r.requestId, r.flags, r.topic, r.payload⟩

theorem ofCode_code (command : Command) : Command.ofCode command.code = some command := by
  cases command <;> decide

/-! ## State -/

/-- What clients may do. An empty list of topics stands for all of them. -/
structure ClientAuthorization where
  allowAdmin : Bool := true
  allowProduce : Bool := true
  allowConsume : Bool := true
  produceTopics : List Bytes := []
  consumeTopics : List Bytes := []
deriving DecidableEq, Repr

/-- How far a group has come in a partition. -/
structure ConsumerOffset where
  group : Bytes
  topic : Bytes
  partition : UInt32
  offset : UInt64
deriving DecidableEq, Repr

/-- A broker with everything it has. -/
structure Server where
  broker : Broker
  groups : ConsumerGroupCoordinator := {}
  consumerOffsets : List ConsumerOffset := []
  clientAuthToken : Bytes := []
  clientAuthorization : ClientAuthorization := {}
  /-- The topics in `topics.meta`. -/
  topicsFile : List (Bytes × UInt32) := []
  /-- The offsets in `consumer_offsets.meta`. -/
  offsetsFile : List ConsumerOffset := []
  opened : Bool := true
  requestCount : UInt64 := 0
  produceCount : UInt64 := 0
  fetchCount : UInt64 := 0
  errorCount : UInt64 := 0

/-- What the outside does to the handling of a request. -/
structure ServerEnv extends HandleEnv where
  /-- The clock of the consumer groups. -/
  now : Int := 0
  replica : ReplicaEnv := {}
  delete : DeleteEnv := {}
  /-- The list of topics is saved after a topic was created. -/
  topicsSaved : Bool := true
  /-- The list of topics is saved again after a topic was not deleted. -/
  topicsResaved : Bool := true
  offsetsSaved : Bool := true
  /-- The partition can be opened for a fetch. -/
  partitionOk : Bool := true
  flushed : Bool := true

/-- How long a member of a group may be silent: 30 seconds. -/
def memberTimeout : Int := 30 * 1000000000

/-- The largest number of topics `TopicMetadataStore` saves. -/
def maxTopics : Nat := 1024

/-- The checks of `TopicMetadataStore::Save`. -/
def topicsSavable (topics : List (Bytes × UInt32)) : Bool :=
  topics.length ≤ maxTopics && topics.all (fun topic => isValidTopicName topic.1 && topic.2 != 0)

/-- The checks of `ConsumerOffsetStore::Save`. -/
def offsetsSavable (offsets : List ConsumerOffset) : Bool :=
  offsets.length ≤ 100000 &&
    offsets.all (fun item => item.group.length ≤ 65535 && item.topic.length ≤ 65535)

namespace Server

variable (s : Server)

/-! ## Permissions -/

/-- `TopicAllowed`. -/
def topicAllowed (topics : List Bytes) (topic : Bytes) : Bool :=
  topics.isEmpty || topics.contains topic

/-- `AuthorizeClientRequest`. -/
def authorizeClientRequest (request : Request) : Bool :=
  match request.command with
  | .createTopic | .deleteTopic | .listTopic | .metrics => s.clientAuthorization.allowAdmin
  | .produce | .produceBatch =>
      s.clientAuthorization.allowProduce &&
        topicAllowed s.clientAuthorization.produceTopics request.topic
  | .fetch | .commitOffset | .joinGroup | .syncGroup | .offsetFetch =>
      s.clientAuthorization.allowConsume &&
        (request.topic.isEmpty || topicAllowed s.clientAuthorization.consumeTopics request.topic)
  | .heartbeat => true
  | .replicaFetch | .replicaAppend | .replicaVote => false

/-! ## Topics -/

/-- `HandleCreateTopic`. The groups hear of the topic before the list of topics
    is saved. -/
def handleCreateTopic (env : ServerEnv) (request : Request) : Server × Response :=
  match (readCreateTopic request.payload).result with
  | .error status => (s, makeResponse request status)
  | .ok count =>
      let created := s.broker.createTopic request.topic count
      let saved := env.topicsSaved && topicsSavable created.1.listTopics
      let result := s.broker.handleCreateTopic saved request
      ({ s with
        broker := result.1
        groups := if created.2 then s.groups.setPartitions request.topic count else s.groups
        topicsFile := if created.2 && saved then created.1.listTopics else s.topicsFile }, result.2)

/-- `HandleDeleteTopic`. -/
def handleDeleteTopic (env : ServerEnv) (request : Request) : Server × Response :=
  let dropped := { s.broker with topics := s.broker.topics.erase request.topic }
  let saved := env.delete.saved && topicsSavable dropped.listTopics
  let result := s.broker.handleDeleteTopic { env.delete with saved := saved } request
  let s' := { s with broker := result.1 }
  if request.payload ≠ [] ∨ s.broker.topics.lookup request.topic = none ∨ ¬ saved then
    (s', result.2)
  else if result.2.status ≠ .ok then
    ({ s' with
      topicsFile :=
        if env.topicsResaved && topicsSavable result.1.listTopics then result.1.listTopics
        else dropped.listTopics }, result.2)
  else
    let offsets := s.consumerOffsets.filter (fun item => item.topic ≠ request.topic)
    ({ s' with
      topicsFile := dropped.listTopics
      consumerOffsets := offsets
      offsetsFile := if env.offsetsSaved && offsetsSavable offsets then offsets else s.offsetsFile },
      result.2)

/-- A topic in an answer: its name with the length in front, and a number. -/
def encodeEntry (topic : Bytes) (number : UInt32) : Bytes :=
  put16 (UInt16.ofNat topic.length) ++ (topic ++ put32 number)

/-- A list of topics with numbers, with its length in front. -/
def encodeEntries (entries : List (Bytes × UInt32)) : Bytes :=
  put32 (UInt32.ofNat entries.length) ++ entries.flatMap (fun entry => encodeEntry entry.1 entry.2)

/-- `HandleListTopic`. -/
def handleListTopic (request : Request) : Response :=
  if request.topic ≠ [] ∨ request.payload ≠ [] then makeResponse request .badRequest
  else makeResponse request .ok (encodeEntries s.broker.listTopics)

/-! ## Metrics -/

/-- A line of text. -/
def line (text : String) : Bytes := text.toUTF8.toList ++ [10]

/-- A name and a number on a line. -/
def gauge (name : String) (value : UInt64) : Bytes :=
  name.toUTF8.toList ++ (32 :: decimal value.toNat ++ [10])

/-- The name of a role. -/
def roleName : ReplicaRole → String
  | .leader => "leader"
  | .follower => "follower"
  | .candidate => "candidate"

/-- The bytes used up in the windows of all topics, on 64 bits. -/
def quotaUsed : UInt64 :=
  s.broker.topicQuotaWindows.values.foldl (fun used window => used + window.bytes) 0

/-- The text of `HandleMetrics`. -/
def metricsText : Bytes :=
  let c := s.broker.coordinator
  line "# TYPE mq_requests_total counter" ++ (gauge "mq_requests_total" s.requestCount ++
  (line "# TYPE mq_produce_total counter" ++ (gauge "mq_produce_total" s.produceCount ++
  (line "# TYPE mq_fetch_total counter" ++ (gauge "mq_fetch_total" s.fetchCount ++
  (line "# TYPE mq_errors_total counter" ++ (gauge "mq_errors_total" s.errorCount ++
  (line "# TYPE mq_replication_term gauge" ++ (gauge "mq_replication_term" c.currentTerm ++
  (line "# TYPE mq_commit_index gauge" ++ (gauge "mq_commit_index" c.maxCommitIndex ++
  (line "# TYPE mq_raft_voted_for gauge" ++ ("mq_raft_voted_for\x7bnode=\"".toUTF8.toList ++
  (c.votedFor ++ (line "\"\x7d 1" ++
  (line "# TYPE mq_raft_commit_index gauge" ++ (gauge "mq_raft_commit_index" c.maxCommitIndex ++
  (line "# TYPE mq_raft_last_applied gauge" ++ (gauge "mq_raft_last_applied" c.lastApplied ++
  (line "# TYPE mq_topic_produce_quota_bytes_per_second gauge" ++
  (gauge "mq_topic_produce_quota_bytes_per_second" s.broker.topicProduceQuota ++
  (line "# TYPE mq_topic_produce_bytes_used gauge" ++
  (gauge "mq_topic_produce_bytes_used" s.quotaUsed ++
  ("mq_replication_role\x7brole=\"".toUTF8.toList ++ ((roleName c.role).toUTF8.toList ++
  line "\"\x7d 1")))))))))))))))))))))))))

/-- `HandleMetrics`. -/
def handleMetrics (request : Request) : Response :=
  if request.topic ≠ [] ∨ request.payload ≠ [] ∨ request.hasFlag flagReplication then
    makeResponse request .badRequest
  else makeResponse request .ok s.metricsText

/-! ## Consumers -/

/-- The offset a group has committed for a partition. -/
def committed (group topic : Bytes) (partition : UInt32) : Option UInt64 :=
  (s.consumerOffsets.find? (fun item =>
    item.group = group ∧ item.topic = topic ∧ item.partition = partition)).map ConsumerOffset.offset

/-- Where a fetch starts: where it asks for, or behind it, where its group has
    come. -/
def fetchStart (call : FetchCall) (topic : Bytes) (partition : UInt32) : UInt64 :=
  if call.group = [] then call.offset
  else
    match s.committed call.group topic partition with
    | none => call.offset
    | some offset => max call.offset offset

/-- `HandleFetch`. -/
def handleFetch (partitionOk : Bool) (request : Request) : Response :=
  match (readFetch request.payload).result with
  | .error status => makeResponse request status
  | .ok call =>
      match s.broker.resolvePartition request.topic call.partition [] with
      | .error .unknownTopic => makeResponse request .unknownTopic
      | .error .outOfRange => makeResponse request .invalidOffset
      | .ok partition =>
          match s.broker.storage.read partitionOk request.topic partition
            (s.fetchStart call request.topic partition) call.maxBytes with
          | .error .invalidOffset => makeResponse request .invalidOffset
          | .error _ => makeResponse request .storageError
          | .ok messages => makeResponse request .ok (fetchAnswer messages)

/-- `HandleOffsetFetch`. -/
def handleOffsetFetch (request : Request) : Response :=
  match (readOffsetFetch request.topic request.payload).result with
  | .error status => makeResponse request status
  | .ok (group, requested) =>
      match s.broker.resolvePartition request.topic requested [] with
      | .error .unknownTopic => makeResponse request .unknownTopic
      | .error .outOfRange => makeResponse request .invalidOffset
      | .ok partition =>
          makeResponse request .ok (put64 ((s.committed group request.topic partition).getD 0))

/-- The list of offsets with one of them set. -/
def setOffset (group topic : Bytes) (partition : UInt32) (offset : UInt64) :
    List ConsumerOffset → List ConsumerOffset
  | [] => [⟨group, topic, partition, offset⟩]
  | item :: rest =>
      if item.group = group ∧ item.topic = topic ∧ item.partition = partition then
        { item with offset := offset } :: rest
      else item :: setOffset group topic partition offset rest

/-- `HandleCommitOffset`. -/
def handleCommitOffset (env : ServerEnv) (request : Request) : Server × Response :=
  match (s.broker.readCommitOffset request.topic request.payload).result with
  | .error status => (s, makeResponse request status)
  | .ok (group, partition, offset) =>
      let offsets := setOffset group request.topic partition offset s.consumerOffsets
      if env.offsetsSaved && offsetsSavable offsets then
        ({ s with consumerOffsets := offsets, offsetsFile := offsets }, makeResponse request .ok)
      else ({ s with consumerOffsets := offsets }, makeResponse request .storageError)

/-- `HandleSyncGroup`. -/
def handleSyncGroup (request : Request) : Response :=
  match (readSyncGroup request.payload).result with
  | .error status => makeResponse request status
  | .ok (group, memberId) =>
      match s.groups.sync group memberId with
      | none => makeResponse request .invalidOffset
      | some assignments =>
          makeResponse request .ok
            (encodeEntries (assignments.map (fun a => (a.topic, a.partition))))

/-- `HandleHeartbeat`. Members that have been silent for too long are removed
    first, whatever kind of heartbeat it is. -/
def handleHeartbeat (env : ServerEnv) (request : Request) : Server × Response :=
  let s := { s with groups := (s.groups.expire memberTimeout env.now).1 }
  if request.hasFlag flagReplication then
    let result := s.broker.handleReplicaHeartbeat env.replica.now request
    ({ s with broker := result.1 }, result.2)
  else
    match (readGroupHeartbeat request.payload).result with
    | .error status => (s, makeResponse request status)
    | .ok (some (group, memberId)) =>
        let beat := s.groups.heartbeat group memberId env.now
        if beat.2 then ({ s with groups := beat.1 }, makeResponse request .ok)
        else (s, makeResponse request .invalidOffset)
    | .ok none => (s, makeResponse request (if env.flushed then .ok else .storageError))

/-- `HandleReplicaVote`. -/
def handleReplicaVote (request : Request) : Server × Response :=
  match (readReplicaVote request).result with
  | .error status => (s, makeResponse request status)
  | .ok (term, candidate, lastLogIndex, lastLogTerm) =>
      let c := s.broker.coordinator
      if request.hasFlag flagReplicationTerm then
        let granted := c.requestPreVote term candidate lastLogIndex lastLogTerm
        (s, makeResponse request .ok [if granted then 1 else 0])
      else
        let voted := c.requestVote term candidate lastLogIndex lastLogTerm
        ({ s with broker := { s.broker with coordinator := voted.1 } },
          makeResponse request .ok [if voted.2 then 1 else 0])

/-! ## All requests -/

/-- The switch of `Handle`. -/
def dispatch (env : ServerEnv) (request : Request) : Server × Response :=
  match request.command with
  | .createTopic => s.handleCreateTopic env request
  | .deleteTopic => s.handleDeleteTopic env request
  | .listTopic => (s, s.handleListTopic request)
  | .metrics => (s, s.handleMetrics request)
  | .produce =>
      let result := s.broker.handleProduce env.produce request
      ({ s with broker := result.broker }, result.response)
  | .produceBatch =>
      let result := s.broker.handleProduceBatch env.batch request
      ({ s with broker := result.broker }, result.response)
  | .fetch => (s, s.handleFetch env.partitionOk request)
  | .commitOffset => s.handleCommitOffset env request
  | .joinGroup =>
      let result := handleJoinGroup s.groups env.now request
      ({ s with groups := result.1 }, result.2)
  | .syncGroup => (s, s.handleSyncGroup request)
  | .offsetFetch => (s, s.handleOffsetFetch request)
  | .heartbeat => s.handleHeartbeat env request
  | .replicaFetch => (s, s.broker.handleReplicaFetch env.partitionOk request)
  | .replicaAppend =>
      let result := s.broker.handleReplicaAppend env.replica request
      ({ s with broker := result.1 }, result.2)
  | .replicaVote => s.handleReplicaVote request

/-- The response to a request that fails the checks on version, flags and
    token. -/
def refuse (request : Request) : Response :=
  if request.version ≠ currentVersion then
    makeResponse request .versionMismatch [currentVersion]
  else if request.flags &&& ~~~knownFlags ≠ 0 ∨ request.flags &&& ackMask = ackMask then
    makeResponse request .badRequest
  else if request.hasFlag flagReplication ∧ request.hasFlag flagAuthentication then
    makeResponse request .badRequest
  else if request.isReplication ∨ request.hasFlag flagReplication then
    makeResponse request .badRequest
  else makeResponse request (if s.clientAuthToken = [] then .badRequest else .unauthenticated)

/-- The counters of produce and fetch requests. -/
def countRequest (command : Command) : Server :=
  match command with
  | .produce | .produceBatch => { s with produceCount := s.produceCount + 1 }
  | .fetch => { s with fetchCount := s.fetchCount + 1 }
  | _ => s

/-- The counter of requests that are not answered with `kOk`. -/
def countError (status : Status) : Server :=
  if status ≠ .ok then { s with errorCount := s.errorCount + 1 } else s

/-- `Handle`. -/
def handle (env : ServerEnv) (request : Request) : Server × Response :=
  let s := { s with requestCount := s.requestCount + 1 }
  if ¬ s.opened then
    ({ s with errorCount := s.errorCount + 1 }, makeResponse request .internalError)
  else
    match s.broker.acceptRequest s.clientAuthToken request with
    | none => (s, s.refuse request)
    | some normalized =>
        if ¬ request.isReplication ∧ s.clientAuthToken ≠ [] ∧ ¬ s.authorizeClientRequest normalized
        then (s, makeResponse request .permissionDenied)
        else
          let result := (s.countRequest request.command).dispatch env normalized
          (result.1.countError result.2.status, result.2)

/-- `Handle`, for a command it does not know. The command of the request is not
    looked at. -/
def handleUnknown (request : Request) : Server × Response :=
  let s := { s with requestCount := s.requestCount + 1 }
  if ¬ s.opened then
    ({ s with errorCount := s.errorCount + 1 }, makeResponse request .internalError)
  else if request.version ≠ currentVersion ∨ request.flags &&& ~~~knownFlags ≠ 0 ∨
      request.flags &&& ackMask = ackMask ∨ request.hasFlag flagReplication ∨
      validateClientAuth s.clientAuthToken request = none then
    (s, s.refuse request)
  else if s.clientAuthToken ≠ [] then (s, makeResponse request .permissionDenied)
  else ({ s with errorCount := s.errorCount + 1 }, makeResponse request .badRequest)

/-- What the server does with a request that was decoded: `Handle`, for any
    byte in the place of the command. -/
def serve (env : ServerEnv) (r : RawRequest) : Server × RawResponse :=
  let result :=
    match Command.ofCode r.command with
    | some command => s.handle env (r.request command)
    | none => s.handleUnknown (r.request .heartbeat)
  (result.1, result.2.raw)

end Server

end MqBroker
