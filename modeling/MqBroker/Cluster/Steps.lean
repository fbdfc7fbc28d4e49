import MqBroker.Cluster.Brokers

/-!
# What One Event Can Do

Every action of a broker in a cluster is a `Broker.Step`: a list of coordinator
operations and some messages behind one of its logs, with everything else that
matters to the cluster left alone. Each action gets its lemma here, and what
the later modules say about runs is derived from these.

`Logged` is the part of the state that all of them need. Offsets are positions,
what is on the wire was built from a call of its sender, and every message that
waits for its replicas stands in a log.

## Main definitions

* `Broker.settings`: What is configured once.
* `Broker.Step`: What an action can do to a broker.
* `Logged`: The invariant of logs and wire.
* `Moved`, `Effect`: A broker makes a step, and why.

## Theorems

* `admitProduce_step`, `storeProduce_step`, `applyAppend_step`, `fetch_step`:
  The actions as steps.
* `receiveAppend_follow`: What a follower does with a push.
* `exec_effect`: Every event as a step of one broker.
-/

namespace MqBroker

open ReplicationCoordinator

/-! ## Steps of a broker -/

/-- What is configured once: the id, the peers, the token, and the quorum. -/
def Broker.settings (b : Broker) : Bytes × List ReplicationPeer × Bytes × Bool × Nat :=
  (b.nodeId, b.replicationPeers, b.replicationAuthToken, b.replicationConfigured,
    b.replicationQuorum)

/-- What an action does to a broker: coordinator operations, and messages with
    the next offsets behind one log. -/
structure Broker.Step (b b' : Broker) (ops : List Op) (topic : Bytes) (partition : UInt32)
    (ms : List Message) : Prop where
  settings : b'.settings = b.settings
  topics : b'.topics = b.topics
  coordinator : b'.coordinator = ops.foldl Op.exec b.coordinator
  storage : Extended b.storage b'.storage topic partition ms
  numbered : Numbered (b.storage.partition topic partition).nextOffset ms
  storable : ∀ m ∈ ms, m.Storable

section Actions

variable (b : Broker)

/-- An action that leaves the logs alone. -/
theorem Broker.Step.quiet {b b' : Broker} {ops : List Op} (topic : Bytes) (partition : UInt32)
    (hsettings : b'.settings = b.settings) (htopics : b'.topics = b.topics)
    (hcoordinator : b'.coordinator = ops.foldl Op.exec b.coordinator)
    (hstorage : b'.storage = b.storage) : b.Step b' ops topic partition [] := by
  refine ⟨hsettings, htopics, hcoordinator, ?_, trivial, fun m hm => absurd hm List.not_mem_nil⟩
  rw [hstorage]
  exact (SameMessages.refl _).extended topic partition

theorem admitProduce_step (env : ProduceEnv) (request : Request) (rate quota : Bool)
    (topic : Bytes) (partition : UInt32) :
    b.Step (b.admitProduce env request rate quota).1 [] topic partition [] := by
  rcases admitProduce_frame b env request rate quota with ⟨cache, windows, h⟩
  rw [h]
  exact .quiet topic partition rfl rfl rfl rfl

/-- A request is admitted for a partition that exists. -/
theorem admitProduce_partition {b b' : Broker} {env : ProduceEnv} {request : Request}
    {rate quota : Bool} {partition : UInt32} {body : ProduceBody}
    (htopics : ∀ topic count, b.topics.lookup topic = some count → count ≠ 0)
    (h : b.admitProduce env request rate quota = (b', .ok (partition, body))) :
    partition ≠ autoPartition := by
  exact resolvePartition_ne_auto (htopics request.topic) (admitProduce_routes h).resolved

/-- Storing an admitted message. When there is a message to go on with, it is
    the one behind the log. -/
theorem storeProduce_step (env : ProduceEnv) (request : Request) (partition : UInt32)
    (body : ProduceBody) :
    ∃ ops ms, b.Step (b.storeProduce env request partition body).1 ops request.topic partition ms ∧
      (∀ m, (b.storeProduce env request partition body).2 = some m → ms = [m]) ∧
      (ms = [] ∨ ms = [(b.storage.partition request.topic partition).nextMessage env.timestampMs
        body.key body.value]) ∧
      (ops = [] ∨ ∃ offset, ops = [.recordLocalOffset (partitionKey request.topic partition)
        offset]) := by
  simp only [Broker.storeProduce]
  rcases store_append_cases b.storage env.io env.timestampMs request.topic partition body.key
    body.value with ⟨hstored, hresult⟩ | ⟨hsame, err, hresult⟩
  · have hstorable : ((b.storage.partition request.topic partition).nextMessage env.timestampMs
        body.key body.value).Storable := by
      by_contra hno
      have hmessages := hstored.messages
      simp only [StorageEngine.append, if_pos (Or.inr hno)] at hmessages
      have hlen := congrArg List.length hmessages
      rw [List.length_append, List.length_singleton] at hlen
      omega
    rw [hresult]
    have hall : ∀ m ∈ [(b.storage.partition request.topic partition).nextMessage env.timestampMs
        body.key body.value], m.Storable := by
      intro m hm
      rw [List.mem_singleton.mp hm]
      exact hstorable
    cases hsync : env.io.io.syncOk with
    | true =>
        exact ⟨_, _, ⟨rfl, rfl, rfl, hstored.extended, ⟨rfl, trivial⟩, hall⟩,
          fun m hm => by rw [Option.some.inj hm], Or.inr rfl, Or.inr ⟨_, rfl⟩⟩
    | false =>
        -- The message is in the log, but its record in the coordinator is not made.
        refine ⟨[], _, ⟨rfl, rfl, rfl, hstored.extended, ⟨rfl, trivial⟩, hall⟩, ?_, Or.inr rfl,
          Or.inl rfl⟩
        intro m hm
        cases hm
  · rw [hresult]
    refine ⟨[], [], ⟨rfl, rfl, rfl, hsame.extended _ _, trivial,
      fun m hm => absurd hm List.not_mem_nil⟩, ?_, Or.inl rfl, Or.inl rfl⟩
    intro m hm
    cases hm

/-- A replica append of any kind. The leader is taken notice of before the
    messages are stored, and the last one is recorded behind them. -/
theorem applyAppend_step (env : ReplicaEnv) (request : Request) (header : AppendHeader)
    (partition : UInt32) (messages : List Message) :
    ∃ ops ms, b.Step (b.applyAppend env request header partition messages).1 ops request.topic
        partition ms ∧ ms <+: messages ∧
      ((b.applyAppend env request header partition messages).2.status = .ok →
        ms = messages ∧ b.PassesChecks env request header partition messages) ∧
      ∀ op ∈ ops, op = .observeAppend (partitionKey request.topic partition) header.term
          header.leaderId (lastOffset messages) header.commit env.now ∨
        op = .recordLocalOffset (partitionKey request.topic partition) (lastOffset messages) := by
  -- Whether or not the request carries a term, the leader check is at most one operation.
  have hobserved : ∃ ops : List Op, (b.observedBy env request header partition messages).1
      = ops.foldl Op.exec b.coordinator ∧
      ∀ op ∈ ops, op = .observeAppend (partitionKey request.topic partition) header.term
        header.leaderId (lastOffset messages) header.commit env.now := by
    unfold Broker.observedBy
    split
    · exact ⟨[.observeAppend _ _ _ _ _ _], rfl, fun op hop => List.mem_singleton.mp hop⟩
    · exact ⟨[], rfl, fun op hop => absurd hop List.not_mem_nil⟩
  rcases hobserved with ⟨ops, hops, hall⟩
  rcases applyAppend_cases b env request header partition messages with ⟨hb, hstatus⟩ |
    ⟨hpass, stored, e, hpre, hext, hnum, hst, ⟨hb, hstatus⟩ | ⟨hb, hstatus, hwhole⟩⟩
  · refine ⟨[], [], ?_, List.nil_prefix, fun hok => absurd hok hstatus,
      fun op hop => absurd hop List.not_mem_nil⟩
    rw [hb]
    exact .quiet _ _ rfl rfl rfl rfl
  · refine ⟨ops, stored, ?_, hpre, fun hok => absurd hok hstatus, fun op hop => Or.inl (hall op hop)⟩
    rw [hb]
    exact ⟨rfl, rfl, hops, hext, hnum, hst⟩
  · refine ⟨ops ++ [.recordLocalOffset (partitionKey request.topic partition)
      (lastOffset messages)], stored, ?_, hpre, fun _ => ⟨hwhole, hpass⟩, ?_⟩
    · rw [hb]
      refine ⟨rfl, rfl, ?_, hext, hnum, hst⟩
      rw [List.foldl_append, ← hops]
      rfl
    · intro op hop
      rcases List.mem_append.mp hop with hop | hop
      · exact Or.inl (hall op hop)
      · exact Or.inr (List.mem_singleton.mp hop)

/-- A request that a follower can read is handled as the call it was built
    from. A `kOk` says that all messages are stored, and that the follower was
    not ahead of the leader. -/
theorem receiveAppend_follow (env : ReplicaEnv) (call : AppendCall) {token : Bytes}
    {request : Request} (hbuilt : appendRequest token 1 call = some request)
    (hconfigured : b.replicationConfigured = true) (htoken : b.replicationAuthToken = token)
    (hauto : call.partition ≠ autoPartition) (hcount : call.messages.length ≤ 10000)
    (hstorable : ∀ m ∈ call.messages, m.Storable) :
    ∃ ops ms, b.Step (b.receiveAppend env request).1 ops call.topic call.partition ms ∧
      ms <+: call.messages ∧
      ((b.receiveAppend env request).2.status = .ok →
        ms = call.messages ∧ b.coordinator.currentTerm ≤ call.term) ∧
      ∀ op ∈ ops,
        (∃ key offset commit now,
          op = .observeAppend key call.term call.leaderId offset commit now) ∨
        ∃ key offset, op = .recordLocalOffset key offset := by
  have heq := receiveAppend_request call b env token 1 request hbuilt hconfigured htoken hcount
    hstorable
  unfold Broker.followCall at heq
  cases hresolve : b.resolvePartition call.topic call.partition [] with
  | error err =>
      rw [hresolve] at heq
      have hrefused : (b.receiveAppend env request).1 = b ∧
          (b.receiveAppend env request).2.status ≠ .ok := by
        rw [heq]
        cases err with
        | unknownTopic => exact refusal b _ _ _ (by decide)
        | outOfRange => exact refusal b _ _ _ (by decide)
      refine ⟨[], [], ?_, List.nil_prefix, fun hok => absurd hok hrefused.2,
        fun op hop => absurd hop List.not_mem_nil⟩
      rw [hrefused.1]
      exact .quiet _ _ rfl rfl rfl rfl
  | ok partition =>
      rw [hresolve] at heq
      have hpartition : partition = call.partition := resolvePartition_named hresolve hauto
      rcases applyAppend_step b env (wireRequest call.topic 1 (appendPayload call)) call.header
        partition call.messages with ⟨ops, ms, hstep, hpre, hwhole, hops⟩
      refine ⟨ops, ms, ?_, hpre, ?_, ?_⟩
      · rw [heq, ← hpartition]
        exact hstep
      · intro hok
        rw [heq] at hok
        exact ⟨(hwhole hok).1, (hwhole hok).2.term_le (wireRequest_flags _ _ _).2.1⟩
      · intro op hop
        rcases hops op hop with hobserve | hrecord
        · rw [hobserve]
          exact Or.inl ⟨_, _, _, _, rfl⟩
        · exact Or.inr ⟨_, _, hrecord⟩

/-- What a node has fetched is stored without a look at the coordinator. -/
theorem fetch_step (ios : Nat → StoreIo) (topic : Bytes) (partition : UInt32)
    (messages : List Message) :
    ∃ ms, b.Step { b with
        storage := (appendReplicas ios topic partition messages 0 b.storage).1 } [] topic
        partition ms ∧ ms <+: messages := by
  rcases appendReplicas_cases ios topic partition messages 0 b.storage with
    ⟨stored, hpre, hext, hnum, hst, _⟩
  exact ⟨stored, ⟨rfl, rfl, rfl, hext, hnum, hst⟩, hpre⟩

/-- What is read to be pushed is nothing, or what the loop reads. -/
theorem pendingMessages_cases (partitionOk : Bool) (topic : Bytes) (partition : UInt32)
    (start : UInt64) :
    b.pendingMessages partitionOk topic partition start = [] ∨
      b.pendingMessages partitionOk topic partition start
        = readLoop start 1048576 (b.storage.partition topic partition).messages [] 0 := by
  unfold Broker.pendingMessages
  split
  · exact Or.inl rfl
  · rename_i messages hread
    exact Or.inr (read_ok hread)

theorem pendingMessages_mem (partitionOk : Bool) (topic : Bytes) (partition : UInt32)
    (start : UInt64) :
    ∀ m ∈ b.pendingMessages partitionOk topic partition start,
      m ∈ (b.storage.partition topic partition).messages := by
  intro m hm
  rcases pendingMessages_cases b partitionOk topic partition start with hnone | hloop
  · rw [hnone] at hm
    exact absurd hm List.not_mem_nil
  · rw [hloop] at hm
    exact readLoop_mem hm

/-- What is read to be pushed is a part of the log in one piece, as long as
    offsets do not wrap around. -/
theorem pendingMessages_piece (hcounted : b.storage.Counted) (partitionOk : Bool) (topic : Bytes)
    (partition : UInt32) (start : UInt64)
    (hshort : (b.storage.partition topic partition).messages.length < 2 ^ 64) :
    ∃ front, front ++ b.pendingMessages partitionOk topic partition start
      <+: (b.storage.partition topic partition).messages := by
  rcases pendingMessages_cases b partitionOk topic partition start with hnone | hloop
  · exact ⟨[], by rw [hnone]; exact List.nil_prefix⟩
  · rw [hloop]
    refine readLoop_piece start 0 1048576 _ (hcounted topic partition).numbered ?_
    rw [show (0 : UInt64).toNat = 0 from rfl]
    omega

end Actions

/-! ## The invariant of logs and wire -/

/-- What is known of a push on the wire. -/
structure Push.Valid (config : BrokersConfig) (p : Push) : Prop where
  built : appendRequest config.token 1 p.call = some p.request
  leader : p.leader ∈ config.members ∧ p.call.leaderId = p.leader
  partition : p.call.partition ≠ autoPartition

/-- The messages of a push come out as they went in: there are no more of them
    than a follower reads, and the lengths of each fit their fields. -/
def Push.Readable (p : Push) : Prop :=
  p.call.messages.length ≤ 10000 ∧ ∀ m ∈ p.call.messages, m.Storable

/-- The invariant of logs and wire. -/
structure Logged (config : BrokersConfig) (s : BrokerCluster) : Prop where
  settings : ∀ n, (s.nodes n).settings = (bootBroker config n).settings
  counted : ∀ n, (s.nodes n).storage.Counted
  topics : ∀ n t count, (s.nodes n).topics.lookup t = some count → count ≠ 0
  admitted : ∀ a ∈ s.admitted, a.node ∈ config.members ∧ a.partition ≠ autoPartition
  pushes : ∀ p ∈ s.pushes, p.Valid config
  calls : ∀ c ∈ s.calls, c.node ∈ config.members ∧ c.partition ≠ autoPartition ∧
    c.message ∈ s.wal c.node c.request.topic c.partition

theorem Logged.token {config : BrokersConfig} {s : BrokerCluster} (h : Logged config s)
    (n : Bytes) : (s.nodes n).replicationAuthToken = config.token :=
  congrArg (fun x => x.2.2.1) (h.settings n)

theorem Logged.configured {config : BrokersConfig} {s : BrokerCluster} (h : Logged config s)
    (n : Bytes) : (s.nodes n).replicationConfigured = true :=
  congrArg (fun x => x.2.2.2.1) (h.settings n)

theorem Logged.nodeId {config : BrokersConfig} {s : BrokerCluster} (h : Logged config s)
    (n : Bytes) : (s.nodes n).nodeId = n :=
  congrArg (fun x => x.1) (h.settings n)

/-- One broker has made a step, and the others have not. -/
structure Moved (s s' : BrokerCluster) (n : Bytes) (ops : List Op) (topic : Bytes)
    (partition : UInt32) (ms : List Message) : Prop where
  step : (s.nodes n).Step (s'.nodes n) ops topic partition ms
  others : ∀ m, m ≠ n → s'.nodes m = s.nodes m

/-- Why a broker makes a step: the operations and the messages an event can
    bring to a node. -/
inductive Effect (config : BrokersConfig) (s : BrokerCluster) (e : ClusterEvent) (n : Bytes) :
    List Op → Bytes → UInt32 → List Message → Prop
  | quiet (t : Bytes) (p : UInt32) : Effect config s e n [] t p []
  | operate (t : Bytes) (p : UInt32) (op : Op) (he : e = .operate n op) (hn : n ∈ config.members)
      (hop : s.offered config n op = true) : Effect config s e n [op] t p []
  | vote (t : Bytes) (p : UInt32) (index : Nat) (he : e = .vote n index) (q : VoteRequest)
      (hn : n ∈ config.members) (hq : s.ballots[index]? = some q) :
      Effect config s e n [.requestVote q.term q.candidate q.lastLogIndex q.lastLogTerm] t p []
  | commit (t : Bytes) (p : UInt32) (hn : n ∈ config.members) (key : Bytes) (offset : UInt64)
      (now : Int) : Effect config s e n [.advanceCommit key offset now] t p []
  | answer (t : Bytes) (p : UInt32) (hn : n ∈ config.members) (key peer : Bytes) (offset : UInt64)
      (now : Int) : Effect config s e n [.observeHeartbeat key peer offset now] t p []
  | store (index : Nat) (he : e = .store index) (a : AdmittedProduce)
      (ha : s.admitted[index]? = some a) (hnode : a.node = n) (ops : List Op)
      (hops : ∀ op ∈ ops, ∃ key offset, op = .recordLocalOffset key offset) (ms : List Message)
      (hms : ms = [] ∨ ∃ m, ms = [m]) : Effect config s e n ops a.request.topic a.partition ms
  | deliver (push : Push) (hpush : push ∈ s.pushes) (hn : n ∈ config.members)
      (hne : n ≠ push.leader) (ops : List Op)
      (hops : ∀ op ∈ ops,
        (∃ key offset commit now,
          op = .observeAppend key push.call.term push.leader offset commit now) ∨
        ∃ key offset, op = .recordLocalOffset key offset) (t : Bytes) (p : UInt32)
      (ms : List Message)
      (hms : push.Readable →
        t = push.call.topic ∧ p = push.call.partition ∧ ms <+: push.call.messages) :
      Effect config s e n ops t p ms
  | fetch (source : Bytes) (hn : n ∈ config.members) (hsource : source ∈ config.members)
      (t : Bytes) (p : UInt32) (partitionOk : Bool) (start : UInt64) (ms : List Message)
      (hms : ms <+: (s.nodes source).pendingMessages partitionOk t p start) :
      Effect config s e n [] t p ms

section Effects

variable {config : BrokersConfig} {s : BrokerCluster}

@[simp] theorem set_nodes_self (s : BrokerCluster) (n : Bytes) (b : Broker) :
    (s.set n b).nodes n = b := by
  simp only [BrokerCluster.set, Function.update_self]

theorem set_nodes_ne (s : BrokerCluster) {n m : Bytes} (b : Broker) (h : m ≠ n) :
    (s.set n b).nodes m = s.nodes m := by
  simp only [BrokerCluster.set, Function.update_of_ne h]

/-- A step of one broker, in a cluster with other lists. -/
theorem Moved.of_set {s' : BrokerCluster} {n : Bytes} {b : Broker} {ops : List Op} {t : Bytes}
    {p : UInt32} {ms : List Message} (hstep : (s.nodes n).Step b ops t p ms)
    (hnodes : s'.nodes = (s.set n b).nodes) : Moved s s' n ops t p ms := by
  refine ⟨?_, ?_⟩
  · rw [hnodes, set_nodes_self]
    exact hstep
  · intro m hm
    rw [hnodes, set_nodes_ne s b hm]

/-- Nothing happens to any broker. -/
theorem Moved.still {s' : BrokerCluster} (hnodes : s'.nodes = s.nodes) (n t : Bytes)
    (p : UInt32) : Moved s s' n [] t p [] := by
  refine ⟨?_, fun m _ => by rw [hnodes]⟩
  rw [hnodes]
  exact .quiet t p rfl rfl rfl rfl

/-- An operation on a coordinator. -/
theorem operate_moved (n : Bytes) (op : Op) (t : Bytes) (p : UInt32) :
    Moved s (s.operate n op) n [op] t p [] :=
  Moved.of_set (b := { s.nodes n with coordinator := op.exec (s.nodes n).coordinator })
    (.quiet t p rfl rfl rfl rfl) rfl

theorem send_nodes (n : Bytes) (a : AppendCall) : (s.send n a).nodes = s.nodes := by
  unfold BrokerCluster.send
  split <;> rfl

/-- A push that a follower can read is handled as the call it was built from. -/
theorem deliver_follow (h : Logged config s) (index : Nat) (n : Bytes) (env : ReplicaEnv)
    (push : Push) (hpush : push ∈ s.pushes) (hread : push.Readable) :
    ∃ ops ms, Moved s (s.deliver index n env push) n ops push.call.topic push.call.partition ms ∧
      ms <+: push.call.messages ∧
      (((s.nodes n).receiveAppend env push.request).2.status = .ok →
        ms = push.call.messages ∧ (s.nodes n).coordinator.currentTerm ≤ push.call.term) ∧
      ∀ op ∈ ops,
        (∃ key offset commit now,
          op = .observeAppend key push.call.term push.leader offset commit now) ∨
        ∃ key offset, op = .recordLocalOffset key offset := by
  have hvalid := h.pushes push hpush
  rcases receiveAppend_follow (s.nodes n) env push.call hvalid.built (h.configured n) (h.token n)
    hvalid.partition hread.1 hread.2 with ⟨ops, ms, hstep, hpre, hwhole, hops⟩
  rw [hvalid.leader.2] at hops
  exact ⟨ops, ms, .of_set hstep rfl, hpre, hwhole, hops⟩

/-- A push that is handled. -/
theorem deliver_moved (h : Logged config s) (index : Nat) (n : Bytes) (env : ReplicaEnv)
    (push : Push) (hpush : push ∈ s.pushes) (hn : n ∈ config.members) (hne : n ≠ push.leader)
    (e : ClusterEvent) :
    ∃ ops t p ms, Effect config s e n ops t p ms ∧
      Moved s (s.deliver index n env push) n ops t p ms := by
  have hvalid := h.pushes push hpush
  by_cases hread : push.Readable
  · rcases deliver_follow h index n env push hpush hread with ⟨ops, ms, hmoved, hpre, _, hops⟩
    exact ⟨ops, _, _, ms, .deliver push hpush hn hne ops hops _ _ ms
      (fun _ => ⟨rfl, rfl, hpre⟩), hmoved⟩
  · rcases receiveAppend_cases (s.nodes n) env push.request push.call config.token 1 hvalid.built
      (h.configured n) (h.token n) with ⟨hsame, _⟩ |
      ⟨header, partition, messages, hterm, hleader, heq⟩
    · refine ⟨[], [], 0, [], .quiet _ _, .of_set ?_ rfl⟩
      rw [hsame]
      exact .quiet _ _ rfl rfl rfl rfl
    · rcases applyAppend_step (s.nodes n) env (wireRequest push.call.topic 1
        (appendPayload push.call)) header partition messages with ⟨ops, ms, hstep, _, _, hops⟩
      refine ⟨ops, push.call.topic, partition, ms, .deliver push hpush hn hne ops ?_ _ _ ms
        (fun hyes => absurd hyes hread), .of_set ?_ rfl⟩
      · intro op hop
        rcases hops op hop with hobserve | hrecord
        · rw [hobserve, hterm, hleader, hvalid.leader.2]
          exact Or.inl ⟨_, _, _, _, rfl⟩
        · exact Or.inr ⟨_, _, hrecord⟩
      · rw [heq]
        exact hstep

/-- An admitted request that is stored. If it goes on as a call, the call is
    for the message that was stored. -/
theorem store_moved (config : BrokersConfig) (index : Nat) (a : AdmittedProduce)
    (ha : s.admitted[index]? = some a) (rest : List AdmittedProduce) :
    ∃ ops ms, Effect config s (.store index) a.node ops a.request.topic a.partition ms ∧
      Moved s (BrokerCluster.store { s with admitted := rest } a) a.node ops a.request.topic
        a.partition ms ∧
      ((BrokerCluster.store { s with admitted := rest } a).calls = s.calls ∨
        ∃ m, ms = [m] ∧ (BrokerCluster.store { s with admitted := rest } a).calls
          = s.calls ++ [{
            node := a.node, request := a.request, partition := a.partition, message := m,
            waiting := (s.nodes a.node).replicationPeers }]) := by
  rcases storeProduce_step (s.nodes a.node) a.env a.request a.partition a.body with
    ⟨ops, ms, hstep, hsome, hms, hops⟩
  have heffect : Effect config s (.store index) a.node ops a.request.topic a.partition ms := by
    refine .store index rfl a ha rfl ops ?_ ms ?_
    · intro op hop
      rcases hops with rfl | ⟨offset, rfl⟩
      · exact absurd hop List.not_mem_nil
      · exact ⟨_, offset, List.mem_singleton.mp hop⟩
    · rcases hms with hnone | hone
      · exact Or.inl hnone
      · exact Or.inr ⟨_, hone⟩
  refine ⟨ops, ms, heffect, ?_⟩
  simp only [BrokerCluster.store]
  cases hstore : (s.nodes a.node).storeProduce a.env a.request a.partition a.body with
  | mk b outcome =>
      rw [hstore] at hstep hsome
      cases outcome with
      | none => exact ⟨.of_set hstep rfl, Or.inl rfl⟩
      | some m =>
          simp only
          split
          · -- Remembering the response does not touch what the step is about.
            rcases remember_frame b a.env a.request (produced a.request a.partition m) with
              ⟨cache, hcache⟩
            refine ⟨.of_set (b := b.remember a.env a.request (produced a.request a.partition m))
              ?_ rfl, Or.inl rfl⟩
            rw [hcache]
            exact ⟨hstep.settings, hstep.topics, hstep.coordinator, hstep.storage, hstep.numbered,
              hstep.storable⟩
          · split
            · exact ⟨.of_set hstep rfl, Or.inl rfl⟩
            · refine ⟨.of_set hstep rfl, Or.inr ⟨m, hsome m rfl, ?_⟩⟩
              have hpeers : b.replicationPeers = (s.nodes a.node).replicationPeers :=
                congrArg (fun x => x.2.1) hstep.settings
              simp only [hpeers]

/-- The end of a call: the coordinator of its node tries to commit. -/
theorem finishCall_moved (e : ClusterEvent) (index : Nat) (now : Int) (call : ReplicateCall)
    (hn : call.node ∈ config.members) :
    ∃ ops, Effect config s e call.node ops [] 0 [] ∧
      Moved s (s.finishCall index now call) call.node ops [] 0 [] := by
  simp only [BrokerCluster.finishCall]
  split
  · exact ⟨[], .quiet _ _, .still rfl _ _ _⟩
  · split
    · refine ⟨[], .quiet _ _, .still ?_ _ _ _⟩
      rfl
    · refine ⟨_, .commit [] 0 hn (partitionKey call.request.topic call.partition)
        call.message.offset now, ?_⟩
      split
      · refine Moved.of_set (b := { s.nodes call.node with
          coordinator := ((s.nodes call.node).coordinator.advanceCommit (partitionKey
            call.request.topic call.partition) call.message.offset now).1 }) ?_ rfl
        exact .quiet _ _ rfl rfl rfl rfl
      · rcases remember_frame { s.nodes call.node with
          coordinator := ((s.nodes call.node).coordinator.advanceCommit (partitionKey
            call.request.topic call.partition) call.message.offset now).1 } { doneNow := now }
          call.request (produced call.request call.partition call.message) with ⟨cache, hcache⟩
        rw [hcache]
        refine Moved.of_set (b := { s.nodes call.node with
          coordinator := ((s.nodes call.node).coordinator.advanceCommit (partitionKey
            call.request.topic call.partition) call.message.offset now).1
          idempotencyCache := cache }) ?_ rfl
        exact .quiet _ _ rfl rfl rfl rfl

/-- Creating a topic and restarting are the events that are not steps. -/
def ClusterEvent.isStep : ClusterEvent → Bool
  | .createTopic _ _ _ => false
  | .restart _ => false
  | _ => true

/-- Every other event is a step of one broker, for one of the reasons there
    are. -/
theorem exec_effect (h : Logged config s) (e : ClusterEvent) (he : e.isStep = true) :
    ∃ n ops t p ms, Effect config s e n ops t p ms ∧ Moved s (e.exec config s) n ops t p ms := by
  have hstill : ∀ s' : BrokerCluster, s'.nodes = s.nodes →
      ∃ n ops t p ms, Effect config s e n ops t p ms ∧ Moved s s' n ops t p ms :=
    fun s' hnodes => ⟨[], [], [], 0, [], .quiet _ _, .still hnodes _ _ _⟩
  cases e with
  | createTopic n name count => exact absurd he Bool.false_ne_true
  | restart n => exact absurd he Bool.false_ne_true
  | operate n op =>
      simp only [ClusterEvent.exec]
      split
      · rename_i hop
        exact ⟨n, _, [], 0, [], .operate [] 0 op rfl hop.1 hop.2, operate_moved n op _ _⟩
      · exact hstill s rfl
  | askVotes n t =>
      simp only [ClusterEvent.exec]
      split <;> exact hstill _ rfl
  | vote n index =>
      simp only [ClusterEvent.exec]
      split
      · exact hstill s rfl
      · rename_i q hq
        split
        · rename_i hn
          exact ⟨n, _, [], 0, [], .vote [] 0 index rfl q hn hq,
            operate_moved n _ _ _⟩
        · exact hstill s rfl
  | receive n env request rate quota =>
      simp only [ClusterEvent.exec]
      split
      · have hstep := admitProduce_step (s.nodes n) env request rate quota [] 0
        simp only [BrokerCluster.receive]
        split
        · exact hstill s rfl
        · cases hadmits : (s.nodes n).admitProduce env request rate quota with
          | mk b outcome =>
              rw [hadmits] at hstep
              cases outcome with
              | error response => exact ⟨n, [], [], 0, [], .quiet _ _, .of_set hstep rfl⟩
              | ok admitted => exact ⟨n, [], [], 0, [], .quiet _ _, .of_set hstep rfl⟩
      · exact hstill s rfl
  | store index =>
      simp only [ClusterEvent.exec]
      split
      · exact hstill s rfl
      · rename_i a ha
        rcases store_moved config index a ha (s.admitted.eraseIdx index) with
          ⟨ops, ms, heffect, hmoved, _⟩
        exact ⟨a.node, ops, _, _, ms, heffect, hmoved⟩
  | push index =>
      simp only [ClusterEvent.exec]
      split
      · exact hstill s rfl
      · simp only [BrokerCluster.pushNext]
        split
        · exact hstill _ (send_nodes _ _)
        · exact hstill s rfl
  | pushPending n topic partition start partitionOk =>
      simp only [ClusterEvent.exec]
      split
      · exact hstill _ (send_nodes _ _)
      · exact hstill s rfl
  | deliver index n env =>
      simp only [ClusterEvent.exec]
      split
      · exact hstill s rfl
      · rename_i push hpush
        split
        · rename_i hn
          exact ⟨n, deliver_moved h index n env push (List.mem_of_getElem? hpush) hn.1 hn.2 _⟩
        · exact hstill s rfl
  | answer index now =>
      simp only [ClusterEvent.exec]
      split
      · exact hstill s rfl
      · rename_i call hcall
        simp only [BrokerCluster.noteAnswer]
        split
        · exact hstill s rfl
        · rename_i peer push hpending
          split
          · exact hstill s rfl
          · have hn := (h.calls call (List.mem_of_getElem? hcall)).1
            have hmoved := operate_moved (s := s) call.node (.observeHeartbeat (partitionKey
              call.request.topic call.partition) peer call.message.offset now) [] 0
            exact ⟨call.node, _, [], 0, [], .answer [] 0 hn _ _ _ _,
              ⟨hmoved.step, hmoved.others⟩⟩
  | giveUp index =>
      simp only [ClusterEvent.exec]
      split <;> exact hstill _ rfl
  | finish index now =>
      simp only [ClusterEvent.exec]
      split
      · exact hstill s rfl
      · rename_i call hcall
        rcases finishCall_moved (.finish index now) index now call
          (h.calls call (List.mem_of_getElem? hcall)).1 with ⟨ops, heffect, hmoved⟩
        exact ⟨call.node, ops, [], 0, [], heffect, hmoved⟩
  | fetch n source topic partition start count partitionOk ios =>
      simp only [ClusterEvent.exec]
      split
      · rename_i hn
        rcases fetch_step (s.nodes n) ios topic partition
          (((s.nodes source).pendingMessages partitionOk topic partition start).take count) with
          ⟨ms, hstep, hpre⟩
        exact ⟨n, [], topic, partition, ms, .fetch source hn.1 hn.2 topic partition partitionOk
          start ms (hpre.trans (List.take_prefix _ _)), .of_set hstep rfl⟩
      · exact hstill s rfl

end Effects

end MqBroker
