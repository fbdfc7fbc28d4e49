import MqBroker.Client.Call
import MqBroker.Server.Access
import MqBroker.Server.Assignments
import MqBroker.Server.Offsets

/-!
# What a Consumer Can Tell

Whether a client that may only read some topics learns anything of the others.

The broker checks the topic of a request against the list of the client, and the
handlers of consumers look only at that topic, with two exceptions. The handler
of `JOIN_GROUP` finds topics in the payload, which nobody checks, and then
`SYNC_GROUP` tells how many partitions they have. And all committed offsets are
in one list that can be full.

Two brokers that differ only in topics that are not on the list are compared.
They answer every request alike as long as no member of a group that is asked for
has subscribed to a topic with another number of partitions, and the offsets can
be saved in both or in neither.

## Main definitions

* `Server.ConsumeOnly`: Clients may only read some topics.
* `Server.SameWithin`: Two brokers differ only in other topics.
* `Server.Discreet`: A request that does not show where they differ.

## Theorems

* `serve_within`: Such a request is answered alike, and the brokers still differ
  only there.
* `consume_whitelist_isolates`: So is every sequence of them.
-/

namespace MqBroker

open Server ConsumerGroupCoordinator

/-! ## Groups -/

section Groups

variable {c c' : ConsumerGroupCoordinator}

/-- The partitions of a group are those of the topics of its members. -/
theorem groupPartitions_subscribed {members : Table Bytes GroupMember}
    (h : ∀ topic, Subscribed members topic → c'.count topic = c.count topic) :
    c'.groupPartitions members = c.groupPartitions members := by
  rw [groupPartitions_eq, groupPartitions_eq, allPartitions, allPartitions]
  refine List.flatMap_congr fun topic htopic => ?_
  have hcount := h topic ((mem_subscribedTopics members topic).mp htopic)
  rw [count, count] at hcount
  rw [hcount]

/-- What a member is told depends on the members and on the partition counts of
    their topics. -/
theorem sync_alike (hc : c.Balanced) (hc' : c'.Balanced) (hmembers : c'.members = c.members)
    {group : Bytes}
    (hcount : ∀ members, c.members.lookup group = some members →
      ∀ topic, Subscribed members topic → c'.count topic = c.count topic) (id : Bytes) :
    c'.sync group id = c.sync group id := by
  cases hgroup : c.members.lookup group with
  | none =>
      have hgroup' := hgroup
      rw [← hmembers] at hgroup'
      simp only [sync, hgroup, hgroup']
  | some members =>
      have hgroup' := hgroup
      rw [← hmembers] at hgroup'
      rw [hc.sync_eq hgroup, hc'.sync_eq hgroup', hand, hand,
        groupPartitions_subscribed (hcount members hgroup)]

theorem join_alike (hmembers : c'.members = c.members) (group memberId : Bytes)
    (topics : List Bytes) (now : Int) :
    (c'.join group memberId topics now).1.members = (c.join group memberId topics now).1.members ∧
      (c'.join group memberId topics now).2 = (c.join group memberId topics now).2 := by
  simp only [ConsumerGroupCoordinator.join]
  split
  · exact ⟨hmembers, rfl⟩
  · rw [rebalance_members, rebalance_members, hmembers]
    exact ⟨rfl, rfl⟩

theorem heartbeat_alike (hmembers : c'.members = c.members) (group memberId : Bytes) (now : Int) :
    (c'.heartbeat group memberId now).1.members = (c.heartbeat group memberId now).1.members ∧
      (c'.heartbeat group memberId now).2 = (c.heartbeat group memberId now).2 := by
  simp only [ConsumerGroupCoordinator.heartbeat, hmembers]
  split
  · exact ⟨hmembers, rfl⟩
  · split
    · exact ⟨hmembers, rfl⟩
    · exact ⟨rfl, rfl⟩

theorem expire_alike (hmembers : c'.members = c.members) (memberTimeout now : Int) :
    (c'.expire memberTimeout now).1.members = (c.expire memberTimeout now).1.members := by
  have hgroup : ∀ (d d' : ConsumerGroupCoordinator) group, d'.members = d.members →
      (d'.expireGroup memberTimeout now group).1.members
        = (d.expireGroup memberTimeout now group).1.members := by
    intro d d' group hd
    simp only [ConsumerGroupCoordinator.expireGroup, hd]
    split
    · exact hd
    · rw [rebalance_members, rebalance_members]
  rw [ConsumerGroupCoordinator.expire, ConsumerGroupCoordinator.expire, hmembers]
  -- The names of the late members do not matter.
  generalize hstart : (c, ([] : List Bytes)) = p
  generalize hstart' : (c', ([] : List Bytes)) = p'
  have hp : p'.1.members = p.1.members := by
    rw [← hstart, ← hstart']
    exact hmembers
  clear hstart hstart'
  induction c.members.keys generalizing p p' with
  | nil => exact hp
  | cons group groups ih => exact ih _ _ (hgroup p.1 p'.1 group hp)

end Groups

/-! ## Brokers that differ in some topics -/

/-- Clients need a token, and may only read the topics on a list. -/
structure Server.ConsumeOnly (s : Server) (topics : List Bytes) : Prop where
  token : s.clientAuthToken ≠ []
  admin : s.clientAuthorization.allowAdmin = false
  produce : s.clientAuthorization.allowProduce = false
  consume : s.clientAuthorization.allowConsume = true
  list : s.clientAuthorization.consumeTopics = topics
  nonempty : topics ≠ []

/-- Two brokers have the same settings and groups with the same members, and the
    topics on a list are the same: whether they are there, with how many
    partitions, and their messages and committed offsets. -/
structure Server.SameWithin (topics : List Bytes) (s s' : Server) : Prop where
  opened : s'.opened = s.opened
  token : s'.clientAuthToken = s.clientAuthToken
  authorization : s'.clientAuthorization = s.clientAuthorization
  found : ∀ t ∈ topics, s'.broker.topics.lookup t = s.broker.topics.lookup t
  messages : ∀ t ∈ topics, ∀ n, s'.broker.storage.partition t n = s.broker.storage.partition t n
  offsets : ∀ t ∈ topics, ∀ group n, s'.committed group t n = s.committed group t n
  members : s'.groups.members = s.groups.members
  counts : ∀ t ∈ topics, s'.groups.partitions.lookup t = s.groups.partitions.lookup t

/-- The members of a group have only subscribed to topics that have as many
    partitions in one broker as in the other. -/
def Server.SharesAlike (s s' : Server) (group : Bytes) : Prop :=
  ∀ members, s.groups.members.lookup group = some members →
    ∀ topic, Subscribed members topic → s'.groups.count topic = s.groups.count topic

/-- A request that does not show where two brokers differ: the group it asks for
    has no topics with different partition counts, and the list of offsets it
    commits to can be saved in both or in neither. -/
def Server.Discreet (s s' : Server) (request : Request) : Prop :=
  match request.command with
  | .syncGroup => ∀ group id, (readSyncGroup request.payload).result = .ok (group, id) →
      s.SharesAlike s' group
  | .commitOffset => ∀ group partition offset,
      (s.broker.readCommitOffset request.topic request.payload).result
        = .ok (group, partition, offset) →
      offsetsSavable (setOffset group request.topic partition offset s'.consumerOffsets)
        = offsetsSavable (setOffset group request.topic partition offset s.consumerOffsets)
  | _ => True

/-! ## Handlers of consumers -/

/-- The commands of consumers. -/
def consumerCommands : List Command :=
  [.fetch, .commitOffset, .joinGroup, .syncGroup, .offsetFetch, .heartbeat]

/-- What a broker makes of the topic of a request that consumers may send: it is
    on the list, or there is no such topic. -/
structure Server.NamesWithin (topics : List Bytes) (s s' : Server) (topic : Bytes) : Prop where
  same : s'.broker.topics.lookup topic = s.broker.topics.lookup topic
  listed : ∀ count, s.broker.topics.lookup topic = some count → topic ∈ topics

section Handlers

variable {s s' : Server} {topics : List Bytes} {request : Request}

theorem Server.SameWithin.names (h : s.SameWithin topics s') (hs : s.broker.Sound)
    (hs' : s'.broker.Sound) {topic : Bytes} (htopic : topic = [] ∨ topic ∈ topics) :
    s.NamesWithin topics s' topic := by
  rcases htopic with rfl | htopic
  · -- There is no topic without a name.
    have hnone : ∀ d : Server, d.broker.Sound → d.broker.topics.lookup [] = none := by
      intro d hd
      refine Option.eq_none_iff_forall_ne_some.mpr fun count hcount => ?_
      exact absurd (hd.topics _ _ hcount).1 (by decide)
    refine ⟨(hnone s' hs').trans (hnone s hs).symm, fun count hcount => ?_⟩
    rw [hnone s hs] at hcount
    cases hcount
  · exact ⟨h.found topic htopic, fun _ _ => htopic⟩

theorem resolvePartition_congr {b b' : Broker} {topic : Bytes}
    (h : b'.topics.lookup topic = b.topics.lookup topic) (requested : UInt32) (key : Bytes) :
    b'.resolvePartition topic requested key = b.resolvePartition topic requested key := by
  rw [Broker.resolvePartition, Broker.resolvePartition, h]

theorem resolvePartition_found {b : Broker} {topic key : Bytes} {requested partition : UInt32}
    (h : b.resolvePartition topic requested key = .ok partition) :
    ∃ count, b.topics.lookup topic = some count := by
  rw [Broker.resolvePartition] at h
  cases hcount : b.topics.lookup topic with
  | none =>
      rw [hcount] at h
      cases h
  | some count => exact ⟨count, rfl⟩

theorem handleFetch_within (h : s.SameWithin topics s')
    (hnames : s.NamesWithin topics s' request.topic) (partitionOk : Bool) :
    s'.handleFetch partitionOk request = s.handleFetch partitionOk request := by
  simp only [Server.handleFetch]
  cases (readFetch request.payload).result with
  | error status => rfl
  | ok call =>
      simp only [resolvePartition_congr hnames.same]
      cases hresolve : s.broker.resolvePartition request.topic call.partition [] with
      | error e => cases e <;> rfl
      | ok partition =>
          rcases resolvePartition_found hresolve with ⟨count, hcount⟩
          have htopic := hnames.listed count hcount
          have hstart : s'.fetchStart call request.topic partition
              = s.fetchStart call request.topic partition := by
            rw [Server.fetchStart, Server.fetchStart, h.offsets _ htopic]
          simp only [StorageEngine.read, h.messages _ htopic, hstart]

theorem handleOffsetFetch_within (h : s.SameWithin topics s')
    (hnames : s.NamesWithin topics s' request.topic) :
    s'.handleOffsetFetch request = s.handleOffsetFetch request := by
  simp only [Server.handleOffsetFetch]
  cases (readOffsetFetch request.topic request.payload).result with
  | error status => rfl
  | ok call =>
      simp only [resolvePartition_congr hnames.same]
      cases hresolve : s.broker.resolvePartition request.topic call.2 [] with
      | error e => cases e <;> rfl
      | ok partition =>
          rcases resolvePartition_found hresolve with ⟨count, hcount⟩
          simp only [h.offsets _ (hnames.listed count hcount)]

theorem handleSyncGroup_within (h : s.SameWithin topics s') (hs : s.groups.Balanced)
    (hs' : s'.groups.Balanced)
    (hshares : ∀ group id, (readSyncGroup request.payload).result = .ok (group, id) →
      s.SharesAlike s' group) :
    s'.handleSyncGroup request = s.handleSyncGroup request := by
  simp only [Server.handleSyncGroup]
  cases hread : (readSyncGroup request.payload).result with
  | error status => rfl
  | ok call => simp only [sync_alike hs hs' h.members (hshares call.1 call.2 hread) call.2]

theorem readCommitOffset_congr {b b' : Broker} {topic : Bytes}
    (h : b'.topics.lookup topic = b.topics.lookup topic) (payload : Bytes) :
    b'.readCommitOffset topic payload = b.readCommitOffset topic payload := by
  have hstep : b'.resolveStep topic = b.resolveStep topic := by
    funext partition
    rw [Broker.resolveStep, Broker.resolveStep, resolvePartition_congr h]
  rw [Broker.readCommitOffset, Broker.readCommitOffset, hstep]

/-- Other groups and offsets, with the same settings, topics and messages. -/
theorem Server.SameWithin.update (h : s.SameWithin topics s') {t t' : Server}
    (hbroker : t.broker = s.broker) (hbroker' : t'.broker = s'.broker)
    (hsettings : t.opened = s.opened ∧ t.clientAuthToken = s.clientAuthToken ∧
      t.clientAuthorization = s.clientAuthorization)
    (hsettings' : t'.opened = s'.opened ∧ t'.clientAuthToken = s'.clientAuthToken ∧
      t'.clientAuthorization = s'.clientAuthorization)
    (hoffsets : ∀ u ∈ topics, ∀ group n, t'.committed group u n = t.committed group u n)
    (hmembers : t'.groups.members = t.groups.members)
    (hpartitions : t.groups.partitions = s.groups.partitions)
    (hpartitions' : t'.groups.partitions = s'.groups.partitions) : t.SameWithin topics t' where
  opened := hsettings'.1.trans (h.opened.trans hsettings.1.symm)
  token := hsettings'.2.1.trans (h.token.trans hsettings.2.1.symm)
  authorization := hsettings'.2.2.trans (h.authorization.trans hsettings.2.2.symm)
  found := by
    rw [hbroker, hbroker']
    exact h.found
  messages := by
    rw [hbroker, hbroker']
    exact h.messages
  offsets := hoffsets
  members := hmembers
  counts := by
    rw [hpartitions, hpartitions']
    exact h.counts

theorem handleCommitOffset_within (h : s.SameWithin topics s')
    (hnames : s.NamesWithin topics s' request.topic) (env : ServerEnv)
    (hsavable : ∀ group partition offset,
      (s.broker.readCommitOffset request.topic request.payload).result
        = .ok (group, partition, offset) →
      offsetsSavable (setOffset group request.topic partition offset s'.consumerOffsets)
        = offsetsSavable (setOffset group request.topic partition offset s.consumerOffsets)) :
    (s.handleCommitOffset env request).1.SameWithin topics (s'.handleCommitOffset env request).1 ∧
      (s'.handleCommitOffset env request).2 = (s.handleCommitOffset env request).2 := by
  simp only [Server.handleCommitOffset, readCommitOffset_congr hnames.same]
  cases hread : (s.broker.readCommitOffset request.topic request.payload).result with
  | error status => exact ⟨h, rfl⟩
  | ok call =>
      rcases call with ⟨group, partition, offset⟩
      -- An offset of a topic on the list is set in both.
      have hset : ∀ u ∈ topics, ∀ group' n,
          committedIn (setOffset group request.topic partition offset s'.consumerOffsets)
              (group', u, n)
            = committedIn (setOffset group request.topic partition offset s.consumerOffsets)
              (group', u, n) := by
        intro u hu group' n
        have hold := h.offsets u hu group' n
        rw [committed_eq, committed_eq] at hold
        rw [committedIn_setOffset, committedIn_setOffset, hold]
      simp only [hsavable group partition offset hread]
      split
      · refine ⟨h.update rfl rfl ⟨rfl, rfl, rfl⟩ ⟨rfl, rfl, rfl⟩ ?_ h.members rfl rfl, rfl⟩
        intro u hu group' n
        rw [committed_eq, committed_eq]
        exact hset u hu group' n
      · refine ⟨h.update rfl rfl ⟨rfl, rfl, rfl⟩ ⟨rfl, rfl, rfl⟩ ?_ h.members rfl rfl, rfl⟩
        intro u hu group' n
        rw [committed_eq, committed_eq]
        exact hset u hu group' n

theorem handleJoinGroup_within (h : s.SameWithin topics s') (env : ServerEnv)
    (hcommand : request.command = .joinGroup) :
    (s.dispatch env request).1.SameWithin topics (s'.dispatch env request).1 ∧
      (s'.dispatch env request).2 = (s.dispatch env request).2 := by
  simp only [Server.dispatch, hcommand, MqBroker.handleJoinGroup]
  cases (readJoinGroup request.payload).result with
  | error status => exact ⟨h, rfl⟩
  | ok call =>
      rcases join_alike h.members call.group call.member call.topics env.now with
        ⟨hmembers, hanswer⟩
      have hpartitions : ∀ c : ConsumerGroupCoordinator,
          (c.join call.group call.member call.topics env.now).1.partitions = c.partitions :=
        fun c => GroupOp.exec_partitions memberTimeout c
          (.join call.group call.member call.topics env.now)
      simp only [hanswer]
      split
      · exact ⟨h.update rfl rfl ⟨rfl, rfl, rfl⟩ ⟨rfl, rfl, rfl⟩ h.offsets hmembers
          (hpartitions _) (hpartitions _), rfl⟩
      · exact ⟨h.update rfl rfl ⟨rfl, rfl, rfl⟩ ⟨rfl, rfl, rfl⟩ h.offsets hmembers
          (hpartitions _) (hpartitions _), rfl⟩

theorem handleHeartbeat_within (h : s.SameWithin topics s') (env : ServerEnv)
    (hflag : request.hasFlag flagReplication = false) :
    (s.handleHeartbeat env request).1.SameWithin topics (s'.handleHeartbeat env request).1 ∧
      (s'.handleHeartbeat env request).2 = (s.handleHeartbeat env request).2 := by
  have hexpired := expire_alike h.members memberTimeout env.now
  have hpartitions : ∀ c : ConsumerGroupCoordinator,
      (c.expire memberTimeout env.now).1.partitions = c.partitions :=
    fun c => GroupOp.exec_partitions memberTimeout c (.expire env.now)
  have hlate : Server.SameWithin topics
      { s with groups := (s.groups.expire memberTimeout env.now).1 }
      { s' with groups := (s'.groups.expire memberTimeout env.now).1 } :=
    h.update rfl rfl ⟨rfl, rfl, rfl⟩ ⟨rfl, rfl, rfl⟩ h.offsets hexpired (hpartitions _)
      (hpartitions _)
  simp only [Server.handleHeartbeat, hflag, Bool.false_eq_true, if_false]
  cases (readGroupHeartbeat request.payload).result with
  | error status => exact ⟨hlate, rfl⟩
  | ok beat =>
      cases beat with
      | none => exact ⟨hlate, rfl⟩
      | some call =>
          rcases heartbeat_alike hexpired call.1 call.2 env.now with ⟨hmembers, hanswer⟩
          simp only [hanswer]
          split
          · have hbeat : ∀ c : ConsumerGroupCoordinator,
                (c.heartbeat call.1 call.2 env.now).1.partitions = c.partitions :=
              fun c => GroupOp.exec_partitions memberTimeout c (.heartbeat call.1 call.2 env.now)
            exact ⟨hlate.update rfl rfl ⟨rfl, rfl, rfl⟩ ⟨rfl, rfl, rfl⟩ h.offsets hmembers
              (hbeat _) (hbeat _), rfl⟩
          · exact ⟨hlate, rfl⟩

/-- A discreet request of a consumer is handled alike. -/
theorem dispatch_within (h : s.SameWithin topics s') (hs : s.Sound) (hs' : s'.Sound)
    (hcommand : request.command ∈ consumerCommands)
    (htopic : request.command ≠ .heartbeat → request.topic = [] ∨ request.topic ∈ topics)
    (hflag : request.hasFlag flagReplication = false) (hdiscreet : s.Discreet s' request)
    (env : ServerEnv) :
    (s.dispatch env request).1.SameWithin topics (s'.dispatch env request).1 ∧
      (s'.dispatch env request).2 = (s.dispatch env request).2 := by
  have hnames : request.command ≠ .heartbeat → s.NamesWithin topics s' request.topic :=
    fun hne => h.names hs.broker hs'.broker (htopic hne)
  simp only [consumerCommands, List.mem_cons, List.not_mem_nil, or_false] at hcommand
  rcases hcommand with hkind | hkind | hkind | hkind | hkind | hkind
  · simp only [Server.dispatch, hkind]
    exact ⟨h, handleFetch_within h (hnames (by rw [hkind]; decide)) env.partitionOk⟩
  · simp only [Server.Discreet, hkind] at hdiscreet
    simp only [Server.dispatch, hkind]
    exact handleCommitOffset_within h (hnames (by rw [hkind]; decide)) env hdiscreet
  · exact handleJoinGroup_within h env hkind
  · simp only [Server.Discreet, hkind] at hdiscreet
    simp only [Server.dispatch, hkind]
    exact ⟨h, handleSyncGroup_within h hs.groups.balanced hs'.groups.balanced hdiscreet⟩
  · simp only [Server.dispatch, hkind]
    exact ⟨h, handleOffsetFetch_within h (hnames (by rw [hkind]; decide))⟩
  · simp only [Server.dispatch, hkind]
    exact handleHeartbeat_within h env hflag

end Handlers

/-! ## Requests of clients -/

section Serving

variable {s s' : Server} {topics : List Bytes}

/-- What is accepted from a client does not depend on the broker. -/
theorem acceptRequest_congr (b b' : Broker) (token : Bytes) {request : Request}
    (hclient : request.isReplication = false) :
    b'.acceptRequest token request = b.acceptRequest token request := by
  have hnone : ∀ d : Broker, d.validateReplicationRequest request = none := by
    intro d
    refine Option.eq_none_iff_forall_ne_some.mpr fun normalized haccept => ?_
    have hkind := (validateReplicationRequest_carries haccept).1
    rw [hclient] at hkind
    cases hkind
  simp only [Broker.acceptRequest, hnone]

/-- It has not the flag of requests between brokers. -/
theorem acceptRequest_client_flag {b : Broker} {token : Bytes} (htoken : token ≠ [])
    {request normalized : Request} (hclient : request.isReplication = false)
    (h : b.acceptRequest token request = some normalized) :
    normalized.hasFlag flagReplication = false := by
  rcases acceptRequest_cases h with hbroker | ⟨_, haccept⟩
  · have hkind := (validateReplicationRequest_carries hbroker).1
    rw [hclient] at hkind
    cases hkind
  · rcases validateClientAuth_carries htoken haccept with ⟨_, _, rest, hrest⟩
    have hpayload : request.payload = clientPayload token rest := by
      rw [clientPayload_of_ne htoken, ← hrest, List.append_assoc]
    exact (validateClientAuth_payload hpayload haccept).2

/-- The same requests of clients get to a handler. -/
theorem Server.SameWithin.handles (h : s.SameWithin topics s') {r : RawRequest}
    (hclient : r.isReplication = false) (normalized : Request) :
    s'.Handles r normalized ↔ s.Handles r normalized := by
  have hadmits : ∀ command, Command.ofCode r.command = some command →
      (s'.Admits (r.request command) normalized ↔ s.Admits (r.request command) normalized) := by
    intro command hcommand
    rw [RawRequest.isReplication, hcommand] at hclient
    have haccept := acceptRequest_congr s.broker s'.broker s.clientAuthToken hclient
    have hallowed : s'.authorizeClientRequest normalized = s.authorizeClientRequest normalized := by
      simp only [Server.authorizeClientRequest, h.authorization]
    constructor
    · rintro ⟨hopened, haccepted, hallow⟩
      rw [h.opened] at hopened
      rw [h.token, haccept] at haccepted
      rw [h.token, hallowed] at hallow
      exact ⟨hopened, haccepted, hallow⟩
    · rintro ⟨hopened, haccepted, hallow⟩
      rw [← h.opened] at hopened
      rw [← haccept, ← h.token] at haccepted
      rw [← h.token, ← hallowed] at hallow
      exact ⟨hopened, haccepted, hallow⟩
  constructor
  · rintro ⟨command, hcommand, hadmit⟩
    exact ⟨command, hcommand, (hadmits command hcommand).mp hadmit⟩
  · rintro ⟨command, hcommand, hadmit⟩
    exact ⟨command, hcommand, (hadmits command hcommand).mpr hadmit⟩

/-- The others are refused alike. -/
theorem serve_refused_within (h : s.SameWithin topics s') {r : RawRequest}
    (hclient : r.isReplication = false) (hrefused : ∀ normalized, ¬ s.Handles r normalized)
    (env : ServerEnv) : (s'.serve env r).2 = (s.serve env r).2 := by
  simp only [Server.serve]
  cases hcommand : Command.ofCode r.command with
  | none => simp only [Server.handleUnknown, Server.refuse, h.opened, h.token, apply_ite Prod.snd]
  | some command =>
      rw [RawRequest.isReplication, hcommand] at hclient
      have haccept := acceptRequest_congr s.broker s'.broker s.clientAuthToken hclient
      have hadmits : ∀ normalized, ¬ s.Admits (r.request command) normalized :=
        fun normalized hadmit => hrefused normalized ⟨command, hcommand, hadmit⟩
      simp only [Server.handle, Server.refuse, h.opened, h.token, haccept]
      split
      · rfl
      · rename_i hopened
        cases hnormalized : s.broker.acceptRequest s.clientAuthToken (r.request command) with
        | none => rfl
        | some normalized =>
            have hdenied : ¬ ((r.request command).isReplication = true ∨ s.clientAuthToken = [] ∨
                s.authorizeClientRequest normalized = true) :=
              fun hallowed => hadmits normalized ⟨not_not.mp hopened, hnormalized, hallowed⟩
            rw [not_or, not_or] at hdenied
            have hdenied' : ¬ s'.authorizeClientRequest normalized = true := by
              simp only [Server.authorizeClientRequest, h.authorization]
              exact hdenied.2.2
            simp only
            rw [if_pos ⟨hdenied.1, hdenied.2.1, hdenied'⟩,
              if_pos ⟨hdenied.1, hdenied.2.1, hdenied.2.2⟩]

/-- With a token, the requests of clients that get to a handler are permitted. -/
theorem Server.Admits.authorized {request normalized : Request}
    (h : s.Admits request normalized) (htoken : s.clientAuthToken ≠ [])
    (hclient : request.isReplication = false) : s.authorizeClientRequest normalized = true := by
  rcases h.allowed with hkind | hnone | hallowed
  · rw [hclient] at hkind
    cases hkind
  · exact absurd hnone htoken
  · exact hallowed

/-- Clients that may only read some topics get to handlers of consumers only, with
    topics on the list. -/
theorem Server.ConsumeOnly.handles (h : s.ConsumeOnly topics) {r : RawRequest}
    (hclient : r.isReplication = false) {normalized : Request} (hhandles : s.Handles r normalized) :
    normalized.command ∈ consumerCommands ∧ normalized.hasFlag flagReplication = false ∧
      (normalized.command ≠ .heartbeat → normalized.topic = [] ∨ normalized.topic ∈ topics) := by
  rcases hhandles with ⟨command, hcommand, hadmits⟩
  rw [RawRequest.isReplication, hcommand] at hclient
  simp only at hclient
  have hflag := acceptRequest_client_flag h.token hclient hadmits.accepted
  have hallowed := hadmits.authorized h.token hclient
  have hlisted : normalized.topic.isEmpty = true ∨
      topicAllowed s.clientAuthorization.consumeTopics normalized.topic = true →
        normalized.topic = [] ∨ normalized.topic ∈ topics := by
    rintro (hempty | hallowed)
    · exact Or.inl (List.isEmpty_iff.mp hempty)
    · rw [h.list, topicAllowed, Bool.or_eq_true, List.isEmpty_iff] at hallowed
      exact Or.inr (List.contains_iff_mem.mp (hallowed.resolve_left h.nonempty))
  simp only [Server.authorizeClientRequest, h.admin, h.produce, h.consume] at hallowed
  refine ⟨?_, hflag, ?_⟩
  · cases hkind : normalized.command with
    | fetch | commitOffset | joinGroup | syncGroup | offsetFetch | heartbeat => decide
    | _ =>
        rw [hkind] at hallowed
        simp only [Bool.false_and, Bool.false_eq_true] at hallowed
  · intro hne
    cases hkind : normalized.command with
    | fetch | commitOffset | joinGroup | syncGroup | offsetFetch =>
        rw [hkind] at hallowed
        simp only [Bool.true_and, Bool.or_eq_true] at hallowed
        exact hlisted hallowed
    | heartbeat => exact absurd hkind hne
    | _ =>
        rw [hkind] at hallowed
        simp only [Bool.false_and, Bool.false_eq_true] at hallowed

/-- The counters are not part of what is compared. -/
theorem Server.SameWithin.counts_left (h : s.SameWithin topics s') {d : Server}
    (hd : s.Counts d) : d.SameWithin topics s' := by
  rcases hd with ⟨_, _, _, _, rfl⟩
  exact ⟨h.opened, h.token, h.authorization, h.found, h.messages, h.offsets, h.members, h.counts⟩

theorem Server.SameWithin.counts_right (h : s.SameWithin topics s') {d' : Server}
    (hd' : s'.Counts d') : s.SameWithin topics d' := by
  rcases hd' with ⟨_, _, _, _, rfl⟩
  exact ⟨h.opened, h.token, h.authorization, h.found, h.messages, h.offsets, h.members, h.counts⟩

theorem Server.Counts.discreet {d d' : Server} (hd : s.Counts d) (hd' : s'.Counts d')
    {request : Request} (h : s.Discreet s' request) : d.Discreet d' request := by
  rcases hd with ⟨_, _, _, _, rfl⟩
  rcases hd' with ⟨_, _, _, _, rfl⟩
  exact h

theorem Server.Counts.sound {d : Server} (hd : s.Counts d) (hs : s.Sound) : d.Sound := by
  rcases hd with ⟨_, _, _, _, rfl⟩
  exact ⟨hs.broker, hs.groups⟩

theorem Server.Counts.consumeOnly {d : Server} (hd : s.Counts d) (h : s.ConsumeOnly topics) :
    d.ConsumeOnly topics := by
  rcases hd with ⟨_, _, _, _, rfl⟩
  exact ⟨h.token, h.admin, h.produce, h.consume, h.list, h.nonempty⟩

/-- No handler changes the token or the permissions of clients. -/
theorem dispatch_settings (s : Server) (env : ServerEnv) (request : Request) :
    (s.dispatch env request).1.clientAuthToken = s.clientAuthToken ∧
      (s.dispatch env request).1.clientAuthorization = s.clientAuthorization := by
  cases hkind : request.command with
  | createTopic =>
      simp only [Server.dispatch, hkind, Server.handleCreateTopic]
      split <;> exact ⟨rfl, rfl⟩
  | deleteTopic =>
      simp only [Server.dispatch, hkind, Server.handleDeleteTopic]
      split
      · exact ⟨rfl, rfl⟩
      · split <;> exact ⟨rfl, rfl⟩
  | commitOffset =>
      simp only [Server.dispatch, hkind, Server.handleCommitOffset]
      split
      · exact ⟨rfl, rfl⟩
      · split <;> exact ⟨rfl, rfl⟩
  | heartbeat =>
      simp only [Server.dispatch, hkind, Server.handleHeartbeat]
      split
      · exact ⟨rfl, rfl⟩
      · split
        · exact ⟨rfl, rfl⟩
        · split <;> exact ⟨rfl, rfl⟩
        · exact ⟨rfl, rfl⟩
  | replicaVote =>
      simp only [Server.dispatch, hkind, Server.handleReplicaVote]
      split
      · exact ⟨rfl, rfl⟩
      · split <;> exact ⟨rfl, rfl⟩
  | _ => simp only [Server.dispatch, hkind, and_self]

theorem Server.ConsumeOnly.serve (h : s.ConsumeOnly topics) (env : ServerEnv) (r : RawRequest) :
    (s.serve env r).1.ConsumeOnly topics := by
  rcases serve_cases s env r with ⟨_, hcounts, _⟩ | ⟨normalized, d, _, hd, hcounts, _⟩
  · exact hcounts.consumeOnly h
  · refine hcounts.consumeOnly ?_
    have hd' := hd.consumeOnly h
    rcases dispatch_settings d env normalized with ⟨htoken, hauthorization⟩
    refine ⟨?_, ?_, ?_, ?_, ?_, hd'.nonempty⟩
    · rw [htoken]
      exact hd'.token
    · rw [hauthorization]
      exact hd'.admin
    · rw [hauthorization]
      exact hd'.produce
    · rw [hauthorization]
      exact hd'.consume
    · rw [hauthorization]
      exact hd'.list

end Serving

/-- A step of two brokers: a client sends a request to both, and it does not show
    where they differ if it gets to a handler. -/
def DiscreetStep (p : Server × Server) (step : ServerEnv × RawRequest) : Prop :=
  step.2.isReplication = false ∧
    ∀ normalized, p.1.Handles step.2 normalized → p.1.Discreet p.2 normalized

/-- What a broker does with a request, as a step. -/
def Server.act (s : Server) (step : ServerEnv × RawRequest) : Server × RawResponse :=
  s.serve step.1 step.2

/-- Both answer it alike, and then they still differ only in other topics. -/
theorem serve_within {s s' : Server} {topics : List Bytes} (h : s.SameWithin topics s')
    (hs : s.Sound) (hs' : s'.Sound) (honly : s.ConsumeOnly topics)
    {step : ServerEnv × RawRequest} (hstep : DiscreetStep (s, s') step) :
    (s.act step).1.SameWithin topics (s'.act step).1 ∧
      (s'.act step).2 = (s.act step).2 := by
  rcases step with ⟨env, r⟩
  rcases hstep with ⟨hclient, hdiscreet⟩
  simp only at hclient hdiscreet
  simp only [Server.act]
  rcases serve_cases s env r with
    ⟨hrefused, hcounts, _⟩ | ⟨normalized, d, hhandles, hd, hcounts, hanswer⟩
  · refine ⟨?_, serve_refused_within h hclient hrefused env⟩
    rcases serve_cases s' env r with ⟨_, hcounts', _⟩ | ⟨normalized, d', hhandles', _⟩
    · exact (h.counts_left hcounts).counts_right hcounts'
    · exact absurd ((h.handles hclient normalized).mp hhandles') (hrefused normalized)
  · rcases serve_handles ((h.handles hclient normalized).mpr hhandles) env with
      ⟨d', hd', hcounts', hanswer'⟩
    rcases honly.handles hclient hhandles with ⟨hcommand, hflag, htopic⟩
    rcases dispatch_within ((h.counts_left hd).counts_right hd') (hd.sound hs) (hd'.sound hs')
      hcommand htopic hflag (hd.discreet hd' (hdiscreet normalized hhandles)) env with
      ⟨hafter, hsame⟩
    refine ⟨(hafter.counts_left hcounts).counts_right hcounts', ?_⟩
    rw [hanswer, hanswer', hsame]

/-- In whatever state two brokers are that have the same settings, let their
    clients only read some topics, and differ only in other topics: a sequence of
    requests of clients is answered alike by both, if no request in it shows where
    they differ. -/
theorem consume_whitelist_isolates (config config' : ServerConfig)
    (events events' : List ServerEvent) {topics : List Bytes}
    (honly : ((Server.fresh config).run events).ConsumeOnly topics)
    (hsame : ((Server.fresh config).run events).SameWithin topics
      ((Server.fresh config').run events'))
    {requests : List (ServerEnv × RawRequest)}
    (hdiscreet : Along (stepBoth Server.act) DiscreetStep
      ((Server.fresh config).run events, (Server.fresh config').run events') requests) :
    outputs Server.act ((Server.fresh config').run events') requests
      = outputs Server.act ((Server.fresh config).run events) requests := by
  have hsound := run_sound config events
  have hsound' := run_sound config' events'
  refine outputs_eq_of_along
    (R := fun s s' => s.Sound ∧ s'.Sound ∧ s.ConsumeOnly topics ∧ s.SameWithin topics s')
    ?_ ⟨hsound, hsound', honly, hsame⟩ hdiscreet
  rintro s s' step ⟨hs, hs', honly, hsame⟩ hstep
  rcases serve_within hsame hs hs' honly hstep with ⟨hafter, hanswer⟩
  exact ⟨⟨hs.exec (.request step.1 step.2), hs'.exec (.request step.1 step.2),
    honly.serve step.1 step.2, hafter⟩, hanswer⟩

/-! ## Examples -/

/-- Clients with the token "c" may only read topic "a". -/
def consumerExample : ServerConfig where
  clientAuthToken := [99]
  clientAuthorization := { allowAdmin := false, allowProduce := false, consumeTopics := [[97]] }

/-- Topic "t" is created before the permissions are taken away. -/
def hiddenExample : List ServerEvent := [createExample true, .restart consumerExample (fun _ _ => 0)]

theorem hiddenExample_run :
    (Server.fresh {}).run hiddenExample
      = { Server.fresh consumerExample with
          broker :=
            { (Server.fresh consumerExample).broker with
              topics := (Server.fresh {}).broker.topics.insert [116] 1 }
          groups := ({} : ConsumerGroupCoordinator).setPartitions [116] 1
          topicsFile := [([116], 1)] } := by
  have hrun : (Server.fresh {}).run hiddenExample
      = ((createExample true).exec (Server.fresh {})).restart consumerExample (fun _ _ => 0) := rfl
  have hlist : ({ (Server.fresh {}).broker with
      topics := (Server.fresh {}).broker.topics.insert [116] 1 } : Broker).listTopics
        = [([116], 1)] :=
    List.mergeSort_singleton _
  have hreplace : replaceTopics [([116], 1)] ∅ = some ((∅ : Table Bytes UInt32).insert [116] 1) := by
    rw [replaceTopics, if_neg (by decide)]
    rfl
  rw [hrun, createExample_exec]
  simp only [Server.restart]
  rw [if_neg (by decide), hreplace]
  simp only [Server.start]
  congr 1
  -- Only the list of topics has to be sorted.
  exact congrArg (fun list : List (Bytes × UInt32) =>
    list.foldl (fun groups topic => groups.setPartitions topic.1 topic.2)
      ({} : ConsumerGroupCoordinator)) hlist

theorem fresh_groups (config : ServerConfig) : (Server.fresh config).groups = {} := by
  have hlist : ∀ b : Broker, b.topics = ∅ → b.listTopics = [] := by
    intro b hb
    rw [Broker.listTopics, hb]
    exact List.mergeSort_nil
  simp only [Server.fresh, Server.start]
  rw [hlist _ rfl, List.foldl_nil]

/-- The two brokers differ only in topic "t". -/
theorem hiddenExample_within :
    ((Server.fresh {}).run hiddenExample).ConsumeOnly [[97]] ∧
      ((Server.fresh {}).run hiddenExample).SameWithin [[97]] (Server.fresh consumerExample) := by
  rw [hiddenExample_run]
  refine ⟨⟨List.cons_ne_nil _ _, rfl, rfl, rfl, rfl, List.cons_ne_nil _ _⟩, ?_⟩
  refine ⟨rfl, rfl, rfl, fun t ht => ?_, fun _ _ _ => rfl, fun _ _ _ _ => rfl, ?_, fun t ht => ?_⟩
  · rw [List.mem_singleton.mp ht]
    rfl
  · rw [fresh_groups]
    rfl
  · rw [List.mem_singleton.mp ht, fresh_groups, setPartitions_partitions]
    rfl

/-- A request of the client. -/
def consumerRequest (command : UInt8) (topic payload : Bytes) : ServerEnv × RawRequest :=
  ({}, { command := command
         flags := flagAuthentication
         topic := topic
         payload := put16 1 ++ (99 :: payload) })

/-- What a group has of topic "a" cannot be used to find out about topic "t". -/
theorem consume_whitelist_isolates_example :
    outputs Server.act (Server.fresh consumerExample)
        [consumerRequest 0x21 [97] (put16 1 ++ (103 :: put32 0))]
      = outputs Server.act ((Server.fresh {}).run hiddenExample)
        [consumerRequest 0x21 [97] (put16 1 ++ (103 :: put32 0))] := by
  refine consume_whitelist_isolates {} consumerExample hiddenExample [] hiddenExample_within.1
    hiddenExample_within.2 ⟨⟨rfl, fun normalized hhandles => ?_⟩, trivial⟩
  have hcommand : normalized.command = .offsetFetch :=
    Option.some.inj (hhandles.command.symm.trans rfl)
  simp only [Server.Discreet, hcommand]

/-- What `SYNC_GROUP` answers to a member. -/
theorem serve_sync {s : Server} (hs : s.Sound) {r : RawRequest} {normalized : Request}
    (hhandles : s.Handles r normalized) (hcommand : normalized.command = .syncGroup)
    {group id : Bytes} (hread : (readSyncGroup normalized.payload).result = .ok (group, id))
    {members : Table Bytes GroupMember} (hgroup : s.groups.members.lookup group = some members)
    (hid : id ∈ members) (env : ServerEnv) :
    (s.serve env r).2.payload
      = encodeEntries ((s.groups.hand members id).map (fun a => (a.topic, a.partition))) := by
  rcases serve_handles hhandles env with ⟨d, hd, _, hanswer⟩
  have hgroups : d.groups = s.groups := by
    rcases hd with ⟨_, _, _, _, rfl⟩
    rfl
  rw [hanswer]
  simp only [Server.dispatch, hcommand, Server.handleSyncGroup, hread, hgroups,
    hs.groups.balanced.sync_eq hgroup, hid, if_true]
  rfl

/-- The client joins group "g" for topic "t", which it may not read, and asks for
    its partitions. -/
def leakRequests : List (ServerEnv × RawRequest) :=
  [consumerRequest 0x24 [] joinExample,
    consumerRequest 0x20 [] (put16 1 ++ (103 :: (put16 2 ++ [0, 1])))]

/-- A broker after the client has joined. -/
def joinedExample (s : Server) : Server := (s.act (consumerRequest 0x24 [] joinExample)).1

/-- The request for the partitions is answered by what the member holds. -/
theorem leakRequests_answer {s : Server} (hs : s.Sound) (hopened : s.opened = true)
    (htoken : s.clientAuthToken = [99])
    (hallowed : s.clientAuthorization = consumerExample.clientAuthorization)
    {members : Table Bytes GroupMember} (hgroup : s.groups.members.lookup [103] = some members)
    (hid : [0, 1] ∈ members) :
    (s.act (consumerRequest 0x20 [] (put16 1 ++ (103 :: (put16 2 ++ [0, 1]))))).2.payload
      = encodeEntries ((s.groups.hand members [0, 1]).map (fun a => (a.topic, a.partition))) := by
  have haccept : s.broker.acceptRequest s.clientAuthToken
      { command := .syncGroup
        flags := flagAuthentication
        payload := put16 1 ++ (99 :: (put16 1 ++ (103 :: (put16 2 ++ [0, 1])))) }
        = some { command := .syncGroup
                 flags := 0
                 payload := put16 1 ++ (103 :: (put16 2 ++ [0, 1])) } := by
    rw [htoken]
    rfl
  refine serve_sync hs (r := (consumerRequest 0x20 [] (put16 1 ++ (103 :: (put16 2 ++ [0, 1])))).2)
    ⟨.syncGroup, rfl, hopened, haccept, Or.inr (Or.inr ?_)⟩ rfl (by decide) hgroup hid {}
  simp only [Server.authorizeClientRequest, hallowed]
  rfl

/-- The only member of a group holds all the partitions of the group. -/
theorem only_hand {c : ConsumerGroupCoordinator} {members : Table Bytes GroupMember} {id : Bytes}
    (hkeys : members.keys = [id]) {a : GroupAssignment} (ha : a ∈ c.groupPartitions members) :
    a ∈ c.hand members id := by
  rcases (c.hand_union members a).mpr ha with ⟨id', hid', ha'⟩
  rw [AList.mem_keys, hkeys, List.mem_singleton] at hid'
  rw [← hid']
  exact ha'

/-- Whether topic "t" is there can be told from the answer, with the right token and
    without permission to read it. -/
theorem consume_whitelist_leaks :
    ¬ ∀ (config config' : ServerConfig) (events events' : List ServerEvent)
        (topics : List Bytes) (requests : List (ServerEnv × RawRequest)),
      ((Server.fresh config).run events).ConsumeOnly topics →
      ((Server.fresh config).run events).SameWithin topics
        ((Server.fresh config').run events') →
      (∀ step ∈ requests, step.2.isReplication = false ∧
        ((Server.fresh config).run events).Authenticated step.2) →
      outputs Server.act ((Server.fresh config').run events') requests
        = outputs Server.act ((Server.fresh config).run events) requests := by
  intro h
  have hauth : ∀ step ∈ leakRequests, step.2.isReplication = false ∧
      ((Server.fresh {}).run hiddenExample).Authenticated step.2 := by
    rw [hiddenExample_run]
    intro step hstep
    rcases List.mem_cons.mp hstep with rfl | hstep
    · exact ⟨rfl, by decide +kernel⟩
    · rw [List.mem_singleton.mp hstep]
      exact ⟨rfl, by decide +kernel⟩
  have houtputs := h {} consumerExample hiddenExample [] [[97]] leakRequests
    hiddenExample_within.1 hiddenExample_within.2 hauth
  have hsecond : ((joinedExample (Server.fresh consumerExample)).act
        (consumerRequest 0x20 [] (put16 1 ++ (103 :: (put16 2 ++ [0, 1]))))).2
      = ((joinedExample ((Server.fresh {}).run hiddenExample)).act
        (consumerRequest 0x20 [] (put16 1 ++ (103 :: (put16 2 ++ [0, 1]))))).2 :=
    (List.cons.inj (List.cons.inj houtputs).2).1
  have hsound : (joinedExample ((Server.fresh {}).run hiddenExample)).Sound :=
    (run_sound {} hiddenExample).exec (.request {} (consumerRequest 0x24 [] joinExample).2)
  have hsound' : (joinedExample (Server.fresh consumerExample)).Sound :=
    (run_sound consumerExample []).exec (.request {} (consumerRequest 0x24 [] joinExample).2)
  -- Where the topic is not, the member has nothing.
  rcases Option.map_eq_some_iff.mp (show ((joinedExample (Server.fresh
    consumerExample)).groups.members.lookup [103]).map AList.keys = some [[0, 1]] by
      decide +kernel) with ⟨members', hgroup', hkeys'⟩
  have hnone : (joinedExample (Server.fresh consumerExample)).groups.hand members' [0, 1] = [] := by
    refine List.eq_nil_iff_forall_not_mem.mpr fun a ha => ?_
    rcases mem_hand ha with ⟨count, hcount, _⟩
    have htable : (joinedExample (Server.fresh consumerExample)).groups.partitions.keys = [] := by
      decide +kernel
    have hmem := AList.mem_keys.mp (AList.lookup_isSome.mp (by rw [hcount]; rfl))
    rw [htable] at hmem
    exact absurd hmem List.not_mem_nil
  have hanswer' := leakRequests_answer hsound' (by decide +kernel) (by decide +kernel)
    (by decide +kernel) hgroup' (AList.mem_keys.mpr (by rw [hkeys']; exact List.mem_singleton_self _))
  rw [hnone] at hanswer'
  -- Where it is, the member has its partition.
  rcases Option.map_eq_some_iff.mp (show ((joinedExample ((Server.fresh {}).run
    hiddenExample)).groups.members.lookup [103]).map AList.keys = some [[0, 1]] by
      rw [hiddenExample_run]
      decide +kernel) with ⟨members, hgroup, hkeys⟩
  have hmember : (joinedExample ((Server.fresh {}).run hiddenExample)).groups.member [103] [0, 1]
      = some ⟨0, [[116]]⟩ := by
    rw [hiddenExample_run]
    decide +kernel
  rw [member, hgroup] at hmember
  have hcount : (joinedExample ((Server.fresh {}).run hiddenExample)).groups.count [116] = 1 := by
    rw [hiddenExample_run]
    decide +kernel
  have hheld : ⟨[116], 0⟩ ∈
      (joinedExample ((Server.fresh {}).run hiddenExample)).groups.hand members [0, 1] := by
    refine only_hand hkeys ((mem_groupPartitions _ members _).mpr
      ⟨⟨[0, 1], _, hmember, List.mem_singleton_self _⟩, ?_⟩)
    rw [hcount]
    decide
  have hanswer := leakRequests_answer hsound (by rw [hiddenExample_run]; decide +kernel)
    (by rw [hiddenExample_run]; decide +kernel) (by rw [hiddenExample_run]; decide +kernel) hgroup
    (AList.mem_keys.mpr (by rw [hkeys]; exact List.mem_singleton_self _))
  rw [← hsecond, hanswer'] at hanswer
  -- The second answer is longer.
  cases hlist : (joinedExample ((Server.fresh {}).run hiddenExample)).groups.hand members [0, 1] with
  | nil =>
      rw [hlist] at hheld
      exact absurd hheld List.not_mem_nil
  | cons first rest =>
      rw [hlist] at hanswer
      have hlength := congrArg List.length hanswer
      simp only [encodeEntries, encodeEntry, List.map_nil, List.flatMap_nil, List.map_cons,
        List.flatMap_cons, List.length_append, length_put32, length_put16, List.length_nil] at hlength
      omega

end MqBroker
