import MqBroker.Cluster.LogMatching

/-!
# The Next Push

A follower has exactly the messages that the leader has, and the leader stores
one more. Is the push of that message accepted?

The two sides do not speak of the same thing. The leader sends the largest term
over all its partitions, after it has recorded the new message, and that is its
current term (`lastLogTerm_recorded`). The follower compares it with the term in
which it has itself recorded its last message of the partition. The two agree
as long as the term does not change. The first push after an election is
refused by every follower, unless the message is one of the first two of its
partition, for which the check is skipped.

## Main definitions

* `Stamped`: No partition is stamped with a term to come.
* `Broker.UpToDate`: What the log check wants of a follower.
* `NextMessage`: A message that a follower with the same log is about to get.

## Theorems

* `Stamped.exec`: Operations stamp with the current term only.
* `lastLogTerm_recorded`: What a leader sends is its current term.
* `next_push_accepted_iff`: When the next push is accepted.
-/

namespace MqBroker

open ReplicationCoordinator

/-! ## Stamps -/

/-- The term in which the last message of a partition was recorded. -/
def ReplicationCoordinator.stamp (c : ReplicationCoordinator) (key : Bytes) : UInt64 :=
  (c.partitionStates.get key).lastLogTerm

/-- No partition is stamped with a term to come. -/
def Stamped (c : ReplicationCoordinator) : Prop := ∀ key, c.stamp key ≤ c.currentTerm

section Stamps

variable {c : ReplicationCoordinator}

/-- What stamps depend on. -/
theorem Stamped.of_eq {c' : ReplicationCoordinator} (h : Stamped c)
    (hstates : c'.partitionStates = c.partitionStates) (hterm : c.currentTerm ≤ c'.currentTerm) :
    Stamped c' := by
  intro key
  rw [stamp, hstates]
  exact (h key).trans hterm

theorem Stamped.persist (h : Stamped c) : Stamped c.persist := by
  unfold ReplicationCoordinator.persist
  split
  · exact h.of_eq rfl le_rfl
  · exact h

/-- An entry that is written back with its old stamp. -/
theorem Stamped.insert {c' : ReplicationCoordinator} (h : Stamped c) (p : Bytes)
    {state : PartitionState} (hstates : c'.partitionStates = c.partitionStates.insert p state)
    (hstate : state.lastLogTerm = c.stamp p) (hterm : c'.currentTerm = c.currentTerm) :
    Stamped c' := by
  intro key
  rw [stamp, hstates, hterm]
  by_cases hkey : key = p
  · rw [hkey, Table.get_insert_self, hstate]
    exact h p
  · rw [Table.get_insert_ne _ _ _ _ hkey]
    exact h key

theorem Stamped.adoptTerm (h : Stamped c) (t : UInt64) : Stamped (c.adoptTerm t) := by
  unfold ReplicationCoordinator.adoptTerm
  split
  · rename_i hgt
    refine Stamped.persist (h.of_eq rfl ?_)
    exact le_of_lt hgt
  · exact h

theorem Stamped.observeCommit (h : Stamped c) (p : Bytes) (off commit : UInt64) :
    Stamped (c.observeCommit p off commit) :=
  h.insert p rfl rfl rfl

theorem Stamped.observeLeader (h : Stamped c) (p l : Bytes) (t off : UInt64) (now : Int) :
    Stamped (c.observeLeader p t l off now) :=
  h.of_eq rfl le_rfl

theorem Stamped.observeAppend (h : Stamped c) (p l : Bytes) (t off commit : UInt64) (now : Int) :
    Stamped (c.observeAppend p t l off commit now).1 := by
  simp only [ReplicationCoordinator.observeAppend]
  split
  · exact h
  · have hadopted := h.adoptTerm t
    split
    · exact Stamped.persist (Stamped.observeCommit (hadopted.of_eq rfl le_rfl) p off commit)
    · refine Stamped.observeLeader (Stamped.persist (Stamped.observeCommit ?_ p off commit)) p l t
        off now
      exact hadopted.of_eq rfl le_rfl

/-- Operations stamp with the current term only. -/
theorem Stamped.exec (h : Stamped c) (op : Op)
    (hterm : op = .beginElection → c.currentTerm.toNat < 2 ^ 64 - 1) : Stamped (op.exec c) := by
  cases op with
  | setLeader id => exact Stamped.persist (h.of_eq rfl le_rfl)
  | registerReplica id =>
      simp only [Op.exec, ReplicationCoordinator.registerReplica]
      split <;> exact h.of_eq rfl le_rfl
  | removeReplica id => exact h.of_eq rfl le_rfl
  | observeHeartbeat p id off now =>
      simp only [Op.exec, ReplicationCoordinator.observeHeartbeat]
      split
      · exact h
      · split <;> exact h.of_eq rfl le_rfl
  | observeAppend p t l off commit now => exact h.observeAppend p l t off commit now
  | beginElection =>
      refine Stamped.persist (h.of_eq rfl ?_)
      exact le_of_lt (lt_add_one_of_toNat_lt _ (hterm rfl))
  | observePreVote t v g =>
      simp only [Op.exec, ReplicationCoordinator.observePreVote]
      split <;> exact h.of_eq rfl le_rfl
  | requestVote t cand idx lt =>
      simp only [Op.exec]
      by_cases hgranted : (c.requestVote t cand idx lt).2 = true
      · rw [(requestVote_granted hgranted).2.2.2]
        split
        · rename_i hgt
          refine Stamped.persist (h.of_eq rfl ?_)
          exact le_of_lt hgt
        · exact Stamped.persist (h.of_eq rfl le_rfl)
      · rw [requestVote_refused hgranted]
        exact h
  | observeVote t v g =>
      simp only [Op.exec, ReplicationCoordinator.observeVote]
      split
      · exact h
      · split
        · exact Stamped.persist (h.of_eq rfl le_rfl)
        · exact h.of_eq rfl le_rfl
  | observeHeartbeatRound r =>
      simp only [Op.exec, ReplicationCoordinator.observeHeartbeatRound]
      split
      · exact h
      · split
        · exact h.of_eq rfl le_rfl
        · split <;> exact h.of_eq rfl le_rfl
  | advanceCommit p off now =>
      simp only [Op.exec, ReplicationCoordinator.advanceCommit]
      split
      · exact h
      · split
        · exact h.insert p rfl rfl rfl
        · split
          · exact h.insert p rfl rfl rfl
          · exact Stamped.persist (h.insert p rfl rfl rfl)
  | fileSystem saves => exact h.of_eq rfl le_rfl
  | recordLocalOffset p off =>
      intro key
      by_cases hkey : key = p
      · rw [hkey]
        exact le_of_eq (congrArg PartitionState.lastLogTerm (Table.get_insert_self _ _ _))
      · refine le_trans (le_of_eq ?_) (h key)
        exact congrArg PartitionState.lastLogTerm (Table.get_insert_ne _ _ _ _ hkey)

theorem lastLogTerm_le (h : Stamped c) : c.lastLogTerm ≤ c.currentTerm := by
  refine Table.maxOf_le _ _ _ _ UInt64.zero_le ?_
  intro key state hstate
  have hall := h key
  simp only [stamp, Table.get, hstate, Option.getD_some] at hall
  exact hall

/-- What a leader sends as the term of its last entry, once it has recorded a
    message, is its current term. -/
theorem lastLogTerm_recorded (h : Stamped c) (p : Bytes) (off : UInt64) :
    (c.recordLocalOffset p off).lastLogTerm = c.currentTerm := by
  have hlookup : (c.recordLocalOffset p off).partitionStates.lookup p
      = some { c.partitionStates.get p with
          localOffset := max (c.partitionStates.get p).localOffset off
          lastLogTerm := c.currentTerm } := AList.lookup_insert _
  refine le_antisymm ?_ ?_
  · exact lastLogTerm_le (h.exec (.recordLocalOffset p off) (fun hop => by cases hop))
  · exact Table.le_maxOf PartitionState.lastLogTerm _ 0 p _ hlookup

end Stamps

/-- No node has a stamp of a term to come. -/
structure Recorded (config : BrokersConfig) (s : BrokerCluster) : Prop where
  logged : Logged config s
  stamped : ∀ n, Stamped (s.nodes n).coordinator

section Runs

variable {config : BrokersConfig} {s : BrokerCluster}

theorem Stamped.foldl {c : ReplicationCoordinator} (h : Stamped c) (ops : List Op)
    (hops : ∀ op ∈ ops, op ≠ .beginElection) : Stamped (ops.foldl Op.exec c) := by
  induction ops generalizing c with
  | nil => exact h
  | cons op rest ih =>
      refine ih (h.exec op (fun hop => absurd hop (hops op List.mem_cons_self))) ?_
      exact fun o ho => hops o (List.mem_cons_of_mem op ho)

/-- The operations an event brings to a node keep its stamps. -/
theorem Effect.stamped {e : ClusterEvent} {n : Bytes} {ops : List Op} {t : Bytes} {p : UInt32}
    {ms : List Message} (heffect : Effect config s e n ops t p ms)
    (h : Stamped (s.nodes n).coordinator) :
    Stamped (ops.foldl Op.exec (s.nodes n).coordinator) := by
  have hone : ∀ op : Op, op ≠ .beginElection →
      Stamped ([op].foldl Op.exec (s.nodes n).coordinator) := by
    intro op hop
    refine h.foldl [op] (fun o ho => ?_)
    rw [List.mem_singleton.mp ho]
    exact hop
  cases heffect with
  | quiet => exact h
  | operate _ _ op hevent hn hop =>
      rw [List.foldl_cons, List.foldl_nil]
      refine h.exec op ?_
      rintro rfl
      exact of_decide_eq_true hop
  | vote => exact hone _ (fun hop => by cases hop)
  | commit => exact hone _ (fun hop => by cases hop)
  | answer => exact hone _ (fun hop => by cases hop)
  | store index hevent a ha hnode ops hops ms hms =>
      refine h.foldl ops ?_
      rintro op hop rfl
      rcases hops _ hop with ⟨key, offset, heq⟩
      cases heq
  | deliver push hpush hn hne ops hops t p ms hms =>
      refine h.foldl ops ?_
      rintro op hop rfl
      rcases hops _ hop with ⟨key, offset, commit, now, heq⟩ | ⟨key, offset, heq⟩ <;> cases heq
  | fetch => exact h

/-- A broker that is started on its files has no stamps yet. -/
theorem configureReplication_stamped (b : Broker) (nodeId : Bytes) (peers : List ReplicationPeer)
    (quorum : Nat) (follower : Bool) (token : Bytes) (file : Option Bytes) :
    Stamped (b.configureReplication nodeId peers quorum follower token file).coordinator := by
  have hregister : ∀ (peers : List ReplicationPeer) (c : ReplicationCoordinator), Stamped c →
      Stamped (peers.foldl (fun c peer => c.registerReplica peer.nodeId) c) := by
    intro peers
    induction peers with
    | nil => exact fun c hc => hc
    | cons peer rest ih =>
        intro c hc
        exact ih _ (hc.exec (.registerReplica peer.nodeId) (fun hop => by cases hop))
  refine hregister peers _ ?_
  intro key
  exact UInt64.zero_le

theorem Recorded.exec (h : Recorded config s) (e : ClusterEvent) :
    Recorded config (e.exec config s) := by
  refine ⟨h.logged.exec e, ?_⟩
  by_cases hstep : e.isStep = true
  · rcases exec_effect h.logged e hstep with ⟨n, ops, t, p, ms, heffect, hmoved⟩
    intro m
    by_cases hm : m = n
    · rw [hm, hmoved.step.coordinator]
      exact heffect.stamped (h.stamped n)
    · rw [hmoved.others m hm]
      exact h.stamped m
  · intro m
    cases e with
    | createTopic n name count =>
        simp only [ClusterEvent.exec]
        split
        · by_cases hm : m = n
          · rw [hm, set_nodes_self]
            rcases createTopic_cases (s.nodes n) name count with heq | ⟨_, heq⟩ <;> rw [heq]
            · exact h.stamped n
            · exact h.stamped n
          · rw [set_nodes_ne s _ hm]
            exact h.stamped m
        · exact h.stamped m
    | restart n =>
        simp only [ClusterEvent.exec]
        split
        · by_cases hm : m = n
          · rw [hm, show (s.restart config n).nodes n = _ from set_nodes_self s n _]
            exact configureReplication_stamped _ _ _ _ _ _ _
          · rw [show (s.restart config n).nodes m = _ from set_nodes_ne s _ hm]
            exact h.stamped m
        · exact h.stamped m
    | _ => exact absurd rfl hstep

/-- Stamps and logs are in order after every run, whatever happens in it. -/
theorem recorded_run (config : BrokersConfig) (events : List ClusterEvent) :
    Recorded config ((bootBrokers config).run config events) := by
  induction events using List.reverseRecOn with
  | nil => exact ⟨logged_boot config, fun n => configureReplication_stamped _ _ _ _ _ _ _⟩
  | append_singleton events e ih =>
      rw [BrokerCluster.run, List.foldl_append]
      exact ih.exec e

end Runs

/-! ## Both sides -/

/-- A message that was stored has the next offset, and is recorded. -/
theorem storeProduce_some {b : Broker} {env : ProduceEnv} {request : Request} {partition : UInt32}
    {body : ProduceBody} {m : Message}
    (h : (b.storeProduce env request partition body).2 = some m) :
    isValidTopicName request.topic = true ∧ m.Storable ∧
      m.offset = (b.storage.partition request.topic partition).nextOffset ∧
      (b.storeProduce env request partition body).1.nodeId = b.nodeId ∧
      (b.storeProduce env request partition body).1.coordinator
        = b.coordinator.recordLocalOffset (partitionKey request.topic partition) m.offset := by
  have hvalid : ¬ (¬ isValidTopicName request.topic = true ∨
      ¬ ((b.storage.partition request.topic partition).nextMessage env.timestampMs body.key
        body.value).Storable) := by
    intro hinvalid
    simp only [Broker.storeProduce, StorageEngine.append, if_pos hinvalid, reduceCtorEq] at h
  rw [not_or, not_not, not_not] at hvalid
  rcases store_append_cases b.storage env.io env.timestampMs request.topic partition body.key
    body.value with ⟨_, hresult⟩ | ⟨_, err, hresult⟩
  · simp only [Broker.storeProduce, hresult] at h ⊢
    cases hsync : env.io.io.syncOk with
    | false => simp only [hsync, Bool.false_eq_true, if_false, reduceCtorEq] at h
    | true =>
        simp only [hsync, if_true] at h ⊢
        rw [← Option.some.inj h]
        exact ⟨hvalid.1, hvalid.2, rfl, trivial, rfl⟩
  · simp only [Broker.storeProduce, hresult, reduceCtorEq] at h

/-- What is wanted of a follower with certain messages of a partition, so that
    it takes the next one from a leader of a term: it knows the partition, and
    it has recorded its last message in that term. The first two messages of a
    partition are taken without a look at the record. -/
def Broker.UpToDate (b : Broker) (topic : Bytes) (partition : UInt32) (term : UInt64) : Prop :=
  let next := (b.storage.partition topic partition).nextOffset
  let key := partitionKey topic partition
  (∃ count ∈ b.topics.lookup topic, partition < count) ∧
    (next ≤ 1 ∨
      ((b.coordinator.partitionStates.get key).localOffset = next - 1 ∧
        b.coordinator.stamp key = term))

instance (b : Broker) (topic : Bytes) (partition : UInt32) (term : UInt64) :
    Decidable (b.UpToDate topic partition term) :=
  inferInstanceAs (Decidable ((∃ count ∈ b.topics.lookup topic, partition < count) ∧ _))

section Follower

variable {b : Broker} {topic : Bytes} {partition : UInt32} {m : Message}

/-- A message with the next offset is stored, if the file system plays along. -/
theorem appendReplica_fits (hvalid : isValidTopicName topic = true) (hstorable : m.Storable)
    (hopened : (b.storage.partition topic partition).segments ≠ [])
    (hoffset : m.offset = (b.storage.partition topic partition).nextOffset) :
    (b.storage.appendReplica {} topic partition m).2 = none := by
  simp only [StorageEngine.appendReplica, hvalid, hstorable, Partition.appendReplica, hoffset,
    not_true_eq_false, or_self, if_false, ne_eq]
  exact (appendRecord_ok _ _ _ hopened).2.2

/-- A call for one message that fits depends on the log check alone. -/
theorem applyAppend_single (now : Int) (request : Request) (header : AppendHeader)
    (htopic : request.topic = topic) (hflag : request.hasFlag flagReplicationTerm = true)
    (hvalid : isValidTopicName topic = true) (hstorable : m.Storable)
    (hopened : (b.storage.partition topic partition).segments ≠ [])
    (hoffset : m.offset = (b.storage.partition topic partition).nextOffset)
    (haccepts : b.coordinator.acceptsLeader header.term header.leaderId = true) :
    (b.applyAppend { now := now } request header partition [m]).2.status = .ok ↔
      b.coordinator.logMatches (partitionKey topic partition) header.prevLogIndex
        header.prevLogTerm = true := by
  subst htopic
  constructor
  · intro hok
    rcases applyAppend_cases b { now := now } request header partition [m] with
      ⟨_, hrefused⟩ | ⟨hpass, _⟩
    · exact absurd hok hrefused
    · exact hpass.matched hflag
  · intro hmatch
    have hobserved : (b.observedBy { now := now } request header partition [m]).2 = true := by
      simp only [Broker.observedBy, if_pos hflag, ReplicationCoordinator.observeAppend, haccepts,
        not_true_eq_false, if_false]
      split <;> rfl
    have hpass : b.PassesChecks { now := now } request header partition [m] := by
      refine ⟨fun _ => hmatch, ?_, rfl, hobserved⟩
      simp only [StorageEngine.nextOffset, hvalid, not_true_eq_false, or_self, if_false, ← hoffset]
      rfl
    have hstored := appendReplica_fits hvalid hstorable hopened hoffset
    rw [applyAppend_passed b _ request header partition [m] hpass]
    simp only [Broker.storeReplicas, appendReplicas]
    cases hresult : b.storage.appendReplica {} request.topic partition m with
    | mk e outcome =>
        rw [hresult] at hstored
        rw [show outcome = none from hstored]
        rfl

/-- The index before an offset is 0 for the first two offsets. -/
theorem prevIndex_eq_zero (offset : UInt64) : prevIndex offset = 0 ↔ offset ≤ 1 := by
  unfold prevIndex
  rw [UInt64.le_iff_toNat_le]
  split
  · rename_i hzero
    simp only [hzero, true_iff]
    decide
  · rename_i hne
    rw [← UInt64.toNat_inj, UInt64.toNat_sub]
    have hpos : offset.toNat ≠ 0 := fun h => hne (UInt64.toNat_inj.mp h)
    have hlt := offset.toNat_lt
    simp only [UInt64.toNat_one, UInt64.toNat_zero]
    omega

/-- The log check, for the message before an offset. -/
theorem logMatches_prevIndex (c : ReplicationCoordinator) (key : Bytes) (offset term : UInt64) :
    c.logMatches key (prevIndex offset) term = true ↔
      offset ≤ 1 ∨ ((c.partitionStates.get key).localOffset = offset - 1 ∧ c.stamp key = term) := by
  simp only [logMatches, stamp, decide_eq_true_eq, prevIndex_eq_zero]
  by_cases hle : offset ≤ 1
  · simp only [hle, true_or]
  · have hne : offset ≠ 0 := fun hzero => hle (hzero ▸ UInt64.zero_le)
    rw [prevIndex, if_neg hne]
    simp only [hle, false_or, eq_comm]

/-- What a follower does with a call for one message that fits. -/
theorem followCall_single (now : Int) (request : Request) (call : AppendCall)
    (hmessages : call.messages = [m]) (hauto : call.partition ≠ autoPartition)
    (htopic : request.topic = call.topic) (hflag : request.hasFlag flagReplicationTerm = true)
    (hvalid : isValidTopicName call.topic = true) (hstorable : m.Storable)
    (hopened : (b.storage.partition call.topic call.partition).segments ≠ [])
    (hoffset : m.offset = (b.storage.partition call.topic call.partition).nextOffset)
    (haccepts : b.coordinator.acceptsLeader call.term call.leaderId = true) :
    (b.followCall { now := now } request call).2.status = .ok ↔
      (∃ count ∈ b.topics.lookup call.topic, call.partition < count) ∧
        b.coordinator.logMatches (partitionKey call.topic call.partition) call.prevLogIndex
          call.prevLogTerm = true := by
  unfold Broker.followCall Broker.resolvePartition
  cases hlookup : b.topics.lookup call.topic with
  | none =>
      constructor
      · intro hok
        cases hok
      · rintro ⟨⟨count, hcount, _⟩, _⟩
        cases hcount
  | some count =>
      simp only [if_neg hauto]
      by_cases hrange : call.partition ≥ count
      · rw [if_pos hrange]
        constructor
        · intro hok
          cases hok
        · rintro ⟨⟨c, hc, hlt⟩, _⟩
          rw [← Option.some.inj hc] at hlt
          exact absurd hrange (UInt32.not_le.mpr hlt)
      · rw [if_neg hrange, hmessages]
        simp only
        rw [applyAppend_single now request call.header htopic hflag hvalid hstorable hopened hoffset
          haccepts]
        exact ⟨fun hmatch => ⟨⟨count, rfl, UInt32.not_le.mp hrange⟩, hmatch⟩, fun h => h.2⟩

end Follower

/-! ## The next push -/

/-- A node stores a message behind its log of a partition, and makes a request
    of it for a follower that has the same log. -/
structure NextMessage (config : BrokersConfig) (s : BrokerCluster) (a : AdmittedProduce)
    (m : Message) (f : Bytes) (request : Request) : Prop where
  stored : ((s.nodes a.node).storeProduce a.env a.request a.partition a.body).2 = some m
  /-- The follower knows the leader, and of no later term. -/
  registered : (s.nodes f).coordinator.isMember a.node = true
  term : (s.nodes f).coordinator.currentTerm ≤ (s.nodes a.node).coordinator.currentTerm
  wal : s.wal f a.request.topic a.partition = s.wal a.node a.request.topic a.partition
  sent : appendRequest config.token 1
    (((s.nodes a.node).storeProduce a.env a.request a.partition a.body).1.appendCall
      a.request.topic a.partition [m]) = some request

instance (config : BrokersConfig) (s : BrokerCluster) (a : AdmittedProduce) (m : Message)
    (f : Bytes) (request : Request) : Decidable (NextMessage config s a m f request) :=
  decidable_of_iff
    (((s.nodes a.node).storeProduce a.env a.request a.partition a.body).2 = some m ∧
      (s.nodes f).coordinator.isMember a.node = true ∧
      (s.nodes f).coordinator.currentTerm ≤ (s.nodes a.node).coordinator.currentTerm ∧
      s.wal f a.request.topic a.partition = s.wal a.node a.request.topic a.partition ∧
      appendRequest config.token 1
        (((s.nodes a.node).storeProduce a.env a.request a.partition a.body).1.appendCall
          a.request.topic a.partition [m]) = some request)
    ⟨fun ⟨hstored, hregistered, hterm, hwal, hsent⟩ => ⟨hstored, hregistered, hterm, hwal, hsent⟩,
      fun h => ⟨h.stored, h.registered, h.term, h.wal, h.sent⟩⟩

/-- Equal logs have equal next offsets, so that the message fits. -/
theorem NextMessage.fits {config : BrokersConfig} {s : BrokerCluster} {a : AdmittedProduce}
    {m : Message} {f : Bytes} {request : Request} (h : NextMessage config s a m f request)
    (hlogged : Logged config s) :
    m.offset = ((s.nodes f).storage.partition a.request.topic a.partition).nextOffset := by
  rw [(storeProduce_some h.stored).2.2.1, (hlogged.counted a.node a.request.topic a.partition).next,
    (hlogged.counted f a.request.topic a.partition).next]
  exact congrArg (fun l => UInt64.ofNat l.length) h.wal.symm

/-- When the next push is accepted. In any cluster and after any run, a node
    stores a message behind its log of a partition. A follower that has
    registered the node, is not ahead of its term and has the same log accepts
    the push of the message if, and only if, it knows the partition and either
    the message is one of the first two, or the follower has recorded the
    message before it in the leader's current term. -/
theorem next_push_accepted_iff (config : BrokersConfig) (events : List ClusterEvent)
    (a : AdmittedProduce) (ha : a ∈ ((bootBrokers config).run config events).admitted)
    (m : Message) (f : Bytes) (request : Request) (now : Int)
    (h : NextMessage config ((bootBrokers config).run config events) a m f request) :
    ((((bootBrokers config).run config events).nodes f).receiveAppend { now := now }
        request).2.status = .ok ↔
      (((bootBrokers config).run config events).nodes f).UpToDate a.request.topic a.partition
        (((bootBrokers config).run config events).nodes a.node).coordinator.currentTerm := by
  have hrecorded := recorded_run config events
  generalize (bootBrokers config).run config events = s at *
  have hlogged := hrecorded.logged
  have hfits := h.fits hlogged
  rcases storeProduce_some h.stored with ⟨hvalid, hstorable, hoffset, hnode, hcoordinator⟩
  have hleader : (((s.nodes a.node).storeProduce a.env a.request a.partition
      a.body).1.appendCall a.request.topic a.partition [m]).leaderId = a.node :=
    hnode.trans (hlogged.nodeId a.node)
  -- A leader without a name makes no request.
  have hnamed : a.node ≠ [] := by
    intro hempty
    have hsent := h.sent
    rw [appendRequest, if_pos (Or.inr (Or.inl (hleader.trans hempty)))] at hsent
    cases hsent
  rw [receiveAppend_request _ (s.nodes f) _ config.token 1 request h.sent (hlogged.configured f)
    (hlogged.token f) (Nat.le_of_ble_eq_true rfl)
    (fun x hx => by rw [List.mem_singleton.mp hx]; exact hstorable)]
  rw [followCall_single now _ _ rfl (hlogged.admitted a ha).2 rfl
    (wireRequest_flags _ _ _).2.1 hvalid hstorable
    (hlogged.counted f a.request.topic a.partition).opened hfits]
  · -- What is left is the log check, against the term that the leader sends.
    simp only [Broker.UpToDate, Broker.appendCall, hcoordinator,
      lastLogTerm_recorded (hrecorded.stamped a.node), ← hfits, ← logMatches_prevIndex]
    rfl
  · rw [hleader]
    refine decide_eq_true ⟨?_, hnamed, h.registered⟩
    simp only [Broker.appendCall, hcoordinator]
    exact h.term

/-- Two messages are stored by the first node, and by the others after it. -/
def twoCopied : List ClusterEvent :=
  started ++
    [.receive [65] {} (produceByte 42 2) true true, .store 0, .push 0, .deliver 0 [66] {},
      .answer 0 0, .push 0, .deliver 1 [67] {}, .answer 0 0, .finish 0 0,
      .receive [65] {} (produceByte 43 2) true true, .store 0, .push 0, .deliver 2 [66] {},
      .answer 0 0, .push 0, .deliver 3 [67] {}, .answer 0 0, .finish 0 0]

/-- A third message reaches the first node. -/
def sameTerm : List ClusterEvent :=
  twoCopied ++ [.receive [65] {} (produceByte 44 2) true true]

/-- It is accepted. -/
theorem next_push_accepted_third :
    ∃ a m request, m.offset = 2 ∧
      NextMessage threeBrokers ((bootBrokers threeBrokers).run threeBrokers sameTerm) a m [66]
        request ∧
      ((((bootBrokers threeBrokers).run threeBrokers sameTerm).nodes [66]).receiveAppend
        { now := 0 } request).2.status = .ok := by
  have hnext : ∃ a ∈ ((bootBrokers threeBrokers).run threeBrokers sameTerm).admitted,
      ∃ m ∈ ((((bootBrokers threeBrokers).run threeBrokers sameTerm).nodes a.node).storeProduce
          a.env a.request a.partition a.body).2,
        ∃ request ∈ appendRequest threeBrokers.token 1
            (((((bootBrokers threeBrokers).run threeBrokers sameTerm).nodes a.node).storeProduce
              a.env a.request a.partition a.body).1.appendCall a.request.topic a.partition [m]),
          m.offset = 2 ∧
            NextMessage threeBrokers ((bootBrokers threeBrokers).run threeBrokers sameTerm) a m
              [66] request ∧
            (((bootBrokers threeBrokers).run threeBrokers sameTerm).nodes [66]).UpToDate
              a.request.topic a.partition
              (((bootBrokers threeBrokers).run threeBrokers sameTerm).nodes
                a.node).coordinator.currentTerm := by
    decide +kernel
  rcases hnext with ⟨a, ha, m, _, request, _, hoffset, hmessage, hupToDate⟩
  exact ⟨a, m, request, hoffset, hmessage,
    (next_push_accepted_iff threeBrokers sameTerm a ha m [66] request 0 hmessage).mpr hupToDate⟩

/-- The third node is elected with the vote of the second, and the third
    message reaches it. -/
def nextTerm : List ClusterEvent :=
  twoCopied ++ thirdElected ++ [.receive [67] {} (produceByte 44 2) true true]

/-- After an election the next push is refused. Both nodes have stored the
    first two messages as they were pushed to them, and have the same log. -/
theorem next_push_refused :
    ((bootBrokers threeBrokers).run threeBrokers nextTerm).accepted
        = [(0, [66]), (1, [67]), (2, [66]), (3, [67])] ∧
      ((((bootBrokers threeBrokers).run threeBrokers nextTerm).nodes [67]).coordinator.role
        = .leader) ∧
      ∃ a ∈ ((bootBrokers threeBrokers).run threeBrokers nextTerm).admitted,
        ∃ m ∈ ((((bootBrokers threeBrokers).run threeBrokers nextTerm).nodes a.node).storeProduce
            a.env a.request a.partition a.body).2,
          ∃ request ∈ appendRequest threeBrokers.token 1
              (((((bootBrokers threeBrokers).run threeBrokers nextTerm).nodes a.node).storeProduce
                a.env a.request a.partition a.body).1.appendCall a.request.topic a.partition [m]),
            a.node = [67] ∧
              NextMessage threeBrokers ((bootBrokers threeBrokers).run threeBrokers nextTerm) a m
                [66] request ∧
              ((((bootBrokers threeBrokers).run threeBrokers nextTerm).nodes [66]).receiveAppend
                {} request).2.status = .invalidOffset := by
  decide +kernel

end MqBroker
