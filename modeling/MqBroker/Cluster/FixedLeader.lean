import MqBroker.Cluster.NextPush
import MqBroker.Cluster.ReplicaSet

/-!
# Followers of a Fixed Leader

While there is one leader and no election, every log of a follower is the
beginning of that log of the leader.

What makes it work is small. Whatever is on the wire for a partition are
messages of that log of the leader, and `AppendReplica` takes a message only at
its own offset. The exception is what `AppendCall.Misread` says: a push with
too many messages, so far into a log that its bytes are messages for another
one.

The exception takes `2 ^ 32` messages in one log, so the run that shows it is
not one to evaluate. What it does to the leader is said by `Taking`, value by
value.

## Main definitions

* `ReplicaSet.Kept`: What lasts through every run.
* `storedValues`: A run in which the leader stores some values.
* `misreadRun`: A run with a push that is misread.

## Theorems

* `ReplicaSet.Kept.exec`: Every event keeps what lasts.
* `logs_copied`: Every run.
* `ReplicaSet.Fed.foldl`: What a leader has after it has stored some values.
* `logs_not_copied`: A push that is misread.
-/

namespace MqBroker

open ReplicationCoordinator

/-! ## Every run -/

/-- What lasts through every run. -/
structure ReplicaSet.Kept (config : BrokersConfig) (s : ReplicaSet) : Prop where
  busy : ∀ n, (s.nodes n).Busy
  settings : ∀ n, (s.nodes n).broker.settings = (bootBroker config n).settings
  leading : (s.nodes config.first).Leading
  short : ∀ t p, (s.wal config.first t p).length < 2 ^ 64
  following : ∀ n ≠ config.first, (s.nodes n).Following n
  copying : ∀ n ≠ config.first, (s.nodes n).Copying (s.leader config)
  pushes : ∀ p ∈ s.pushes, p.From (s.leader config) config.first
  answers : ∀ a ∈ s.answers, a.From (s.leader config)

section Runs

variable {config : BrokersConfig} {s : ReplicaSet}

theorem ReplicaSet.Kept.copies (h : s.Kept config) : s.Copies config :=
  fun n hn => (h.copying n hn).copies

theorem ReplicaSet.Kept.configured (h : s.Kept config) (n : Bytes) :
    (s.nodes n).broker.replicationConfigured = true :=
  congrArg (fun x => x.2.2.2.1) (h.settings n)

/-- All nodes have one token. -/
theorem ReplicaSet.Kept.token (h : s.Kept config) (n : Bytes) :
    (s.nodes n).broker.replicationAuthToken = (s.leader config).replicationAuthToken := by
  rw [show (s.nodes n).broker.replicationAuthToken = _ from congrArg (fun x => x.2.2.1)
    (h.settings n), show (s.leader config).replicationAuthToken = _ from
    congrArg (fun x => x.2.2.1) (h.settings config.first)]
  rfl

theorem ReplicaSet.set_self (n : Bytes) (b : BusyBroker) : (s.set n b).nodes n = b := by
  simp only [ReplicaSet.set, Function.update_self]

theorem ReplicaSet.set_ne {m n : Bytes} (h : m ≠ n) (b : BusyBroker) :
    (s.set n b).nodes m = s.nodes m := by
  simp only [ReplicaSet.set, Function.update_of_ne h]

/-- Only the leader does something. -/
theorem ReplicaSet.Kept.lead (h : s.Kept config) {e : BrokerEvent} (he : e.own true = true)
    (hstore : ∀ index, e = .store index → ∀ job ∈ (s.nodes config.first).admitted[index]?,
      (s.wal config.first job.request.topic job.partition).length < 2 ^ 64 - 1) :
    (s.set config.first (e.exec (s.nodes config.first))).Kept config := by
  have hrestart : ∀ follower, e ≠ .restart follower := by
    rintro follower rfl
    cases he
  have hsettings := exec_settings (s := s.nodes config.first) e hrestart
  have hnode := ReplicaSet.set_self (s := s) config.first (e.exec (s.nodes config.first))
  have hlogs : ∀ t p, ((s.leader config).storage.partition t p).messages
      <+: (((s.set config.first (e.exec (s.nodes config.first))).leader config).storage.partition t
        p).messages := by
    rw [ReplicaSet.leader, ReplicaSet.leader, hnode]
    exact fun t p => own_grown he t p
  have htoken : ((s.set config.first (e.exec (s.nodes config.first))).leader
      config).replicationAuthToken = (s.leader config).replicationAuthToken := by
    rw [ReplicaSet.leader, hnode]
    exact congrArg (fun x => x.2.2.1) hsettings
  refine ⟨fun n => ?_, fun n => ?_, ?_, fun t p => ?_, fun n hn => ?_, fun n hn => ?_,
    fun p hp => (h.pushes p hp).mono htoken hlogs, fun a ha => (h.answers a ha).mono hlogs⟩
  · by_cases hn : n = config.first
    · rw [hn, hnode]
      exact exec_busy e (h.busy config.first)
    · rw [ReplicaSet.set_ne hn]
      exact h.busy n
  · by_cases hn : n = config.first
    · rw [hn, hnode]
      exact hsettings.trans (h.settings config.first)
    · rw [ReplicaSet.set_ne hn]
      exact h.settings n
  · rw [hnode]
    exact h.leading.exec he
  · rw [ReplicaSet.wal, hnode]
    exact own_short he h.short hstore t p
  · rw [ReplicaSet.set_ne hn]
    exact h.following n hn
  · rw [ReplicaSet.set_ne hn]
    exact (h.copying n hn).mono hlogs

/-- Only a follower does something. -/
theorem ReplicaSet.Kept.follow (h : s.Kept config) {n : Bytes} (hn : n ≠ config.first)
    {b : BusyBroker} (hbusy : b.Busy) (hsettings : b.broker.settings = (s.nodes n).broker.settings)
    (hfollowing : b.Following n) (hcopying : b.Copying (s.leader config)) :
    (s.set n b).Kept config := by
  have hfirst := ReplicaSet.set_ne (s := s) hn.symm b
  have hleader : (s.set n b).leader config = s.leader config := congrArg BusyBroker.broker hfirst
  refine ⟨fun m => ?_, fun m => ?_, ?_, fun t p => ?_, fun m hm => ?_, fun m hm => ?_, ?_, ?_⟩
  · by_cases hmn : m = n
    · rw [hmn, ReplicaSet.set_self]
      exact hbusy
    · rw [ReplicaSet.set_ne hmn]
      exact h.busy m
  · by_cases hmn : m = n
    · rw [hmn, ReplicaSet.set_self]
      exact hsettings.trans (h.settings n)
    · rw [ReplicaSet.set_ne hmn]
      exact h.settings m
  · rw [hfirst]
    exact h.leading
  · rw [ReplicaSet.wal, hfirst]
    exact h.short t p
  · by_cases hmn : m = n
    · rw [hmn, ReplicaSet.set_self]
      exact hfollowing
    · rw [ReplicaSet.set_ne hmn]
      exact h.following m hm
  · rw [hleader]
    by_cases hmn : m = n
    · rw [hmn, ReplicaSet.set_self]
      exact hcopying
    · rw [ReplicaSet.set_ne hmn]
      exact h.copying m hm
  · rw [hleader]
    exact h.pushes
  · rw [hleader]
    exact h.answers

/-- Something is put on the wire. -/
theorem ReplicaSet.Kept.send (h : s.Kept config) {topic : Bytes} {partition : UInt32}
    {messages : List Message} (hauto : partition ≠ autoPartition)
    (hmessages : ∀ m ∈ messages, m ∈ s.wal config.first topic partition)
    (hreadable : ¬ ((s.leader config).appendCall topic partition messages).Misread) :
    (s.send config ((s.leader config).appendCall topic partition messages)).Kept config := by
  have hnode : (s.leader config).nodeId = config.first :=
    congrArg (fun x => x.1) (h.settings config.first)
  unfold ReplicaSet.send
  split
  · exact h
  · rename_i request hbuilt
    refine ⟨h.busy, h.settings, h.leading, h.short, h.following, h.copying, fun p hp => ?_,
      h.answers⟩
    rcases List.mem_append.mp hp with hp | hp
    · exact h.pushes p hp
    · rw [List.mem_singleton.mp hp]
      have hfrom := appendCall_from hbuilt hauto
        (fun m hm => ⟨hmessages m hm, h.leading.storable _ _ m (hmessages m hm)⟩) hreadable
      rw [hnode] at hfrom
      exact hfrom

/-- A heartbeat of the leader gets to a follower. -/
theorem ReplicaSet.Kept.beat (h : s.Kept config) {n : Bytes} (hn : n ≠ config.first)
    {heartbeat : ReplicaHeartbeat} (hfirst : heartbeat.nodeId = config.first) (topic : Bytes)
    (now : Int) : (s.beat config n topic heartbeat now).Kept config := by
  have hfollowing := h.following n hn
  have hcopying := h.copying n hn
  simp only [ReplicaSet.beat]
  split
  · exact h
  · rename_i normalized hnormalized
    rcases Option.bind_eq_some_iff.mp hnormalized with ⟨request, hsent, hof⟩
    have hcoordinator : ∃ coordinator,
        ((s.nodes n).broker.handleReplicaHeartbeat now normalized).1
          = { (s.nodes n).broker with coordinator := coordinator } ∧
        coordinator.role ≠ .leader ∧ coordinator.nodeId = n := by
      rcases handle_sent hsent (h.configured n) (h.token n) now normalized hof with heq | heq
      · exact ⟨_, heq, hfollowing.role, hfollowing.nodeId⟩
      · refine ⟨_, heq, ?_, (Op.exec_nodeId _).trans hfollowing.nodeId⟩
        unfold ReplicaHeartbeat.op
        split
        · -- The report of another follower does not change the role.
          simp only [Op.exec, observeHeartbeat]
          split
          · exact hfollowing.role
          · split <;> exact hfollowing.role
        · refine observeAppend_follows hfollowing.role ?_ _ _ _ _ _
          rw [hfirst, hfollowing.nodeId]
          exact hn.symm
    rcases hcoordinator with ⟨coordinator, heq, hrole, hnode⟩
    rw [heq]
    exact h.follow hn ⟨(h.busy n).counted, (h.busy n).replicating⟩ rfl
      ⟨hrole, hnode, hfollowing.admitted, hfollowing.replicating⟩
      ⟨hcopying.copies, hcopying.writing⟩

/-- A follower begins to write what it has fetched. -/
theorem ReplicaSet.Kept.fetched (h : s.Kept config) {n : Bytes} (hn : n ≠ config.first)
    {a : FetchAnswer} (ha : a.From (s.leader config)) : (s.fetched n a).Kept config := by
  have hfollowing := h.following n hn
  have hcopying := h.copying n hn
  unfold ReplicaSet.fetched
  split
  · rename_i messages hok hparse
    have hfrom : WriteJob.From (s.leader config) ⟨a.topic, a.partition, messages, none⟩ :=
      Or.inl (ha hok messages hparse)
    simp only [BrokerEvent.exec]
    split
    · refine h.follow hn ⟨(h.busy n).counted, (h.busy n).replicating⟩ rfl
        ⟨hfollowing.role, hfollowing.nodeId, hfollowing.admitted, hfollowing.replicating⟩
        ⟨hcopying.copies, fun job hjob => ?_⟩
      rcases List.mem_append.mp hjob with hjob | hjob
      · exact hcopying.writing job hjob
      · rw [List.mem_singleton.mp hjob]
        exact hfrom
    · exact h.follow hn (h.busy n) rfl hfollowing hcopying
  · exact h

/-- Every event keeps what lasts. -/
theorem ReplicaSet.Kept.exec (h : s.Kept config) {e : ReplicaEvent}
    (he : e.Readable config s) : (e.exec config s).Kept config := by
  cases e with
  | act n e =>
      simp only [ReplicaEvent.exec]
      split
      · rename_i hown
        by_cases hn : n = config.first
        · subst hn
          rw [decide_eq_true rfl] at hown
          refine h.lead hown ?_
          rintro index rfl
          exact he
        · rw [decide_eq_false hn] at hown
          have hrestart : ∀ follower, e ≠ .restart follower := by
            rintro follower rfl
            cases hown
          have hfollowing := h.following n hn
          have hcopying := h.copying n hn
          refine h.follow hn (exec_busy e (h.busy n)) (exec_settings e hrestart) ?_ ?_
          · rcases hfollowing.own_cases hown with ⟨topics, heq⟩ | ⟨index, io, job, _, heq⟩
            · rw [heq]
              exact ⟨hfollowing.role, hfollowing.nodeId, hfollowing.admitted,
                hfollowing.replicating⟩
            · rw [heq]
              exact writeNext_following hfollowing index io job
          · rcases hfollowing.own_cases hown with ⟨topics, heq⟩ | ⟨index, io, job, hjob, heq⟩
            · rw [heq]
              exact ⟨hcopying.copies, hcopying.writing⟩
            · rw [heq]
              exact writeNext_copying hcopying (h.busy n).counted (h.busy config.first).counted
                h.short hjob io
      · exact h
  | pushOne index =>
      simp only [ReplicaEvent.exec]
      split
      · exact h
      · rename_i job hjob
        have hmem := List.mem_of_getElem? hjob
        refine h.send (h.leading.replicating job hmem) (fun m hm => ?_) (fun hmisread => ?_)
        · rw [List.mem_singleton.mp hm]
          exact (h.busy config.first).replicating job hmem
        · exact absurd hmisread.1 (show ¬ 10000 < 1 by omega)
  | pushPending topic partition start partitionOk =>
      simp only [ReplicaEvent.exec]
      split
      · rename_i hlt
        exact h.send (ne_auto_of_lt hlt) (pendingMessages_mem _ _ _ _ _) he
      · exact h
  | deliver index n env =>
      simp only [ReplicaEvent.exec]
      split
      · exact h
      · rename_i p hp
        split
        · rename_i hn
          have hpush := h.pushes p (List.mem_of_getElem? hp)
          rcases handle_push hpush hn (h.following n hn) (h.copying n hn) (h.configured n)
            (h.token n) env with ⟨hfollowing, hcopying⟩
          refine h.follow hn ?_ ?_ hfollowing hcopying
          · exact exec_busy (.deliver env p.request) (h.busy n)
          · exact exec_settings (.deliver env p.request) (fun _ hno => nomatch hno)
        · exact h
  | beat n topic heartbeat now =>
      simp only [ReplicaEvent.exec]
      split
      · rename_i hbeat
        rcases hbeat with ⟨hn, hfirst⟩
        exact h.beat hn hfirst topic now
      · exact h
  | ask n topic partition start maxBytes partitionOk =>
      simp only [ReplicaEvent.exec]
      split
      · rename_i hlt
        refine ⟨h.busy, h.settings, h.leading, h.short, h.following, h.copying, h.pushes,
          fun a ha => ?_⟩
        rcases List.mem_append.mp ha with ha | ha
        · exact h.answers a ha
        · rw [List.mem_singleton.mp ha]
          exact handleReplicaFetch_from rfl rfl (ne_auto_of_lt hlt) (h.leading.storable _ _)
      · exact h
  | fetched index n =>
      simp only [ReplicaEvent.exec]
      split
      · exact h
      · rename_i a ha
        split
        · rename_i hn
          exact h.fetched hn (h.answers a (List.mem_of_getElem? ha))
        · exact h

theorem ReplicaSet.kept_boot (config : BrokersConfig) : (ReplicaSet.boot config).Kept config := by
  have hempty : ∀ n t p, (ReplicaSet.boot config).wal n t p = [] := fun n t p => rfl
  refine ⟨fun n => ⟨fun t p => counted_fresh _, fun job hjob => absurd hjob List.not_mem_nil⟩,
    fun n => rfl, ⟨?_, ?_, ?_, ?_⟩, ?_, fun n hn => ?_, fun n hn => ⟨?_, ?_⟩, ?_, ?_⟩
  · intro t p m hm
    exact absurd hm List.not_mem_nil
  · intro t count hcount
    cases hcount
  · exact fun job hjob => absurd hjob List.not_mem_nil
  · exact fun job hjob => absurd hjob List.not_mem_nil
  · intro t p
    rw [hempty]
    exact Nat.two_pow_pos 64
  · rcases configureReplication_coordinator (Broker.fresh (config.storage n)) n (config.peers n)
      config.quorum (n ≠ config.first) config.token none with ⟨replicas, heq⟩
    have hcoordinator : ((ReplicaSet.boot config).nodes n).broker.coordinator = _ := heq
    refine ⟨?_, ?_, rfl, rfl⟩
    · rw [hcoordinator, decide_eq_true hn]
      exact (by decide : ReplicaRole.follower ≠ .leader)
    · rw [hcoordinator]
      rfl
  · intro t p
    exact List.nil_prefix
  · exact fun job hjob => absurd hjob List.not_mem_nil
  · exact fun p hp => absurd hp List.not_mem_nil
  · exact fun a ha => absurd ha List.not_mem_nil

end Runs

/-- In every run in which the loop of the leader sends nothing that is misread
    and no offset is used twice, every log of a follower is, at any moment, the
    beginning of that log of the leader. -/
theorem logs_copied (config : BrokersConfig) (events : List ReplicaEvent)
    (h : Along (ReplicaEvent.exec config) (fun s e => e.Readable config s) (.boot config) events) :
    Always (ReplicaEvent.exec config) (ReplicaSet.Copies config) (.boot config) events := by
  have hkept : Always (ReplicaEvent.exec config) (ReplicaSet.Kept config) (.boot config) events :=
    Always.of_along (fun s e hs he => hs.exec he) (ReplicaSet.kept_boot config) h
  exact hkept.mono fun s hs => hs.copies

/-- The leader stores two messages. -/
def twoStored : List ReplicaEvent :=
  [.act [76] (.createTopic [112] 1), .act [70] (.createTopic [112] 1),
    .act [76] (.operate (.observeHeartbeat (partitionKey [112] 0) [70] 0 0)),
    .act [76] (.receive {} messageRequest true true), .act [76] (.store 0),
    .act [76] (.receive {} messageRequest true true), .act [76] (.store 0)]

/-- They come to the follower on both channels at once, and its writes take
    turns. -/
def bothChannels : List ReplicaEvent :=
  twoStored ++ [.ask [70] [112] 0 0 1000 true, .pushPending [112] 0 0 true, .deliver 0 [70] {},
    .fetched 0 [70], .act [70] (.write 0 {}), .act [70] (.write 1 {}), .act [70] (.write 0 {})]

theorem logs_copied_twice :
    ((bothChannels.foldl (ReplicaEvent.exec leaderAndPeer) (.boot leaderAndPeer)).wal [70] [112]
      0).map Message.offset = [0, 1] ∧
    Always (ReplicaEvent.exec leaderAndPeer) (ReplicaSet.Copies leaderAndPeer)
      (.boot leaderAndPeer) bothChannels :=
  ⟨by decide +kernel, logs_copied leaderAndPeer bothChannels (by decide +kernel)⟩

/-! ## A push that is misread -/

/-- A produce request for the first partition of a topic. -/
def valueRequest (value : Bytes) : Request :=
  { command := .produce
    topic := [112]
    payload := put32 0 ++ (put16 0 ++ (put32 (UInt32.ofNat value.length) ++ value)) }

/-- The leader stores one value after the other. -/
def storedValues (values : List Bytes) : List ReplicaEvent :=
  values.flatMap fun value =>
    [.act [76] (.receive {} (valueRequest value) true true), .act [76] (.store 0)]

/-- Values as they are in a log, from an offset on. -/
def messagesFrom : Nat → List Bytes → List Message
  | _, [] => []
  | first, value :: values => ⟨UInt64.ofNat first, 0, [], value⟩ :: messagesFrom (first + 1) values

theorem messagesFrom_append (first : Nat) (front back : List Bytes) :
    messagesFrom first (front ++ back)
      = messagesFrom first front ++ messagesFrom (first + front.length) back := by
  induction front generalizing first with
  | nil => rfl
  | cons value front ih =>
      rw [List.cons_append, messagesFrom, ih, messagesFrom, List.cons_append, List.length_cons,
        show first + 1 + front.length = first + (front.length + 1) by omega]

@[simp] theorem length_messagesFrom (first : Nat) (values : List Bytes) :
    (messagesFrom first values).length = values.length := by
  induction values generalizing first with
  | nil => rfl
  | cons value values ih => rw [messagesFrom, List.length_cons, List.length_cons, ih]

theorem mem_messagesFrom {first : Nat} {values : List Bytes} {m : Message}
    (h : m ∈ messagesFrom first values) :
    ∃ i < values.length, m.offset = UInt64.ofNat (first + i) := by
  induction values generalizing first with
  | nil => exact absurd h List.not_mem_nil
  | cons value values ih =>
      rcases List.mem_cons.mp h with rfl | h
      · exact ⟨0, Nat.succ_pos _, rfl⟩
      · rcases ih h with ⟨i, hi, hoffset⟩
        refine ⟨i + 1, Nat.succ_lt_succ hi, ?_⟩
        rw [hoffset, show first + 1 + i = first + (i + 1) by omega]

/-- The bytes that values without keys take up. -/
theorem length_encoded_messagesFrom (first : Nat) (values : List Bytes) :
    ((messagesFrom first values).flatMap encodeBody).length
      = 22 * values.length + (values.map List.length).sum := by
  induction values generalizing first with
  | nil => rfl
  | cons value values ih =>
      rw [messagesFrom, List.flatMap_cons, List.length_append, ih, length_encodeBody, bodyFixedSize,
        List.length_cons, List.map_cons, List.sum_cons]
      simp only [List.length_nil]
      omega

theorem size_messagesFrom (first : Nat) (values : List Bytes) :
    ((messagesFrom first values).map fun m => m.key.length + m.value.length).sum
      = (values.map List.length).sum := by
  induction values generalizing first with
  | nil => rfl
  | cons value values ih =>
      rw [messagesFrom, List.map_cons, List.sum_cons, ih, List.map_cons, List.sum_cons,
        List.length_nil, Nat.zero_add]

/-- A leader in its first term that has stored some values in one of two
    partitions, and takes more. -/
structure BusyBroker.Taking (s : BusyBroker) (values : List Bytes) : Prop where
  settings : s.broker.settings = (bootBroker leaderAndPeer [76]).settings
  idle : s.admitted = []
  serving : s.broker.coordinator.role = .leader ∧ s.broker.coordinator.canServeWrites 0 = true
  unlimited : s.broker.topicProduceQuota = 0
  topic : s.broker.topics.lookup [112] = some 2
  counted : s.broker.storage.Counted
  stamped : Stamped s.broker.coordinator
  term : s.broker.coordinator.currentTerm = 0
  log : (s.broker.storage.partition [112] 0).messages = messagesFrom 0 values
  other : (s.broker.storage.partition [112] 1).messages = []

/-- One value more. -/
theorem BusyBroker.Taking.take {s : BusyBroker} {values : List Bytes} (h : s.Taking values)
    {value : Bytes} (hne : value ≠ []) (hsize : value.length ≤ maxMessageBytes) :
    (BrokerEvent.exec (BrokerEvent.exec s (.receive {} (valueRequest value) true true))
      (.store 0)).Taking (values ++ [value]) := by
  have hserving : s.broker.refusesWrites (valueRequest value) ({} : ProduceEnv).writesNow
      = false := by
    simp only [Broker.refusesWrites, h.serving.1, h.serving.2, bne_self_eq_false, Bool.not_true,
      Bool.or_self, Bool.and_false]
  have hparse : parseProduce (valueRequest value).payload 0 = some ⟨0, [], value⟩ := by
    refine parseProduce_encoded 0 [] value (Nat.two_pow_pos 16) ?_
    rw [maxMessageBytes] at hsize
    omega
  have hresolve : s.broker.resolvePartition (valueRequest value).topic 0 [] = .ok 0 := by
    rw [Broker.resolvePartition, show s.broker.topics.lookup (valueRequest value).topic = some 2
      from h.topic]
    rfl
  have hplain : (valueRequest value).hasFlag flagProducerMetadata = false := by
    rw [Request.hasFlag, show (valueRequest value).flags = 0 from rfl]
    decide
  have hadmits := admitProduce_plain s.broker true true hserving rfl hplain h.unlimited hparse hresolve
  have hreplica : (valueRequest value).hasFlag flagReplication = false := by
    rw [Request.hasFlag, show (valueRequest value).flags = 0 from rfl]
    decide
  have hreceived : BrokerEvent.exec s (.receive {} (valueRequest value) true true)
      = { s with admitted := [⟨{}, valueRequest value, 0, ⟨0, [], value⟩⟩] } := by
    simp only [BrokerEvent.exec, BusyBroker.receive, hreplica, hadmits, h.idle, List.nil_append,
      Bool.false_eq_true, if_false]
  have hlog := h.counted [112] 0
  have hstorable : ((s.broker.storage.partition [112] 0).nextMessage 0 [] value).Storable :=
    ⟨Nat.zero_le _, hne, hsize⟩
  rcases store_append_ok s.broker.storage 0 [112] (by decide) hstorable hlog.opened with
    ⟨hstored, hresult⟩
  have hmessage : (s.broker.storage.partition [112] 0).nextMessage 0 [] value
      = ⟨UInt64.ofNat values.length, 0, [], value⟩ := by
    rw [Partition.nextMessage, hlog.next, h.log, length_messagesFrom]
  rw [hmessage] at hstored hresult
  have hwaits : (valueRequest value).waitsForAll = false := by
    rw [Request.waitsForAll, show (valueRequest value).flags = 0 from rfl]
    decide
  have hdone : BrokerEvent.exec { s with
        admitted := [⟨{}, valueRequest value, 0, ⟨0, [], value⟩⟩] } (.store 0)
      = { s with
          admitted := []
          broker := { s.broker with
            storage := (s.broker.storage.append {} 0 [112] 0 [] value).1
            coordinator := s.broker.coordinator.recordLocalOffset (partitionKey [112] 0)
              (UInt64.ofNat values.length) } } := by
    simp only [BrokerEvent.exec, List.getElem?_cons_zero, BusyBroker.store, Broker.storeProduce,
      List.eraseIdx_cons_zero, hwaits, Broker.remember, hplain, Bool.false_eq_true, if_false,
      not_false_eq_true, if_true]
    rw [show (s.broker.storage.append {} 0 (valueRequest value).topic 0 [] value).2
      = .ok ⟨UInt64.ofNat values.length, 0, [], value⟩ from hresult]
    rfl
  rw [hreceived, hdone]
  refine ⟨h.settings, rfl, h.serving, h.unlimited, h.topic, ?_, ?_, h.term, ?_, ?_⟩
  · refine hstored.extended.counted h.counted ⟨?_, trivial⟩
    rw [hlog.next, h.log, length_messagesFrom]
  · exact h.stamped.exec (.recordLocalOffset _ _) (by rintro ⟨⟩)
  · rw [hstored.messages, h.log, messagesFrom_append, Nat.zero_add]
    rfl
  · rw [hstored.others [112] 1 (by decide)]
    exact h.other

/-- A leader that has stored some values, and a peer that has nothing of it. -/
structure ReplicaSet.Fed (s : ReplicaSet) (values : List Bytes) : Prop where
  leader : (s.nodes [76]).Taking values
  peer : s.nodes [70] = { broker := ((bootBroker leaderAndPeer [70]).createTopic [112] 2).1 }
  wire : s.pushes = []

/-- An event of the leader. -/
theorem exec_leader (s : ReplicaSet) {e : BrokerEvent} (he : e.own true = true) :
    ReplicaEvent.exec leaderAndPeer s (.act [76] e) = s.set [76] (e.exec (s.nodes [76])) := by
  rw [ReplicaEvent.exec, show decide ([76] = leaderAndPeer.first) = true from rfl, if_pos he]

/-- The leader stores values, and nothing else happens. -/
theorem ReplicaSet.Fed.foldl {s : ReplicaSet} {stored : List Bytes} (h : s.Fed stored)
    (values : List Bytes)
    (hvalues : ∀ value ∈ values, value ≠ [] ∧ value.length ≤ maxMessageBytes) :
    ((storedValues values).foldl (ReplicaEvent.exec leaderAndPeer) s).Fed (stored ++ values) := by
  induction values generalizing s stored with
  | nil =>
      rw [List.append_nil]
      exact h
  | cons value values ih =>
      rcases hvalues value List.mem_cons_self with ⟨hne, hsize⟩
      rw [storedValues, List.flatMap_cons, List.foldl_append, List.foldl_cons, List.foldl_cons,
        List.foldl_nil, exec_leader _ rfl, exec_leader _ rfl, ReplicaSet.set_self,
        show stored ++ value :: values = stored ++ [value] ++ values by
          rw [List.append_assoc, List.singleton_append]]
      refine ih ⟨?_, ?_, h.wire⟩ fun v hv => hvalues v (List.mem_cons_of_mem value hv)
      · rw [ReplicaSet.set_self]
        exact h.leader.take hne hsize
      · rw [ReplicaSet.set_ne (by decide), ReplicaSet.set_ne (by decide)]
        exact h.peer

/-- Both nodes create a topic with two partitions, and the leader hears of its
    peer. -/
def twoPartitions : List ReplicaEvent :=
  [.act [76] (.createTopic [112] 2), .act [70] (.createTopic [112] 2),
    .act [76] (.operate (.observeHeartbeat (partitionKey [112] 0) [70] 0 0))]

theorem fed_twoPartitions :
    (twoPartitions.foldl (ReplicaEvent.exec leaderAndPeer) (.boot leaderAndPeer)).Fed [] := by
  refine ⟨⟨rfl, rfl, ⟨by decide +kernel, by decide +kernel⟩, rfl, by decide +kernel, ?_, ?_,
    by decide +kernel, rfl, rfl⟩, ?_, rfl⟩
  · exact fun t p => counted_fresh _
  · exact fun key => le_refl (0 : UInt64)
  · rfl

/-- The loop reads all values from an offset on, if they are not too large. -/
theorem BusyBroker.Taking.pendingMessages {s : BusyBroker} {front back : List Bytes}
    (h : s.Taking (front ++ back)) (hshort : front.length + back.length < 2 ^ 64)
    (hroom : (back.map List.length).sum ≤ 1048576) :
    s.broker.pendingMessages true [112] 0 (UInt64.ofNat front.length)
      = messagesFrom front.length back := by
  have hlog := h.log
  rw [messagesFrom_append, Nat.zero_add] at hlog
  have hoffset : ∀ n, n ≤ front.length + back.length → (UInt64.ofNat n).toNat = n := by
    intro n hn
    rw [UInt64.toNat_ofNat', Nat.mod_eq_of_lt (by omega)]
  have hnext : ¬ UInt64.ofNat front.length > (s.broker.storage.partition [112] 0).nextOffset := by
    rw [(h.counted [112] 0).next, h.log, length_messagesFrom, List.length_append, gt_iff_lt,
      UInt64.lt_iff_toNat_lt, hoffset _ le_rfl, hoffset _ (by omega)]
    omega
  have hfront : (messagesFrom 0 front).filter
      (fun m => UInt64.ofNat front.length ≤ m.offset) = [] := by
    rw [List.filter_eq_nil_iff]
    intro m hm
    rcases mem_messagesFrom hm with ⟨i, hi, heq⟩
    rw [decide_eq_true_eq, heq, UInt64.le_iff_toNat_le, hoffset _ (by omega), hoffset _ (by omega)]
    omega
  have hback : (messagesFrom front.length back).filter
      (fun m => UInt64.ofNat front.length ≤ m.offset) = messagesFrom front.length back := by
    rw [List.filter_eq_self]
    intro m hm
    rcases mem_messagesFrom hm with ⟨i, hi, heq⟩
    rw [decide_eq_true_eq, heq, UInt64.le_iff_toNat_le, hoffset _ (by omega), hoffset _ (by omega)]
    omega
  have hread : (s.broker.storage.partition [112] 0).read (UInt64.ofNat front.length)
      (1048576 : UInt32).toNat = some (messagesFrom front.length back) := by
    rw [Partition.read, if_neg hnext, hlog, readLoop_start, List.filter_append, hfront, hback,
      List.nil_append, fitting_all]
    exact (size_messagesFrom _ _).trans_le hroom
  rw [Broker.pendingMessages, StorageEngine.read, if_neg (by decide), if_neg (by decide), hread]

/-- A value that ends like the fields in front of another one. -/
def disguised : Bytes :=
  List.replicate 65520 0 ++ (put64 1 ++ (put64 0 ++ (put16 0 ++ put32 230000)))

theorem length_disguised : disguised.length = 65542 := by
  rw [disguised, List.length_append, List.length_replicate]
  rfl

/-- What stands in the log of the leader from an offset on. -/
def pushedValues : List Bytes := disguised :: List.replicate 10000 [42]

/-- What the peer reads instead. -/
def misreadMessages (tail : Bytes) : List Message :=
  [⟨0, 10001, [], [0, 3] ++ (put64 0 ++ (put16 0 ++ (put32 65542 ++ List.replicate 65520 0)))⟩,
    ⟨1, 0, [], tail⟩]

theorem length_misread : ([0, 3] ++ (put64 0 ++ (put16 0 ++ (put32 65542 ++
    List.replicate 65520 (0 : UInt8))))).length = 65536 := by
  simp only [List.length_append, List.length_replicate, length_put64, length_put16, length_put32]
  rfl

theorem size_short (count : Nat) :
    ((List.replicate count ([42] : Bytes)).map List.length).sum = count := by
  rw [List.map_replicate, List.sum_replicate_nat, List.length_singleton, Nat.mul_one]

/-- The bytes of the one are the bytes of the other. -/
theorem encode_misread {tail : Bytes} (h : tail.length = 230000) :
    put64 0 ++ (put32 0 ++ (put32 (UInt32.ofNat 10001) ++
        (encodeBody ⟨UInt64.ofNat (2 ^ 32 + 3), 0, [], disguised⟩ ++ tail)))
      = (misreadMessages tail).flatMap encodeBody := by
  have hcount : put32 0 ++ put32 (UInt32.ofNat 10001)
      = put64 (10001 : Int64).toUInt64 := by decide
  have hoffset : put64 (UInt64.ofNat (2 ^ 32 + 3)) = put16 0 ++ (put32 65536 ++ [0, 3]) := by
    decide
  rw [misreadMessages, List.flatMap_cons, List.flatMap_cons, List.flatMap_nil, List.append_nil]
  simp only [encodeBody]
  rw [length_misread, h, length_disguised, hoffset, disguised, ← hcount]
  simp only [List.append_assoc, List.nil_append, List.length_nil]
  rfl

/-- The peer begins to write what it has misread. -/
theorem handle_misread {a : AppendCall} {request : Request} {tail : Bytes}
    (hbuilt : appendRequest [116] 1 a = some request) (htopic : a.topic = [112])
    (hleader : a.leaderId = [76]) (hterm : a.term = 0) (b : Broker)
    (hb : b = ((bootBroker leaderAndPeer [70]).createTopic [112] 2).1)
    (hread : (b.readReplicaAppend (wireRequest a.topic 1 (appendPayload a))).result
      = .ok (a.oldHeader, 1, misreadMessages tail)) :
    ∃ coordinator, BusyBroker.handle { broker := b } {} request
      = { broker := { b with coordinator := coordinator }
          writing := [⟨[112], 1, misreadMessages tail, some 1⟩] } := by
  have haccept := acceptRequest_sent (b := b) hbuilt (by rw [hb]; rfl) (by rw [hb]; rfl)
  have hpass : b.PassesChecks {} (wireRequest a.topic 1 (appendPayload a)) a.oldHeader 1
      (misreadMessages tail) := by
    refine ⟨fun _ => ?_, ?_, rfl, ?_⟩
    · -- A header without a previous entry matches any log.
      rw [logMatches]
      exact decide_eq_true (Or.inl rfl)
    · rw [hb, show (wireRequest a.topic 1 (appendPayload a)).topic = [112] from htopic]
      rfl
    · have haccepts : b.coordinator.acceptsLeader a.oldHeader.term a.oldHeader.leaderId = true := by
        rw [show a.oldHeader.term = 0 from hterm, show a.oldHeader.leaderId = [76] from hleader, hb]
        decide +kernel
      rw [Broker.observedBy, if_pos (wireRequest_flags _ _ _).2.1, observeAppend,
        if_neg (not_not.mpr haccepts)]
      simp only
      split <;> rfl
  refine ⟨(b.observedBy {} (wireRequest a.topic 1 (appendPayload a)) a.oldHeader 1
    (misreadMessages tail)).1, ?_⟩
  simp only [BusyBroker.handle, haccept]
  rw [show (wireRequest a.topic 1 (appendPayload a)).command = .replicaAppend from rfl]
  simp only [Broker.beginAppend, hread, if_pos hpass, List.nil_append]
  rw [show (wireRequest a.topic 1 (appendPayload a)).topic = [112] from htopic]
  rfl

/-- The leader stores some short values, a long one and 10000 short ones. Its
    loop pushes what comes behind the first ones, and the peer writes. -/
def misreadRun (count : Nat) : List ReplicaEvent :=
  twoPartitions ++ (storedValues (List.replicate count [42] ++ pushedValues) ++
    [.pushPending [112] 0 (UInt64.ofNat count) true, .deliver 0 [70] {},
      .act [70] (.write 0 {})])

/-- The call that is misread. -/
theorem ReplicaSet.Fed.pushed {s : ReplicaSet}
    (h : s.Fed (List.replicate (2 ^ 32 + 3) [42] ++ pushedValues)) :
    ∃ a request, ReplicaEvent.exec leaderAndPeer s
        (.pushPending [112] 0 (UInt64.ofNat (2 ^ 32 + 3)) true)
        = { s with pushes := [⟨[76], a, request⟩] } ∧
      appendRequest [116] 1 a = some request ∧ a.topic = [112] ∧ a.partition = 0 ∧
      a.leaderId = [76] ∧ a.term = 0 ∧ a.prevLogTerm = 0 ∧
      a.prevLogIndex = UInt64.ofNat (2 ^ 32 + 2) ∧
      a.messages = messagesFrom (2 ^ 32 + 3) pushedValues := by
  have htotal : (pushedValues.map List.length).sum = 65542 + 10000 := by
    rw [pushedValues, List.map_cons, List.sum_cons, size_short, length_disguised]
  have hcount : pushedValues.length = 10001 := by
    rw [pushedValues, List.length_cons, List.length_replicate]
  have hnode : (s.leader leaderAndPeer).nodeId = [76] := congrArg (fun x => x.1) h.leader.settings
  have htoken : (s.leader leaderAndPeer).replicationAuthToken = [116] :=
    congrArg (fun x => x.2.2.1) h.leader.settings
  have hmessages := h.leader.pendingMessages (by rw [List.length_replicate, hcount]; omega)
    (by rw [htotal]; omega)
  rw [List.length_replicate] at hmessages
  have hterm : (s.leader leaderAndPeer).coordinator.lastLogTerm = 0 := by
    have hle := lastLogTerm_le h.leader.stamped
    rw [h.leader.term] at hle
    exact le_antisymm hle UInt64.zero_le
  generalize hcall : s.pendingCall leaderAndPeer [112] 0 (UInt64.ofNat (2 ^ 32 + 3)) true = a
  have hpushed : a.messages = messagesFrom (2 ^ 32 + 3) pushedValues := by
    rw [← hcall]
    exact hmessages
  have hleader : a.leaderId = [76] := by
    rw [← hcall]
    exact hnode
  have hfits : (put16 (UInt16.ofNat [(116 : UInt8)].length) ++ ([116] ++ appendPayload a)).length
      ≤ maxPayloadBytes := by
    rw [List.length_append, List.length_append, length_appendPayload, length_put16, hpushed, hleader,
      length_encoded_messagesFrom, hcount, htotal, maxPayloadBytes]
    simp only [List.length_cons, List.length_nil]
    omega
  have hbuilt : appendRequest [116] 1 a = some (wireRequest a.topic 1
      (put16 (UInt16.ofNat [(116 : UInt8)].length) ++ ([116] ++ appendPayload a))) := by
    have hsome : ¬ (a.messages = [] ∨ a.leaderId = [] ∨ a.leaderId.length > 65535) := by
      rw [hpushed, hleader, pushedValues, messagesFrom]
      exact fun h => h.elim (fun h => nomatch h) (fun h => absurd h (by decide))
    have htopic : a.topic = [112] := by
      rw [← hcall]
      rfl
    rw [appendRequest, if_neg hsome, if_neg (by decide), if_neg]
    rw [htopic]
    exact fun h => h.elim (fun h => absurd h (by decide)) (fun h => absurd hfits (not_le.mpr h))
  refine ⟨a, _, ?_, hbuilt, ?_, ?_, hleader, ?_, ?_, ?_, hpushed⟩
  · have hlookup : ((s.leader leaderAndPeer).topics.lookup [112]).getD 0 = 2 := by
      rw [show (s.leader leaderAndPeer).topics.lookup [112] = some 2 from h.leader.topic]
      rfl
    rw [ReplicaEvent.exec, hlookup, if_pos (by decide), hcall, ReplicaSet.send, htoken, hbuilt,
      h.wire]
    rfl
  · rw [← hcall]
    rfl
  · rw [← hcall]
    rfl
  · rw [← hcall]
    exact h.leader.term
  · rw [← hcall]
    exact hterm
  · have hprev : a.prevLogIndex = prevIndex ((a.messages.head?.map Message.offset).getD 0) := by
      rw [← hcall]
      rfl
    rw [hprev, hpushed, pushedValues, messagesFrom, List.head?_cons, Option.map_some,
      Option.getD_some]
    decide

/-- The peer takes the call for one to its other partition. -/
theorem read_misread {a : AppendCall} (b : Broker) (htopic : a.topic = [112])
    (hpartition : a.partition = 0) (hleader : a.leaderId = [76]) (hprevTerm : a.prevLogTerm = 0)
    (hprevIndex : a.prevLogIndex = UInt64.ofNat (2 ^ 32 + 2))
    (hmessages : a.messages = messagesFrom (2 ^ 32 + 3) pushedValues)
    (hresolve : b.resolvePartition [112] 1 [] = .ok 1) :
    ∃ tail, (b.readReplicaAppend (wireRequest a.topic 1 (appendPayload a))).result
      = .ok (a.oldHeader, 1, misreadMessages tail) := by
  have hcount : a.messages.length = 10001 := by
    rw [hmessages, length_messagesFrom, pushedValues, List.length_cons, List.length_replicate]
  have hindex : a.prevLogIndex.toNat = 2 ^ 32 + 2 := by
    rw [hprevIndex]
    decide
  have htail : ((messagesFrom (2 ^ 32 + 3 + 1) (List.replicate 10000 [42])).flatMap
      encodeBody).length = 230000 := by
    rw [length_encoded_messagesFrom, size_short, List.length_replicate]
  refine ⟨(messagesFrom (2 ^ 32 + 3 + 1) (List.replicate 10000 [42])).flatMap encodeBody,
    readReplicaAppend_others (by rw [hleader]; exact List.cons_ne_nil _ _)
      (by rw [hleader]; decide) (by omega) (by omega) (List.cons_ne_nil _ _)
      (show 2 ≤ 10000 by omega) ?_ ?_ ?_ ?_⟩
  · intro m hm
    rcases List.mem_cons.mp hm with rfl | hm
    · refine ⟨Nat.zero_le _, List.cons_ne_nil _ _, ?_⟩
      rw [length_misread]
      decide
    · rw [List.mem_singleton.mp hm]
      refine ⟨Nat.zero_le _, List.ne_nil_of_length_pos ?_, ?_⟩
      · rw [htail]
        omega
      · rw [htail]
        decide
  · rw [hindex, show (2 ^ 32 + 2) % 2 ^ 32 = 2 by omega]
    rfl
  · rw [hprevTerm, hpartition, hcount, hmessages, pushedValues, messagesFrom, List.flatMap_cons]
    exact encode_misread htail
  · rw [htopic, hindex, show UInt32.ofNat ((2 ^ 32 + 2) / 2 ^ 32) = 1 by decide]
    exact hresolve

/-- The messages of the push get to another partition of the peer, which is empty
    on the leader. -/
theorem ReplicaSet.Fed.misplaced {s : ReplicaSet}
    (h : s.Fed (List.replicate (2 ^ 32 + 3) [42] ++ pushedValues)) :
    ¬ ([.pushPending [112] 0 (UInt64.ofNat (2 ^ 32 + 3)) true, .deliver 0 [70] {},
      .act [70] (.write 0 {})].foldl (ReplicaEvent.exec leaderAndPeer) s).Copies leaderAndPeer := by
  rcases h.pushed with ⟨a, request, hpush, hbuilt, htopic, hpartition, hleader, hterm, hprevTerm,
    hprevIndex, hmessages⟩
  rcases h with ⟨htaking, hpeer, _⟩
  have hother := htaking.other
  clear htaking
  generalize hb : ((bootBroker leaderAndPeer [70]).createTopic [112] 2).1 = b at hpeer
  have hresolve : b.resolvePartition [112] 1 [] = .ok 1 := by
    rw [← hb]
    decide +kernel
  rcases read_misread b htopic hpartition hleader hprevTerm hprevIndex hmessages hresolve with
    ⟨tail, hread⟩
  rcases handle_misread hbuilt htopic hleader hterm b hb.symm hread with ⟨coordinator, hhandle⟩
  clear hread hmessages
  have hdelivered : ReplicaEvent.exec leaderAndPeer { s with pushes := [⟨[76], a, request⟩] }
      (.deliver 0 [70] {})
      = ReplicaSet.set { s with pushes := [⟨[76], a, request⟩] } [70]
          { broker := { b with coordinator := coordinator }
            writing := [⟨[112], 1, misreadMessages tail, some 1⟩] } := by
    simp only [ReplicaEvent.exec, List.getElem?_cons_zero]
    rw [if_pos (by decide), hpeer, hhandle]
  have hstorable : ∀ m ∈ (misreadMessages tail).head?, m.Storable := by
    rintro m hm
    rw [← Option.some.inj hm]
    refine ⟨Nat.zero_le _, List.cons_ne_nil _ _, ?_⟩
    rw [length_misread]
    decide
  have hcounted : b.storage.Counted := by
    rw [← hb]
    exact fun t p => counted_fresh _
  have hnext : (b.storage.partition [112] 1).nextOffset = 0 := by
    rw [← hb]
    rfl
  intro hcopies
  have hwal := hcopies [70] (by decide) [112] 1
  rw [List.foldl_cons, hpush, List.foldl_cons, hdelivered, List.foldl_cons, List.foldl_nil,
    ReplicaEvent.exec, if_pos (by decide), ReplicaSet.set_self, ReplicaSet.wal, ReplicaSet.wal,
    ReplicaSet.set_self, ReplicaSet.set_ne (by decide), ReplicaSet.set_ne (by decide)] at hwal
  rw [show (ReplicaSet.nodes { s with pushes := [⟨[76], a, request⟩] } leaderAndPeer.first)
    = s.nodes [76] from rfl, hother, List.prefix_nil] at hwal
  cases hfirst : misreadMessages tail with
  | nil => cases hfirst
  | cons m rest =>
      rw [hfirst] at hwal hstorable
      have hoffset : m.offset = 0 := by
        rw [← (List.cons.inj hfirst).1]
      have hstored := store_appendReplica_ok b.storage [112] 1 (m := m)
        (by decide) (hstorable m rfl) (hoffset.trans hnext.symm) (hcounted [112] 1).opened
      simp only [BrokerEvent.exec, List.getElem?_cons_zero, BusyBroker.writeNext] at hwal
      rw [hstored.messages] at hwal
      exact absurd hwal (List.append_ne_nil_of_right_ne_nil _ (List.cons_ne_nil _ _))

/-- The peer writes to its other partition, which is empty on the leader. -/
theorem logs_not_copied :
    ¬ Always (ReplicaEvent.exec leaderAndPeer) (ReplicaSet.Copies leaderAndPeer)
      (.boot leaderAndPeer) (misreadRun (2 ^ 32 + 3)) := by
  intro hcopies
  have hlast := hcopies.last
  rw [misreadRun, List.foldl_append, List.foldl_append] at hlast
  refine ReplicaSet.Fed.misplaced ?_ hlast
  refine fed_twoPartitions.foldl (List.replicate (2 ^ 32 + 3) [42] ++ pushedValues) ?_
  intro value hvalue
  rcases List.mem_append.mp hvalue with hvalue | hvalue
  · rw [List.eq_of_mem_replicate hvalue]
    exact ⟨List.cons_ne_nil _ _, by decide⟩
  · rcases List.mem_cons.mp hvalue with rfl | hvalue
    · rw [length_disguised]
      exact ⟨List.ne_nil_of_length_pos (by rw [length_disguised]; omega), by decide⟩
    · rw [List.eq_of_mem_replicate hvalue]
      exact ⟨List.cons_ne_nil _ _, by decide⟩

end MqBroker
