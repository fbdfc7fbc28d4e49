import MqBroker.Broker.Layouts
import MqBroker.Broker.Pull
import MqBroker.Broker.Restart
import MqBroker.Cluster.Progress

/-!
# A Leader and its Followers

One leader and any number of followers, without elections.

Two channels lead to a log of a follower. The leader pushes, from `Replicate`
and from its loop, and the follower pulls. Each has a cursor of its own, and
both can be behind or ahead of the log, so here a push and a pull start at any
offset. A request or an answer that was sent stays on the wire: it arrives any
time later, any number of times, or never. A node is cut as in `BusyBroker`,
so other writes come in before every single one.

## Main definitions

* `ReplicaSet`: A leader, its followers and what is on the wire.
* `ReplicaEvent`, `ReplicaEvent.exec`: What can happen.
* `ReplicaSet.Copies`: Logs of followers are beginnings of the leader's.
* `ReplicaEvent.Readable`: A push that is not misread.
* `BusyBroker.Leading`, `Following`, `Copying`: What lasts on a node.
* `Push.From`, `FetchAnswer.From`: What is on the wire.

## Theorems

* `BusyBroker.Leading.exec`: What lasts on the leader.
* `writeNext_copying`: One write of a follower.
* `handle_push`: What a follower reads from a push.
* `handleReplicaFetch_from`: What the leader answers to a fetch.
-/

namespace MqBroker

open ReplicationCoordinator

/-! ## A leader and its followers -/

/-- The answer of the leader to a fetch. -/
structure FetchAnswer where
  topic : Bytes
  partition : UInt32
  response : Response
deriving DecidableEq, Repr

/-- A leader and its followers, with everything that was ever put on the
    wire. -/
structure ReplicaSet where
  nodes : Bytes → BusyBroker
  pushes : List Push := []
  answers : List FetchAnswer := []

/-- All nodes before the first event. -/
def ReplicaSet.boot (config : BrokersConfig) : ReplicaSet where
  nodes n := { broker := bootBroker config n }

/-- What can happen while the leader is fixed. -/
inductive ReplicaEvent
  /-- A node does something of its own. -/
  | act (n : Bytes) (e : BrokerEvent)
  /-- `Replicate` on the leader sends the message of one of its jobs. -/
  | pushOne (job : Nat)
  /-- The loop of the leader sends what it reads from an offset on. -/
  | pushPending (topic : Bytes) (partition : UInt32) (start : UInt64) (partitionOk : Bool)
  /-- A push gets to a follower. -/
  | deliver (push : Nat) (n : Bytes) (env : ReplicaEnv)
  /-- A heartbeat of the leader gets to a follower. -/
  | beat (n topic : Bytes) (h : ReplicaHeartbeat) (now : Int)
  /-- The leader answers the fetch of a follower. -/
  | ask (n topic : Bytes) (partition : UInt32) (start : UInt64) (maxBytes : UInt32)
      (partitionOk : Bool)
  /-- An answer gets to a follower. -/
  | fetched (answer : Nat) (n : Bytes)

/-- What nodes do of their own while the leader is fixed. Any node gets requests
    of clients, and followers write. -/
def BrokerEvent.own (leads : Bool) : BrokerEvent → Bool
  | .createTopic _ _ => true
  | .operate (.observeHeartbeat _ _ _ _) => leads
  | .operate (.observeHeartbeatRound _) => leads
  | .write _ _ => !leads
  | .receive _ _ _ _ => true
  | .store _ => true
  | .push _ _ => true
  | .finish _ _ => true
  | _ => false

namespace ReplicaSet

variable (config : BrokersConfig) (s : ReplicaSet)

/-- The messages of a log. -/
def wal (n topic : Bytes) (partition : UInt32) : List Message :=
  ((s.nodes n).broker.storage.partition topic partition).messages

/-- The leader. -/
def leader : Broker := (s.nodes config.first).broker

/-- All nodes with one of them replaced. -/
def set (n : Bytes) (b : BusyBroker) : ReplicaSet :=
  { s with nodes := Function.update s.nodes n b }

/-- A push of the leader is put on the wire, if there is a request for it. -/
def send (a : AppendCall) : ReplicaSet :=
  match appendRequest (s.leader config).replicationAuthToken 1 a with
  | none => s
  | some request => { s with pushes := s.pushes ++ [⟨config.first, a, request⟩] }

/-- What the loop of the leader sends. -/
def pendingCall (topic : Bytes) (partition : UInt32) (start : UInt64) (partitionOk : Bool) :
    AppendCall :=
  (s.leader config).appendCall topic partition
    ((s.leader config).pendingMessages partitionOk topic partition start)

/-- A follower handles a heartbeat of the leader. -/
def beat (n topic : Bytes) (h : ReplicaHeartbeat) (now : Int) : ReplicaSet :=
  let b := (s.nodes n).broker
  match (heartbeatSent (s.leader config).replicationAuthToken topic h).bind b.heartbeatOf with
  | none => s
  | some normalized =>
      s.set n { s.nodes n with broker := (b.handleReplicaHeartbeat now normalized).1 }

/-- The leader answers a fetch. -/
def ask (topic : Bytes) (partition : UInt32) (start : UInt64) (maxBytes : UInt32)
    (partitionOk : Bool) : ReplicaSet :=
  let request : Request :=
    { command := .replicaFetch
      flags := flagReplication
      topic := topic
      payload := fetchPayload partition start maxBytes }
  { s with
    answers := s.answers ++
      [⟨topic, partition, (s.leader config).handleReplicaFetch partitionOk request⟩] }

/-- A follower reads an answer, and begins to write what is in it. -/
def fetched (n : Bytes) (a : FetchAnswer) : ReplicaSet :=
  match a.response.status, parseFetched a.response.payload with
  | .ok, some messages =>
      s.set n ((BrokerEvent.fetched a.topic a.partition messages).exec (s.nodes n))
  | _, _ => s

end ReplicaSet

/-- All nodes after an event. -/
def ReplicaEvent.exec (config : BrokersConfig) (s : ReplicaSet) : ReplicaEvent → ReplicaSet
  | .act n e => if e.own (n = config.first) then s.set n (e.exec (s.nodes n)) else s
  | .pushOne index =>
      match (s.nodes config.first).replicating[index]? with
      | none => s
      | some job =>
          s.send config ((s.leader config).appendCall job.request.topic job.partition
            [job.message])
  | .pushPending topic partition start partitionOk =>
      if partition < ((s.leader config).topics.lookup topic).getD 0 then
        s.send config (s.pendingCall config topic partition start partitionOk)
      else s
  | .deliver index n env =>
      match s.pushes[index]? with
      | none => s
      | some p => if n ≠ config.first then s.set n ((s.nodes n).handle env p.request) else s
  | .beat n topic h now =>
      if n ≠ config.first ∧ h.nodeId = config.first then s.beat config n topic h now else s
  | .ask n topic partition start maxBytes partitionOk =>
      if partition < ((s.nodes n).broker.topics.lookup topic).getD 0 then
        s.ask config topic partition start maxBytes partitionOk
      else s
  | .fetched index n =>
      match s.answers[index]? with
      | none => s
      | some a => if n ≠ config.first then s.fetched n a else s

/-! ## What is promised -/

/-- Every log of a follower is the beginning of that log of the leader. -/
def ReplicaSet.Copies (config : BrokersConfig) (s : ReplicaSet) : Prop :=
  ∀ n ≠ config.first, ∀ topic partition,
    s.wal n topic partition <+: s.wal config.first topic partition

/-- The loop sends nothing that is misread, and no offset is used twice. -/
def ReplicaEvent.Readable (config : BrokersConfig) (s : ReplicaSet) : ReplicaEvent → Prop
  | .pushPending topic partition start partitionOk =>
      ¬ (s.pendingCall config topic partition start partitionOk).Misread
  | .act n (.store index) =>
      ∀ job ∈ (s.nodes n).admitted[index]?,
        (s.wal n job.request.topic job.partition).length < 2 ^ 64 - 1
  | _ => True

instance (config : BrokersConfig) (s : ReplicaSet) (e : ReplicaEvent) :
    Decidable (e.Readable config s) :=
  match e with
  | .pushPending _ _ _ _ => inferInstanceAs (Decidable (¬ AppendCall.Misread _))
  | .act n (.store index) =>
      inferInstanceAs (Decidable (∀ job ∈ (s.nodes n).admitted[index]?, List.length _ < _))
  | .act _ (.createTopic _ _) | .act _ (.operate _) | .act _ (.deliver _ _)
  | .act _ (.fetched _ _ _) | .act _ (.write _ _) | .act _ (.receive _ _ _ _)
  | .act _ (.push _ _) | .act _ (.finish _ _) | .act _ (.restart _) | .pushOne _
  | .deliver _ _ _ | .beat _ _ _ _ | .ask _ _ _ _ _ _ | .fetched _ _ => isTrue trivial

/-! ## The leader -/

/-- What lasts on the leader. -/
structure BusyBroker.Leading (s : BusyBroker) : Prop where
  storable : ∀ t p, ∀ m ∈ (s.broker.storage.partition t p).messages, m.Storable
  topics : ∀ t count, s.broker.topics.lookup t = some count → count ≠ 0
  admitted : ∀ job ∈ s.admitted, job.partition ≠ autoPartition
  replicating : ∀ job ∈ s.replicating, job.partition ≠ autoPartition

section Leader

variable {s : BusyBroker}

/-- No event but a restart changes what is configured. -/
theorem exec_settings (e : BrokerEvent) (he : ∀ follower, e ≠ .restart follower) :
    (e.exec s).broker.settings = s.broker.settings := by
  cases e with
  | createTopic name count =>
      simp only [BrokerEvent.exec, Broker.createTopic]
      split
      · rfl
      · split <;> rfl
  | operate op =>
      simp only [BrokerEvent.exec]
      split <;> rfl
  | deliver env request =>
      simp only [BrokerEvent.exec, BusyBroker.handle]
      split
      · rfl
      · rename_i normalized _
        split
        · split
          · rcases handleReplicaHeartbeat_cases s.broker env.now normalized with
              ⟨_, hb⟩ | ⟨h, _, hb⟩
            · simp only [hb]
            · simp only [hb]
              rfl
          · rfl
        · have hframe : (s.broker.beginAppend env normalized).1.settings = s.broker.settings := by
            unfold Broker.beginAppend
            split
            · rfl
            · split <;> rfl
          split
          · rename_i b heq
            rw [heq] at hframe
            exact hframe
          · rename_i b partition messages heq
            rw [heq] at hframe
            exact hframe
        · rfl
  | fetched topic partition messages =>
      simp only [BrokerEvent.exec]
      split <;> rfl
  | write index io =>
      simp only [BrokerEvent.exec]
      split
      · rfl
      · unfold BusyBroker.writeNext
        split <;> rfl
  | receive env request rate quota =>
      rcases admitProduce_frame s.broker env request rate quota with ⟨cache, windows, hframe⟩
      simp only [BrokerEvent.exec, BusyBroker.receive]
      split
      · rfl
      · split
        all_goals
          rename_i hadmission
          rw [hadmission] at hframe
          simp only at hframe
          rw [hframe]
          rfl
  | store index =>
      simp only [BrokerEvent.exec]
      split
      · rfl
      · rename_i job _
        rcases store_step (s := s) index job with ⟨ops, ms, hstep, _⟩
        exact hstep.settings
  | push index answer =>
      simp only [BrokerEvent.exec]
      split
      · rfl
      · unfold BusyBroker.push
        split <;> rfl
  | finish index now =>
      simp only [BrokerEvent.exec]
      split
      · rfl
      · rename_i job _
        simp only [BusyBroker.finish]
        split
        · rfl
        · split
          · rfl
          · split
            · rfl
            · rcases remember_frame { s.broker with
                  coordinator := (s.broker.coordinator.advanceCommit
                    (partitionKey job.request.topic job.partition) job.message.offset now).1 }
                { doneNow := now } job.request (produced job.request job.partition job.message) with
                ⟨cache, hframe⟩
              simp only [hframe]
              rfl
  | restart follower => exact absurd rfl (he follower)

/-- What the leader does of its own keeps what lasts on it. -/
theorem BusyBroker.Leading.exec (h : s.Leading) {e : BrokerEvent} (he : e.own true = true) :
    (e.exec s).Leading := by
  cases e with
  | createTopic name count =>
      rcases createTopic_outcome s.broker name count with ⟨hvalid, _, heq⟩ | heq
      · simp only [BrokerEvent.exec, heq]
        refine ⟨h.storable, fun t found hfound => ?_, h.admitted, h.replicating⟩
        by_cases ht : t = name
        · subst ht
          rw [AList.lookup_insert] at hfound
          rw [← Option.some.inj hfound]
          exact hvalid.2.1
        · rw [AList.lookup_insert_ne ht] at hfound
          exact h.topics t found hfound
      · simp only [BrokerEvent.exec, heq]
        exact h
  | operate op =>
      simp only [BrokerEvent.exec]
      split
      · exact ⟨h.storable, h.topics, h.admitted, h.replicating⟩
      · exact h
  | receive env request rate quota =>
      rcases admitProduce_frame s.broker env request rate quota with ⟨cache, windows, hframe⟩
      simp only [BrokerEvent.exec, BusyBroker.receive]
      split
      · exact h
      · cases hadmits : s.broker.admitProduce env request rate quota with
        | mk b outcome =>
            rw [hadmits] at hframe
            obtain rfl : b = _ := hframe
            cases outcome with
            | error response => exact ⟨h.storable, h.topics, h.admitted, h.replicating⟩
            | ok found =>
                refine ⟨h.storable, h.topics, fun job hjob => ?_, h.replicating⟩
                rcases List.mem_append.mp hjob with hjob | hjob
                · exact h.admitted job hjob
                · rw [List.mem_singleton.mp hjob]
                  exact admitProduce_partition h.topics hadmits
  | store index =>
      simp only [BrokerEvent.exec]
      split
      · exact h
      · rename_i job hjob
        rcases store_step (s := s) index job with ⟨ops, ms, hstep, _, hadmitted, hjobs⟩
        refine ⟨?_, ?_, ?_, ?_⟩
        · intro t p m hm
          by_cases hplace : (t, p) = (job.request.topic, job.partition)
          · rcases Prod.mk.inj hplace with ⟨rfl, rfl⟩
            rw [hstep.storage.messages] at hm
            exact (List.mem_append.mp hm).elim (h.storable _ _ m) (hstep.storable m)
          · rw [(hstep.storage.others t p hplace).1] at hm
            exact h.storable t p m hm
        · rw [hstep.topics]
          exact h.topics
        · rw [hadmitted]
          exact fun found hfound => h.admitted found (List.eraseIdx_subset hfound)
        · intro found hfound
          rcases hjobs found hfound with hold | ⟨_, hpartition, _⟩
          · exact h.replicating found hold
          · rw [hpartition]
            exact h.admitted job (List.mem_of_getElem? hjob)
  | push index answer =>
      simp only [BrokerEvent.exec]
      split
      · exact h
      · rename_i job hjob
        have hset : ∀ next : ReplicateJob, next.partition = job.partition →
            ∀ found ∈ s.replicating.set index next, found.partition ≠ autoPartition := by
          intro next hnext found hfound
          rcases List.mem_or_eq_of_mem_set hfound with hfound | rfl
          · exact h.replicating found hfound
          · rw [hnext]
            exact h.replicating job (List.mem_of_getElem? hjob)
        unfold BusyBroker.push
        split
        · exact h
        · exact ⟨h.storable, h.topics, h.admitted, hset _ rfl⟩
        · exact ⟨h.storable, h.topics, h.admitted, hset _ rfl⟩
  | finish index now =>
      simp only [BrokerEvent.exec]
      split
      · exact h
      · rename_i job _
        have herase : ∀ found ∈ s.replicating.eraseIdx index, found.partition ≠ autoPartition :=
          fun found hfound => h.replicating found (List.eraseIdx_subset hfound)
        simp only [BusyBroker.finish]
        split
        · exact h
        · split
          · exact ⟨h.storable, h.topics, h.admitted, herase⟩
          · split
            · exact ⟨h.storable, h.topics, h.admitted, herase⟩
            · rcases remember_frame { s.broker with
                  coordinator := (s.broker.coordinator.advanceCommit
                    (partitionKey job.request.topic job.partition) job.message.offset now).1 }
                { doneNow := now } job.request (produced job.request job.partition job.message) with
                ⟨cache, hframe⟩
              simp only [hframe]
              exact ⟨h.storable, h.topics, h.admitted, herase⟩
  | deliver env request => cases he
  | fetched topic partition messages => cases he
  | write index io => cases he
  | restart follower => cases he

/-- What is not stored or written leaves the logs alone. -/
theorem own_storage {leads : Bool} {e : BrokerEvent} (he : e.own leads = true)
    (hstore : ∀ index, e ≠ .store index) (hwrite : ∀ index io, e ≠ .write index io) :
    (e.exec s).broker.storage = s.broker.storage := by
  cases e with
  | createTopic name count =>
      rcases createTopic_outcome s.broker name count with ⟨_, _, heq⟩ | heq
      · simp only [BrokerEvent.exec, heq]
      · simp only [BrokerEvent.exec, heq]
  | operate op =>
      simp only [BrokerEvent.exec]
      split <;> rfl
  | receive env request rate quota => exact (receive_quiet env request rate quota).1
  | push index answer =>
      simp only [BrokerEvent.exec]
      split
      · rfl
      · unfold BusyBroker.push
        split <;> rfl
  | finish index now =>
      simp only [BrokerEvent.exec]
      split
      · rfl
      · simp only [BusyBroker.finish]
        split
        · rfl
        · split
          · rfl
          · split
            · rfl
            · exact remember_storage _ _ _ _
  | store index => exact absurd rfl (hstore index)
  | write index io => exact absurd rfl (hwrite index io)
  | deliver env request => cases he
  | fetched topic partition messages => cases he
  | restart follower => cases he

/-- The logs of the leader only grow. -/
theorem own_grown {leads : Bool} {e : BrokerEvent} (he : e.own leads = true) (t : Bytes)
    (p : UInt32) :
    (s.broker.storage.partition t p).messages
      <+: ((e.exec s).broker.storage.partition t p).messages := by
  have hrestart : ∀ follower, e ≠ .restart follower := by
    rintro follower rfl
    cases he
  rcases (exec_forward e hrestart).logs with ⟨_, _, _, hext, _⟩
  exact hext.isPrefix t p

/-- The logs of the leader stay short, if the next message is stored in one
    that is. -/
theorem own_short {e : BrokerEvent} (he : e.own true = true)
    (hshort : ∀ t p, (s.broker.storage.partition t p).messages.length < 2 ^ 64)
    (hstore : ∀ index, e = .store index → ∀ job ∈ s.admitted[index]?,
      (s.broker.storage.partition job.request.topic job.partition).messages.length < 2 ^ 64 - 1)
    (t : Bytes) (p : UInt32) :
    ((e.exec s).broker.storage.partition t p).messages.length < 2 ^ 64 := by
  by_cases hindex : ∃ index, e = .store index
  · rcases hindex with ⟨index, rfl⟩
    simp only [BrokerEvent.exec]
    split
    · exact hshort t p
    · rename_i job hjob
      have hjobshort := hstore index rfl job hjob
      rcases store_step (s := s) index job with ⟨ops, ms, hstep, hone, _⟩
      by_cases hplace : (t, p) = (job.request.topic, job.partition)
      · rcases Prod.mk.inj hplace with ⟨rfl, rfl⟩
        rw [hstep.storage.messages, List.length_append]
        omega
      · rw [(hstep.storage.others t p hplace).1]
        exact hshort t p
  · rw [own_storage he (not_exists.mp hindex) (by rintro index io rfl; cases he)]
    exact hshort t p

end Leader

/-! ## The followers -/

/-- What lasts on a follower: it does not lead, and it has taken no request of
    a client. -/
structure BusyBroker.Following (n : Bytes) (s : BusyBroker) : Prop where
  role : s.broker.coordinator.role ≠ .leader
  nodeId : s.broker.coordinator.nodeId = n
  admitted : s.admitted = []
  replicating : s.replicating = []

/-- What a follower has still to write is in the log of the leader, or cannot
    be written. -/
def WriteJob.From (leader : Broker) (job : WriteJob) : Prop :=
  (∀ m ∈ job.messages, m ∈ (leader.storage.partition job.topic job.partition).messages) ∨
    ∃ m rest, job.messages = m :: rest ∧ m.value = []

/-- What is on the wire for a follower: messages of the leader, for one of its
    partitions, that are not misread. -/
structure Push.From (leader : Broker) (first : Bytes) (p : Push) : Prop where
  built : appendRequest leader.replicationAuthToken 1 p.call = some p.request
  sender : p.call.leaderId = first
  partition : p.call.partition ≠ autoPartition
  messages : ∀ m ∈ p.call.messages,
    m ∈ (leader.storage.partition p.call.topic p.call.partition).messages ∧ m.Storable
  previous : ∀ m ∈ p.call.messages.head?, m.offset.toNat ≤ p.call.prevLogIndex.toNat + 1
  readable : ¬ p.call.Misread

/-- A follower copies the leader: its logs are beginnings of the leader's, and
    so is what it writes. -/
structure BusyBroker.Copying (leader : Broker) (s : BusyBroker) : Prop where
  copies : ∀ t p, (s.broker.storage.partition t p).messages
    <+: (leader.storage.partition t p).messages
  writing : ∀ job ∈ s.writing, job.From leader

section Followers

variable {n : Bytes} {s : BusyBroker} {leader : Broker}

/-- A follower that hears of a leader other than itself does not lead. -/
theorem observeAppend_follows {c : ReplicationCoordinator} {l : Bytes} (hrole : c.role ≠ .leader)
    (hl : l ≠ c.nodeId) (p : Bytes) (t off commit : UInt64) (now : Int) :
    (c.observeAppend p t l off commit now).1.role ≠ .leader := by
  by_cases haccepts : c.acceptsLeader t l = true
  · rw [observeAppend_role haccepts, if_neg hl]
    decide
  · rw [observeAppend_refused haccepts]
    exact hrole

/-- What a follower does of its own: it creates a topic, it goes on with a
    write, or nothing comes of it. -/
theorem BusyBroker.Following.own_cases (h : s.Following n) {e : BrokerEvent} (he : e.own false = true) :
    (∃ topics, e.exec s = { s with broker := { s.broker with topics := topics } }) ∨
      ∃ index io job, s.writing[index]? = some job ∧ e.exec s = s.writeNext index io job := by
  have hsame : ∃ topics, s = { s with broker := { s.broker with topics := topics } } := ⟨_, rfl⟩
  cases e with
  | createTopic name count =>
      rcases createTopic_outcome s.broker name count with ⟨_, _, heq⟩ | heq
      · exact Or.inl ⟨_, by simp only [BrokerEvent.exec, heq]; rfl⟩
      · exact Or.inl ⟨s.broker.topics, by simp only [BrokerEvent.exec, heq]⟩
  | write index io =>
      simp only [BrokerEvent.exec]
      split
      · exact Or.inl hsame
      · rename_i job hjob
        exact Or.inr ⟨index, io, job, hjob, rfl⟩
  | receive env request rate quota =>
      left
      simp only [BrokerEvent.exec, BusyBroker.receive]
      split
      · exact hsame
      · rename_i hflag
        -- Only a leader takes requests of clients.
        have hrefuses : s.broker.refusesWrites request env.writesNow = true := by
          rw [Broker.refusesWrites, eq_false_of_ne_true hflag, Bool.not_false, Bool.true_and,
            bne_iff_ne.mpr h.role, Bool.true_or]
        rw [Broker.admitProduce, if_pos hrefuses]
        exact hsame
  | store index =>
      have hnone : s.admitted[index]? = none := by rw [h.admitted, List.getElem?_nil]
      simp only [BrokerEvent.exec, hnone]
      exact Or.inl hsame
  | push index answer =>
      have hnone : s.replicating[index]? = none := by rw [h.replicating, List.getElem?_nil]
      simp only [BrokerEvent.exec, hnone]
      exact Or.inl hsame
  | finish index now =>
      have hnone : s.replicating[index]? = none := by rw [h.replicating, List.getElem?_nil]
      simp only [BrokerEvent.exec, hnone]
      exact Or.inl hsame
  | operate op => cases op <;> cases he
  | deliver env request => cases he
  | fetched topic partition messages => cases he
  | restart follower => cases he

/-- A message of the leader that has the next offset of a log that is the
    beginning of the leader's is the next message. -/
theorem prefix_next {p q : Partition} (hp : p.Counted) (hq : q.Counted)
    (hpre : p.messages <+: q.messages) (hshort : q.messages.length < 2 ^ 64) {m : Message}
    (hm : m ∈ q.messages) (hoffset : m.offset = p.nextOffset) :
    p.messages ++ [m] <+: q.messages := by
  rcases List.append_of_mem hm with ⟨front, back, hsplit⟩
  have hfirst := @Partition.Counted.offset q hq front back m (by rw [← hsplit])
  have hlength : front.length = p.messages.length := by
    rw [hfirst, hp.next] at hoffset
    have hle := hpre.length_le
    have hfront : front.length < q.messages.length := by
      rw [hsplit, List.length_append, List.length_cons]
      omega
    have hnat := congrArg UInt64.toNat hoffset
    rw [UInt64.toNat_ofNat', UInt64.toNat_ofNat', Nat.mod_eq_of_lt (by omega),
      Nat.mod_eq_of_lt (by omega)] at hnat
    exact hnat
  have hsame : p.messages = front := by
    have hfront : front <+: q.messages := by
      rw [hsplit]
      exact List.prefix_append _ _
    exact (List.prefix_of_prefix_length_le hpre hfront hlength.ge).eq_of_length hlength.symm
  rw [hsame, hsplit]
  exact ⟨back, by rw [List.append_assoc]; rfl⟩

/-- One write of a follower. A message is taken only at its own offset, and one
    without a value not at all. -/
theorem writeNext_copying (h : s.Copying leader) (hcounted : s.broker.storage.Counted)
    (hleader : leader.storage.Counted)
    (hshort : ∀ t p, (leader.storage.partition t p).messages.length < 2 ^ 64) {index : Nat}
    {job : WriteJob} (hjob : s.writing[index]? = some job) (io : StoreIo) :
    (s.writeNext index io job).Copying leader := by
  have hfrom := h.writing job (List.mem_of_getElem? hjob)
  unfold BusyBroker.writeNext
  split
  · exact ⟨h.copies, fun found hfound => h.writing found (List.eraseIdx_subset hfound)⟩
  · rename_i m rest hmessages
    refine ⟨?_, fun found hfound => ?_⟩
    · rcases store_appendReplica_cases s.broker.storage io job.topic job.partition m with
        ⟨hstored, hoffset, hstorable, _⟩ | ⟨hsame, _⟩
      · intro t p
        by_cases hplace : (t, p) = (job.topic, job.partition)
        · rcases Prod.mk.inj hplace with ⟨rfl, rfl⟩
          simp only [hstored.messages]
          rcases hfrom with hall | ⟨m', rest', hcons, hempty⟩
          · exact prefix_next (hcounted _ _) (hleader _ _) (h.copies _ _) (hshort _ _)
              (hall m (by rw [hmessages]; exact List.mem_cons_self)) hoffset
          · rw [hmessages] at hcons
            rw [(List.cons.inj hcons).1] at hstorable
            exact absurd hempty hstorable.2.1
        · simp only [hstored.others t p hplace]
          exact h.copies t p
      · intro t p
        simp only [(hsame.extended t p).messages, List.append_nil]
        exact h.copies t p
    · simp only at hfound
      split at hfound
      · rename_i hdone
        rcases List.mem_or_eq_of_mem_set hfound with hfound | rfl
        · exact h.writing found hfound
        · -- The rest of a job that was begun is from the leader.
          rcases hfrom with hall | ⟨m', rest', hcons, hempty⟩
          · refine Or.inl fun x hx => hall x ?_
            rw [hmessages]
            exact List.mem_cons_of_mem _ hx
          · rw [hmessages] at hcons
            rcases store_appendReplica_cases s.broker.storage io job.topic job.partition m with
              ⟨_, _, hstorable, _⟩ | ⟨_, err, herr⟩
            · rw [(List.cons.inj hcons).1] at hstorable
              exact absurd hempty hstorable.2.1
            · rw [hdone] at herr
              cases herr
      · exact h.writing found (List.eraseIdx_subset hfound)

theorem writeNext_following (h : s.Following n) (index : Nat) (io : StoreIo) (job : WriteJob) :
    (s.writeNext index io job).Following n := by
  unfold BusyBroker.writeNext
  split
  · cases job.record with
    | none => exact ⟨h.role, h.nodeId, h.admitted, h.replicating⟩
    | some offset => exact ⟨h.role, h.nodeId, h.admitted, h.replicating⟩
  · exact ⟨h.role, h.nodeId, h.admitted, h.replicating⟩

/-- A follower reads from a push what the leader has sent, or something that
    cannot be written. -/
theorem beginAppend_from {first : Bytes} {p : Push} (hp : p.From leader first)
    {b b' : Broker} {env : ReplicaEnv} {partition : UInt32} {messages : List Message}
    (h : b.beginAppend env (wireRequest p.call.topic 1 (appendPayload p.call))
      = (b', some (partition, messages))) :
    WriteJob.From leader ⟨p.call.topic, partition, messages, some (lastOffset messages)⟩ := by
  rcases appendRequest_some hp.built with ⟨_, hmessages, hleader, hsize, _, _, hfits⟩
  unfold Broker.beginAppend at h
  split at h
  · cases h
  · rename_i header found list hread
    split at h
    · cases h
      by_cases hcount : p.call.messages.length ≤ 10000
      · rcases readReplicaAppend_few hleader hsize hmessages hcount
          (fun m hm => (hp.messages m hm).2) hp.partition hread with ⟨rfl, rfl⟩
        exact Or.inl fun m hm => (hp.messages m hm).1
      · have hbound := length_le_flatMap_encodeBody p.call.messages
        have hmax : maxPayloadBytes = 1048576 := rfl
        exact Or.inr (readReplicaAppend_many hleader hsize (not_le.mp hcount) (by omega) hp.previous
          hp.readable hread)
    · cases h

/-- A push gets to a follower. -/
theorem handle_push {first : Bytes} {p : Push} (hp : p.From leader first) (hn : n ≠ first)
    (hfollows : s.Following n) (hcopies : s.Copying leader)
    (hconfigured : s.broker.replicationConfigured = true)
    (htoken : s.broker.replicationAuthToken = leader.replicationAuthToken) (env : ReplicaEnv) :
    (s.handle env p.request).Following n ∧ (s.handle env p.request).Copying leader := by
  rcases appendRequest_some hp.built with ⟨_, _, _, hsize, _⟩
  rw [BusyBroker.handle, acceptRequest_sent hp.built hconfigured htoken]
  simp only [show (wireRequest p.call.topic 1 (appendPayload p.call)).command = .replicaAppend
    from rfl]
  -- The handler takes notice of the leader, and nothing else changes before the first write.
  have hcoordinator : ∃ coordinator, (s.broker.beginAppend env (wireRequest p.call.topic 1
      (appendPayload p.call))).1 = { s.broker with coordinator := coordinator } ∧
      coordinator.role ≠ .leader ∧ coordinator.nodeId = n := by
    unfold Broker.beginAppend
    split
    · exact ⟨_, rfl, hfollows.role, hfollows.nodeId⟩
    · rename_i header found list hread
      split
      · refine ⟨_, rfl, ?_⟩
        rw [Broker.observedBy, if_pos (wireRequest_flags _ _ _).2.1,
          readReplicaAppend_leader hsize hread, hp.sender]
        refine ⟨observeAppend_follows hfollows.role ?_ _ _ _ _ _, ?_⟩
        · rw [hfollows.nodeId]
          exact hn.symm
        · rw [← hfollows.nodeId]
          exact (Op.observeAppend _ _ _ _ _ _).exec_nodeId
      · exact ⟨_, rfl, hfollows.role, hfollows.nodeId⟩
  rcases hcoordinator with ⟨coordinator, hbroker, hrole, hnode⟩
  cases hbegin : s.broker.beginAppend env (wireRequest p.call.topic 1 (appendPayload p.call)) with
  | mk b job =>
      rw [hbegin] at hbroker
      obtain rfl : b = _ := hbroker
      cases job with
      | none =>
          exact ⟨⟨hrole, hnode, hfollows.admitted, hfollows.replicating⟩, hcopies.copies,
            hcopies.writing⟩
      | some found =>
          refine ⟨⟨hrole, hnode, hfollows.admitted, hfollows.replicating⟩, hcopies.copies,
            fun x hx => ?_⟩
          rcases List.mem_append.mp hx with hx | hx
          · exact hcopies.writing x hx
          · rw [List.mem_singleton.mp hx]
            exact beginAppend_from hp hbegin

end Followers

/-! ## The wire -/

/-- What an answer is read as are messages of the leader. -/
def FetchAnswer.From (leader : Broker) (a : FetchAnswer) : Prop :=
  a.response.status = .ok → ∀ messages, parseFetched a.response.payload = some messages →
    ∀ m ∈ messages, m ∈ (leader.storage.partition a.topic a.partition).messages

section OnTheWire

variable {leader leader' : Broker}

/-- What a leader has sent stays right while its logs grow. -/
theorem Push.From.mono {first : Bytes} {p : Push} (h : p.From leader first)
    (htoken : leader'.replicationAuthToken = leader.replicationAuthToken)
    (hlogs : ∀ t p, (leader.storage.partition t p).messages
      <+: (leader'.storage.partition t p).messages) : p.From leader' first := by
  refine ⟨?_, h.sender, h.partition, fun m hm => ?_, h.previous, h.readable⟩
  · rw [htoken]
    exact h.built
  · exact ⟨(hlogs _ _).subset (h.messages m hm).1, (h.messages m hm).2⟩

theorem FetchAnswer.From.mono {a : FetchAnswer} (h : a.From leader)
    (hlogs : ∀ t p, (leader.storage.partition t p).messages
      <+: (leader'.storage.partition t p).messages) : a.From leader' :=
  fun hok messages hparse m hm => (hlogs _ _).subset (h hok messages hparse m hm)

theorem BusyBroker.Copying.mono {s : BusyBroker} (h : s.Copying leader)
    (hlogs : ∀ t p, (leader.storage.partition t p).messages
      <+: (leader'.storage.partition t p).messages) : s.Copying leader' := by
  refine ⟨fun t p => (h.copies t p).trans (hlogs t p), fun job hjob => ?_⟩
  exact (h.writing job hjob).imp_left fun hall m hm => (hlogs _ _).subset (hall m hm)

/-- The previous index of a call is right in front of its first message. -/
theorem appendCall_previous (topic : Bytes) (partition : UInt32) (messages : List Message) :
    ∀ m ∈ messages.head?,
      m.offset.toNat ≤ (leader.appendCall topic partition messages).prevLogIndex.toNat + 1 := by
  intro m hm
  simp only [Broker.appendCall]
  rw [Option.mem_def.mp hm, Option.map_some, Option.getD_some, prevIndex]
  split
  · rename_i hzero
    rw [hzero]
    exact Nat.zero_le _
  · rename_i hpos
    have hone : (1 : UInt64) ≤ m.offset := by
      rw [UInt64.le_iff_toNat_le]
      exact Nat.one_le_iff_ne_zero.mpr fun h => hpos (UInt64.toNat_inj.mp h)
    rw [UInt64.toNat_sub_of_le _ _ hone, show (1 : UInt64).toNat = 1 from rfl]
    omega

/-- A call of the leader for messages of one of its logs. -/
theorem appendCall_from {topic : Bytes} {partition : UInt32} {messages : List Message}
    {request : Request}
    (hbuilt : appendRequest leader.replicationAuthToken 1
      (leader.appendCall topic partition messages) = some request)
    (hauto : partition ≠ autoPartition)
    (hmessages : ∀ m ∈ messages,
      m ∈ (leader.storage.partition topic partition).messages ∧ m.Storable)
    (hreadable : ¬ (leader.appendCall topic partition messages).Misread) :
    Push.From leader leader.nodeId
      ⟨leader.nodeId, leader.appendCall topic partition messages, request⟩ :=
  ⟨hbuilt, rfl, hauto, hmessages, appendCall_previous topic partition messages, hreadable⟩

/-- The answer to a fetch has messages of the log that was asked for. -/
theorem handleReplicaFetch_from {topic : Bytes} {partition : UInt32} {start : UInt64}
    {maxBytes : UInt32} {partitionOk : Bool} {request : Request} (htopic : request.topic = topic)
    (hpayload : request.payload = fetchPayload partition start maxBytes)
    (hauto : partition ≠ autoPartition)
    (hstorable : ∀ m ∈ (leader.storage.partition topic partition).messages, m.Storable) :
    FetchAnswer.From leader
      ⟨topic, partition, leader.handleReplicaFetch partitionOk request⟩ := by
  intro hok found hparse m hm
  rcases handleReplicaFetch_ok hok with ⟨resolved, messages, hresolve, hread, hanswer⟩
  rw [hpayload, fetchPayload, get32_put32] at hresolve
  obtain rfl : resolved = partition := resolvePartition_named hresolve hauto
  have hmem : ∀ x ∈ messages, x ∈ (leader.storage.partition topic resolved).messages := by
    intro x hx
    rw [read_ok hread, htopic] at hx
    exact readLoop_mem hx
  simp only at hparse
  rw [hanswer, parseFetched_answer messages fun x hx => hstorable x (hmem x hx)] at hparse
  rw [← Option.some.inj hparse] at hm
  exact hmem m ((fetchTaken_isPrefix 4 messages).subset hm)

end OnTheWire

end MqBroker
