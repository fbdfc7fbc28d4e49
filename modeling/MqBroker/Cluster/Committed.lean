import MqBroker.Broker.Bounds
import MqBroker.Broker.Heartbeat
import MqBroker.Cluster.Wire
import MqBroker.Lib.Runs
import MqBroker.Replication.Commit
import MqBroker.Replication.Durability

/-!
# What a Node Has Committed

One broker with everything it has begun and not finished, and whether its
commit indices are offsets of messages it has.

The requests of other brokers come from anywhere and carry any bytes. A replica
append is cut behind its checks, where the commit index is set, and in front of
every single write. A produce request is cut where it is admitted, where it is
stored and where its replicas answer. Between any two of these steps others can
come in, and every state on the way counts.

`ObserveAppend` believes the leader. A heartbeat names an offset and a commit
index, and the follower commits the smaller one without a look at its log. So
the commit index is the offset of a message, in every state of every run, just
as long as one of the two numbers is.

## Main definitions

* `BusyBroker`: A broker and what it has begun.
* `BrokerEvent`, `BrokerEvent.exec`: What can happen to it.
* `Broker.Has`, `Broker.CommitsPresent`: Commit indices are offsets in the log.
* `Broker.observes`: What an accepted request of a leader reports.
* `BrokerEvent.Covered`: The log has one of the two numbers.

## Theorems

* `run_append_alone`: A replica append that nothing comes between.
* `exec_busy`: What lasts through every run.
* `exec_commitsPresent_iff`: When one event keeps commit indices in the log.
* `commits_present_iff`: When a run does.
-/

namespace MqBroker

open ReplicationCoordinator

/-! ## A broker at work -/

/-- An admitted produce request that is not stored yet. -/
structure StoreJob where
  env : ProduceEnv
  request : Request
  partition : UInt32
  body : ProduceBody
deriving Repr

/-- A stored message in `Replicate`: the peers that are still to be called, and
    how many have answered. -/
structure ReplicateJob where
  request : Request
  partition : UInt32
  message : Message
  waiting : List ReplicationPeer
  answers : Nat := 0
deriving DecidableEq, Repr

/-- The messages that a replica append or a fetch has still to write, and the
    offset that is recorded behind them. A fetch records none. -/
structure WriteJob where
  topic : Bytes
  partition : UInt32
  messages : List Message
  record : Option UInt64 := none
deriving DecidableEq, Repr

/-- A broker and what it has begun. -/
structure BusyBroker where
  broker : Broker
  admitted : List StoreJob := []
  replicating : List ReplicateJob := []
  writing : List WriteJob := []

/-- A broker that is started on an empty data directory. -/
def BusyBroker.start (config : StorageConfig) (nodeId : Bytes) (peers : List ReplicationPeer)
    (quorum : Nat) (follower : Bool) (authToken : Bytes) : BusyBroker where
  broker := (Broker.fresh config).configureReplication nodeId peers quorum follower authToken none

instance (b : Broker) (env : ReplicaEnv) (request : Request) (header : AppendHeader)
    (partition : UInt32) (messages : List Message) :
    Decidable (b.PassesChecks env request header partition messages) :=
  decidable_of_iff
    ((request.hasFlag flagReplicationTerm = true →
        b.coordinator.logMatches (partitionKey request.topic partition) header.prevLogIndex
          header.prevLogTerm = true) ∧
      b.storage.nextOffset env.partitionOk request.topic partition
        = messages.head?.map Message.offset ∧
      consecutive messages = true ∧
      (b.observedBy env request header partition messages).2 = true)
    ⟨fun h => ⟨h.1, h.2.1, h.2.2.1, h.2.2.2⟩, fun h => ⟨h.matched, h.next, h.ordered, h.leader⟩⟩

/-- `HandleReplicaAppend` up to its writes: the partition and the messages that
    are to be written, if there are any. -/
def Broker.beginAppend (b : Broker) (env : ReplicaEnv) (request : Request) :
    Broker × Option (UInt32 × List Message) :=
  match (b.readReplicaAppend request).result with
  | .error _ => (b, none)
  | .ok (header, partition, messages) =>
      if b.PassesChecks env request header partition messages then
        ({ b with coordinator := (b.observedBy env request header partition messages).1 },
          some (partition, messages))
      else (b, none)

/-! ## Events -/

/-- What can happen to a broker. -/
inductive BrokerEvent
  | createTopic (name : Bytes) (count : UInt32)
  /-- A step of an election, or an answer to a heartbeat. -/
  | operate (op : Op)
  /-- A heartbeat or a replica append arrives from another broker. -/
  | deliver (env : ReplicaEnv) (request : Request)
  /-- A fetch is answered. -/
  | fetched (topic : Bytes) (partition : UInt32) (messages : List Message)
  /-- The next message of a replica append or a fetch is written. -/
  | write (job : Nat) (io : StoreIo)
  /-- A produce request arrives, by itself or as an item of a batch. -/
  | receive (env : ProduceEnv) (request : Request) (rate quota : Bool)
  /-- An admitted request is stored. -/
  | store (job : Nat)
  /-- `Replicate` calls the next peer, which answers or does not. -/
  | push (job : Nat) (answer : Option Int)
  /-- `Replicate` has called all peers. -/
  | finish (job : Nat) (now : Int)
  /-- The broker is stopped and started again. -/
  | restart (follower : Bool)

/-- Operations that do not touch the table of partitions. -/
def Op.electoral : Op → Bool
  | .observeAppend _ _ _ _ _ _ => false
  | .advanceCommit _ _ _ => false
  | .recordLocalOffset _ _ => false
  | _ => true

namespace BusyBroker

variable (s : BusyBroker)

/-- A request of another broker. Requests of clients are events of their
    own. -/
def handle (env : ReplicaEnv) (request : Request) : BusyBroker :=
  match s.broker.acceptRequest [] request with
  | none => s
  | some normalized =>
      match normalized.command with
      | .heartbeat =>
          if normalized.hasFlag flagReplication then
            { s with broker := (s.broker.handleReplicaHeartbeat env.now normalized).1 }
          else s
      | .replicaAppend =>
          match s.broker.beginAppend env normalized with
          | (b, none) => { s with broker := b }
          | (b, some (partition, messages)) =>
              { s with
                broker := b
                writing := s.writing ++
                  [⟨normalized.topic, partition, messages, some (lastOffset messages)⟩] }
      | _ => s

/-- The next message of a job is written, or what is behind the last one is
    recorded. A failed write ends the job. -/
def writeNext (index : Nat) (io : StoreIo) (job : WriteJob) : BusyBroker :=
  match job.messages with
  | [] =>
      { s with
        broker := { s.broker with
          coordinator := match job.record with
            | none => s.broker.coordinator
            | some offset =>
                s.broker.coordinator.recordLocalOffset (partitionKey job.topic job.partition)
                  offset }
        writing := s.writing.eraseIdx index }
  | m :: rest =>
      let appended := s.broker.storage.appendReplica io job.topic job.partition m
      { s with
        broker := { s.broker with storage := appended.1 }
        writing := if appended.2 = none then s.writing.set index { job with messages := rest }
          else s.writing.eraseIdx index }

/-- A produce request arrives. -/
def receive (env : ProduceEnv) (request : Request) (rate quota : Bool) : BusyBroker :=
  if request.hasFlag flagReplication then s
  else
    match s.broker.admitProduce env request rate quota with
    | (b, .error _) => { s with broker := b }
    | (b, .ok (partition, body)) =>
        { s with broker := b, admitted := s.admitted ++ [⟨env, request, partition, body⟩] }

/-- An admitted request is stored. A request that waits for the replicas goes
    on, any other is answered. -/
def store (index : Nat) (job : StoreJob) : BusyBroker :=
  let s := { s with admitted := s.admitted.eraseIdx index }
  match s.broker.storeProduce job.env job.request job.partition job.body with
  | (b, none) => { s with broker := b }
  | (b, some message) =>
      if ¬ job.request.waitsForAll then
        { s with
          broker := b.remember job.env job.request (produced job.request job.partition message) }
      else if b.replicationPeers = [] ∨ b.replicationQuorum ≤ 1 then { s with broker := b }
      else
        { s with
          broker := b
          replicating := s.replicating ++
            [{ request := job.request, partition := job.partition, message := message,
               waiting := b.replicationPeers }] }

/-- `Replicate` calls the next peer, and notes its answer. -/
def push (index : Nat) (answer : Option Int) (job : ReplicateJob) : BusyBroker :=
  match job.waiting, answer with
  | [], _ => s
  | _ :: rest, none => { s with replicating := s.replicating.set index { job with waiting := rest } }
  | peer :: rest, some now =>
      { s with
        broker := { s.broker with
          coordinator := s.broker.coordinator.observeHeartbeat
            (partitionKey job.request.topic job.partition) peer.nodeId job.message.offset now }
        replicating := s.replicating.set index
          { job with waiting := rest, answers := job.answers + 1 } }

/-- `Replicate` returns. -/
def finish (index : Nat) (now : Int) (job : ReplicateJob) : BusyBroker :=
  if job.waiting ≠ [] then s
  else
    let s := { s with replicating := s.replicating.eraseIdx index }
    if 1 + job.answers < s.broker.replicationQuorum then s
    else
      let committed := s.broker.coordinator.advanceCommit
        (partitionKey job.request.topic job.partition) job.message.offset now
      let b := { s.broker with coordinator := committed.1 }
      if ¬ committed.2 then { s with broker := b }
      else
        { s with
          broker := b.remember { doneNow := now } job.request
            (produced job.request job.partition job.message) }

end BusyBroker

/-- The broker after an event. An event that is not possible does nothing. -/
def BrokerEvent.exec (s : BusyBroker) : BrokerEvent → BusyBroker
  | .createTopic name count => { s with broker := (s.broker.createTopic name count).1 }
  | .operate op =>
      if op.electoral then
        { s with broker := { s.broker with coordinator := op.exec s.broker.coordinator } }
      else s
  | .deliver env request => s.handle env request
  | .fetched topic partition messages =>
      if partition < (s.broker.topics.lookup topic).getD 0 then
        { s with writing := s.writing ++ [⟨topic, partition, messages, none⟩] }
      else s
  | .write index io =>
      match s.writing[index]? with
      | none => s
      | some job => s.writeNext index io job
  | .receive env request rate quota => s.receive env request rate quota
  | .store index =>
      match s.admitted[index]? with
      | none => s
      | some job => s.store index job
  | .push index answer =>
      match s.replicating[index]? with
      | none => s
      | some job => s.push index answer job
  | .finish index now =>
      match s.replicating[index]? with
      | none => s
      | some job => s.finish index now job
  | .restart follower => { broker := s.broker.restarted follower }

/-! ## What is promised -/

/-- An offset is 0, or a message of the log has it. -/
def Broker.Has (b : Broker) (topic : Bytes) (partition : UInt32) (offset : UInt64) : Prop :=
  offset = 0 ∨ ∃ m ∈ (b.storage.partition topic partition).messages, m.offset = offset

instance (b : Broker) (topic : Bytes) (partition : UInt32) (offset : UInt64) :
    Decidable (b.Has topic partition offset) :=
  inferInstanceAs (Decidable (offset = 0 ∨
    ∃ m ∈ (b.storage.partition topic partition).messages, m.offset = offset))

/-- Every commit index is 0 or the offset of a message in the log. -/
def Broker.CommitsPresent (b : Broker) : Prop :=
  ∀ topic partition,
    b.Has topic partition (b.coordinator.partitionCommitIndex (partitionKey topic partition))

/-- What an accepted request of a leader reports: the partition, an offset and
    the commit index of the leader. -/
def Broker.observes (b : Broker) (env : ReplicaEnv) (request : Request) :
    Option (Bytes × UInt32 × UInt64 × UInt64) :=
  match b.acceptRequest [] request with
  | none => none
  | some normalized =>
      match normalized.command with
      | .heartbeat =>
          match (readReplicaHeartbeat normalized.topic normalized.payload).result with
          | .ok ⟨nodeId, partition, offset, some (term, commit)⟩ =>
              if normalized.hasFlag flagReplication ∧ b.coordinator.acceptsLeader term nodeId then
                some (normalized.topic, partition, offset, commit)
              else none
          | _ => none
      | .replicaAppend =>
          match (b.readReplicaAppend normalized).result with
          | .error _ => none
          | .ok (header, partition, messages) =>
              if b.PassesChecks env normalized header partition messages then
                some (normalized.topic, partition, lastOffset messages, header.commit)
              else none
      | _ => none

/-- Of the offset and the commit index in an accepted request of a leader, the
    log has one. -/
def BrokerEvent.Covered (s : BusyBroker) : BrokerEvent → Prop
  | .deliver env request =>
      ∀ topic partition offset commit,
        s.broker.observes env request = some (topic, partition, offset, commit) →
        s.broker.Has topic partition offset ∨ s.broker.Has topic partition commit
  | _ => True

/-! ## One append by itself -/

section Alone

/-- The handler is what it does up to its writes, and then the writes. -/
theorem handleReplicaAppend_begin (b : Broker) (env : ReplicaEnv) (request : Request) :
    (b.handleReplicaAppend env request).1
      = match b.beginAppend env request with
        | (b', none) => b'
        | (b', some (partition, messages)) =>
            (b'.storeReplicas env request partition messages).1 := by
  rw [handleReplicaAppend_eq]
  unfold Broker.beginAppend
  cases (b.readReplicaAppend request).result with
  | error status => rfl
  | ok read =>
      rcases read with ⟨header, partition, messages⟩
      simp only
      by_cases hpass : b.PassesChecks env request header partition messages
      · rw [if_pos hpass, applyAppend_passed b env request header partition messages hpass]
      · rw [if_neg hpass]
        exact (applyAppend_refused b env request header partition messages hpass).1

/-- The events that write one message after the other of the only job. -/
def writes (ios : Nat → StoreIo) (index count : Nat) : List BrokerEvent :=
  (List.range' index count).map (fun i => .write 0 (ios i))

theorem foldl_writes_idle (ios : Nat → StoreIo) (index count : Nat) (b : Broker) :
    (writes ios index count).foldl BrokerEvent.exec { broker := b } = { broker := b } := by
  induction count generalizing index with
  | zero => rfl
  | succ count ih =>
      rw [writes, List.range'_succ, List.map_cons, List.foldl_cons]
      exact ih (index + 1)

/-- The single writes of a job are the loop of the handler. -/
theorem foldl_writes (ios : Nat → StoreIo) (topic : Bytes) (partition : UInt32) (last : UInt64)
    (ms : List Message) (index : Nat) (b : Broker) :
    (writes ios index (ms.length + 1)).foldl BrokerEvent.exec
        { broker := b, writing := [⟨topic, partition, ms, some last⟩] }
      = { broker :=
            match appendReplicas ios topic partition ms index b.storage with
            | (e, some _) => { b with storage := e }
            | (e, none) =>
                { b with
                  storage := e
                  coordinator := b.coordinator.recordLocalOffset (partitionKey topic partition)
                    last } } := by
  induction ms generalizing index b with
  | nil => rfl
  | cons m ms ih =>
      rw [writes, List.length_cons, List.range'_succ, List.map_cons, List.foldl_cons, ← writes]
      simp only [BrokerEvent.exec, List.getElem?_cons_zero, BusyBroker.writeNext, appendReplicas]
      cases hreply : b.storage.appendReplica (ios index) topic partition m with
      | mk e outcome =>
          cases outcome with
          | some err =>
              simp only [reduceCtorEq, if_false, List.eraseIdx_cons_zero]
              exact foldl_writes_idle ios (index + 1) (ms.length + 1) _
          | none =>
              simp only [if_true, List.set_cons_zero]
              exact ih (index + 1) { b with storage := e }

/-- For a replica append, `Handle` checks the version, the flags and the
    token. -/
theorem receiveAppend_accepted (b : Broker) (env : ReplicaEnv) (request : Request)
    (hcommand : request.command = .replicaAppend) :
    (b.receiveAppend env request).1
      = match b.acceptRequest [] request with
        | none => b
        | some normalized => (b.handleReplicaAppend env normalized).1 := by
  have hreplication : request.isReplication ∨ request.hasFlag flagReplication = true := by
    simp only [Request.isReplication, hcommand, decide_eq_true_eq, true_or, or_true]
  unfold Broker.receiveAppend Broker.acceptRequest
  rw [if_pos hreplication]
  split
  · rfl
  · split
    · rfl
    · split
      · rfl
      · cases b.validateReplicationRequest request <;> rfl

/-- A replica append that nothing comes between is what the handler does. -/
theorem run_append_alone (b : Broker) (env : ReplicaEnv) (request : Request)
    (hcommand : request.command = .replicaAppend) :
    ∃ count, (BrokerEvent.deliver env request :: writes env.ios 0 count).foldl BrokerEvent.exec
      { broker := b } = { broker := (b.receiveAppend env request).1 } := by
  rw [receiveAppend_accepted b env request hcommand]
  simp only [List.foldl_cons, BrokerEvent.exec, BusyBroker.handle]
  cases haccept : b.acceptRequest [] request with
  | none => exact ⟨0, rfl⟩
  | some normalized =>
      have hsame : normalized.command = .replicaAppend :=
        (acceptRequest_command haccept).trans hcommand
      simp only [hsame]
      rw [handleReplicaAppend_begin]
      cases b.beginAppend env normalized with
      | mk b' job =>
          cases job with
          | none => exact ⟨0, rfl⟩
          | some job =>
              refine ⟨job.2.length + 1, ?_⟩
              simp only [List.nil_append]
              rw [foldl_writes, Broker.storeReplicas]
              cases appendReplicas env.ios normalized.topic job.1 job.2 0 b'.storage with
              | mk e outcome => cases outcome <;> rfl

end Alone

/-! ## Offsets in a log -/

section Has

variable {b : Broker} {topic : Bytes} {partition : UInt32}

/-- A log that has an offset has all smaller ones. -/
theorem Broker.Has.of_le (hcounted : b.storage.Counted) {x y : UInt64} (hle : y ≤ x)
    (h : b.Has topic partition x) : b.Has topic partition y := by
  rcases h with rfl | ⟨m, hm, rfl⟩
  · exact Or.inl (le_antisymm hle (UInt64.le_iff_toNat_le.mpr (Nat.zero_le _)))
  · rcases List.mem_iff_getElem.mp hm with ⟨i, hi, rfl⟩
    have hnumbered := (hcounted topic partition).numbered
    rw [numbered_getElem 0 _ hnumbered i hi, UInt64.zero_add] at hle
    -- Offsets are positions modulo 2^64, so the offset is no larger than the position.
    have hposition : y.toNat ≤ i := by
      refine (UInt64.le_iff_toNat_le.mp hle).trans ?_
      rw [UInt64.toNat_ofNat']
      exact Nat.mod_le i _
    refine Or.inr ⟨_, List.getElem_mem (hposition.trans_lt hi), ?_⟩
    rw [numbered_getElem 0 _ hnumbered _ (hposition.trans_lt hi), UInt64.zero_add,
      UInt64.ofNat_toNat]

/-- The smaller of an offset and a commit index, which never goes back, is in
    the log if and only if one of the two is. -/
theorem Broker.has_commit_iff (hcounted : b.storage.Counted) {old commit offset : UInt64}
    (hold : b.Has topic partition old) :
    b.Has topic partition (min (max old commit) offset)
      ↔ b.Has topic partition offset ∨ b.Has topic partition commit := by
  constructor
  · intro h
    rcases le_total (max old commit) offset with hle | hle
    · rw [min_eq_left hle] at h
      exact Or.inr (h.of_le hcounted (le_max_right old commit))
    · rw [min_eq_right hle] at h
      exact Or.inl h
  · intro h
    rcases h with hoffset | hcommit
    · exact hoffset.of_le hcounted (min_le_right _ _)
    · have hmax : b.Has topic partition (max old commit) := by
        rcases max_choice old commit with heq | heq
        · rw [heq]
          exact hold
        · rw [heq]
          exact hcommit
      exact hmax.of_le hcounted (min_le_left _ _)

end Has

/-! ## What lasts -/

/-- Offsets are positions, and every message that waits for its replicas is in
    the log. -/
structure BusyBroker.Busy (s : BusyBroker) : Prop where
  counted : s.broker.storage.Counted
  replicating : ∀ job ∈ s.replicating,
    job.message ∈ (s.broker.storage.partition job.request.topic job.partition).messages

/-- Between two states one log has grown, and what waits for its replicas has
    waited before or is in the log. -/
structure Forward (s s' : BusyBroker) : Prop where
  logs : ∃ topic partition ms, Extended s.broker.storage s'.broker.storage topic partition ms ∧
    Numbered (s.broker.storage.partition topic partition).nextOffset ms
  jobs : ∀ job ∈ s'.replicating,
    (∃ old ∈ s.replicating, old.request = job.request ∧ old.partition = job.partition ∧
      old.message = job.message) ∨
    job.message ∈ (s'.broker.storage.partition job.request.topic job.partition).messages

section Forward

variable {s s' : BusyBroker}

theorem Forward.mem (h : Forward s s') {m : Message} {topic : Bytes} {partition : UInt32}
    (hm : m ∈ (s.broker.storage.partition topic partition).messages) :
    m ∈ (s'.broker.storage.partition topic partition).messages := by
  rcases h.logs with ⟨_, _, _, hext, _⟩
  exact (hext.isPrefix topic partition).subset hm

theorem Forward.busy (h : Forward s s') (hs : s.Busy) : s'.Busy := by
  rcases h.logs with ⟨topic, partition, ms, hext, hnumbered⟩
  refine ⟨hext.counted hs.counted hnumbered, fun job hjob => ?_⟩
  rcases h.jobs job hjob with ⟨old, hold, hrequest, hpartition, hmessage⟩ | hmem
  · have hmem := h.mem (hs.replicating old hold)
    rwa [hrequest, hpartition, hmessage] at hmem
  · exact hmem

/-- Where no commit index moves, growing logs keep them. -/
theorem Forward.present (h : Forward s s')
    (hcommits : ∀ q, s'.broker.coordinator.partitionCommitIndex q
      = s.broker.coordinator.partitionCommitIndex q)
    (hs : s.broker.CommitsPresent) : s'.broker.CommitsPresent := by
  intro topic partition
  rw [hcommits]
  refine (hs topic partition).imp_right fun ⟨m, hm, hoffset⟩ => ⟨m, h.mem hm, hoffset⟩

theorem logs_of_eq (hstorage : s'.broker.storage = s.broker.storage) :
    ∃ topic partition ms, Extended s.broker.storage s'.broker.storage topic partition ms ∧
      Numbered (s.broker.storage.partition topic partition).nextOffset ms := by
  rw [hstorage]
  exact ⟨[], 0, [], (SameMessages.refl _).extended [] 0, trivial⟩

/-- A step that leaves the logs alone and begins no replication. -/
theorem Forward.quiet (hstorage : s'.broker.storage = s.broker.storage)
    (hjobs : s'.replicating ⊆ s.replicating) : Forward s s' :=
  ⟨logs_of_eq hstorage, fun job hjob => Or.inl ⟨job, hjobs hjob, rfl, rfl, rfl⟩⟩

theorem handle_quiet (env : ReplicaEnv) (request : Request) :
    (s.handle env request).broker.storage = s.broker.storage ∧
      (s.handle env request).replicating = s.replicating := by
  unfold BusyBroker.handle
  split
  · exact ⟨rfl, rfl⟩
  · rename_i normalized _
    split
    · split
      · refine ⟨?_, rfl⟩
        rcases handleReplicaHeartbeat_cases s.broker env.now normalized with ⟨_, hb⟩ | ⟨h, _, hb⟩ <;>
          simp only [hb]
      · exact ⟨rfl, rfl⟩
    · have hstorage : (s.broker.beginAppend env normalized).1.storage = s.broker.storage := by
        unfold Broker.beginAppend
        split
        · rfl
        · split <;> rfl
      split
      · rename_i b heq
        rw [heq] at hstorage
        exact ⟨hstorage, rfl⟩
      · rename_i b partition messages heq
        rw [heq] at hstorage
        exact ⟨hstorage, rfl⟩
    · exact ⟨rfl, rfl⟩

theorem writeNext_forward (index : Nat) (io : StoreIo) (job : WriteJob) :
    Forward s (s.writeNext index io job) := by
  unfold BusyBroker.writeNext
  split
  · exact .quiet rfl (List.Subset.refl _)
  · rename_i m rest _
    refine ⟨⟨job.topic, job.partition, ?_⟩, fun job hjob => Or.inl ⟨job, hjob, rfl, rfl, rfl⟩⟩
    rcases store_appendReplica_cases s.broker.storage io job.topic job.partition m with
      ⟨hstored, hoffset, _⟩ | ⟨hsame, _⟩
    · exact ⟨[m], hstored.extended, hoffset, trivial⟩
    · exact ⟨[], hsame.extended _ _, trivial⟩

/-- An admitted request is stored, and its message may have to wait for its
    replicas. -/
theorem store_step (index : Nat) (job : StoreJob) :
    ∃ ops ms, s.broker.Step (s.store index job).broker ops job.request.topic job.partition ms ∧
      ms.length ≤ 1 ∧ (s.store index job).admitted = s.admitted.eraseIdx index ∧
      ∀ found ∈ (s.store index job).replicating, found ∈ s.replicating ∨
        (found.request = job.request ∧ found.partition = job.partition ∧ found.message ∈ ms) := by
  rcases storeProduce_step s.broker job.env job.request job.partition job.body with
    ⟨ops, ms, hstep, hmessage, hms, _⟩
  have hone : ms.length ≤ 1 := by
    rcases hms with rfl | rfl
    · exact Nat.zero_le 1
    · exact le_rfl
  refine ⟨ops, ms, ?_⟩
  simp only [BusyBroker.store]
  cases hstore : s.broker.storeProduce job.env job.request job.partition job.body with
  | mk b outcome =>
      rw [hstore] at hstep hmessage
      cases outcome with
      | none => exact ⟨hstep, hone, rfl, fun found hfound => Or.inl hfound⟩
      | some message =>
          simp only
          split
          · rcases remember_frame b job.env job.request
              (produced job.request job.partition message) with ⟨cache, hframe⟩
            simp only [hframe]
            exact ⟨⟨hstep.settings, hstep.topics, hstep.coordinator, hstep.storage, hstep.numbered,
              hstep.storable⟩, hone, trivial, fun found hfound => Or.inl hfound⟩
          · split
            · exact ⟨hstep, hone, rfl, fun found hfound => Or.inl hfound⟩
            · refine ⟨hstep, hone, rfl, fun found hfound => ?_⟩
              rcases List.mem_append.mp hfound with hfound | hfound
              · exact Or.inl hfound
              · -- The new job waits for the message that was just stored.
                rw [List.mem_singleton.mp hfound, hmessage message rfl]
                exact Or.inr ⟨rfl, rfl, List.mem_singleton_self message⟩

theorem store_forward (index : Nat) (job : StoreJob) : Forward s (s.store index job) := by
  rcases store_step (s := s) index job with ⟨ops, ms, hstep, _, _, hjobs⟩
  refine ⟨⟨_, _, ms, hstep.storage, hstep.numbered⟩, fun found hfound => ?_⟩
  rcases hjobs found hfound with hold | ⟨hrequest, hpartition, hmem⟩
  · exact Or.inl ⟨found, hold, rfl, rfl, rfl⟩
  · right
    rw [hrequest, hpartition, hstep.storage.messages]
    exact List.mem_append_right _ hmem

/-- Admission touches neither logs nor coordinator. -/
theorem receive_quiet (env : ProduceEnv) (request : Request) (rate quota : Bool) :
    (s.receive env request rate quota).broker.storage = s.broker.storage ∧
      (s.receive env request rate quota).broker.coordinator = s.broker.coordinator ∧
      (s.receive env request rate quota).replicating = s.replicating := by
  rcases admitProduce_frame s.broker env request rate quota with ⟨cache, windows, hframe⟩
  unfold BusyBroker.receive
  split
  · exact ⟨rfl, rfl, rfl⟩
  · split
    all_goals
      rename_i hadmission
      rw [hadmission] at hframe
      simp only at hframe
      subst hframe
      exact ⟨rfl, rfl, rfl⟩

theorem push_forward (index : Nat) (answer : Option Int) (job : ReplicateJob)
    (hjob : job ∈ s.replicating) : Forward s (s.push index answer job) := by
  -- A job that goes on to its next peer keeps its message.
  have hset : ∀ (s' : BusyBroker) (next : ReplicateJob), s'.broker.storage = s.broker.storage →
      s'.replicating = s.replicating.set index next → next.request = job.request →
      next.partition = job.partition → next.message = job.message → Forward s s' := by
    intro s' next hstorage hjobs hrequest hpartition hmessage
    refine ⟨logs_of_eq hstorage, fun found hfound => Or.inl ?_⟩
    rw [hjobs] at hfound
    rcases List.mem_or_eq_of_mem_set hfound with hfound | rfl
    · exact ⟨found, hfound, rfl, rfl, rfl⟩
    · exact ⟨job, hjob, hrequest.symm, hpartition.symm, hmessage.symm⟩
  unfold BusyBroker.push
  split
  · exact .quiet rfl (List.Subset.refl _)
  · exact hset _ _ rfl rfl rfl rfl rfl
  · exact hset _ _ rfl rfl rfl rfl rfl

theorem finish_forward (index : Nat) (now : Int) (job : ReplicateJob) :
    Forward s (s.finish index now job) := by
  simp only [BusyBroker.finish]
  split
  · exact .quiet rfl (List.Subset.refl _)
  · split
    · exact .quiet rfl (List.eraseIdx_subset)
    · split
      · exact .quiet rfl (List.eraseIdx_subset)
      · rcases remember_frame { s.broker with
            coordinator := (s.broker.coordinator.advanceCommit
              (partitionKey job.request.topic job.partition) job.message.offset now).1 }
          { doneNow := now } job.request (produced job.request job.partition job.message) with
          ⟨cache, hframe⟩
        refine .quiet ?_ (List.eraseIdx_subset)
        simp only [hframe]

/-- Every event but a restart lets the logs grow. -/
theorem exec_forward (e : BrokerEvent) (he : ∀ follower, e ≠ .restart follower) :
    Forward s (e.exec s) := by
  cases e with
  | createTopic name count =>
      refine .quiet ?_ (List.Subset.refl _)
      simp only [BrokerEvent.exec, Broker.createTopic]
      split
      · rfl
      · split <;> rfl
  | operate op =>
      simp only [BrokerEvent.exec]
      split <;> exact .quiet rfl (List.Subset.refl _)
  | deliver env request =>
      rcases handle_quiet (s := s) env request with ⟨hstorage, hjobs⟩
      exact .quiet hstorage (by rw [BrokerEvent.exec, hjobs]; exact List.Subset.refl _)
  | fetched topic partition messages =>
      simp only [BrokerEvent.exec]
      split <;> exact .quiet rfl (List.Subset.refl _)
  | write index io =>
      simp only [BrokerEvent.exec]
      split
      · exact .quiet rfl (List.Subset.refl _)
      · exact writeNext_forward index io _
  | receive env request rate quota =>
      rcases receive_quiet (s := s) env request rate quota with ⟨hstorage, _, hjobs⟩
      exact .quiet hstorage (by rw [BrokerEvent.exec, hjobs]; exact List.Subset.refl _)
  | store index =>
      simp only [BrokerEvent.exec]
      split
      · exact .quiet rfl (List.Subset.refl _)
      · exact store_forward index _
  | push index answer =>
      simp only [BrokerEvent.exec]
      split
      · exact .quiet rfl (List.Subset.refl _)
      · rename_i job hjob
        exact push_forward index answer job (List.mem_of_getElem? hjob)
  | finish index now =>
      simp only [BrokerEvent.exec]
      split
      · exact .quiet rfl (List.Subset.refl _)
      · exact finish_forward index now _
  | restart follower => exact absurd rfl (he follower)

/-- What lasts through every run. -/
theorem exec_busy (e : BrokerEvent) (hs : s.Busy) : (e.exec s).Busy := by
  by_cases he : ∃ follower, e = .restart follower
  · rcases he with ⟨follower, rfl⟩
    exact ⟨restarted_counted hs.counted follower, fun job hjob => absurd hjob List.not_mem_nil⟩
  · exact (exec_forward e (not_exists.mp he)).busy hs

end Forward

/-! ## Commit indices -/

section Commits

variable {s : BusyBroker}

/-- Two brokers report the same commit indices. -/
def SameCommits (b b' : Broker) : Prop :=
  ∀ q, b'.coordinator.partitionCommitIndex q = b.coordinator.partitionCommitIndex q

theorem Op.electoral_entry {op : Op} (h : op.electoral = true) (c : ReplicationCoordinator) :
    op.entry c = none := by
  cases op <;> first | rfl | exact absurd h Bool.false_ne_true

theorem recordLocalOffset_commitIndex (c : ReplicationCoordinator) (p : Bytes) (offset : UInt64)
    (q : Bytes) :
    (c.recordLocalOffset p offset).partitionCommitIndex q = c.partitionCommitIndex q := by
  rw [show (c.recordLocalOffset p offset) = (Op.recordLocalOffset p offset).exec c from rfl,
    Op.partitionCommitIndex_of_some rfl q]
  split
  · rename_i hq
    rw [hq]
    rfl
  · rfl

theorem observeHeartbeat_commitIndex (c : ReplicationCoordinator) (p node : Bytes) (offset : UInt64)
    (now : Int) (q : Bytes) :
    (c.observeHeartbeat p node offset now).partitionCommitIndex q = c.partitionCommitIndex q := by
  rw [show c.observeHeartbeat p node offset now = (Op.observeHeartbeat p node offset now).exec c
    from rfl, Op.partitionCommitIndex_of_none rfl q]

theorem writeNext_commits (index : Nat) (io : StoreIo) (job : WriteJob) :
    SameCommits s.broker (s.writeNext index io job).broker := by
  intro q
  unfold BusyBroker.writeNext
  split
  · simp only
    split
    · rfl
    · exact recordLocalOffset_commitIndex _ _ _ q
  · rfl

theorem storeProduce_commits (b : Broker) (env : ProduceEnv) (request : Request)
    (partition : UInt32) (body : ProduceBody) :
    SameCommits b (b.storeProduce env request partition body).1 := by
  intro q
  simp only [Broker.storeProduce]
  split
  · rfl
  · exact recordLocalOffset_commitIndex _ _ _ q

theorem store_commits (index : Nat) (job : StoreJob) :
    SameCommits s.broker (s.store index job).broker := by
  intro q
  have hstore := storeProduce_commits s.broker job.env job.request job.partition job.body q
  simp only [BusyBroker.store]
  cases hresult : s.broker.storeProduce job.env job.request job.partition job.body with
  | mk b outcome =>
      rw [hresult] at hstore
      cases outcome with
      | none => exact hstore
      | some message =>
          simp only
          split
          · rcases remember_frame b job.env job.request
              (produced job.request job.partition message) with ⟨cache, hframe⟩
            rw [hframe]
            exact hstore
          · split <;> exact hstore

theorem push_commits (index : Nat) (answer : Option Int) (job : ReplicateJob) :
    SameCommits s.broker (s.push index answer job).broker := by
  intro q
  unfold BusyBroker.push
  split
  · rfl
  · rfl
  · rename_i peer rest now _
    exact observeHeartbeat_commitIndex _ _ _ _ now q

/-- Only requests of other brokers, the end of a replication and restarts move
    commit indices. -/
theorem exec_commits (e : BrokerEvent) (hdeliver : ∀ env request, e ≠ .deliver env request)
    (hfinish : ∀ index now, e ≠ .finish index now) (hrestart : ∀ follower, e ≠ .restart follower) :
    SameCommits s.broker (e.exec s).broker := by
  intro q
  cases e with
  | createTopic name count =>
      simp only [BrokerEvent.exec, Broker.createTopic]
      split
      · rfl
      · split <;> rfl
  | operate op =>
      simp only [BrokerEvent.exec]
      split
      · rename_i helectoral
        exact Op.partitionCommitIndex_of_none (op.electoral_entry helectoral _) q
      · rfl
  | deliver env request => exact absurd rfl (hdeliver env request)
  | fetched topic partition messages =>
      simp only [BrokerEvent.exec]
      split <;> rfl
  | write index io =>
      simp only [BrokerEvent.exec]
      split
      · rfl
      · exact writeNext_commits index io _ q
  | receive env request rate quota =>
      rw [BrokerEvent.exec, (receive_quiet (s := s) env request rate quota).2.1]
  | store index =>
      simp only [BrokerEvent.exec]
      split
      · rfl
      · exact store_commits index _ q
  | push index answer =>
      simp only [BrokerEvent.exec]
      split
      · rfl
      · exact push_commits index answer _ q
  | finish index now => exact absurd rfl (hfinish index now)
  | restart follower => exact absurd rfl (hrestart follower)

/-- An accepted append or heartbeat sets one commit index to the smaller of the
    offset and the largest commit index so far. -/
theorem observeAppend_commitIndex {c : ReplicationCoordinator} {t : UInt64} {l : Bytes}
    (h : c.acceptsLeader t l = true) (p : Bytes) (off commit : UInt64) (now : Int) (q : Bytes) :
    (c.observeAppend p t l off commit now).1.partitionCommitIndex q
      = if q = p then min (max (c.partitionCommitIndex p) commit) off
        else c.partitionCommitIndex q := by
  have hentry : (Op.observeAppend p t l off commit now).entry c
      = some (p, { c.partitionStates.get p with
          commitIndex := min (max (c.partitionStates.get p).commitIndex commit) off }) := by
    simp only [Op.entry, h, if_true]
  exact Op.partitionCommitIndex_of_some hentry q

theorem observeAppend_refused {c : ReplicationCoordinator} {t : UInt64} {l : Bytes}
    (h : ¬ c.acceptsLeader t l = true) (p : Bytes) (off commit : UInt64) (now : Int) :
    (c.observeAppend p t l off commit now).1 = c := by
  rw [observeAppend, if_pos h]

/-- The commit index of a partition after a request that reports an offset and
    a commit index for one. -/
def Broker.commitAfter (b : Broker) (q : Bytes) :
    Option (Bytes × UInt32 × UInt64 × UInt64) → UInt64
  | none => b.coordinator.partitionCommitIndex q
  | some (topic, partition, offset, commit) =>
      let key := partitionKey topic partition
      if q = key then min (max (b.coordinator.partitionCommitIndex key) commit) offset
      else b.coordinator.partitionCommitIndex q

theorem heartbeat_commits (b : Broker) (now : Int) (request : Request) (q : Bytes) :
    (b.handleReplicaHeartbeat now request).1.coordinator.partitionCommitIndex q
      = b.commitAfter q
        (match (readReplicaHeartbeat request.topic request.payload).result with
        | .ok ⟨nodeId, partition, offset, some (term, commit)⟩ =>
            if b.coordinator.acceptsLeader term nodeId then
              some (request.topic, partition, offset, commit)
            else none
        | _ => none) := by
  rcases handleReplicaHeartbeat_cases b now request with ⟨⟨status, hread⟩, hb⟩ | ⟨h, hread, hb⟩
  · rw [hread, hb]
    rfl
  · rw [hread, hb]
    rcases h with ⟨nodeId, partition, offset, _ | ⟨term, commit⟩⟩
    · exact observeHeartbeat_commitIndex _ _ _ _ now q
    · simp only [ReplicaHeartbeat.op, Op.exec]
      by_cases haccepts : b.coordinator.acceptsLeader term nodeId = true
      · rw [if_pos haccepts, observeAppend_commitIndex haccepts]
        rfl
      · rw [if_neg haccepts, observeAppend_refused haccepts]
        rfl

theorem beginAppend_commits (b : Broker) (env : ReplicaEnv) (request : Request)
    (hterm : request.hasFlag flagReplicationTerm = true) (q : Bytes) :
    (b.beginAppend env request).1.coordinator.partitionCommitIndex q
      = b.commitAfter q
        (match (b.readReplicaAppend request).result with
        | .error _ => none
        | .ok (header, partition, messages) =>
            if b.PassesChecks env request header partition messages then
              some (request.topic, partition, lastOffset messages, header.commit)
            else none) := by
  unfold Broker.beginAppend
  cases (b.readReplicaAppend request).result with
  | error status => rfl
  | ok read =>
      rcases read with ⟨header, partition, messages⟩
      simp only
      by_cases hpass : b.PassesChecks env request header partition messages
      · have hleader := hpass.leader
        rw [if_pos hpass, if_pos hpass]
        simp only [Broker.observedBy, if_pos hterm] at hleader ⊢
        -- The check of the leader is among the checks that were passed.
        have haccepts : b.coordinator.acceptsLeader header.term header.leaderId = true := by
          by_contra hno
          rw [observeAppend, if_pos hno] at hleader
          exact Bool.false_ne_true hleader
        exact observeAppend_commitIndex haccepts _ _ _ _ q
      · rw [if_neg hpass, if_neg hpass]
        rfl

theorem handle_commits (env : ReplicaEnv) (request : Request) (q : Bytes) :
    (s.handle env request).broker.coordinator.partitionCommitIndex q
      = s.broker.commitAfter q (s.broker.observes env request) := by
  unfold BusyBroker.handle Broker.observes
  cases haccept : s.broker.acceptRequest [] request with
  | none => rfl
  | some normalized =>
      simp only
      cases hcommand : normalized.command with
      | heartbeat =>
          simp only
          by_cases hflag : normalized.hasFlag flagReplication = true
          · simp only [hflag, if_true, true_and]
            exact heartbeat_commits s.broker env.now normalized q
          · rw [if_neg hflag]
            split
            · rw [if_neg (fun h => hflag h.1)]
              rfl
            · rfl
      | replicaAppend =>
          simp only
          rw [← beginAppend_commits s.broker env normalized
            (acceptRequest_append haccept hcommand).2 q]
          split
          · rename_i heq
            rw [heq]
          · rename_i heq
            rw [heq]
      | _ => rfl

/-- A request of another broker keeps commit indices in the log if and only if
    the log has one of the numbers it reports. -/
theorem handle_commitsPresent_iff (hbusy : s.Busy) (hs : s.broker.CommitsPresent)
    (env : ReplicaEnv) (request : Request) :
    (s.handle env request).broker.CommitsPresent ↔ (BrokerEvent.deliver env request).Covered s := by
  have hstorage := (handle_quiet (s := s) env request).1
  simp only [Broker.CommitsPresent, BrokerEvent.Covered, handle_commits, Broker.Has, hstorage]
  cases hobserves : s.broker.observes env request with
  | none => exact iff_of_true hs fun _ _ _ _ h => nomatch h
  | some report =>
      rcases report with ⟨topic, partition, offset, commit⟩
      have hiff := @Broker.has_commit_iff s.broker topic partition hbusy.counted _ commit offset
        (hs topic partition)
      constructor
      · intro hall _ _ _ _ heq
        cases heq
        refine hiff.mp ?_
        have hplace := hall topic partition
        rwa [Broker.commitAfter, if_pos rfl] at hplace
      · intro hcovered t n
        have hvalue := hiff.mpr (hcovered _ _ _ _ rfl)
        simp only [Broker.commitAfter]
        split
        · rename_i hkey
          rcases partitionKey_injective _ _ _ _ hkey with ⟨rfl, rfl⟩
          exact hvalue
        · exact hs t n

theorem advanceCommit_commitIndex (c : ReplicationCoordinator) (p : Bytes) (off : UInt64)
    (now : Int) (q : Bytes) :
    (c.advanceCommit p off now).1.partitionCommitIndex q = c.partitionCommitIndex q ∨
      (q = p ∧ (c.advanceCommit p off now).1.partitionCommitIndex q = off) := by
  rw [show (c.advanceCommit p off now).1 = (Op.advanceCommit p off now).exec c from rfl]
  cases hentry : (Op.advanceCommit p off now).entry c with
  | none => exact Or.inl (Op.partitionCommitIndex_of_none hentry q)
  | some e =>
      rcases e with ⟨r, state⟩
      rw [Op.partitionCommitIndex_of_some hentry q]
      -- The entry is the one of the partition, with the old commit index or a maximum.
      have hstate : r = p ∧ (state.commitIndex = c.partitionCommitIndex p ∨
          state.commitIndex = off) := by
        simp only [Op.entry] at hentry
        split at hentry
        · cases hentry
        · split at hentry
          · cases hentry
            exact ⟨rfl, Or.inl rfl⟩
          · split at hentry
            · cases hentry
              exact ⟨rfl, Or.inl rfl⟩
            · cases hentry
              exact ⟨rfl, max_choice _ _⟩
      rcases hstate with ⟨rfl, hcommit⟩
      split
      · rename_i hq
        subst hq
        exact hcommit.imp_right fun h => ⟨rfl, h⟩
      · exact Or.inl rfl

theorem finish_commitIndex (index : Nat) (now : Int) (job : ReplicateJob) (q : Bytes) :
    (s.finish index now job).broker.coordinator.partitionCommitIndex q
        = s.broker.coordinator.partitionCommitIndex q ∨
      (q = partitionKey job.request.topic job.partition ∧
        (s.finish index now job).broker.coordinator.partitionCommitIndex q
          = job.message.offset) := by
  have hadvance := advanceCommit_commitIndex s.broker.coordinator
    (partitionKey job.request.topic job.partition) job.message.offset now q
  simp only [BusyBroker.finish]
  split
  · exact Or.inl rfl
  · split
    · exact Or.inl rfl
    · split
      · exact hadvance
      · rcases remember_frame { s.broker with
            coordinator := (s.broker.coordinator.advanceCommit
              (partitionKey job.request.topic job.partition) job.message.offset now).1 }
          { doneNow := now } job.request (produced job.request job.partition job.message) with
          ⟨cache, hframe⟩
        simp only [hframe]
        exact hadvance

/-- What `Replicate` commits is in the log. -/
theorem finish_commitsPresent (hbusy : s.Busy) (hs : s.broker.CommitsPresent) (index : Nat)
    (now : Int) (job : ReplicateJob) (hjob : job ∈ s.replicating) :
    (s.finish index now job).broker.CommitsPresent := by
  have hforward := finish_forward (s := s) index now job
  intro t n
  rcases finish_commitIndex index now job (partitionKey t n) with hsame | ⟨hkey, hoffset⟩
  · rw [hsame]
    exact (hs t n).imp_right fun ⟨m, hm, heq⟩ => ⟨m, hforward.mem hm, heq⟩
  · rcases partitionKey_injective _ _ _ _ hkey with ⟨rfl, rfl⟩
    rw [hoffset]
    exact Or.inr ⟨job.message, hforward.mem (hbusy.replicating job hjob), rfl⟩

/-- A broker that has just been started has committed nothing. -/
theorem configureReplication_commitIndex (b : Broker) (nodeId : Bytes)
    (peers : List ReplicationPeer) (quorum : Nat) (follower : Bool) (authToken : Bytes)
    (stateFile : Option Bytes) (q : Bytes) :
    (b.configureReplication nodeId peers quorum follower authToken
      stateFile).coordinator.partitionCommitIndex q = 0 := by
  simp only [Broker.configureReplication]
  rw [← List.foldl_map (f := ReplicationPeer.nodeId) (g := registerReplica)]
  rcases foldl_registerReplica_eq (restart nodeId (if follower then .follower else .leader) 10000
    true stateFile) (peers.map ReplicationPeer.nodeId) with ⟨replicas, heq⟩
  rw [heq]
  rfl

/-- An event keeps commit indices in the log if and only if it is no request of
    a leader about two offsets that are both not there. -/
theorem exec_commitsPresent_iff (e : BrokerEvent) (hbusy : s.Busy)
    (hs : s.broker.CommitsPresent) : (e.exec s).broker.CommitsPresent ↔ e.Covered s := by
  cases e with
  | deliver env request => exact handle_commitsPresent_iff hbusy hs env request
  | finish index now =>
      refine iff_of_true ?_ trivial
      simp only [BrokerEvent.exec]
      split
      · exact hs
      · rename_i job hjob
        exact finish_commitsPresent hbusy hs index now job (List.mem_of_getElem? hjob)
  | restart follower =>
      refine iff_of_true (fun t n => Or.inl ?_) trivial
      exact configureReplication_commitIndex _ _ _ _ _ _ _ _
  | _ =>
      refine iff_of_true ((exec_forward _ ?_).present (exec_commits _ ?_ ?_ ?_) hs) trivial
      all_goals
        intros
        exact nofun

end Commits

/-- A broker has committed only what it has, in every state of every run,
    exactly when every accepted request of a leader names an offset or a commit
    index that the log has. -/
theorem commits_present_iff (config : StorageConfig) (nodeId : Bytes)
    (peers : List ReplicationPeer) (quorum : Nat) (follower : Bool) (authToken : Bytes)
    (events : List BrokerEvent) :
    Always BrokerEvent.exec (fun s => s.broker.CommitsPresent)
        (BusyBroker.start config nodeId peers quorum follower authToken) events
      ↔ Along BrokerEvent.exec (fun s e => e.Covered s)
        (BusyBroker.start config nodeId peers quorum follower authToken) events := by
  have hbusy : (BusyBroker.start config nodeId peers quorum follower authToken).Busy :=
    ⟨fun t n => counted_fresh config.effective, fun job hjob => absurd hjob List.not_mem_nil⟩
  have hstart : (BusyBroker.start config nodeId peers quorum follower
      authToken).broker.CommitsPresent :=
    fun t n => Or.inl (configureReplication_commitIndex _ _ _ _ _ _ _ _)
  exact always_iff_along (fun s e => exec_busy e) (fun s e => exec_commitsPresent_iff e) events
    hbusy hstart

/-- A follower that has just been started hears from its leader, in term 1 and
    with offset 5 committed, and has committed offset 5 of a log without
    messages. -/
theorem commits_absent :
    ¬ Always BrokerEvent.exec (fun s => s.broker.CommitsPresent)
      (BusyBroker.start {} [102] [⟨[108], true⟩] 2 true [116])
      [.createTopic [112] 1,
        .deliver {} (heartbeatRequest [116] [112] (heartbeatArgs 0 [108] 5 1 5))] := by
  intro h
  exact absurd (h.2.2 [112] 0) (by decide +kernel)

end MqBroker
