import MqBroker.Broker.Bounds
import MqBroker.Broker.Heartbeat
import MqBroker.Broker.Pull
import MqBroker.Broker.Topics
import MqBroker.Cluster.Wire
import MqBroker.Lib.Runs
import MqBroker.Replication.Commit
import MqBroker.Replication.Durability

/-!
# The Position of the Coordinator

The coordinator keeps the offset of the last message of each partition, and
the storage engine keeps the messages. This is when the two agree.

The offset is recorded by the calls that produce and by replica appends, and by
nothing else. A pull stores messages and is silent about it, a restart finds
the messages again but starts with an empty coordinator, and a deleted topic
leaves its offsets behind for the next one of that name. The heartbeat of a
leader creates the entry of a partition that has no message. What remains is a
coordinator that agrees with the log as long as none of these happens.

The invariant says it with one equation: a log has no messages where the
coordinator has no entry, and one more than the recorded offset where it has
one.

## Main definitions

* `ReplicationCoordinator.position`: The recorded offset of a partition.
* `LogEvent`, `LogEvent.exec`: What can happen to a broker, one call at a time.
* `Broker.PositionsAgree`: Coordinator and log agree on all partitions.
* `LogEvent.Informs`: The coordinator hears of everything that matters.
* `Broker.Positioned`: The invariant.

## Theorems

* `Op.position_other`, `Op.position_kept`: What operations do to a position.
* `settleProduce_informed`: What an admitted message does to log and position.
* `exec_positioned`: Every event that informs the coordinator.
* `positions_agree`: Every run of such events.
-/

namespace MqBroker

open ReplicationCoordinator

/-! ## Positions -/

/-- The offset that the coordinator has recorded for a partition. -/
def ReplicationCoordinator.position (c : ReplicationCoordinator) (q : Bytes) : Option UInt64 :=
  (c.partitionStates.lookup q).map PartitionState.localOffset

theorem nextLogIndex_position (c : ReplicationCoordinator) (q : Bytes) :
    c.nextLogIndex q = match c.position q with
      | none => 0
      | some offset => offset + 1 := by
  unfold nextLogIndex position
  cases c.partitionStates.lookup q <;> rfl

/-- The partition whose entry an operation may write. -/
def Op.touches : Op → Option Bytes
  | .observeAppend p _ _ _ _ _ => some p
  | .advanceCommit p _ _ => some p
  | .recordLocalOffset p _ => some p
  | _ => none

/-- An operation that writes no offset. -/
def Op.keepsOffset : Op → Bool
  | .recordLocalOffset _ _ => false
  | _ => true

section Positions

variable {c : ReplicationCoordinator} {q : Bytes}

/-- The entry an operation writes is for the partition it touches, and only
    `RecordLocalOffset` changes the offset in it. -/
theorem Op.entry_some {op : Op} {p : Bytes} {state : PartitionState}
    (h : op.entry c = some (p, state)) :
    op.touches = some p ∧
      (op.keepsOffset = true → state.localOffset = (c.partitionStates.get p).localOffset) := by
  cases op with
  | observeAppend r t l off commit now =>
      simp only [Op.entry] at h
      split at h
      · cases h
        exact ⟨rfl, fun _ => rfl⟩
      · cases h
  | advanceCommit r off now =>
      simp only [Op.entry] at h
      split at h
      · cases h
      · split at h
        · cases h
          exact ⟨rfl, fun _ => rfl⟩
        · split at h
          · cases h
            exact ⟨rfl, fun _ => rfl⟩
          · cases h
            exact ⟨rfl, fun _ => rfl⟩
  | recordLocalOffset r off =>
      cases h
      exact ⟨rfl, fun hkeeps => absurd hkeeps Bool.false_ne_true⟩
  | _ => cases h

/-- Operations leave the positions of other partitions alone. -/
theorem Op.position_other (op : Op) (h : op.touches ≠ some q) :
    (op.exec c).position q = c.position q := by
  rw [position, position, op.exec_partitionStates]
  cases hentry : op.entry c with
  | none => rfl
  | some e =>
      rcases e with ⟨p, state⟩
      have hne : q ≠ p := by
        rintro rfl
        exact h (Op.entry_some hentry).1
      rw [Table.write, AList.lookup_insert_ne hne]

/-- An offset that is recorded is changed by a record only. -/
theorem Op.position_kept (op : Op) (hkeeps : op.keepsOffset = true) {offset : UInt64}
    (h : c.position q = some offset) : (op.exec c).position q = some offset := by
  by_cases htouches : op.touches = some q
  · rw [position, op.exec_partitionStates]
    cases hentry : op.entry c with
    | none => exact h
    | some e =>
        rcases e with ⟨p, state⟩
        rcases Op.entry_some hentry with ⟨hp, hstate⟩
        obtain rfl : p = q := Option.some.inj (hp.symm.trans htouches)
        rw [Table.write, AList.lookup_insert, Option.map_some, hstate hkeeps, Table.get]
        rw [position, Option.map_eq_some_iff] at h
        rcases h with ⟨old, hold, rfl⟩
        rw [hold, Option.getD_some]
  · rw [op.position_other htouches, h]

theorem foldl_position_other (ops : List Op) (h : ∀ op ∈ ops, op.touches ≠ some q) :
    (ops.foldl Op.exec c).position q = c.position q := by
  induction ops generalizing c with
  | nil => rfl
  | cons op ops ih =>
      rw [List.foldl_cons, ih (fun o ho => h o (List.mem_cons_of_mem op ho)),
        op.position_other (h op List.mem_cons_self)]

theorem foldl_position_kept (ops : List Op) (hkeeps : ∀ op ∈ ops, op.keepsOffset = true)
    {offset : UInt64} (h : c.position q = some offset) :
    (ops.foldl Op.exec c).position q = some offset := by
  induction ops generalizing c with
  | nil => exact h
  | cons op ops ih =>
      rw [List.foldl_cons]
      exact ih (fun o ho => hkeeps o (List.mem_cons_of_mem op ho))
        (op.position_kept (hkeeps op List.mem_cons_self) h)

/-- An operation that records nothing leaves what is recorded, where nothing
    counts as 0. -/
theorem Op.position_getD (op : Op) (hkeeps : op.keepsOffset = true) :
    ((op.exec c).position q).getD 0 = (c.position q).getD 0 := by
  cases hposition : c.position q with
  | some offset => rw [op.position_kept hkeeps hposition]
  | none =>
      by_cases htouches : op.touches = some q
      · rw [position, op.exec_partitionStates]
        cases hentry : op.entry c with
        | none =>
            rw [← hposition]
            rfl
        | some e =>
            rcases e with ⟨p, state⟩
            rcases Op.entry_some hentry with ⟨hp, hstate⟩
            obtain rfl : p = q := Option.some.inj (hp.symm.trans htouches)
            rw [position, Option.map_eq_none_iff] at hposition
            -- The entry is new, so it has the offset of a default entry.
            rw [Table.write, AList.lookup_insert, Option.map_some, hstate hkeeps, Table.get,
              hposition]
            rfl
      · rw [op.position_other htouches, hposition]

theorem foldl_position_getD (ops : List Op) (hkeeps : ∀ op ∈ ops, op.keepsOffset = true) :
    ((ops.foldl Op.exec c).position q).getD 0 = (c.position q).getD 0 := by
  induction ops generalizing c with
  | nil => rfl
  | cons op ops ih =>
      rw [List.foldl_cons, ih (fun o ho => hkeeps o (List.mem_cons_of_mem op ho)),
        op.position_getD (hkeeps op List.mem_cons_self)]

theorem recordLocalOffset_position (c : ReplicationCoordinator) (q : Bytes) (offset : UInt64) :
    (c.recordLocalOffset q offset).position q = some (max ((c.position q).getD 0) offset) := by
  rw [position, recordLocalOffset]
  simp only [AList.lookup_insert, Option.map_some, Option.some.injEq, position, Table.get]
  cases c.partitionStates.lookup q <;> rfl

end Positions

/-! ## Events -/

/-- What can happen to a broker, one whole call at a time. -/
inductive LogEvent
  | createTopic (saved : Bool) (request : Request)
  | deleteTopic (env : DeleteEnv) (request : Request)
  | produce (env : ProduceEnv) (request : Request)
  | produceBatch (env : BatchEnv) (request : Request)
  | append (env : ReplicaEnv) (request : Request)
  /-- A follower stores what it has fetched. -/
  | pull (ios : Nat → StoreIo) (topic : Bytes) (partition : UInt32) (messages : List Message)
  | heartbeat (now : Int) (request : Request)
  /-- A step of an election, or an answer to a heartbeat. -/
  | operate (op : Op)
  | restart (follower : Bool)

/-- A partition of a topic that exists. -/
def Broker.Exists (b : Broker) (topic : Bytes) (partition : UInt32) : Prop :=
  ∃ count, b.topics.lookup topic = some count ∧ partition < count

instance (b : Broker) (topic : Bytes) (partition : UInt32) :
    Decidable (b.Exists topic partition) :=
  match h : b.topics.lookup topic with
  | none => isFalse (by rintro ⟨count, hcount, _⟩; rw [h] at hcount; cases hcount)
  | some count =>
      decidable_of_iff (partition < count)
        ⟨fun hlt => ⟨count, h, hlt⟩, fun ⟨_, hcount, hlt⟩ =>
          Option.some.inj (h.symm.trans hcount) ▸ hlt⟩

/-- The heartbeat in a request that gets to the replication branch of
    `HandleHeartbeat`, with the topic. -/
def Broker.heartbeatOf (b : Broker) (request : Request) : Option Request :=
  (b.acceptRequest [] request).filter
    (fun normalized => normalized.command = .heartbeat ∧ normalized.hasFlag flagReplication)

/-- The broker after an event. -/
def LogEvent.exec (b : Broker) : LogEvent → Broker
  | .createTopic saved request => (b.handleCreateTopic saved request).1
  | .deleteTopic env request => (b.handleDeleteTopic env request).1
  | .produce env request => (b.handleProduce env request).broker
  | .produceBatch env request => (b.handleProduceBatch env request).broker
  | .append env request => (b.receiveAppend env request).1
  | .pull ios topic partition messages =>
      if b.Exists topic partition then (b.applyFetched ios topic partition messages).1 else b
  | .heartbeat now request =>
      match b.heartbeatOf request with
      | none => b
      | some normalized => (b.handleReplicaHeartbeat now normalized).1
  | .operate op =>
      if op.touches = none then { b with coordinator := op.exec b.coordinator } else b
  | .restart follower => b.restarted follower

/-! ## What is promised -/

/-- The messages of a log. -/
def Broker.log (b : Broker) (topic : Bytes) (partition : UInt32) : List Message :=
  (b.storage.partition topic partition).messages

/-- For every partition that exists, the next log index of the coordinator is
    the next offset of the log, and 0 for a log without messages. -/
def Broker.PositionsAgree (b : Broker) : Prop :=
  ∀ topic partition, b.Exists topic partition →
    (b.log topic partition ≠ [] →
      b.coordinator.nextLogIndex (partitionKey topic partition)
        = (b.storage.partition topic partition).nextOffset) ∧
    (b.log topic partition = [] →
      b.coordinator.nextLogIndex (partitionKey topic partition) = 0)

/-- The coordinator hears of everything that matters to it. -/
def LogEvent.Informs (b : Broker) : LogEvent → Prop
  -- A new topic has nothing recorded under its name.
  | .createTopic saved request =>
      ∀ count, (readCreateTopic request.payload).result = .ok count → saved = true →
        b.topics.lookup request.topic = none →
        ∀ partition < count, b.coordinator.position (partitionKey request.topic partition) = none
  -- A topic that cannot be deleted keeps its messages.
  | .deleteTopic env request =>
      env.removed = false → ∀ partition,
        ((b.storage.deleteTopic env request.topic).1.partition request.topic
          partition).messages.length = (b.log request.topic partition).length
  -- No sync fails.
  | .produce env _ => env.io.io.syncOk = true
  | .produceBatch env _ => ∀ i, (env.calls i).io.io.syncOk = true
  -- All messages are stored, or none of them behind others.
  | .append env request =>
      ∀ normalized header partition messages,
        b.validateReplicationRequest request = some normalized →
        (b.readReplicaAppend normalized).result = .ok (header, partition, messages) →
        b.PassesChecks env normalized header partition messages →
        let written := appendReplicas env.ios normalized.topic partition messages 0 b.storage
        written.2 = none ∨ (b.log normalized.topic partition ≠ [] ∧
          (written.1.partition normalized.topic partition).messages
            = b.log normalized.topic partition)
  -- Nothing is stored.
  | .pull ios topic partition messages =>
      b.Exists topic partition →
        ((appendReplicas ios topic partition messages 0 b.storage).1.partition topic
          partition).messages = b.log topic partition
  -- A leader is heard about a partition that has messages, or does not exist.
  | .heartbeat _ request =>
      ∀ normalized h, b.heartbeatOf request = some normalized →
        (readReplicaHeartbeat normalized.topic normalized.payload).result = .ok h →
        h.termed ≠ none → b.Exists normalized.topic h.partition →
        b.log normalized.topic h.partition ≠ []
  | .operate _ => True
  -- No log has messages.
  | .restart follower =>
      ∀ topic partition, ((b.restarted follower).storage.partition topic partition).messages = []

/-- No log comes near the largest offset. -/
def Broker.Short (b : Broker) : Prop :=
  ∀ topic partition, (b.log topic partition).length + 10000 < 2 ^ 64

theorem short_iff (b : Broker) :
    b.Short ↔ ∀ p ∈ b.storage.partitions.values, p.messages.length + 10000 < 2 ^ 64 := by
  constructor
  · intro h p hp
    rcases Table.lookup_of_mem_values _ p hp with ⟨⟨topic, partition⟩, hlookup⟩
    have hplace := h topic partition
    rwa [Broker.log, StorageEngine.partition, hlookup, Option.getD_some] at hplace
  · intro h topic partition
    rw [Broker.log, StorageEngine.partition]
    cases hlookup : b.storage.partitions.lookup (topic, partition) with
    | none =>
        change ([] : List Message).length + 10000 < 2 ^ 64
        decide
    | some p => exact h p (Table.mem_values_of_lookup _ _ p hlookup)

instance (b : Broker) : Decidable b.Short := decidable_of_iff _ (short_iff b).symm

/-! ## The invariant -/

/-- A log has no messages where nothing is recorded, and one more than the
    recorded offset where something is. -/
def Broker.Placed (b : Broker) (topic : Bytes) (partition : UInt32) : Prop :=
  (b.log topic partition).length
    = match b.coordinator.position (partitionKey topic partition) with
      | none => 0
      | some offset => offset.toNat + 1

/-- Offsets are positions, all topics are valid, every partition that exists is
    placed, and no other has messages. -/
structure Broker.Positioned (b : Broker) : Prop where
  counted : b.storage.Counted
  topics : ∀ topic count, b.topics.lookup topic = some count → ValidTopic topic count
  placed : ∀ topic partition, b.Exists topic partition → b.Placed topic partition
  absent : ∀ topic partition, ¬ b.Exists topic partition → b.log topic partition = []

section Invariant

variable {b b' : Broker} {topic : Bytes} {partition : UInt32}

theorem Broker.Placed.agrees (h : b.Placed topic partition) (hcounted : b.storage.Counted) :
    (b.log topic partition ≠ [] →
      b.coordinator.nextLogIndex (partitionKey topic partition)
        = (b.storage.partition topic partition).nextOffset) ∧
    (b.log topic partition = [] →
      b.coordinator.nextLogIndex (partitionKey topic partition) = 0) := by
  rw [nextLogIndex_position, (hcounted topic partition).next]
  change (_ → _ = UInt64.ofNat (b.log topic partition).length) ∧ _
  unfold Broker.Placed at h
  cases hposition : b.coordinator.position (partitionKey topic partition) with
  | none =>
      rw [hposition, List.length_eq_zero_iff] at h
      exact ⟨fun hne => absurd h hne, fun _ => rfl⟩
  | some offset =>
      simp only [hposition] at h
      constructor
      · intro _
        simp only [h, UInt64.ofNat_add, UInt64.ofNat_toNat]
        rfl
      · intro hempty
        rw [hempty, List.length_nil] at h
        exact absurd h (Nat.succ_ne_zero _).symm

theorem Broker.Positioned.agree (h : b.Positioned) : b.PositionsAgree :=
  fun topic partition hexists => (h.placed topic partition hexists).agrees h.counted

theorem Broker.Positioned.ne_zero (h : b.Positioned) (topic : Bytes) :
    ∀ count, b.topics.lookup topic = some count → count ≠ 0 :=
  fun count hcount => (h.topics topic count hcount).2.1

/-- A log with messages has its offset recorded. -/
theorem Broker.Placed.recorded (h : b.Placed topic partition) (hne : b.log topic partition ≠ []) :
    ∃ offset, b.coordinator.position (partitionKey topic partition) = some offset ∧
      (b.log topic partition).length = offset.toNat + 1 := by
  unfold Broker.Placed at h
  cases hposition : b.coordinator.position (partitionKey topic partition) with
  | none =>
      rw [hposition, List.length_eq_zero_iff] at h
      exact absurd h hne
  | some offset =>
      rw [hposition] at h
      exact ⟨offset, rfl, h⟩

/-- The operations of a step touch one partition at most. -/
def OpsTouch (ops : List Op) (topic : Bytes) (partition : UInt32) : Prop :=
  ∀ op ∈ ops, op.touches = none ∨ op.touches = some (partitionKey topic partition)

/-- Of a step only the partition it works on has to be looked at. -/
theorem Broker.Positioned.step (h : b.Positioned) {ops : List Op} {ms : List Message}
    (hstep : b.Step b' ops topic partition ms) (hops : OpsTouch ops topic partition)
    (hexists : ms ≠ [] → b.Exists topic partition)
    (hplaced : b.Exists topic partition → b'.Placed topic partition) : b'.Positioned := by
  have hsame : ∀ t n, b'.Exists t n ↔ b.Exists t n := by
    intro t n
    rw [Broker.Exists, Broker.Exists, hstep.topics]
  refine ⟨hstep.storage.counted h.counted hstep.numbered, ?_, ?_, ?_⟩
  · rw [hstep.topics]
    exact h.topics
  · intro t n hin
    by_cases hplace : (t, n) = (topic, partition)
    · rcases Prod.mk.inj hplace with ⟨rfl, rfl⟩
      exact hplaced ((hsame t n).mp hin)
    · have hposition : b'.coordinator.position (partitionKey t n)
          = b.coordinator.position (partitionKey t n) := by
        rw [hstep.coordinator]
        refine foldl_position_other ops fun op hop htouch => ?_
        rcases hops op hop with hnone | hsome
        · rw [hnone] at htouch
          cases htouch
        · rw [hsome] at htouch
          rcases partitionKey_injective _ _ _ _ (Option.some.inj htouch) with ⟨rfl, rfl⟩
          exact hplace rfl
      have hold := h.placed t n ((hsame t n).mp hin)
      unfold Broker.Placed Broker.log at hold ⊢
      rw [hposition, (hstep.storage.others t n hplace).1]
      exact hold
  · intro t n hout
    by_cases hplace : (t, n) = (topic, partition)
    · rcases Prod.mk.inj hplace with ⟨rfl, rfl⟩
      have hnone : ms = [] := by
        by_contra hne
        exact hout ((hsame t n).mpr (hexists hne))
      rw [Broker.log, hstep.storage.messages, hnone, List.append_nil]
      exact h.absent t n (fun hin => hout ((hsame t n).mpr hin))
    · rw [Broker.log, (hstep.storage.others t n hplace).1]
      exact h.absent t n (fun hin => hout ((hsame t n).mpr hin))

/-- A step that stores nothing keeps what is recorded, if it is about a log
    with messages or touches no partition. -/
theorem Broker.Placed.quiet (h : b.Placed topic partition) {ops : List Op}
    (hstep : b.Step b' ops topic partition [])
    (hops : (∀ op ∈ ops, op.touches = none) ∨
      ((∀ op ∈ ops, op.keepsOffset = true) ∧ b.log topic partition ≠ [])) :
    b'.Placed topic partition := by
  have hlog : b'.log topic partition = b.log topic partition := by
    rw [Broker.log, hstep.storage.messages, List.append_nil]
    rfl
  rcases hops with hnone | ⟨hkeeps, hne⟩
  · unfold Broker.Placed at h ⊢
    rw [hlog, hstep.coordinator, foldl_position_other ops (fun op hop => by rw [hnone op hop]; nofun)]
    exact h
  · rcases h.recorded hne with ⟨offset, hposition, hlength⟩
    unfold Broker.Placed
    rw [hlog, hstep.coordinator, foldl_position_kept ops hkeeps hposition]
    exact hlength

end Invariant

/-- The larger of the recorded offset and the last new one is the last new
    one. -/
theorem recorded_toNat {length count : Nat} {old : Option UInt64}
    (hold : length = match old with
      | none => 0
      | some offset => offset.toNat + 1)
    (hcount : 0 < count) (hbound : length + count ≤ 2 ^ 64) :
    (max (old.getD 0) (UInt64.ofNat (length + count - 1))).toNat + 1 = length + count := by
  have hlast : (UInt64.ofNat (length + count - 1)).toNat = length + count - 1 :=
    UInt64.toNat_ofNat_of_lt' (by rw [UInt64.size]; omega)
  have hle : old.getD 0 ≤ UInt64.ofNat (length + count - 1) := by
    rw [UInt64.le_iff_toNat_le, hlast]
    cases old with
    | none => exact Nat.zero_le _
    | some offset =>
        simp only at hold
        rw [Option.getD_some]
        omega
  rw [max_eq_right hle, hlast]
  omega

/-! ## Producing -/

section Produce

variable {b : Broker}

theorem replicateLoop_ops (key : Bytes) (offset : UInt64) (peers : List ReplicationPeer)
    (answers : List (Option Int)) (c : ReplicationCoordinator) :
    ∃ ops : List Op, (replicateLoop key offset peers answers c).1 = ops.foldl Op.exec c ∧
      ∀ op ∈ ops, ∃ node now, op = .observeHeartbeat key node offset now := by
  induction peers generalizing answers c with
  | nil => exact ⟨[], by simp only [replicateLoop, List.foldl_nil], fun _ h => nomatch h⟩
  | cons peer peers ih =>
      cases answers with
      | nil => exact ⟨[], by simp only [replicateLoop, List.foldl_nil], fun _ h => nomatch h⟩
      | cons answer answers =>
          cases answer with
          | none => exact ih answers c
          | some now =>
              rcases ih answers (c.observeHeartbeat key peer.nodeId offset now) with
                ⟨ops, heq, hops⟩
              refine ⟨.observeHeartbeat key peer.nodeId offset now :: ops, heq, ?_⟩
              intro op hop
              rcases List.mem_cons.mp hop with rfl | hop
              · exact ⟨peer.nodeId, now, rfl⟩
              · exact hops op hop

/-- What `Replicate` does to the coordinator touches the partition of the
    message at most, and records nothing. -/
theorem acknowledge_ops (b : Broker) (env : ProduceEnv) (request : Request) (partition : UInt32)
    (m : Message) :
    ∃ ops : List Op, (b.acknowledge env request partition m).1
        = { b with coordinator := ops.foldl Op.exec b.coordinator } ∧
      OpsTouch ops request.topic partition ∧ ∀ op ∈ ops, op.keepsOffset = true := by
  have hnone : ∃ ops : List Op, b = { b with coordinator := ops.foldl Op.exec b.coordinator } ∧
      OpsTouch ops request.topic partition ∧ ∀ op ∈ ops, op.keepsOffset = true :=
    ⟨[], rfl, fun _ h => (nomatch h), fun _ h => (nomatch h)⟩
  unfold Broker.acknowledge
  split
  · simp only [Broker.replicate]
    split
    · exact hnone
    · rcases replicateLoop_ops (partitionKey request.topic partition) m.offset b.replicationPeers
        env.answers b.coordinator with ⟨ops, heq, hops⟩
      have htouch : OpsTouch ops request.topic partition := by
        intro op hop
        rcases hops op hop with ⟨node, now, rfl⟩
        exact Or.inl rfl
      have hkeeps : ∀ op ∈ ops, op.keepsOffset = true := by
        intro op hop
        rcases hops op hop with ⟨node, now, rfl⟩
        rfl
      split
      · exact ⟨ops, by rw [heq], htouch, hkeeps⟩
      · refine ⟨ops ++ [.advanceCommit (partitionKey request.topic partition) m.offset
          env.commitNow], ?_, ?_, ?_⟩
        · rw [heq, List.foldl_append]
          rfl
        · intro op hop
          rcases List.mem_append.mp hop with hop | hop
          · exact htouch op hop
          · rw [List.mem_singleton.mp hop]
            exact Or.inr rfl
        · intro op hop
          rcases List.mem_append.mp hop with hop | hop
          · exact hkeeps op hop
          · rw [List.mem_singleton.mp hop]
            rfl
  · exact hnone

/-- What a produce request leaves behind when no sync fails: nothing, or one
    message behind a log of its topic, recorded first of all. -/
theorem settleProduce_informed (b : Broker) (env : ProduceEnv) (request : Request)
    (partition : UInt32) (body : ProduceBody) (hsync : env.io.io.syncOk = true) :
    b.Step (b.settleProduce env request partition body).broker [] request.topic partition [] ∨
    ∃ m rest, b.Step (b.settleProduce env request partition body).broker
        (.recordLocalOffset (partitionKey request.topic partition) m.offset :: rest)
        request.topic partition [m] ∧
      OpsTouch rest request.topic partition ∧ ∀ op ∈ rest, op.keepsOffset = true := by
  rw [settleProduce_eq]
  rcases storeProduce_step b env request partition body with
    ⟨ops, ms, hstep, hmessage, _, _⟩
  cases hstore : b.storeProduce env request partition body with
  | mk d outcome =>
      rw [hstore] at hstep hmessage
      cases outcome with
      | none =>
          -- Without a message to go on with, the append has failed before the sync.
          left
          simp only [Broker.storeProduce] at hstore
          rcases store_append_cases b.storage env.io env.timestampMs request.topic partition
            body.key body.value with ⟨_, hresult⟩ | ⟨hsame, err, hresult⟩
          · rw [hresult, if_pos hsync] at hstore
            cases hstore
          · rw [hresult] at hstore
            cases hstore
            exact ⟨rfl, rfl, rfl, hsame.extended _ _, trivial,
              fun m hm => absurd hm List.not_mem_nil⟩
      | some message =>
          right
          have hone := hmessage message rfl
          subst hone
          have hrecord : d.coordinator = b.coordinator.recordLocalOffset
              (partitionKey request.topic partition) message.offset := by
            simp only [Broker.storeProduce] at hstore
            split at hstore
            · cases hstore
            · cases hstore
              rfl
          rcases acknowledge_ops d env request partition message with ⟨rest, heq, htouch, hkeeps⟩
          refine ⟨message, rest, ?_, htouch, hkeeps⟩
          have hafter : ∀ cache : Table Bytes IdempotencyEntry,
              b.Step { d with
                coordinator := rest.foldl Op.exec d.coordinator
                idempotencyCache := cache }
              (.recordLocalOffset (partitionKey request.topic partition) message.offset :: rest)
              request.topic partition [message] := by
            intro cache
            refine ⟨hstep.settings, hstep.topics, ?_, hstep.storage, hstep.numbered,
              hstep.storable⟩
            rw [hrecord]
            rfl
          simp only
          split
          · rcases remember_frame (d.acknowledge env request partition message).1 env request
              (produced request partition message) with ⟨cache, hcache⟩
            rw [hcache, heq]
            exact hafter cache
          · rw [heq]
            exact hafter d.idempotencyCache

/-- Messages that are stored and of which the last is recorded are placed. -/
theorem Broker.Positioned.stored {b' : Broker} {topic : Bytes} {partition : UInt32}
    (h : b.Positioned) {ms : List Message} (first rest : List Op) {last : UInt64} (hms : ms ≠ [])
    (hlast : last = UInt64.ofNat ((b.log topic partition).length + ms.length - 1))
    (hbound : (b.log topic partition).length + ms.length ≤ 2 ^ 64)
    (hexists : b.Exists topic partition)
    (hstep : b.Step b' (first ++ .recordLocalOffset (partitionKey topic partition) last :: rest)
      topic partition ms)
    (hops : OpsTouch (first ++ rest) topic partition)
    (hkeeps : ∀ op ∈ first ++ rest, op.keepsOffset = true) : b'.Positioned := by
  have htouch : OpsTouch (first ++ .recordLocalOffset (partitionKey topic partition) last :: rest)
      topic partition := by
    intro op hop
    rcases List.mem_append.mp hop with hop | hop
    · exact hops op (List.mem_append_left _ hop)
    · rcases List.mem_cons.mp hop with rfl | hop
      · exact Or.inr rfl
      · exact hops op (List.mem_append_right _ hop)
  refine h.step hstep htouch (fun _ => hexists) fun _ => ?_
  have hposition : b'.coordinator.position (partitionKey topic partition)
      = some (max ((b.coordinator.position (partitionKey topic partition)).getD 0) last) := by
    rw [hstep.coordinator, List.foldl_append, List.foldl_cons]
    refine foldl_position_kept rest (fun op hop => hkeeps op (List.mem_append_right _ hop)) ?_
    rw [← foldl_position_getD first fun op hop => hkeeps op (List.mem_append_left _ hop)]
    exact recordLocalOffset_position _ _ _
  have hlog : (b'.log topic partition).length = (b.log topic partition).length + ms.length := by
    rw [Broker.log, hstep.storage.messages, List.length_append]
    rfl
  unfold Broker.Placed
  rw [hposition, hlog, hlast]
  exact (recorded_toNat (h.placed topic partition hexists) (List.length_pos_iff.mpr hms)
    hbound).symm

theorem handleProduce_positioned (h : b.Positioned) (env : ProduceEnv) (request : Request)
    (rate quota : Bool) (hsync : env.io.io.syncOk = true)
    (hshort : ∀ t n, (b.log t n).length < 2 ^ 64) :
    (b.handleProduce env request rate quota).broker.Positioned ∧
      ∀ t n, ((b.handleProduce env request rate quota).broker.log t n).length
        ≤ (b.log t n).length + 1 := by
  have hadmission := admitProduce_step b env request rate quota request.topic 0
  simp only [Broker.handleProduce]
  cases hresult : b.admitProduce env request rate quota with
  | mk d outcome =>
      rw [hresult] at hadmission
      have hd : d.Positioned :=
        h.step hadmission (fun _ hop => nomatch hop) (fun hne => absurd rfl hne)
          fun hin => (h.placed _ _ hin).quiet hadmission (Or.inl fun _ hop => nomatch hop)
      have hlog : ∀ t n, d.log t n = b.log t n := by
        intro t n
        rcases admitProduce_frame b env request rate quota with ⟨cache, windows, hframe⟩
        rw [hresult] at hframe
        simp only at hframe
        rw [hframe]
        rfl
      cases outcome with
      | error response => exact ⟨hd, fun t n => by rw [hlog]; omega⟩
      | ok admitted =>
          rcases admitted with ⟨partition, body⟩
          have hexists : d.Exists request.topic partition := by
            rcases resolvePartition_lt (h.ne_zero request.topic)
              (admitProduce_routes hresult).resolved with ⟨count, hcount, hlt⟩
            refine ⟨count, ?_, hlt⟩
            rw [hadmission.topics]
            exact hcount
          rcases settleProduce_informed d env request partition body hsync with hstep |
            ⟨m, rest, hstep, htouch, hkeeps⟩
          · refine ⟨hd.step hstep (fun _ hop => nomatch hop) (fun hne => absurd rfl hne)
              fun hin => (hd.placed _ _ hin).quiet hstep (Or.inl fun _ hop => nomatch hop), ?_⟩
            intro t n
            have hle := hstep.storage.length_le t n
            rw [← hlog]
            exact hle.trans (Nat.le_succ _)
          · refine ⟨hd.stored [] rest (List.cons_ne_nil m []) ?_ ?_ hexists hstep htouch hkeeps,
              ?_⟩
            · rw [hstep.numbered.1, (hd.counted _ _).next]
              rfl
            · rw [hlog]
              exact hshort _ _
            · intro t n
              have hle := hstep.storage.length_le t n
              rw [← hlog]
              exact hle

theorem produceEntries_positioned (request : Request) (calls : Nat → ProduceEnv)
    (hsync : ∀ i, (calls i).io.io.syncOk = true) (entries : List BatchEntry) (index : Nat)
    (b : Broker) (payload : Bytes) (stored : List (Request × UInt32 × Message))
    (h : b.Positioned) (hshort : ∀ t n, (b.log t n).length + entries.length < 2 ^ 64) :
    (Broker.produceEntries request calls entries index b payload stored).broker.Positioned := by
  induction entries generalizing index b payload stored with
  | nil => exact h
  | cons entry rest ih =>
      simp only [List.length_cons] at hshort
      cases entry with
      | cached response =>
          exact ih _ _ _ _ h fun t n => by
            have := hshort t n
            omega
      | pending single =>
          rcases handleProduce_positioned h (calls index) single false false (hsync index)
            (fun t n => by
              have := hshort t n
              omega) with ⟨hnext, hgrown⟩
          simp only [Broker.produceEntries]
          split
          · exact hnext
          · refine ih _ _ _ _ hnext fun t n => ?_
            have hbefore := hshort t n
            have hafter := hgrown t n
            omega

theorem handleProduceBatch_positioned (h : b.Positioned) (env : BatchEnv) (request : Request)
    (hsync : ∀ i, (env.calls i).io.io.syncOk = true) (hshort : b.Short) :
    (b.handleProduceBatch env request).broker.Positioned := by
  -- Admission only touches the cache and the quota.
  have hframe : ∀ d : Broker, (b.evictExpired env.lookupNow).SameButQuota d →
      d.Positioned ∧ ∀ t n, d.log t n = b.log t n := by
    rintro d ⟨windows, rfl⟩
    exact ⟨⟨h.counted, h.topics, h.placed, h.absent⟩, fun t n => rfl⟩
  simp only [Broker.handleProduceBatch]
  rcases admitBatch_cases b env request with ⟨hb, status, hstatus, _⟩ |
    ⟨producerId, first, count, hheader, hsame, hcases⟩
  · cases hresult : b.admitBatch env request with
    | mk d outcome =>
        rw [hresult] at hb hstatus
        simp only at hb hstatus
        rw [hstatus, hb]
        exact h
  · rcases hframe _ hsame with ⟨hd, hlog⟩
    cases hresult : b.admitBatch env request with
    | mk d outcome =>
        rw [hresult] at hd hlog hcases
        rcases hcases with ⟨status, hstatus, _⟩ | ⟨entries, rest, hentries, hprepared⟩
        · simp only at hstatus
          rw [hstatus]
          exact hd
        · simp only at hentries
          rw [hentries]
          have hlength := prepareBatch_length request producerId hprepared
          rw [lookupBatch_length] at hlength
          have hcount := batchHeader_count hheader
          refine produceEntries_positioned request env.calls hsync entries 0 d _ [] hd ?_
          intro t n
          rw [hlog]
          have hbound := hshort t n
          simp only at hlength
          omega

end Produce

/-! ## Other brokers -/

section Brokers

variable {b : Broker}

/-- The last of some messages with the next offsets. -/
theorem numbered_lastOffset {start : UInt64} {ms : List Message} (h : Numbered start ms)
    (hne : ms ≠ []) : lastOffset ms = start + UInt64.ofNat (ms.length - 1) := by
  have hpos := List.length_pos_iff.mpr hne
  rw [lastOffset, List.getLast?_eq_getElem?, List.getElem?_eq_getElem (by omega), Option.map_some,
    Option.getD_some, numbered_getElem start ms h _ (by omega)]

/-- The check of the leader touches the partition at most, and records
    nothing. -/
theorem observedBy_ops (b : Broker) (env : ReplicaEnv) (request : Request) (header : AppendHeader)
    (partition : UInt32) (messages : List Message) :
    ∃ ops : List Op, (b.observedBy env request header partition messages).1
        = ops.foldl Op.exec b.coordinator ∧
      OpsTouch ops request.topic partition ∧ ∀ op ∈ ops, op.keepsOffset = true := by
  unfold Broker.observedBy
  split
  · refine ⟨[.observeAppend _ _ _ _ _ _], rfl, fun op hop => ?_, fun op hop => ?_⟩
    · rw [List.mem_singleton.mp hop]
      exact Or.inr rfl
    · rw [List.mem_singleton.mp hop]
      rfl
  · exact ⟨[], rfl, fun _ hop => (nomatch hop), fun _ hop => (nomatch hop)⟩

/-- A replica append that stores all its messages, or none behind others. -/
theorem applyAppend_positioned (h : b.Positioned) (env : ReplicaEnv) (request : Request)
    (header : AppendHeader) (partition : UInt32) (messages : List Message)
    (hexists : b.Exists request.topic partition) (hne : messages ≠ [])
    (hshort : (b.log request.topic partition).length + messages.length ≤ 2 ^ 64)
    (hwritten : b.PassesChecks env request header partition messages →
      (appendReplicas env.ios request.topic partition messages 0 b.storage).2 = none ∨
        (b.log request.topic partition ≠ [] ∧
          ((appendReplicas env.ios request.topic partition messages 0 b.storage).1.partition
            request.topic partition).messages = b.log request.topic partition)) :
    (b.applyAppend env request header partition messages).1.Positioned := by
  by_cases hpass : b.PassesChecks env request header partition messages
  · rw [applyAppend_passed b env request header partition messages hpass]
    rcases observedBy_ops b env request header partition messages with ⟨ops, hops, htouch, hkeeps⟩
    rcases appendReplicas_cases env.ios request.topic partition messages 0 b.storage with
      ⟨stored, _, hext, hnumbered, hstorable, hall⟩
    simp only [Broker.storeReplicas]
    cases hloop : appendReplicas env.ios request.topic partition messages 0 b.storage with
    | mk e outcome =>
        have hwritten := hwritten hpass
        rw [hloop] at hext hall hwritten
        cases outcome with
        | none =>
            obtain rfl := hall rfl
            have hstep : b.Step
                { b with
                  storage := e
                  coordinator := (b.observedBy env request header partition
                    stored).1.recordLocalOffset (partitionKey request.topic partition)
                      (lastOffset stored) }
                (ops ++ [.recordLocalOffset (partitionKey request.topic partition)
                  (lastOffset stored)]) request.topic partition stored := by
              refine ⟨rfl, rfl, ?_, hext, hnumbered, hstorable⟩
              rw [List.foldl_append, ← hops]
              rfl
            have hpos := List.length_pos_iff.mpr hne
            refine h.stored ops [] hne ?_ hshort hexists hstep
              (by rw [List.append_nil]; exact htouch) (by rw [List.append_nil]; exact hkeeps)
            rw [numbered_lastOffset hnumbered hne, (h.counted _ _).next, ← UInt64.ofNat_add,
              Nat.add_sub_assoc hpos]
            rfl
        | some err =>
            rcases hwritten with hnone | ⟨hlog, hsame⟩
            · cases hnone
            · -- The first write has failed, and the log had messages before.
              have hstored : stored = [] := by
                rw [hext.messages] at hsame
                exact List.append_right_eq_self.mp hsame
              subst hstored
              have hstep : b.Step
                  { b with
                    storage := e
                    coordinator := (b.observedBy env request header partition messages).1 }
                  ops request.topic partition [] := ⟨rfl, rfl, hops, hext, trivial, hstorable⟩
              exact h.step hstep htouch (fun hno => absurd rfl hno)
                fun hin => (h.placed _ _ hin).quiet hstep (Or.inr ⟨hkeeps, hlog⟩)
  · rw [(applyAppend_refused b env request header partition messages hpass).1]
    exact h

theorem receiveAppend_positioned (h : b.Positioned) (env : ReplicaEnv) (request : Request)
    (hshort : b.Short) (hinforms : (LogEvent.append env request).Informs b) :
    (b.receiveAppend env request).1.Positioned := by
  unfold Broker.receiveAppend
  split
  · exact h
  · split
    · exact h
    · split
      · exact h
      · split
        · exact h
        · rename_i normalized hvalid
          rw [handleReplicaAppend_eq]
          cases hread : (b.readReplicaAppend normalized).result with
          | error status => exact h
          | ok read =>
              rcases read with ⟨header, partition, messages⟩
              rcases readReplicaAppend_ok hread with ⟨⟨requested, hresolved⟩, hpos, hmax⟩
              have hbound := hshort normalized.topic partition
              exact applyAppend_positioned h env normalized header partition messages
                (resolvePartition_lt (h.ne_zero normalized.topic) hresolved)
                (List.length_pos_iff.mp hpos) (by omega)
                (hinforms normalized header partition messages hvalid hread)

/-- A pull that stores nothing. -/
theorem pull_positioned (h : b.Positioned) (ios : Nat → StoreIo) (topic : Bytes)
    (partition : UInt32) (messages : List Message)
    (hinforms : (LogEvent.pull ios topic partition messages).Informs b) :
    ((LogEvent.pull ios topic partition messages).exec b).Positioned := by
  simp only [LogEvent.exec]
  split
  · rename_i hexists
    rcases applyFetched_cases b ios topic partition messages with
      ⟨e, cursors, stored, hb, he, _, hext, _, hstorable, _⟩
    have hstored : stored = [] := by
      have hsame := hinforms hexists
      rw [← he, hext.messages] at hsame
      exact List.append_right_eq_self.mp hsame
    subst hstored
    rw [hb]
    have hstep : b.Step { b with storage := e, replicationOffsets := cursors } [] topic partition
        [] := ⟨rfl, rfl, rfl, hext, trivial, hstorable⟩
    exact h.step hstep (fun _ hop => nomatch hop) (fun hno => absurd rfl hno)
      fun hin => (h.placed _ _ hin).quiet hstep (Or.inl fun _ hop => nomatch hop)
  · exact h

/-- A heartbeat that does not name a partition without messages as a leader
    does. -/
theorem heartbeat_positioned (h : b.Positioned) (now : Int) (request : Request)
    (hinforms : (LogEvent.heartbeat now request).Informs b) :
    ((LogEvent.heartbeat now request).exec b).Positioned := by
  simp only [LogEvent.exec]
  split
  · exact h
  · rename_i normalized hnormalized
    rcases handleReplicaHeartbeat_cases b now normalized with ⟨_, hb⟩ | ⟨beat, hread, hb⟩
    · rw [hb]
      exact h
    · rw [hb]
      have hstep : b.Step { b with
          coordinator := (beat.op normalized.topic now).exec b.coordinator }
          [beat.op normalized.topic now] normalized.topic beat.partition [] :=
        .quiet _ _ rfl rfl rfl rfl
      cases hterm : beat.termed with
      | none =>
          have hop : (beat.op normalized.topic now).touches = none := by
            rw [ReplicaHeartbeat.op, hterm]
            rfl
          have hnone : ∀ op ∈ [beat.op normalized.topic now], op.touches = none := by
            intro op hmem
            rw [List.mem_singleton.mp hmem]
            exact hop
          exact h.step hstep (fun op hmem => Or.inl (hnone op hmem)) (fun hno => absurd rfl hno)
            fun hin => (h.placed _ _ hin).quiet hstep (Or.inl hnone)
      | some termed =>
          have hop : (beat.op normalized.topic now).touches
                = some (partitionKey normalized.topic beat.partition) ∧
              (beat.op normalized.topic now).keepsOffset = true := by
            rw [ReplicaHeartbeat.op, hterm]
            exact ⟨rfl, rfl⟩
          refine h.step hstep (fun op hmem => ?_) (fun hno => absurd rfl hno) fun hin => ?_
          · rw [List.mem_singleton.mp hmem]
            exact Or.inr hop.1
          · refine (h.placed _ _ hin).quiet hstep (Or.inr ⟨fun op hmem => ?_, ?_⟩)
            · rw [List.mem_singleton.mp hmem]
              exact hop.2
            · exact hinforms normalized beat hnormalized hread (by rw [hterm]; nofun) hin

end Brokers

/-! ## Topics and restarts -/

section Topics

variable {b : Broker}

/-- The table of topics, changed so that every lookup gives the same, makes no
    difference. -/
theorem Broker.Positioned.congr {b' : Broker} (h : b.Positioned)
    (htopics : ∀ t, b'.topics.lookup t = b.topics.lookup t)
    (hcoordinator : b'.coordinator = b.coordinator) (hcounted : b'.storage.Counted)
    (hlogs : ∀ t n, (b'.log t n).length = (b.log t n).length) : b'.Positioned := by
  have hsame : ∀ t n, b'.Exists t n ↔ b.Exists t n := by
    intro t n
    rw [Broker.Exists, Broker.Exists, htopics]
  refine ⟨hcounted, fun t count hcount => h.topics t count (by rw [← htopics]; exact hcount), ?_, ?_⟩
  · intro t n hin
    have hold := h.placed t n ((hsame t n).mp hin)
    unfold Broker.Placed at hold ⊢
    rw [hlogs, hcoordinator]
    exact hold
  · intro t n hout
    rw [← List.length_eq_zero_iff, hlogs, List.length_eq_zero_iff]
    exact h.absent t n fun hin => hout ((hsame t n).mpr hin)

theorem createTopic_positioned (h : b.Positioned) (saved : Bool) (request : Request)
    (hinforms : (LogEvent.createTopic saved request).Informs b) :
    (b.handleCreateTopic saved request).1.Positioned := by
  rcases handleCreateTopic_cases b saved request with ⟨topics, hb, htopics⟩ |
    ⟨count, hread, hsaved, hvalid, hnew, hb⟩
  · rw [hb]
    exact h.congr htopics rfl h.counted fun t n => rfl
  · rw [hb]
    have hlookup : ∀ t, (b.topics.insert request.topic count).lookup t
        = if t = request.topic then some count else b.topics.lookup t := by
      intro t
      by_cases ht : t = request.topic
      · rw [if_pos ht, ht, AList.lookup_insert]
      · rw [if_neg ht, AList.lookup_insert_ne ht]
    -- Before, the partitions of the topic did not exist and had no messages.
    have hempty : ∀ n, b.log request.topic n = [] := by
      intro n
      refine h.absent _ _ ?_
      rintro ⟨old, hold, _⟩
      rw [hnew] at hold
      cases hold
    refine ⟨h.counted, ?_, ?_, ?_⟩
    · intro t c hc
      simp only [hlookup] at hc
      split at hc
      · rename_i ht
        rw [ht, ← Option.some.inj hc]
        exact hvalid
      · exact h.topics t c hc
    · rintro t n ⟨c, hc, hlt⟩
      simp only [hlookup] at hc
      split at hc
      · rename_i ht
        subst ht
        cases hc
        unfold Broker.Placed
        rw [hinforms count hread hsaved hnew n hlt]
        exact List.length_eq_zero_iff.mpr (hempty n)
      · exact h.placed t n ⟨c, hc, hlt⟩
    · intro t n hout
      by_cases ht : t = request.topic
      · rw [ht]
        exact hempty n
      · refine h.absent t n fun ⟨c, hc, hlt⟩ => hout ⟨c, ?_, hlt⟩
        rw [hlookup, if_neg ht]
        exact hc

theorem deleteTopic_positioned (h : b.Positioned) (env : DeleteEnv) (request : Request)
    (hinforms : (LogEvent.deleteTopic env request).Informs b) :
    (b.handleDeleteTopic env request).1.Positioned := by
  rcases handleDeleteTopic_cases b h.topics env request with
    ⟨hcoordinator, htopics, hstorage | ⟨hremoved, hin, hstorage⟩⟩ |
    ⟨hremoved, hin, hcoordinator, htopics, hstorage⟩
  · refine h.congr htopics hcoordinator (by rw [hstorage]; exact h.counted) fun t n => ?_
    rw [Broker.log, hstorage]
    rfl
  · rcases Option.isSome_iff_exists.mp hin with ⟨count, hcount⟩
    have hparts := (@deleteTopic_left b.storage env _ (h.topics _ _ hcount).1
      (by rw [hremoved]; exact Bool.false_ne_true)).2
    refine h.congr htopics hcoordinator ?_ fun t n => ?_
    · intro t n
      rw [hstorage, hparts]
      split
      · cases b.storage.partitions.lookup (t, n) with
        | none => exact counted_fresh _
        | some p => exact reopen_counted _ _ p
      · exact h.counted t n
    · rw [Broker.log, hstorage]
      by_cases ht : t = request.topic
      · rw [ht]
        exact hinforms hremoved n
      · rw [hparts, if_neg ht]
        rfl
  · rcases Option.isSome_iff_exists.mp hin with ⟨count, hcount⟩
    have hparts := (@deleteTopic_removed b.storage env _ (h.topics _ _ hcount).1 hremoved).2
    have hlog : ∀ t n, (b.handleDeleteTopic env request).1.log t n
        = if t = request.topic then [] else b.log t n := by
      intro t n
      rw [Broker.log, hstorage, hparts]
      split
      · rfl
      · rfl
    refine ⟨?_, ?_, ?_, ?_⟩
    · intro t n
      rw [hstorage, hparts]
      split
      · exact counted_fresh _
      · exact h.counted t n
    · intro t c hc
      rw [htopics] at hc
      split at hc
      · cases hc
      · exact h.topics t c hc
    · rintro t n ⟨c, hc, hlt⟩
      rw [htopics] at hc
      split at hc
      · cases hc
      · rename_i ht
        have hold := h.placed t n ⟨c, hc, hlt⟩
        unfold Broker.Placed at hold ⊢
        rw [hlog, if_neg ht, hcoordinator]
        exact hold
    · intro t n hout
      rw [hlog]
      split
      · rfl
      · rename_i ht
        refine h.absent t n fun ⟨c, hc, hlt⟩ => hout ⟨c, ?_, hlt⟩
        rw [htopics, if_neg ht]
        exact hc

/-- A coordinator that was just started has recorded nothing. -/
theorem configureReplication_position (d : Broker) (nodeId : Bytes) (peers : List ReplicationPeer)
    (quorum : Nat) (follower : Bool) (authToken : Bytes) (stateFile : Option Bytes) (q : Bytes) :
    (d.configureReplication nodeId peers quorum follower authToken
      stateFile).coordinator.position q = none := by
  simp only [Broker.configureReplication]
  rw [← List.foldl_map (f := ReplicationPeer.nodeId) (g := registerReplica)]
  rcases foldl_registerReplica_eq (restart nodeId (if follower then .follower else .leader) 10000
    true stateFile) (peers.map ReplicationPeer.nodeId) with ⟨replicas, heq⟩
  rw [heq]
  rfl

/-- A broker that has just been started and has no messages. -/
theorem positioned_of_empty (hcounted : b.storage.Counted)
    (htopics : ∀ t count, b.topics.lookup t = some count → ValidTopic t count)
    (hposition : ∀ q, b.coordinator.position q = none) (hempty : ∀ t n, b.log t n = []) :
    b.Positioned := by
  refine ⟨hcounted, htopics, fun t n _ => ?_, fun t n _ => hempty t n⟩
  unfold Broker.Placed
  rw [hposition, hempty]
  rfl

end Topics

/-- Every event that informs the coordinator keeps the invariant. -/
theorem exec_positioned (b : Broker) (e : LogEvent) (h : b.Positioned) (hshort : b.Short)
    (hinforms : e.Informs b) : (e.exec b).Positioned := by
  cases e with
  | createTopic saved request => exact createTopic_positioned h saved request hinforms
  | deleteTopic env request => exact deleteTopic_positioned h env request hinforms
  | produce env request =>
      exact (handleProduce_positioned h env request true true hinforms
        fun t n => (Nat.le_add_right _ _).trans_lt (hshort t n)).1
  | produceBatch env request => exact handleProduceBatch_positioned h env request hinforms hshort
  | append env request => exact receiveAppend_positioned h env request hshort hinforms
  | pull ios topic partition messages => exact pull_positioned h ios topic partition messages hinforms
  | heartbeat now request => exact heartbeat_positioned h now request hinforms
  | operate op =>
      simp only [LogEvent.exec]
      split
      · rename_i htouches
        have hstep : b.Step { b with coordinator := op.exec b.coordinator } [op] [] 0 [] :=
          .quiet [] 0 rfl rfl rfl rfl
        have hnone : ∀ o ∈ [op], o.touches = none := by
          intro o ho
          rw [List.mem_singleton.mp ho]
          exact htouches
        exact h.step hstep (fun o ho => Or.inl (hnone o ho)) (fun hno => absurd rfl hno)
          fun hin => (h.placed _ _ hin).quiet hstep (Or.inl hnone)
      · exact h
  | restart follower =>
      exact positioned_of_empty (restarted_counted h.counted follower) h.topics
        (fun q => configureReplication_position _ _ _ _ _ _ _ q) hinforms

/-- A broker that is started on an empty data directory. -/
def startBroker (config : StorageConfig) (nodeId : Bytes) (peers : List ReplicationPeer)
    (quorum : Nat) (follower : Bool) (authToken : Bytes) : Broker :=
  (Broker.fresh config).configureReplication nodeId peers quorum follower authToken none

/-- Coordinator and logs agree in every state of every run in which the
    coordinator hears of everything that matters to it. -/
theorem positions_agree (config : StorageConfig) (nodeId : Bytes) (peers : List ReplicationPeer)
    (quorum : Nat) (follower : Bool) (authToken : Bytes) (events : List LogEvent)
    (h : Along LogEvent.exec (fun b e => b.Short ∧ e.Informs b)
      (startBroker config nodeId peers quorum follower authToken) events) :
    Always LogEvent.exec Broker.PositionsAgree
      (startBroker config nodeId peers quorum follower authToken) events := by
  have hstart : (startBroker config nodeId peers quorum follower authToken).Positioned := by
    refine positioned_of_empty (fun t n => counted_fresh config.effective) ?_
      (fun q => configureReplication_position _ _ _ _ _ _ _ q) fun t n => rfl
    intro t count hcount
    cases hcount
  exact (Always.of_along (fun b e hb he => exec_positioned b e hb he.1 he.2) hstart h).mono
    fun b hb => hb.agree

/-- A request for a topic with one partition. -/
def topicRequest : Request := { command := .createTopic, topic := [112], payload := put32 1 }

/-- A produce request for its partition. -/
def messageRequest : Request :=
  { command := .produce, topic := [112], payload := put32 0 ++ (put16 0 ++ (put32 1 ++ [118])) }

/-- A leader without peers creates a topic and produces two messages. -/
theorem positions_agree_produced :
    (([.createTopic true topicRequest, .produce {} messageRequest,
        .produce {} messageRequest].foldl LogEvent.exec
      (startBroker {} [108] [] 1 false [])).log [112] 0).length = 2 ∧
    Always LogEvent.exec Broker.PositionsAgree (startBroker {} [108] [] 1 false [])
      [.createTopic true topicRequest, .produce {} messageRequest,
        .produce {} messageRequest] := by
  refine ⟨by decide +kernel, positions_agree _ _ _ _ _ _ _ ⟨⟨by decide +kernel, ?_⟩,
    ⟨by decide +kernel, rfl⟩, ⟨by decide +kernel, rfl⟩, trivial⟩⟩
  intro count _ _ _ partition _
  exact configureReplication_position _ _ _ _ _ _ _ _

/-- A follower pulls the first message of its leader, and its coordinator does
    not hear of it. -/
theorem positions_disagree :
    ¬ Always LogEvent.exec Broker.PositionsAgree (startBroker {} [102] [⟨[108], true⟩] 2 true [116])
      [.createTopic true topicRequest,
        .pull (fun _ => {}) [112] 0 [{ offset := 0, timestampMs := 1, key := [], value := [118] }]] := by
  intro h
  have hexists : ((LogEvent.pull (fun _ => {}) [112] 0
      [{ offset := 0, timestampMs := 1, key := [], value := [118] }]).exec
      ((LogEvent.createTopic true topicRequest).exec
        (startBroker {} [102] [⟨[108], true⟩] 2 true [116]))).Exists [112] 0 := by
    decide +kernel
  exact absurd ((h.2.2 [112] 0 hexists).1 (by decide +kernel)) (by decide +kernel)

end MqBroker
