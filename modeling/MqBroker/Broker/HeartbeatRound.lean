import MqBroker.Broker.State
import MqBroker.Replication.Ballot

/-!
# The Leader's Heartbeat Round

One iteration of `ReplicationLoop` on a leader: a heartbeat for every peer and
every partition of every topic, a push of what the peer is behind after each
answered one, and the verdict on the round at the end.

The verdict is meant to say whether a majority of the nodes is alive. What the
loop counts is heartbeats, one for each partition, and what it compares with is
not `Majority` of the coordinator but a formula of its own. The two slips go in
opposite directions: with many partitions one peer can stand for a majority,
and with few answers a majority is not enough. `Undercounts` and `Overcounts`
are the rounds in which one of them shows.

## Main definitions

* `HeartbeatCall`: How a peer answers one heartbeat, and the push behind it.
* `Broker.roundCalls`: The calls of a round, in the order of the three loops.
* `Broker.heartbeatRound`: The iteration.
* `Broker.aliveNodes`: The leader and the peers that answered.
* `Broker.Undercounts`, `Broker.Overcounts`: The rounds that are misjudged.

## Theorems

* `heartbeatRound_frame`: What a round writes.
* `roundLoop_responses`: The loops count the answered heartbeats.
* `majorityResponded_iff_alive`: The verdict is right in all other rounds, and
  only there.
* `undercounts_iff_half`: Among distinct peers the first kind is that exactly
  half of them answered, each once.
* `stepped_down_without_peers`: A leader without peers loses its role after
  three rounds, whatever its topics.
-/

namespace MqBroker

/-- One call of the three loops: the position of the peer, the peer, the topic
    and the partition. -/
structure HeartbeatTarget where
  index : Nat
  peer : ReplicationPeer
  topic : Bytes
  partition : UInt32
deriving DecidableEq, Repr

/-- How a peer answers one heartbeat. -/
structure HeartbeatCall where
  /-- The clock when the answer is noted, or nothing when the call fails. -/
  answered : Option Int := none
  /-- The partition can be opened for the push behind the heartbeat. -/
  partitionOk : Bool := true
  /-- The push succeeds. -/
  pushed : Bool := false
deriving DecidableEq, Repr

/-- What the peers do in one round. -/
abbrev RoundEnv := HeartbeatTarget → HeartbeatCall

/-- Whether a heartbeat of the round is answered. -/
def RoundEnv.answers (env : RoundEnv) (target : HeartbeatTarget) : Bool :=
  (env target).answered.isSome

/-- `ListTopics`: the topics with their partition counts, sorted by name. -/
def Broker.listTopics (b : Broker) : List (Bytes × UInt32) :=
  (b.topics.entries.map (fun entry => (entry.1, entry.2))).mergeSort
    (fun x y => decide (x.1 ≤ y.1))

/-- The calls of a round: peers, then topics, then partitions. -/
def Broker.roundCalls (b : Broker) : List HeartbeatTarget :=
  b.replicationPeers.zipIdx.flatMap (fun peer =>
    b.listTopics.flatMap (fun topic =>
      (List.range topic.2.toNat).map (fun partition =>
        { index := peer.2, peer := peer.1, topic := topic.1,
          partition := UInt32.ofNat partition })))

/-- The key of `replication_offsets_` for what a peer has of a partition. -/
def progressKey (nodeId key : Bytes) : Bytes := nodeId ++ 58 :: key

/-- The push behind an answered heartbeat: what the peer is behind, and the
    note of it when the push succeeds. -/
def Broker.pushPending (b : Broker) (target : HeartbeatTarget) (call : HeartbeatCall) : Broker :=
  let key := progressKey target.peer.nodeId (partitionKey target.topic target.partition)
  let followerOffset := (b.replicationOffsets.lookup key).getD 0
  let b := { b with replicationOffsets := b.replicationOffsets.insert key followerOffset }
  match b.storage.read call.partitionOk target.topic target.partition followerOffset 1048576 with
  | .error _ => b
  | .ok pending =>
      match pending.getLast? with
      | none => b
      | some last =>
          if call.pushed then
            { b with replicationOffsets := b.replicationOffsets.insert key (last.offset + 1) }
          else b

/-- The body of the innermost loop, on the broker and the count of answered
    heartbeats. -/
def roundStep (env : RoundEnv) (s : Broker × Nat) (target : HeartbeatTarget) : Broker × Nat :=
  match (env target).answered with
  | none => s
  | some now =>
      let key := partitionKey target.topic target.partition
      let observed :=
        { s.1 with
          coordinator := s.1.coordinator.observeHeartbeat key target.peer.nodeId
            (s.1.coordinator.partitionCommitIndex key) now }
      (observed.pushPending target (env target), s.2 + 1)

/-- The three loops. The count starts at one, for the leader itself. -/
def Broker.roundLoop (b : Broker) (env : RoundEnv) : Broker × Nat :=
  b.roundCalls.foldl (roundStep env) (b, 1)

/-- The flag that is passed to `ObserveHeartbeatRound`. -/
def Broker.majorityResponded (b : Broker) (env : RoundEnv) : Bool :=
  (b.roundLoop env).2 ≥ (b.replicationPeers.length + 2) / 2 + 1

/-- The leader branch of `ReplicationLoop`. -/
def Broker.heartbeatRound (b : Broker) (env : RoundEnv) : Broker :=
  let looped := (b.roundLoop env).1
  { looped with
    coordinator := (looped.coordinator.observeHeartbeatRound (b.majorityResponded env)).1 }

/-! ## What a round writes -/

section Frame

variable (b : Broker) (env : RoundEnv)

/-- A push notes how far its peer has come, and writes nothing else. -/
theorem pushPending_frame (target : HeartbeatTarget) (call : HeartbeatCall) :
    ∃ cursors, b.pushPending target call = { b with replicationOffsets := cursors } ∧
      ∀ key, key ≠ progressKey target.peer.nodeId (partitionKey target.topic target.partition) →
        cursors.lookup key = b.replicationOffsets.lookup key := by
  simp only [Broker.pushPending]
  split
  · exact ⟨_, rfl, fun _ hne => AList.lookup_insert_ne hne⟩
  · split
    · exact ⟨_, rfl, fun _ hne => AList.lookup_insert_ne hne⟩
    · split
      · refine ⟨_, rfl, fun _ hne => ?_⟩
        rw [AList.lookup_insert_ne hne, AList.lookup_insert_ne hne]
      · exact ⟨_, rfl, fun _ hne => AList.lookup_insert_ne hne⟩

/-- The loops write to the coordinator and to what the leader notes of its
    peers. -/
theorem roundLoop_frame :
    ∃ c cursors,
      (b.roundLoop env).1 = { b with coordinator := c, replicationOffsets := cursors } ∧
      ∀ key, (∀ node topic n, key ≠ progressKey node (partitionKey topic n)) →
        cursors.lookup key = b.replicationOffsets.lookup key := by
  refine List.foldlRecOn (motive := fun s : Broker × Nat =>
    ∃ c cursors, s.1 = { b with coordinator := c, replicationOffsets := cursors } ∧
      ∀ key, (∀ node topic n, key ≠ progressKey node (partitionKey topic n)) →
        cursors.lookup key = b.replicationOffsets.lookup key) _ _ ⟨_, _, rfl, fun _ _ => rfl⟩ ?_
  rintro s ⟨c, cursors, hs, hkept⟩ target _
  unfold roundStep
  cases (env target).answered with
  | none => exact ⟨c, cursors, hs, hkept⟩
  | some now =>
      simp only [hs]
      -- What a turn notes has a key of the kind that earlier turns have noted.
      rcases pushPending_frame _ target (env target) with ⟨noted, heq, hothers⟩
      exact ⟨_, noted, heq, fun key hkey => (hothers key (hkey _ _ _)).trans (hkept key hkey)⟩

/-- So does the round. -/
theorem heartbeatRound_frame :
    ∃ c cursors, b.heartbeatRound env = { b with coordinator := c, replicationOffsets := cursors } ∧
      ∀ key, (∀ node topic n, key ≠ progressKey node (partitionKey topic n)) →
        cursors.lookup key = b.replicationOffsets.lookup key := by
  rcases roundLoop_frame b env with ⟨c, cursors, hloop, hkept⟩
  refine ⟨(c.observeHeartbeatRound (b.majorityResponded env)).1, cursors, ?_, hkept⟩
  simp only [Broker.heartbeatRound, hloop]

end Frame

/-! ## What a round counts -/

/-- The heartbeats of a round that are answered. -/
def Broker.answeredCalls (b : Broker) (env : RoundEnv) : Nat := b.roundCalls.countP env.answers

/-- The peers that answer at least one heartbeat. -/
def Broker.answeringPeers (b : Broker) (env : RoundEnv) : Finset Bytes :=
  ((b.roundCalls.filter env.answers).map (fun target => target.peer.nodeId)).toFinset.erase b.nodeId

/-- The nodes that are alive in a round: the leader and the peers that answer. -/
def Broker.aliveNodes (b : Broker) (env : RoundEnv) : Finset Bytes :=
  insert b.nodeId (b.answeringPeers env)

/-- At least half of the replicas answer, and their heartbeats are no more than
    half as many as the peers. -/
def Broker.Undercounts (b : Broker) (env : RoundEnv) : Prop :=
  b.coordinator.replicas.size ≤ 2 * (b.answeringPeers env).card ∧
    2 * b.answeredCalls env ≤ b.replicationPeers.length

/-- Less than half of the replicas answer, and their heartbeats are more than
    half as many as the peers. -/
def Broker.Overcounts (b : Broker) (env : RoundEnv) : Prop :=
  2 * (b.answeringPeers env).card < b.coordinator.replicas.size ∧
    b.replicationPeers.length < 2 * b.answeredCalls env

section Round

variable (b : Broker) (env : RoundEnv)

theorem roundStep_responses (s : Broker × Nat) (target : HeartbeatTarget) :
    (roundStep env s target).2 = s.2 + if env.answers target then 1 else 0 := by
  unfold roundStep RoundEnv.answers
  cases (env target).answered <;> rfl

/-- The loops count the answered heartbeats, not the peers. -/
theorem roundLoop_responses : (b.roundLoop env).2 = 1 + b.answeredCalls env := by
  have hfold : ∀ (calls : List HeartbeatTarget) (s : Broker × Nat),
      (calls.foldl (roundStep env) s).2 = s.2 + calls.countP env.answers := by
    intro calls
    induction calls with
    | nil => exact fun s => rfl
    | cons target calls ih =>
        intro s
        rw [List.foldl_cons, ih, roundStep_responses, List.countP_cons]
        omega
  exact hfold b.roundCalls (b, 1)

theorem card_aliveNodes : (b.aliveNodes env).card = (b.answeringPeers env).card + 1 := by
  refine Finset.card_insert_of_notMem ?_
  exact Finset.notMem_erase b.nodeId _

theorem majorityResponded_iff :
    b.majorityResponded env = true ↔ b.replicationPeers.length < 2 * b.answeredCalls env := by
  rw [Broker.majorityResponded, decide_eq_true_eq, roundLoop_responses]
  omega

theorem majority_le_alive_iff :
    b.coordinator.majority ≤ (b.aliveNodes env).card
      ↔ b.coordinator.replicas.size ≤ 2 * (b.answeringPeers env).card := by
  rw [ReplicationCoordinator.majority, card_aliveNodes]
  omega

/-- The flag of a round says whether a majority of the nodes is alive, in the
    rounds that neither undercount nor overcount them and in no others. -/
theorem majorityResponded_iff_alive :
    (b.majorityResponded env = true ↔ b.coordinator.majority ≤ (b.aliveNodes env).card)
      ↔ ¬ b.Undercounts env ∧ ¬ b.Overcounts env := by
  rw [majorityResponded_iff, majority_le_alive_iff, Broker.Undercounts, Broker.Overcounts]
  omega

end Round

/-! ## Distinct peers -/

/-- The configured peers are distinct, and they are the replicas the
    coordinator has registered. -/
structure Broker.DistinctPeers (b : Broker) : Prop where
  nodup : (b.replicationPeers.map ReplicationPeer.nodeId).Nodup
  registered : b.coordinator.replicas.size = b.replicationPeers.length

section Distinct

variable (b : Broker) (env : RoundEnv)

/-- No peer answers without a heartbeat of its own. -/
theorem card_answeringPeers_le : (b.answeringPeers env).card ≤ b.answeredCalls env := by
  calc (b.answeringPeers env).card
      ≤ ((b.roundCalls.filter env.answers).map (fun target => target.peer.nodeId)).toFinset.card :=
        Finset.card_erase_le
    _ ≤ ((b.roundCalls.filter env.answers).map (fun target => target.peer.nodeId)).length :=
        List.toFinset_card_le _
    _ = b.answeredCalls env := by
        rw [List.length_map, Broker.answeredCalls, List.countP_eq_length_filter]

/-- Distinct peers are undercounted when exactly half of them answer, each of
    them once. -/
theorem undercounts_iff_half (h : b.DistinctPeers) :
    b.Undercounts env
      ↔ 2 * (b.answeringPeers env).card = b.replicationPeers.length ∧
        b.answeredCalls env = (b.answeringPeers env).card := by
  have hle := card_answeringPeers_le b env
  rw [Broker.Undercounts, h.registered]
  omega

end Distinct

/-! ## No peers -/

section NoPeers

variable {b : Broker} (env : RoundEnv)

/-- Without peers there are no calls, and the round is missed. -/
theorem heartbeatRound_without_peers (h : b.replicationPeers = []) :
    b.heartbeatRound env
      = { b with coordinator := (b.coordinator.observeHeartbeatRound false).1 } := by
  have hcalls : b.roundCalls = [] := by
    rw [Broker.roundCalls, h]
    rfl
  have hloop : b.roundLoop env = (b, 1) := by rw [Broker.roundLoop, hcalls, List.foldl_nil]
  have hflag : b.majorityResponded env = false := by
    rw [Broker.majorityResponded, hloop, h]
    rfl
  rw [Broker.heartbeatRound, hflag, hloop]

/-- A missed round changes nothing but the count, before the third. -/
theorem observeHeartbeatRound_missed {c : ReplicationCoordinator} (hrole : c.role = .leader) :
    (c.observeHeartbeatRound false).1
      = if c.missedHeartbeatRounds + 1 < 3 then
          { c with missedHeartbeatRounds := c.missedHeartbeatRounds + 1 }
        else { c with
          missedHeartbeatRounds := c.missedHeartbeatRounds + 1
          role := .follower
          leaderId := []
          votes := ∅ } := by
  rw [ReplicationCoordinator.observeHeartbeatRound, if_neg (not_not.mpr hrole), if_neg (by decide)]
  simp only
  split <;> rfl

/-- A leader that has missed no round yet and has no peers is a follower after
    three rounds. -/
theorem stepped_down_without_peers (env₁ env₂ env₃ : RoundEnv) (hpeers : b.replicationPeers = [])
    (hrole : b.coordinator.role = .leader) (hmissed : b.coordinator.missedHeartbeatRounds = 0) :
    (((b.heartbeatRound env₁).heartbeatRound env₂).heartbeatRound env₃).coordinator.role
      = .follower := by
  have hround : ∀ (d : Broker) (env : RoundEnv), d.replicationPeers = [] →
      d.coordinator.role = .leader → d.coordinator.missedHeartbeatRounds < 2 →
      (d.heartbeatRound env).replicationPeers = [] ∧
      (d.heartbeatRound env).coordinator.role = .leader ∧
      (d.heartbeatRound env).coordinator.missedHeartbeatRounds
        = d.coordinator.missedHeartbeatRounds + 1 := by
    intro d env hd hlead hfew
    rw [heartbeatRound_without_peers env hd, observeHeartbeatRound_missed hlead,
      if_pos (by omega)]
    exact ⟨hd, hlead, rfl⟩
  rcases hround b env₁ hpeers hrole (by omega) with ⟨hpeers₁, hrole₁, hmissed₁⟩
  rcases hround _ env₂ hpeers₁ hrole₁ (by omega) with ⟨hpeers₂, hrole₂, hmissed₂⟩
  rw [heartbeatRound_without_peers env₃ hpeers₂, observeHeartbeatRound_missed hrole₂,
    if_neg (by omega)]

end NoPeers

/-- A fresh leader without peers and without topics is alone, alive, a majority
    of one, and told that it is not. -/
theorem lonely_leader_misjudged :
    (Broker.fresh {}).coordinator.role = .leader ∧ (Broker.fresh {}).replicationPeers = [] ∧
    (Broker.fresh {}).coordinator.majority = 1 ∧
    ((Broker.fresh {}).aliveNodes fun _ => {}).card = 1 ∧
    ((Broker.fresh {}).majorityResponded fun _ => {}) = false := by
  decide +kernel

end MqBroker
