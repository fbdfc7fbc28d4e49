import MqBroker.Replication.Cluster
import MqBroker.Replication.Durability
import MqBroker.Cluster.Wire

/-!
# Elections Among Brokers

The coordinators of the brokers vote and lead as those of a cluster that does
nothing else. What brokers do besides, pushes, heartbeats and commits, is
silent: it casts no vote, counts none, and never makes a node the leader.

A restart is a silent move too, as long as the node is not the one that is
configured as leader and its state file was written with the term and the vote
it has.

## Main definitions

* `BrokerCluster.world`: The ballots and votes of the brokers.
* `NodeLinked`: What is known of one coordinator.
* `Balloted`: The invariant of elections among brokers.
* `Followed`: Steps of the election library between two clusters.

## Theorems

* `exec_followed`: The election library follows every event.
* `exec_grants`: Where votes come from.
-/

namespace MqBroker

open Election (Ballot Label World Setup)
open ReplicationCoordinator

/-- The ids and the configured leader, as the coordinators see them. -/
def BrokersConfig.elections (config : BrokersConfig) : ClusterConfig where
  members := config.members
  first := config.first
  timeoutMs := 10000
  hasStatePath := true

/-- The members have ids, and no longer ones than a state file holds. -/
def BrokersConfig.Named (config : BrokersConfig) : Prop :=
  ∀ n ∈ config.members, n ≠ [] ∧ n.length ≤ maxVotedSize

instance (config : BrokersConfig) : Decidable config.Named :=
  inferInstanceAs (Decidable (∀ n ∈ config.members, _ ∧ _))

/-- The ballots and the votes of the brokers. -/
def BrokerCluster.world (s : BrokerCluster) : World Bytes UInt64 where
  nodes := fun n => (s.nodes n).coordinator.ballot
  cast := {v | v ∈ s.grants}

/-! ## One coordinator -/

/-- What is known of the coordinator of a member: it has registered all others,
    and its vote is not too long to be saved. -/
structure NodeLinked (config : BrokersConfig) (n : Bytes) (c : ReplicationCoordinator) : Prop where
  id : c.nodeId = n
  replicas : ∀ m, m ∈ c.replicas ↔ m ∈ config.members ∧ m ≠ n
  path : c.hasStatePath = true
  voted : c.votedFor.length ≤ maxVotedSize

/-- The operations that no election notices. -/
def Op.silent (n : Bytes) : Op → Bool
  | .observeHeartbeat _ _ _ _ => true
  | .observeAppend _ _ leader _ _ _ => leader ≠ n
  | .advanceCommit _ _ _ => true
  | .recordLocalOffset _ _ => true
  | _ => false

section Node

variable {config : BrokersConfig} {n : Bytes} {c : ReplicationCoordinator}

theorem Op.silent_quiet {op : Op} (h : op.silent n = true) (hid : c.nodeId = n) :
    op.label c = .quiet ∧ op.vote c = none ∧ op.keepsMembers = true := by
  cases op with
  | observeAppend p t l off commit now =>
      have hne : l ≠ n := of_decide_eq_true h
      refine ⟨?_, rfl, rfl⟩
      rw [Op.label, hid, if_neg (fun hlead => hne hlead.2)]
  | observeHeartbeat => exact ⟨rfl, rfl, rfl⟩
  | advanceCommit => exact ⟨rfl, rfl, rfl⟩
  | recordLocalOffset => exact ⟨rfl, rfl, rfl⟩
  | _ => exact absurd h Bool.false_ne_true

/-- A vote goes to a member. -/
theorem cast_member (h : NodeLinked config n c) (hn : n ∈ config.members) {op : Op} {cand : Bytes}
    (hlabel : op.label c = .cast cand) : cand ∈ config.members := by
  cases op with
  | requestVote t cand' idx lt =>
      simp only [Op.label] at hlabel
      split at hlabel
      · rename_i hgranted
        rw [← Label.cast.inj hlabel]
        rcases of_decide_eq_true (requestVote_granted hgranted).1 with ⟨_, _, hmember⟩
        simp only [isMember, h.id, Bool.or_eq_true, decide_eq_true_eq] at hmember
        rcases hmember with rfl | hreplica
        · exact hn
        · exact ((h.replicas cand').mp (AList.lookup_isSome.mp hreplica)).1
      · cases hlabel
  | beginElection =>
      rw [← Label.cast.inj hlabel, h.id]
      exact hn
  | setLeader id =>
      simp only [Op.label] at hlabel
      split at hlabel <;> cases hlabel
  | observeAppend p t l off commit now =>
      simp only [Op.label] at hlabel
      split at hlabel <;> cases hlabel
  | observeVote t v g =>
      simp only [Op.label] at hlabel
      split at hlabel <;> cases hlabel
  | _ => cases hlabel

/-- What is known of a coordinator stays known. -/
theorem NodeLinked.exec (h : NodeLinked config n c) (hn : n ∈ config.members)
    (hnamed : config.Named) (op : Op) (hkeeps : op.keepsMembers = true)
    (hterm : op = .beginElection → c.currentTerm.toNat < 2 ^ 64 - 1) :
    NodeLinked config n (op.exec c) := by
  have hvoted : (op.exec c).votedFor.length ≤ maxVotedSize := by
    have hstep := op.ballot_step (c := c) (q := 0) (by rw [h.id]; exact (hnamed n hn).1)
      (Nat.zero_le _) (fun hop => lt_add_one_of_toNat_lt _ (hterm hop))
    rcases hstep.votedFor_cases with hsame | hnone | hself | ⟨cand, hlabel, hcand⟩
    · rw [show (op.exec c).votedFor = c.votedFor from optionalId_injective hsame]
      exact h.voted
    · rw [show (op.exec c).votedFor = [] from optionalId_eq_none hnone]
      exact Nat.zero_le _
    · rw [show (op.exec c).votedFor = c.nodeId from optionalId_eq_some hself, h.id]
      exact (hnamed n hn).2
    · rw [show (op.exec c).votedFor = cand from optionalId_eq_some hcand]
      exact (hnamed cand (cast_member h hn hlabel)).2
  refine ⟨op.exec_nodeId.trans h.id, ?_, op.exec_hasStatePath.trans h.path, hvoted⟩
  intro m
  rw [op.exec_replicas hkeeps, h.replicas]

/-- The coordinator of a configured broker, once it has registered its peers. -/
theorem configured_linked (hnamed : config.Named) (c : ReplicationCoordinator)
    (hid : c.nodeId = n) (hempty : ∀ m, m ∉ c.replicas) (hpath : c.hasStatePath = true)
    (hvoted : c.votedFor.length ≤ maxVotedSize) :
    NodeLinked config n ((config.peers n).foldl (fun c peer => c.registerReplica peer.nodeId) c) ∧
      ((config.peers n).foldl (fun c peer => c.registerReplica peer.nodeId) c).ballot
        = c.ballot := by
  have hfold : (config.peers n).foldl (fun c peer => c.registerReplica peer.nodeId) c
      = (config.members.filter (fun m => m ≠ n)).foldl registerReplica c := by
    rw [BrokersConfig.peers, List.foldl_map]
  rw [hfold]
  rcases foldl_registerReplica c (config.members.filter (fun m => m ≠ n)) with
    ⟨hnode, hballot, hreplicas⟩
  rcases foldl_registerReplica_eq c (config.members.filter (fun m => m ≠ n)) with ⟨replicas, heq⟩
  refine ⟨⟨hnode.trans hid, ?_, ?_, ?_⟩, hballot⟩
  · intro m
    rw [hreplicas, hid, List.mem_filter, decide_eq_true_eq]
    constructor
    · rintro (hin | ⟨⟨hin, _⟩, _, hne⟩)
      · exact absurd hin (hempty m)
      · exact ⟨hin, hne⟩
    · rintro ⟨hin, hne⟩
      exact Or.inr ⟨⟨hin, hne⟩, (hnamed m hin).1, hne⟩
  · rw [heq]
    exact hpath
  · rw [heq]
    exact hvoted

end Node

/-! ## All coordinators -/

/-- The invariant of elections among brokers. -/
structure Balloted (config : BrokersConfig) (s : BrokerCluster) : Prop where
  world : s.world.Inv (electionSetup config.elections)
  nodes : ∀ n ∈ config.members, NodeLinked config n (s.nodes n).coordinator

/-- Between two clusters the library makes some steps, and the coordinators are
    still linked to it. -/
structure Followed (config : BrokersConfig) (s s' : BrokerCluster) : Prop where
  world : Relation.ReflTransGen (World.Step (electionSetup config.elections)) s.world s'.world
  nodes : ∀ n ∈ config.members, NodeLinked config n (s'.nodes n).coordinator

section Cluster

variable {config : BrokersConfig} {s s' : BrokerCluster} {n : Bytes}

theorem Balloted.followed (h : Balloted config s) (hf : Followed config s s') :
    Balloted config s' :=
  ⟨h.world.reachable hf.world, hf.nodes⟩

/-- It is enough to look at the coordinator that has changed. -/
theorem Balloted.followed_one (h : Balloted config s) {c : ReplicationCoordinator}
    (hworld : Relation.ReflTransGen (World.Step (electionSetup config.elections)) s.world s'.world)
    (hself : (s'.nodes n).coordinator = c) (hlinked : n ∈ config.members → NodeLinked config n c)
    (hothers : ∀ m, m ≠ n → s'.nodes m = s.nodes m) : Followed config s s' := by
  refine ⟨hworld, ?_⟩
  intro m hm
  by_cases hmn : m = n
  · rw [hmn, hself]
    exact hlinked (hmn ▸ hm)
  · rw [hothers m hmn]
    exact h.nodes m hm

theorem world_ext {w w' : World Bytes UInt64} (hnodes : ∀ m, w'.nodes m = w.nodes m)
    (hcast : w'.cast = w.cast) : w' = w := by
  cases w
  cases w'
  simp only [World.mk.injEq]
  exact ⟨funext hnodes, hcast⟩

/-- Silent operations of a member, one after the other. -/
theorem silent_world (hn : n ∈ config.members) (hnamed : config.Named) (ops : List Op)
    (hsilent : ∀ op ∈ ops, op.silent n = true) (c : ReplicationCoordinator)
    (w w' : World Bytes UInt64) (hlinked : NodeLinked config n c) (hbefore : w.nodes n = c.ballot)
    (hafter : w'.nodes n = (ops.foldl Op.exec c).ballot)
    (hothers : ∀ m, m ≠ n → w'.nodes m = w.nodes m) (hcast : w'.cast = w.cast) :
    Relation.ReflTransGen (World.Step (electionSetup config.elections)) w w' ∧
      NodeLinked config n (ops.foldl Op.exec c) := by
  induction ops generalizing c w with
  | nil =>
      refine ⟨?_, hlinked⟩
      have heq : w' = w := by
        refine world_ext (fun m => ?_) hcast
        by_cases hm : m = n
        · rw [hm, hbefore]
          exact hafter
        · exact hothers m hm
      rw [heq]
  | cons op rest ih =>
      rcases Op.silent_quiet (c := c) (hsilent op List.mem_cons_self) hlinked.id with
        ⟨hlabel, hvote, hkeeps⟩
      -- A silent operation is not the start of an election.
      have hbegin : op ≠ .beginElection := by
        rintro rfl
        exact absurd (hsilent _ List.mem_cons_self) Bool.false_ne_true
      have hnext := hlinked.exec hn hnamed op hkeeps (fun hop => absurd hop hbegin)
      have hstep : World.Step (electionSetup config.elections) w
          ⟨Function.update w.nodes n (op.exec c).ballot, w.cast⟩ := by
        refine op_step op c hn hlinked.id (hnamed n hn).1 hlinked.replicas
          (fun hop => absurd hop hbegin) ?_ ?_ hbefore ?_ ?_ ?_
        · rintro v rfl
          exact absurd (hsilent _ List.mem_cons_self) Bool.false_ne_true
        · intro hlead
          rw [hlabel] at hlead
          cases hlead
        · exact Function.update_self n _ w.nodes
        · exact fun m hm => Function.update_of_ne hm _ w.nodes
        · intro v
          rw [hvote]
          simp only [reduceCtorEq, and_false, or_false]
      have hrest : ∀ m, m ≠ n → w'.nodes m = Function.update w.nodes n (op.exec c).ballot m := by
        intro m hm
        rw [hothers m hm, Function.update_of_ne hm]
      rcases ih (fun o ho => hsilent o (List.mem_cons_of_mem op ho)) (op.exec c)
        ⟨Function.update w.nodes n (op.exec c).ballot, w.cast⟩ hnext
        (Function.update_self n _ w.nodes) hafter hrest hcast with ⟨hrun, hlast⟩
      exact ⟨.head hstep hrun, hlast⟩

/-- A single operation of a member that others may take notice of. -/
theorem operate_followed (h : Balloted config s) (hnamed : config.Named) (hn : n ∈ config.members)
    (op : Op) (hkeeps : op.keepsMembers = true)
    (hterm : op = .beginElection → (s.nodes n).coordinator.currentTerm.toNat < 2 ^ 64 - 1)
    (hvote : ∀ t v, op = .observeVote t v true → (t, v, n) ∈ s.grants)
    (hlead : op.label (s.nodes n).coordinator ≠ .lead) : Followed config s (s.operate n op) := by
  have hlinked := h.nodes n hn
  have hself : ((s.operate n op).nodes n).coordinator = op.exec (s.nodes n).coordinator :=
    congrArg Broker.coordinator (set_nodes_self s n _)
  have hothers : ∀ m, m ≠ n → (s.operate n op).nodes m = s.nodes m :=
    fun m hm => set_nodes_ne s _ hm
  have hstep : World.Step (electionSetup config.elections) s.world (s.operate n op).world := by
    refine op_step op (s.nodes n).coordinator hn hlinked.id (hnamed n hn).1
      hlinked.replicas hterm (fun v hop => hvote _ v hop) (fun hl => absurd hl hlead) rfl
      (congrArg ballot hself) (fun m hm => congrArg (fun b => b.coordinator.ballot)
        (hothers m hm)) ?_
    rintro ⟨t, voter, cand⟩
    simp only [BrokerCluster.world, BrokerCluster.operate, Set.mem_ofPred_eq, List.mem_append,
      List.mem_map, Option.mem_toList, Prod.mk.injEq]
    constructor
    · rintro (hold | ⟨v, hv, rfl, rfl, rfl⟩)
      · exact Or.inl hold
      · exact Or.inr ⟨rfl, hv⟩
    · rintro (hold | ⟨rfl, hv⟩)
      · exact Or.inl hold
      · exact Or.inr ⟨_, hv, rfl, rfl, rfl⟩
  exact h.followed_one (.single hstep) hself
    (fun _ => hlinked.exec hn hnamed op hkeeps hterm) hothers

/-- An event that casts no vote makes silent operations only. -/
theorem Effect.silent (h : Logged config s) {e : ClusterEvent} {ops : List Op} {t : Bytes}
    {p : UInt32} {ms : List Message} (heffect : Effect config s e n ops t p ms)
    (he : .grants ∉ e.lists) :
    (∀ op ∈ ops, op.silent n = true) ∧ (ops = [] ∨ n ∈ config.members) := by
  cases heffect with
  | quiet => exact ⟨fun op hop => absurd hop List.not_mem_nil, Or.inl rfl⟩
  | operate _ _ op hevent hn hop =>
      rw [hevent] at he
      exact absurd List.mem_cons_self he
  | vote _ _ index hevent q hn hq =>
      rw [hevent] at he
      exact absurd List.mem_cons_self he
  | commit _ _ hn key offset now =>
      refine ⟨fun op hop => ?_, Or.inr hn⟩
      rw [List.mem_singleton.mp hop]
      rfl
  | answer _ _ hn key peer offset now =>
      refine ⟨fun op hop => ?_, Or.inr hn⟩
      rw [List.mem_singleton.mp hop]
      rfl
  | store index hevent a ha hnode ops hops ms hms =>
      refine ⟨fun op hop => ?_, Or.inr ?_⟩
      · rcases hops op hop with ⟨key, offset, rfl⟩
        rfl
      · rw [← hnode]
        exact (h.admitted a (List.mem_of_getElem? ha)).1
  | deliver push hpush hn hne ops hops t p ms hms =>
      refine ⟨fun op hop => ?_, Or.inr hn⟩
      rcases hops op hop with ⟨key, offset, commit, now, rfl⟩ | ⟨key, offset, rfl⟩
      · exact decide_eq_true (Ne.symm hne)
      · rfl
  | fetch => exact ⟨fun op hop => absurd hop List.not_mem_nil, Or.inl rfl⟩

/-- The cluster after a step that casts no vote. -/
theorem silent_followed (h : Balloted config s) (hnamed : config.Named) {ops : List Op} {t : Bytes}
    {p : UInt32} {ms : List Message} (hmoved : Moved s s' n ops t p ms)
    (hgrants : s'.grants = s.grants) (hsilent : ∀ op ∈ ops, op.silent n = true)
    (hn : ops = [] ∨ n ∈ config.members) : Followed config s s' := by
  have hothers : ∀ m, m ≠ n → s'.world.nodes m = s.world.nodes m :=
    fun m hm => congrArg (fun b => b.coordinator.ballot) (hmoved.others m hm)
  have hcast : s'.world.cast = s.world.cast := by
    simp only [BrokerCluster.world, hgrants]
  rcases hn with rfl | hn
  · -- No coordinator has changed.
    have hsame : (s'.nodes n).coordinator = (s.nodes n).coordinator := hmoved.step.coordinator
    have heq : s'.world = s.world := by
      refine world_ext (fun m => ?_) hcast
      by_cases hm : m = n
      · rw [hm]
        exact congrArg ballot hsame
      · exact hothers m hm
    exact h.followed_one (by rw [heq]) hsame (h.nodes n) hmoved.others
  · rcases silent_world hn hnamed ops hsilent (s.nodes n).coordinator s.world s'.world
      (h.nodes n hn) rfl (congrArg ballot hmoved.step.coordinator) hothers hcast with
      ⟨hworld, hlinked⟩
    exact h.followed_one hworld hmoved.step.coordinator (fun _ => hlinked) hmoved.others

/-- A node that is not configured as leader comes back with the vote that it
    has saved, and does not lead. -/
theorem restart_followed (hlogged : Logged config s) (h : Balloted config s)
    (hnamed : config.Named) (hn : n ∈ config.members) (hfirst : n ≠ config.first)
    (hsaved : (s.nodes n).coordinator.VoteSaved) :
    Followed config s (s.restart config n) := by
  have hlinked := h.nodes n hn
  have hname := hnamed n hn
  have hpeers : (s.nodes n).replicationPeers = config.peers n :=
    congrArg (fun x => x.2.1) (hlogged.settings n)
  have hself : ((s.restart config n).nodes n).coordinator
      = (config.peers n).foldl (fun c peer => c.registerReplica peer.nodeId)
          (ReplicationCoordinator.restart n .follower 10000 true
            (s.nodes n).coordinator.stateFile) := by
    rw [show (s.restart config n).nodes n = (s.nodes n).restarted (n ≠ config.first) from
      set_nodes_self s n _]
    simp only [Broker.restarted, Broker.configureReplication, hpeers, hlogged.nodeId n, hfirst,
      ne_eq, not_false_eq_true, decide_true, if_true]
  have hothers : ∀ m, m ≠ n → (s.restart config n).nodes m = s.nodes m :=
    fun m hm => set_nodes_ne s _ hm
  have hrestarted := restart_lasting n .follower 10000 (s.nodes n).coordinator.stateFile hname.1
    hname.2 (by decide)
  rcases configured_linked (n := n) hnamed _ rfl (fun m => AList.notMem_empty m) hrestarted.path
    hrestarted.voted with ⟨hlinked', hballot⟩
  rcases hsaved with ⟨saved, hholds, hfits, hterm, hvote⟩
  rw [← hholds.loadable hfits] at hterm hvote
  have hstep : World.Step (electionSetup config.elections) s.world (s.restart config n).world := by
    refine .node n .quiet (List.mem_toFinset.mpr hn) ?_ (fun v hv => by cases hv)
      (fun hl => by cases hl) (fun m hm => congrArg (fun b => b.coordinator.ballot) (hothers m hm))
      ?_
    · have hmove := restart_step hlinked.path hterm hvote .follower 10000 (by decide)
        (electionSetup config.elections).quorum
      simp only [NodeEvent.exec, NodeEvent.label, hlinked.id, hlinked.path] at hmove
      rw [if_neg (by decide)] at hmove
      simp only [BrokerCluster.world, hself, hballot]
      exact hmove
    · ext v
      simp only [BrokerCluster.world, BrokerCluster.restart, Label.vote, Set.mem_union,
        Set.mem_ofPred_eq, Set.mem_empty_iff_false, and_false, or_false]
      exact Iff.rfl
  exact h.followed_one (.single hstep) hself (fun _ => hlinked') hothers

/-- Only nodes that are not configured as leader are restarted, and only on a
    state file with their term and vote. -/
def ClusterEvent.SparesVotes (config : BrokersConfig) (s : BrokerCluster) : ClusterEvent → Prop
  | .restart n => n ≠ config.first ∧ (s.nodes n).coordinator.VoteSaved
  | _ => True

/-- Of the operations that are offered none makes a leader: a heartbeat comes from
    another node, and a vote that is counted is an observation of its own. -/
theorem offered_notLead (h : Balloted config s) (hn : n ∈ config.members) {op : Op}
    (hoffered : s.offered config n op = true) :
    op.label (s.nodes n).coordinator ≠ .lead := by
  intro hlead
  cases op with
  | observeAppend key t leader off commit now =>
      rcases of_decide_eq_true hoffered with ⟨_, hne, _⟩
      simp only [Op.label, (h.nodes n hn).id] at hlead
      rw [if_neg (fun hself => hne hself.2)] at hlead
      cases hlead
  | observeVote t v granted =>
      simp only [Op.label] at hlead
      split at hlead <;> cases hlead
  | setLeader id => exact absurd hoffered Bool.false_ne_true
  | requestVote t cand idx lt => exact absurd hoffered Bool.false_ne_true
  | _ => cases hlead

theorem offered_followed (h : Balloted config s) (hnamed : config.Named)
    (hn : n ∈ config.members) {op : Op} (hoffered : s.offered config n op = true) :
    Followed config s (s.operate n op) := by
  refine operate_followed h hnamed hn op ?_ ?_ ?_ (offered_notLead h hn hoffered)
  · cases op <;> first | rfl | exact absurd hoffered Bool.false_ne_true
  · rintro rfl
    exact of_decide_eq_true hoffered
  · rintro t v rfl
    exact (of_decide_eq_true hoffered) rfl

/-- A topic is nothing to a coordinator. -/
theorem createTopic_followed (h : Balloted config s) (n name : Bytes) (count : UInt32) :
    Followed config s (s.set n ((s.nodes n).createTopic name count).1) := by
  have hcoordinator : ∀ m, ((s.set n ((s.nodes n).createTopic name count).1).nodes m).coordinator
      = (s.nodes m).coordinator := by
    intro m
    by_cases hm : m = n
    · rw [hm, set_nodes_self]
      rcases createTopic_cases (s.nodes n) name count with heq | ⟨_, heq⟩ <;> rw [heq]
    · rw [set_nodes_ne s _ hm]
  have heq : (s.set n ((s.nodes n).createTopic name count).1).world = s.world :=
    world_ext (fun m => congrArg ballot (hcoordinator m)) rfl
  refine ⟨by rw [heq], ?_⟩
  intro m hm
  rw [hcoordinator m]
  exact h.nodes m hm

/-- The library follows every event. -/
theorem exec_followed (hlogged : Logged config s) (h : Balloted config s) (hnamed : config.Named)
    (e : ClusterEvent) (hspares : e.SparesVotes config s) :
    Followed config s (e.exec config s) := by
  have hstill : Followed config s s := ⟨.refl, h.nodes⟩
  by_cases hlists : ListName.grants ∈ e.lists
  · cases e with
    | operate n op =>
        simp only [ClusterEvent.exec]
        split
        · rename_i hop
          exact offered_followed h hnamed hop.1 hop.2
        · exact hstill
    | vote n index =>
        simp only [ClusterEvent.exec]
        split
        · exact hstill
        · split
          · rename_i hn
            refine operate_followed h hnamed hn _ rfl (fun hop => by cases hop)
              (fun t v hop => by cases hop) ?_
            intro hlead
            simp only [Op.label] at hlead
            split at hlead <;> cases hlead
          · exact hstill
    | _ =>
        simp only [ClusterEvent.lists, List.mem_cons, List.not_mem_nil, reduceCtorEq, or_self]
          at hlists
  · have hgrants := (exec_kept config s e).grants hlists
    by_cases hstep : e.isStep = true
    · rcases exec_effect hlogged e hstep with ⟨n, ops, t, p, ms, heffect, hmoved⟩
      rcases heffect.silent hlogged hlists with ⟨hsilent, hn⟩
      exact silent_followed h hnamed hmoved hgrants hsilent hn
    · cases e with
      | createTopic n name count =>
          simp only [ClusterEvent.exec]
          split
          · exact createTopic_followed h n name count
          · exact hstill
      | restart n =>
          simp only [ClusterEvent.exec]
          split
          · rename_i hn
            exact restart_followed hlogged h hnamed hn hspares.1 hspares.2
          · exact hstill
      | _ => exact absurd rfl hstep

/-- Where a vote comes from: a node votes for itself when it begins an
    election, or for a candidate whose request it accepts. -/
theorem exec_grants (h : Balloted config s) (e : ClusterEvent) (t : UInt64) (voter cand : Bytes)
    (hmem : (t, voter, cand) ∈ (e.exec config s).grants) :
    (t, voter, cand) ∈ s.grants ∨ cand = voter ∨
      ∃ index q, e = .vote voter index ∧ s.ballots[index]? = some q ∧ q.candidate = cand ∧
        (s.nodes voter).coordinator.acceptsCandidate q.term q.candidate = true ∧
        (s.nodes voter).coordinator.logUpToDate q.lastLogIndex q.lastLogTerm = true := by
  by_cases hlists : ListName.grants ∈ e.lists
  · cases e with
    | operate n op =>
        simp only [ClusterEvent.exec] at hmem
        split at hmem
        · rename_i hop
          simp only [BrokerCluster.operate, List.mem_append, List.mem_map, Option.mem_toList,
            Prod.mk.injEq] at hmem
          rcases hmem with hold | ⟨v, hv, rfl, rfl, rfl⟩
          · exact Or.inl hold
          · -- Of the operations that are offered only one casts a vote.
            right
            left
            cases op with
            | beginElection =>
                rw [← congrArg Prod.snd (Option.some.inj hv)]
                exact (h.nodes n hop.1).id
            | requestVote t cand idx lt => exact absurd hop.2 Bool.false_ne_true
            | _ => cases hv
        · exact Or.inl hmem
    | vote n index =>
        simp only [ClusterEvent.exec] at hmem
        split at hmem
        · exact Or.inl hmem
        · rename_i q hq
          split at hmem
          · simp only [BrokerCluster.operate, List.mem_append, List.mem_map, Option.mem_toList,
              Prod.mk.injEq] at hmem
            rcases hmem with hold | ⟨v, hv, rfl, rfl, rfl⟩
            · exact Or.inl hold
            · right
              right
              simp only [Op.vote] at hv
              split at hv
              · rename_i hgranted
                rcases requestVote_granted hgranted with ⟨haccepts, hlog, _, _⟩
                exact ⟨index, q, rfl, hq, congrArg Prod.snd (Option.some.inj hv), haccepts, hlog⟩
              · cases hv
          · exact Or.inl hmem
    | _ =>
        simp only [ClusterEvent.lists, List.mem_cons, List.not_mem_nil, reduceCtorEq, or_self]
          at hlists
  · rw [(exec_kept config s e).grants hlists] at hmem
    exact Or.inl hmem

theorem balloted_boot (hnamed : config.Named) : Balloted config (bootBrokers config) := by
  have hboot : ∀ n, NodeLinked config n (bootBroker config n).coordinator ∧
      (bootBroker config n).coordinator.ballot = (ReplicationCoordinator.restart n
        (if decide (n ≠ config.first) then .follower else .leader) 10000 true none).ballot :=
    fun n => configured_linked hnamed _ rfl (fun m => AList.notMem_empty m) rfl (Nat.zero_le _)
  -- The same elections as in a cluster that does nothing else.
  have heq : (bootBrokers config).world = (bootCluster config.elections).world := by
    refine world_ext (fun n => ?_) rfl
    rw [show (bootBrokers config).world.nodes n = _ from (hboot n).2,
      show (bootCluster config.elections).world.nodes n = _ from (foldl_registerReplica _ _).2.1]
    by_cases hfirst : n = config.first
    · simp only [hfirst, BrokersConfig.elections, ne_eq, not_true_eq_false, decide_false,
        Bool.false_eq_true, if_false, if_true]
    · simp only [hfirst, BrokersConfig.elections, ne_eq, not_false_eq_true, decide_true, if_true,
        if_false]
  refine ⟨?_, fun n _ => (hboot n).1⟩
  rw [heq]
  exact (boot_linked config.elections (fun n hn => (hnamed n hn).1)).world

end Cluster

end MqBroker
