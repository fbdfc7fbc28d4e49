import MqBroker.Replication.Ballot

/-!
# Elections in a Cluster

All coordinators of a cluster with full static membership, and the protocol
messages between them.

The cluster keeps every vote that was granted and every term a node has led.
Nothing is removed from either list, and any operation may be performed at any
time as long as the message it stands for was sent: a vote request after its
candidate's election, a vote after its grant, an append after its sender led
the term. Loss, delay, duplication and every interleaving are then just
sequences of events. An operation whose message was never sent does nothing,
so that a run is any list of events at all.

The connection to `Lib.Election` is `ElectionCluster.world`, which keeps the
ballots and the votes. Each event is one step there (`act_step`), and what the
election library knows about its worlds is then known about clusters.

## Main definitions

* `ElectionCluster`: The coordinators, the votes granted, the terms led.
* `bootCluster`: The cluster after every node has registered all others.
* `ElectionCluster.genuine`: Whether an operation has its message.
* `ElectionCluster.run`: The cluster after a list of events.

## Theorems

* `op_step`: An operation is a step of the election library.
* `act_step`: A genuine event is one.
* `Linked.run`: The link to the library holds through every run.
* `leader_unique`: No two nodes lead in one term.
-/

namespace MqBroker

open Election (Ballot Label World Setup)
open ReplicationCoordinator

/-- The coordinators of a cluster, with the votes ever granted (term, voter
    and candidate) and the terms ever led. -/
structure ElectionCluster where
  nodes : Bytes → ReplicationCoordinator
  grants : List (UInt64 × Bytes × Bytes)
  leaders : List (UInt64 × Bytes)

/-- The node ids of a cluster and how its coordinators are constructed. -/
structure ClusterConfig where
  members : List Bytes
  first : Bytes
  timeoutMs : Int
  hasStatePath : Bool
deriving DecidableEq, Repr

/-- A node that has registered all members. Only the configured leader starts
    as leader. -/
def bootNode (config : ClusterConfig) (n : Bytes) : ReplicationCoordinator :=
  config.members.foldl registerReplica (ReplicationCoordinator.restart n
    (if n = config.first then .leader else .follower) config.timeoutMs config.hasStatePath none)

/-- The cluster before the first message. -/
def bootCluster (config : ClusterConfig) : ElectionCluster where
  nodes := bootNode config
  grants := []
  leaders := [(0, config.first)]

/-- Every node has registered every other. `RegisterReplica` ignores an empty
    id, so a cluster of several nodes with an empty id is not of this kind. -/
def FullMembership (config : ClusterConfig) : Prop :=
  ∀ n ∈ config.members, ∀ m ∈ config.members, m ≠ n → m ∈ (bootNode config n).replicas

instance (config : ClusterConfig) : Decidable (FullMembership config) :=
  inferInstanceAs (Decidable (∀ n ∈ config.members, ∀ m ∈ config.members, m ≠ n →
    m ∈ (bootNode config n).replicas))

namespace ElectionCluster

/-- A node performs an operation. A vote it grants and a term it then leads
    are recorded. -/
def act (s : ElectionCluster) (n : Bytes) (op : Op) : ElectionCluster :=
  let c := op.exec (s.nodes n)
  { nodes := Function.update s.nodes n c
    grants := s.grants ++ (op.vote (s.nodes n)).toList.map (fun v => (v.1, n, v.2))
    leaders := if c.role = .leader then (c.currentTerm, n) :: s.leaders else s.leaders }

/-- Whether the message an operation stands for was sent. Operations without
    a message are always possible, changes of the membership never. -/
def genuine (s : ElectionCluster) (n : Bytes) : Op → Bool
  | .beginElection => (s.nodes n).currentTerm.toNat < 2 ^ 64 - 1
  | .requestVote t cand _ _ => (t, cand, cand) ∈ s.grants
  | .observeVote t voter granted => granted → (t, voter, n) ∈ s.grants
  | .observeAppend _ t leader _ _ _ => (t, leader) ∈ s.leaders
  | .setLeader _ => false
  | .registerReplica _ => false
  | .removeReplica _ => false
  | _ => true

/-- The cluster after an event: a node and the operation it performs. -/
def step (members : List Bytes) (s : ElectionCluster) (e : Bytes × Op) : ElectionCluster :=
  if e.1 ∈ members ∧ s.genuine e.1 e.2 then s.act e.1 e.2 else s

/-- The cluster after a list of events. -/
def run (members : List Bytes) (s : ElectionCluster) (events : List (Bytes × Op)) :
    ElectionCluster :=
  events.foldl (step members) s

/-- The ballots and the votes of a cluster. -/
def world (s : ElectionCluster) : World Bytes UInt64 where
  nodes := fun n => (s.nodes n).ballot
  cast := {v | v ∈ s.grants}

end ElectionCluster

/-- The election a cluster holds: terms start at 0, and more than half of the
    members win. -/
def electionSetup (config : ClusterConfig) : Setup Bytes UInt64 where
  members := config.members.toFinset
  quorum := config.members.toFinset.card / 2 + 1
  base := 0
  first := config.first
  majority := by omega

/-- What links a cluster to the election library. -/
structure Linked (config : ClusterConfig) (s : ElectionCluster) : Prop where
  world : s.world.Inv (electionSetup config)
  ids : ∀ n, (s.nodes n).nodeId = n
  replicas : ∀ n ∈ config.members, ∀ m, m ∈ (s.nodes n).replicas ↔ m ∈ config.members ∧ m ≠ n
  leaders : ∀ t l, (t, l) ∈ s.leaders → s.world.Elected (electionSetup config) t l

/-! ## One event -/

section Event

variable {config : ClusterConfig} {s : ElectionCluster} {n : Bytes} {op : Op}

/-- `Majority` is more than half of the members, for a node that has
    registered all others. -/
theorem majority_eq {c : ReplicationCoordinator} (hn : n ∈ config.members)
    (hreplicas : ∀ m, m ∈ c.replicas ↔ m ∈ config.members ∧ m ≠ n) :
    c.majority = (electionSetup config).quorum := by
  have hkeys : c.replicas.keys.toFinset = config.members.toFinset.erase n := by
    ext m
    rw [List.mem_toFinset, ← AList.mem_keys, hreplicas, Finset.mem_erase, List.mem_toFinset,
      and_comm]
  have hmem : n ∈ config.members.toFinset := List.mem_toFinset.mpr hn
  have hpos : 0 < config.members.toFinset.card := Finset.card_pos.mpr ⟨n, hmem⟩
  rw [majority, ← Table.card_keys, hkeys, Finset.card_erase_of_mem hmem, electionSetup]
  congr 1
  rw [Nat.sub_add_cancel hpos]

/-- A vote that is counted is one of a member, in the term of the node that
    counts it. -/
theorem count_observed {c : ReplicationCoordinator} (hn : n ∈ config.members) (hid : c.nodeId = n)
    (hreplicas : ∀ m, m ∈ c.replicas ↔ m ∈ config.members ∧ m ≠ n) (voter : Bytes)
    (hlabel : op.label c = .count voter) :
    voter ∈ config.members ∧ op = .observeVote c.currentTerm voter true := by
  cases op with
  | observeVote t v granted =>
      simp only [Op.label] at hlabel
      split at hlabel
      · rename_i hcounts
        rcases of_decide_eq_true hcounts with ⟨hterm, _, hgranted, _, hmember⟩
        rw [← Label.count.inj hlabel, hterm, hgranted]
        refine ⟨?_, rfl⟩
        simp only [isMember, hid, Bool.or_eq_true, decide_eq_true_eq] at hmember
        rcases hmember with rfl | hreplica
        · exact hn
        · exact ((hreplicas v).mp (AList.lookup_isSome.mp hreplica)).1
      · cases hlabel
  | setLeader id =>
      simp only [Op.label] at hlabel
      split at hlabel <;> cases hlabel
  | observeAppend p t l off commit now =>
      simp only [Op.label] at hlabel
      split at hlabel <;> cases hlabel
  | requestVote t cand idx lt =>
      simp only [Op.label] at hlabel
      split at hlabel <;> cases hlabel
  | _ => cases hlabel

/-- An operation of a member is a step of the election library, if the vote it
    may count was granted and the term it may claim was won. -/
theorem op_step (op : Op) (c : ReplicationCoordinator) {w w' : World Bytes UInt64}
    (hn : n ∈ config.members) (hid : c.nodeId = n) (hne : n ≠ [])
    (hreplicas : ∀ m, m ∈ c.replicas ↔ m ∈ config.members ∧ m ≠ n)
    (hterm : op = .beginElection → c.currentTerm.toNat < 2 ^ 64 - 1)
    (hvote : ∀ v, op = .observeVote c.currentTerm v true → (c.currentTerm, v, n) ∈ w.cast)
    (hlead : op.label c = .lead →
      w.Elected (electionSetup config) (op.exec c).currentTerm n)
    (hbefore : w.nodes n = c.ballot) (hafter : w'.nodes n = (op.exec c).ballot)
    (hothers : ∀ m, m ≠ n → w'.nodes m = w.nodes m)
    (hcast : ∀ v, v ∈ w'.cast ↔ v ∈ w.cast ∨ (v.2.1 = n ∧ op.vote c = some (v.1, v.2.2))) :
    World.Step (electionSetup config) w w' := by
  refine .node n (op.label c) (List.mem_toFinset.mpr hn) ?_ ?_ ?_ hothers ?_
  · rw [hbefore, hafter]
    have hstep := op.ballot_step (c := c) (q := (electionSetup config).quorum)
      (by rw [hid]; exact hne) (majority_eq hn hreplicas).ge
      (fun hop => lt_add_one_of_toNat_lt _ (hterm hop))
    rwa [hid] at hstep
  · intro voter hlabel
    rcases count_observed hn hid hreplicas voter hlabel with ⟨hmember, hop⟩
    rw [hbefore]
    exact ⟨List.mem_toFinset.mpr hmember, hvote voter hop⟩
  · intro hlabel
    rw [hafter]
    exact hlead hlabel
  · ext v
    rw [hafter, Set.mem_union]
    exact (hcast v).trans (or_congr Iff.rfl (and_congr Iff.rfl (op.vote_iff _)))

theorem act_nodes_self (s : ElectionCluster) (n : Bytes) (op : Op) :
    (s.act n op).nodes n = op.exec (s.nodes n) :=
  Function.update_self n _ s.nodes

theorem act_nodes_ne (s : ElectionCluster) {n m : Bytes} (op : Op) (h : m ≠ n) :
    (s.act n op).nodes m = s.nodes m :=
  Function.update_of_ne h _ s.nodes

/-- Where the votes of a cluster after an event come from. -/
theorem act_grants (s : ElectionCluster) (n : Bytes) (op : Op) (v : UInt64 × Bytes × Bytes) :
    v ∈ (s.act n op).grants ↔
      v ∈ s.grants ∨ (v.2.1 = n ∧ op.vote (s.nodes n) = some (v.1, v.2.2)) := by
  rcases v with ⟨t, voter, cand⟩
  simp only [ElectionCluster.act, List.mem_append, List.mem_map, Option.mem_toList,
    Prod.mk.injEq]
  constructor
  · rintro (hold | ⟨w, hw, rfl, rfl, rfl⟩)
    · exact Or.inl hold
    · exact Or.inr ⟨rfl, hw⟩
  · rintro (hold | ⟨rfl, hw⟩)
    · exact Or.inl hold
    · exact Or.inr ⟨_, hw, rfl, rfl, rfl⟩

/-- A node that takes a leadership without an election has led that term
    before: it hears its own append. -/
theorem lead_genuine (hs : Linked config s) (hgenuine : s.genuine n op = true)
    (hlabel : op.label (s.nodes n) = .lead) :
    s.world.Elected (electionSetup config) (op.exec (s.nodes n)).currentTerm n := by
  cases op with
  | observeAppend p t l off commit now =>
      simp only [Op.label, hs.ids n] at hlabel
      split at hlabel
      · rename_i haccept
        rcases haccept with ⟨haccept, rfl⟩
        have hterm : ((s.nodes l).observeAppend p t l off commit now).1.ballot.term = t := by
          have hle : (s.nodes l).currentTerm ≤ t := (of_decide_eq_true haccept).1
          rw [observeAppend_ballot haccept, adoptTerm_ballot]
          by_cases hgt : t > (s.nodes l).currentTerm
          · simp only [if_pos hgt]
          · simp only [if_neg hgt]
            exact le_antisymm hle (not_lt.mp hgt)
        have hled := hs.leaders t l (of_decide_eq_true hgenuine)
        rw [← hterm] at hled
        exact hled
      · cases hlabel
  | setLeader id => exact absurd hgenuine Bool.false_ne_true
  | requestVote t cand idx lt =>
      simp only [Op.label] at hlabel
      split at hlabel <;> cases hlabel
  | observeVote t v g =>
      simp only [Op.label] at hlabel
      split at hlabel <;> cases hlabel
  | _ => cases hlabel

/-- A genuine event of a member is a step of the election library. -/
theorem act_step (hs : Linked config s) (hn : n ∈ config.members) (hid : n ≠ [])
    (hgenuine : s.genuine n op = true) :
    World.Step (electionSetup config) s.world (s.act n op).world := by
  refine op_step op (s.nodes n) hn (hs.ids n) hid (hs.replicas n hn) ?_ ?_
    (lead_genuine hs hgenuine) rfl (congrArg ballot (act_nodes_self s n op))
    (fun m hm => congrArg ballot (act_nodes_ne s op hm)) (act_grants s n op)
  · rintro rfl
    exact of_decide_eq_true hgenuine
  · rintro v rfl
    exact (of_decide_eq_true hgenuine) rfl

/-- The link survives a genuine event. -/
theorem Linked.act (hs : Linked config s) (hn : n ∈ config.members) (hid : n ≠ [])
    (hgenuine : s.genuine n op = true) : Linked config (s.act n op) := by
  have hstep := act_step hs hn hid hgenuine
  have hworld := hs.world.step hstep
  refine ⟨hworld, ?_, ?_, ?_⟩
  · intro m
    by_cases hm : m = n
    · rw [hm, act_nodes_self, op.exec_nodeId, hs.ids n]
    · rw [act_nodes_ne s op hm, hs.ids m]
  · intro m hmember id
    by_cases hm : m = n
    · have hkeeps : op.keepsMembers = true := by
        cases op with
        | registerReplica r => exact absurd hgenuine Bool.false_ne_true
        | removeReplica r => exact absurd hgenuine Bool.false_ne_true
        | _ => rfl
      rw [hm, act_nodes_self, op.exec_replicas hkeeps, ← hs.replicas n hn]
    · rw [act_nodes_ne s op hm, hs.replicas m hmember]
  · intro t l hmem
    simp only [ElectionCluster.act] at hmem
    split at hmem
    · rename_i hrole
      rcases List.mem_cons.mp hmem with heq | hold
      · -- The node leads after the event, so the library says it was elected.
        rcases Prod.mk.inj heq with ⟨rfl, rfl⟩
        have hleads : ((s.act l op).world.nodes l).leading := by
          rw [show (s.act l op).world.nodes l = _ from congrArg ballot (act_nodes_self s l op)]
          exact hrole
        have helected := hworld.leading l hleads
        rw [show (s.act l op).world.nodes l = _ from congrArg ballot (act_nodes_self s l op)]
          at helected
        exact helected
      · exact (hs.leaders t l hold).mono hstep.cast_subset
    · exact (hs.leaders t l hmem).mono hstep.cast_subset

end Event

/-! ## Runs -/

theorem Linked.run {config : ClusterConfig} {s : ElectionCluster} (hs : Linked config s)
    (hids : ∀ n ∈ config.members, n ≠ []) (events : List (Bytes × Op)) :
    Linked config (s.run config.members events) := by
  induction events generalizing s with
  | nil => exact hs
  | cons e events ih =>
      rw [ElectionCluster.run, List.foldl_cons]
      refine ih ?_
      unfold ElectionCluster.step
      split
      · rename_i h
        exact hs.act h.1 (hids e.1 h.1) h.2
      · exact hs

/-- Registering replicas one after the other. Empty ids and the node's own
    are passed over. -/
theorem foldl_registerReplica (c : ReplicationCoordinator) (members : List Bytes) :
    (members.foldl registerReplica c).nodeId = c.nodeId ∧
      (members.foldl registerReplica c).ballot = c.ballot ∧
      ∀ m, m ∈ (members.foldl registerReplica c).replicas
        ↔ m ∈ c.replicas ∨ (m ∈ members ∧ m ≠ [] ∧ m ≠ c.nodeId) := by
  induction members generalizing c with
  | nil => simp only [List.foldl_nil, List.not_mem_nil, false_and, or_false, implies_true, and_self]
  | cons r members ih =>
      have hid : (c.registerReplica r).nodeId = c.nodeId :=
        Op.exec_nodeId (c := c) (.registerReplica r)
      rw [List.foldl_cons]
      rcases ih (c.registerReplica r) with ⟨hnode, hballot, hmem⟩
      refine ⟨hnode.trans hid, hballot.trans (registerReplica_ballot r), ?_⟩
      intro m
      have hone : m ∈ (c.registerReplica r).replicas
          ↔ m ∈ c.replicas ∨ (m = r ∧ r ≠ [] ∧ r ≠ c.nodeId) := by
        unfold registerReplica
        split
        · rename_i hskip
          constructor
          · exact Or.inl
          · rintro (hin | ⟨rfl, hne, hnot⟩)
            · exact hin
            · rcases hskip with h | h | h
              · exact absurd h hne
              · exact absurd h hnot
              · exact AList.lookup_isSome.mp h
        · rename_i hnew
          rw [not_or, not_or] at hnew
          rw [AList.mem_insert]
          exact ⟨fun h => h.elim (fun heq => Or.inr ⟨heq, hnew.1, hnew.2.1⟩) Or.inl,
            fun h => h.elim Or.inr (fun heq => Or.inl heq.1)⟩
      rw [hmem m, hone, hid, List.mem_cons]
      constructor
      · rintro ((hin | ⟨rfl, hne, hnot⟩) | ⟨hin, hne, hnot⟩)
        · exact Or.inl hin
        · exact Or.inr ⟨Or.inl rfl, hne, hnot⟩
        · exact Or.inr ⟨Or.inr hin, hne, hnot⟩
      · rintro (hin | ⟨rfl | hin, hne, hnot⟩)
        · exact Or.inl (Or.inl hin)
        · exact Or.inl (Or.inr ⟨rfl, hne, hnot⟩)
        · exact Or.inr ⟨hin, hne, hnot⟩

/-- A cluster that has just been configured is linked to the library. -/
theorem boot_linked (config : ClusterConfig) (hids : ∀ n ∈ config.members, n ≠ []) :
    Linked config (bootCluster config) := by
  have hboot : ∀ n, (bootNode config n).ballot = (ReplicationCoordinator.restart n
      (if n = config.first then .leader else .follower) config.timeoutMs config.hasStatePath
      none).ballot := fun n => (foldl_registerReplica _ _).2.1
  have hterm : ∀ n, ((bootCluster config).world.nodes n).term = 0 := by
    intro n
    rw [show (bootCluster config).world.nodes n = _ from hboot n]
    unfold ReplicationCoordinator.restart ballot
    split <;> rfl
  have hrole : ∀ n, ((bootCluster config).world.nodes n).running ↔ False := by
    intro n
    rw [show (bootCluster config).world.nodes n = _ from hboot n]
    simp only [ReplicationCoordinator.restart, ballot, iff_false]
    split <;> decide
  refine ⟨⟨?_, ?_, ?_, ?_⟩, ?_, ?_, ?_⟩
  · intro n
    refine ⟨?_, ?_, fun hrun => ((hrole n).mp hrun).elim⟩
    · intro t c hmem
      exact absurd hmem List.not_mem_nil
    · intro t c d hmem
      exact absurd hmem List.not_mem_nil
  · intro n
    rw [hterm n]
    exact le_rfl
  · intro n hrun
    exact ((hrole n).mp hrun).elim
  · intro n hlead
    refine Or.inl ⟨hterm n, ?_⟩
    rw [show (bootCluster config).world.nodes n = _ from hboot n] at hlead
    by_contra hne
    have hne' : n ≠ config.first := hne
    simp only [ReplicationCoordinator.restart, ballot, if_neg hne', reduceCtorEq] at hlead
  · intro n
    exact (foldl_registerReplica _ _).1
  · intro n hn m
    refine ((foldl_registerReplica _ _).2.2 m).trans ?_
    constructor
    · rintro (hin | ⟨hin, _, hne⟩)
      · exact absurd hin (AList.notMem_empty m)
      · exact ⟨hin, hne⟩
    · rintro ⟨hin, hne⟩
      exact Or.inr ⟨hin, hids m hin, hne⟩
  · intro t l hmem
    rcases Prod.mk.inj (List.mem_singleton.mp hmem) with ⟨rfl, rfl⟩
    exact Or.inl ⟨rfl, rfl⟩

/-- No two nodes lead in one term, after any list of events. -/
theorem leader_unique (config : ClusterConfig) (hfull : FullMembership config)
    (events : List (Bytes × Op)) (i j : Bytes) (hi : i ∈ config.members) (hj : j ∈ config.members)
    (hleadi : (((bootCluster config).run config.members events).nodes i).role = .leader)
    (hleadj : (((bootCluster config).run config.members events).nodes j).role = .leader)
    (hterm : (((bootCluster config).run config.members events).nodes i).currentTerm
      = (((bootCluster config).run config.members events).nodes j).currentTerm) : i = j := by
  by_contra hne
  -- With two members, each is registered somewhere, so none has an empty id.
  have hids : ∀ n ∈ config.members, n ≠ [] := by
    have hregistered : ∀ n ∈ config.members, ∀ m ∈ config.members, m ≠ n → m ≠ [] := by
      intro n hn m hm hmn
      have hin := ((foldl_registerReplica _ _).2.2 m).mp (hfull n hn m hm hmn)
      rcases hin with hin | ⟨_, hm', _⟩
      · exact absurd hin (AList.notMem_empty m)
      · exact hm'
    intro n hn
    by_cases hni : n = i
    · exact hregistered j hj n hn (by rw [hni]; exact hne)
    · exact hregistered i hi n hn hni
  exact hne (World.election_safety ((boot_linked config hids).run hids events).world
    (i := i) (j := j) hleadi hleadj hterm)

/-- Three nodes with the first as configured leader. -/
def threeNodes : ClusterConfig := ⟨[[97], [98], [99]], [97], 5000, false⟩

/-- The second node takes over from the first. -/
def takeover : List (Bytes × Op) :=
  [([98], .beginElection), ([99], .requestVote 1 [98] 0 0), ([98], .observeVote 1 [99] true),
    ([97], .observeAppend [] 1 [98] 0 0 0)]

/-- After the takeover the second node leads its term alone. -/
theorem leader_unique_takeover :
    (((bootCluster threeNodes).run threeNodes.members takeover).nodes [98]).role = .leader ∧
      ∀ j ∈ threeNodes.members,
        (((bootCluster threeNodes).run threeNodes.members takeover).nodes j).role = .leader →
        (((bootCluster threeNodes).run threeNodes.members takeover).nodes [98]).currentTerm
          = (((bootCluster threeNodes).run threeNodes.members takeover).nodes j).currentTerm →
        [98] = j :=
  have hlead : (((bootCluster threeNodes).run threeNodes.members takeover).nodes [98]).role
      = .leader := by decide +kernel
  ⟨hlead, fun j hj hleadj => leader_unique threeNodes (by decide +kernel) takeover [98] j
    (by decide) hj hlead hleadj⟩

end MqBroker
