import MqBroker.Core.ConsumerGroup

/-!
# Who Gets Which Partition

What `Sync` answers after any series of calls of the coordinator.

The list of a group is made anew whenever its members, their subscriptions or
a partition count change, so it is always the one that belongs to them
(`Balanced`), however they came about. It is sorted and has no duplicates, so
it does not depend on the order in which a table is walked, and the members
are dealt every partition in it exactly once.

The list is the one of all members together. Nothing looks at what a member
has subscribed to when it is the member's turn, and a member is dealt
partitions of a topic it has not asked for unless the topic is dealt only to
members that have. Where a topic starts in the list is the number of the
partitions of the smaller topics, and that decides who it is dealt to.

## Main definitions

* `GroupOp`, `runGroups`: The calls, and the state after some of them.
* `Balanced`: The list of every group is the one that belongs to it.
* `SplitExactly`: The members share the partitions of their topics.
* `Aligned`: Every topic is dealt only to members that have subscribed to it.

## Theorems

* `runGroups_balanced`: The lists are right after any series of calls.
* `assignment_exact`: The partitions of a group are shared, in a way that
  depends only on what the group is now.
* `own_topics_iff`: When the members get only what they have subscribed to.
-/

namespace MqBroker

namespace ConsumerGroupCoordinator

variable (c : ConsumerGroupCoordinator)

/-! ## The list of a group -/

/-- The partition count of a topic. -/
def count (topic : Bytes) : UInt32 := (c.partitions.lookup topic).getD 0

/-- Somebody in a group has subscribed to a topic. -/
def Subscribed (members : Table Bytes GroupMember) (topic : Bytes) : Prop :=
  ∃ id member, members.lookup id = some member ∧ topic ∈ member.topics

/-- Two groups have the same members with the same subscriptions. -/
def SameTopics (members members' : Table Bytes GroupMember) : Prop :=
  ∀ id, (members.lookup id).map GroupMember.topics = (members'.lookup id).map GroupMember.topics

/-- The list that belongs to a group. -/
def groupPartitions (members : Table Bytes GroupMember) : List GroupAssignment :=
  if members.size = 0 then []
  else (c.allPartitions (subscribedTopics members)).mergeSort assignmentLe

theorem SameTopics.symm {members members' : Table Bytes GroupMember}
    (h : SameTopics members members') : SameTopics members' members :=
  fun id => (h id).symm

theorem SameTopics.of_subscribed {members members' : Table Bytes GroupMember}
    (h : SameTopics members members') {topic : Bytes} (hs : Subscribed members topic) :
    Subscribed members' topic := by
  rcases hs with ⟨id, member, hid, htopic⟩
  have hsame := h id
  rw [hid, Option.map_some] at hsame
  rcases Option.map_eq_some_iff.mp hsame.symm with ⟨member', hid', htopics⟩
  exact ⟨id, member', hid', htopics ▸ htopic⟩

theorem SameTopics.subscribed {members members' : Table Bytes GroupMember}
    (h : SameTopics members members') (topic : Bytes) :
    Subscribed members topic ↔ Subscribed members' topic :=
  ⟨h.of_subscribed, h.symm.of_subscribed⟩

theorem mem_subscribedTopics (members : Table Bytes GroupMember) (topic : Bytes) :
    topic ∈ subscribedTopics members ↔ Subscribed members topic := by
  rw [subscribedTopics, List.mem_mergeSort, List.mem_dedup, List.mem_flatMap]
  constructor
  · rintro ⟨member, hmember, htopic⟩
    rcases Table.lookup_of_mem_values members member hmember with ⟨id, hid⟩
    exact ⟨id, member, hid, htopic⟩
  · rintro ⟨id, member, hid, htopic⟩
    exact ⟨member, Table.mem_values_of_lookup members id member hid, htopic⟩

theorem name_lt {left right : Bytes} (hle : left ≤ right) (hne : left ≠ right) : left < right := by
  by_contra hge
  exact hne (List.le_antisymm hle (List.not_lt.mp hge))

/-- Names are sorted by their bytes. -/
theorem mergeSort_sorted (names : List Bytes) :
    (names.mergeSort (fun left right => left ≤ right)).Pairwise (· ≤ ·) := by
  have hsorted := List.pairwise_mergeSort
    (fun (left middle right : Bytes) (h : decide (left ≤ middle) = true)
      (h' : decide (middle ≤ right) = true) => decide_eq_true
        (List.le_trans (of_decide_eq_true h) (of_decide_eq_true h')))
    (fun left right => by
      rw [Bool.or_eq_true, decide_eq_true_eq, decide_eq_true_eq]
      exact List.le_total left right)
    names
  simpa only [decide_eq_true_eq] using hsorted

theorem subscribedTopics_sorted (members : Table Bytes GroupMember) :
    (subscribedTopics members).Pairwise (· ≤ ·) :=
  mergeSort_sorted _

theorem subscribedTopics_nodup (members : Table Bytes GroupMember) :
    (subscribedTopics members).Nodup :=
  (List.mergeSort_perm _ _).nodup_iff.mpr (List.nodup_dedup _)

theorem subscribedTopics_congr (members members' : Table Bytes GroupMember)
    (h : ∀ topic, Subscribed members topic ↔ Subscribed members' topic) :
    subscribedTopics members = subscribedTopics members' := by
  refine eq_of_sorted_nodup (fun a b => List.le_antisymm) (subscribedTopics_sorted _)
    (subscribedTopics_sorted _) (subscribedTopics_nodup _) (subscribedTopics_nodup _) ?_
  intro topic
  rw [mem_subscribedTopics, mem_subscribedTopics, h]

theorem mem_allPartitions (topics : List Bytes) (a : GroupAssignment) :
    a ∈ c.allPartitions topics ↔ a.topic ∈ topics ∧ a.partition < c.count a.topic := by
  rw [allPartitions, List.mem_flatMap]
  simp only [List.mem_map, List.mem_range]
  constructor
  · rintro ⟨topic, htopic, partition, hpartition, rfl⟩
    refine ⟨htopic, ?_⟩
    have hlt : partition < 2 ^ 32 := hpartition.trans (UInt32.toNat_lt _)
    rw [UInt32.lt_iff_toNat_lt, UInt32.toNat_ofNat_of_lt' hlt]
    exact hpartition
  · rintro ⟨htopic, hlt⟩
    refine ⟨a.topic, htopic, a.partition.toNat, UInt32.lt_iff_toNat_lt.mp hlt, ?_⟩
    rw [UInt32.ofNat_toNat]

/-- The partitions of sorted topics are sorted already. -/
theorem allPartitions_sorted (topics : List Bytes) (hs : topics.Pairwise (· ≤ ·))
    (hn : topics.Nodup) :
    (c.allPartitions topics).Pairwise (fun left right => assignmentLe left right = true ∧
      left ≠ right) := by
  rw [allPartitions, List.pairwise_flatMap]
  refine ⟨?_, ?_⟩
  · intro topic _
    rw [List.pairwise_map]
    refine List.pairwise_lt_range.imp_of_mem ?_
    intro i j hi hj hij
    have hi' : i < 2 ^ 32 := (List.mem_range.mp hi).trans (UInt32.toNat_lt _)
    have hj' : j < 2 ^ 32 := (List.mem_range.mp hj).trans (UInt32.toNat_lt _)
    have hlt : UInt32.ofNat i < UInt32.ofNat j := by
      rw [UInt32.lt_iff_toNat_lt, UInt32.toNat_ofNat_of_lt' hi', UInt32.toNat_ofNat_of_lt' hj']
      exact hij
    refine ⟨?_, ?_⟩
    · rw [assignmentLe, if_pos rfl]
      exact decide_eq_true (UInt32.le_of_lt hlt)
    · intro heq
      injection heq with _ hpartition
      rw [hpartition] at hlt
      exact UInt32.lt_irrefl _ hlt
  · refine (hs.and hn).imp ?_
    rintro topic topic' ⟨hle, hne⟩ left hleft right hright
    rcases List.mem_map.mp hleft with ⟨i, _, rfl⟩
    rcases List.mem_map.mp hright with ⟨j, _, rfl⟩
    refine ⟨?_, fun heq => hne (congrArg GroupAssignment.topic heq)⟩
    rw [assignmentLe, if_neg hne]
    exact decide_eq_true (name_lt hle hne)

/-- Sorting the list of a group changes nothing, and a group without members
    has nothing in its list. -/
theorem groupPartitions_eq (members : Table Bytes GroupMember) :
    c.groupPartitions members = c.allPartitions (subscribedTopics members) := by
  have hsorted := c.allPartitions_sorted _ (subscribedTopics_sorted members)
    (subscribedTopics_nodup members)
  rw [groupPartitions, List.mergeSort_of_pairwise (hsorted.imp fun h => h.1)]
  by_cases hsize : members.size = 0
  · have hempty : subscribedTopics members = [] := by
      have hvalues : members.values = [] := by
        rw [Table.values, List.length_eq_zero_iff.mp hsize, List.map_nil]
      rw [subscribedTopics, hvalues, List.flatMap_nil, List.dedup_nil, List.mergeSort_nil]
    rw [if_pos hsize, hempty, allPartitions, List.flatMap_nil]
  · rw [if_neg hsize]

theorem groupPartitions_nodup (members : Table Bytes GroupMember) :
    (c.groupPartitions members).Nodup := by
  rw [groupPartitions_eq]
  exact (c.allPartitions_sorted _ (subscribedTopics_sorted members)
    (subscribedTopics_nodup members)).imp fun h => h.2

theorem mem_groupPartitions (members : Table Bytes GroupMember) (a : GroupAssignment) :
    a ∈ c.groupPartitions members
      ↔ Subscribed members a.topic ∧ a.partition < c.count a.topic := by
  rw [groupPartitions_eq, mem_allPartitions, mem_subscribedTopics]

/-- The list of a group depends only on the topics and their counts. -/
theorem groupPartitions_congr (c' : ConsumerGroupCoordinator)
    (members members' : Table Bytes GroupMember)
    (h : ∀ topic, Subscribed members topic ↔ Subscribed members' topic)
    (hcount : ∀ topic, c.count topic = c'.count topic) :
    c.groupPartitions members = c'.groupPartitions members' := by
  rw [groupPartitions_eq, groupPartitions_eq, subscribedTopics_congr members members' h,
    allPartitions, allPartitions]
  congr 1
  funext topic
  have := hcount topic
  rw [count, count] at this
  rw [this]

/-! ## The lists are kept up to date -/

/-- The list of a group is the one that belongs to it. -/
def BalancedAt (group : Bytes) : Prop :=
  ∀ members, c.members.lookup group = some members →
    c.assignments.lookup group = some (c.groupPartitions members)

/-- The list of every group is the one that belongs to it. -/
def Balanced : Prop := ∀ group, c.BalancedAt group

@[simp] theorem rebalance_members (group : Bytes) : (c.rebalance group).members = c.members := by
  rw [rebalance]
  split <;> rfl

@[simp] theorem rebalance_partitions (group : Bytes) :
    (c.rebalance group).partitions = c.partitions := by
  rw [rebalance]
  split <;> rfl

@[simp] theorem rebalance_groupPartitions (group : Bytes) (members : Table Bytes GroupMember) :
    (c.rebalance group).groupPartitions members = c.groupPartitions members := by
  rw [groupPartitions, allPartitions, rebalance_partitions, groupPartitions, allPartitions]

/-- `RebalanceLocked` puts the list of its group in order. -/
theorem rebalance_balancedAt (group : Bytes) : (c.rebalance group).BalancedAt group := by
  intro members hmembers
  rw [rebalance_members] at hmembers
  rw [rebalance_groupPartitions, rebalance]
  simp only [hmembers, AList.lookup_insert]
  rfl

theorem rebalance_assignments_ne (group group' : Bytes) (h : group' ≠ group) :
    (c.rebalance group).assignments.lookup group' = c.assignments.lookup group' := by
  rw [rebalance]
  split
  · rfl
  · exact AList.lookup_insert_ne h

/-- It leaves the others in order. -/
theorem BalancedAt.rebalance {c : ConsumerGroupCoordinator} {group : Bytes}
    (h : c.BalancedAt group) (group' : Bytes) : (c.rebalance group').BalancedAt group := by
  by_cases hgroup : group = group'
  · rw [hgroup]
    exact rebalance_balancedAt c group'
  · intro members hmembers
    rw [rebalance_members] at hmembers
    rw [rebalance_assignments_ne c _ _ hgroup, rebalance_groupPartitions]
    exact h members hmembers

theorem foldl_rebalance_members (groups : List Bytes) :
    (groups.foldl ConsumerGroupCoordinator.rebalance c).members = c.members := by
  induction groups generalizing c with
  | nil => rfl
  | cons group groups ih => rw [List.foldl_cons, ih, rebalance_members]

theorem foldl_rebalance_partitions (groups : List Bytes) :
    (groups.foldl ConsumerGroupCoordinator.rebalance c).partitions = c.partitions := by
  induction groups generalizing c with
  | nil => rfl
  | cons group groups ih => rw [List.foldl_cons, ih, rebalance_partitions]

/-- A group that has been rebalanced stays so while others are. -/
theorem BalancedAt.foldl {c : ConsumerGroupCoordinator} {group : Bytes} (h : c.BalancedAt group)
    (groups : List Bytes) : (groups.foldl ConsumerGroupCoordinator.rebalance c).BalancedAt group := by
  induction groups generalizing c with
  | nil => exact h
  | cons group' groups ih => exact ih (h.rebalance group')

theorem foldl_rebalance_balancedAt (groups : List Bytes) (group : Bytes) (h : group ∈ groups) :
    (groups.foldl ConsumerGroupCoordinator.rebalance c).BalancedAt group := by
  induction groups generalizing c with
  | nil => exact absurd h List.not_mem_nil
  | cons group' groups ih =>
      rcases List.mem_cons.mp h with rfl | h
      · exact (rebalance_balancedAt c group).foldl groups
      · exact ih (c.rebalance group') h

/-- After a change of the members of one group that group is rebalanced. -/
theorem Balanced.rebalance_insert {c : ConsumerGroupCoordinator} (h : c.Balanced) (group : Bytes)
    (members : Table Bytes GroupMember) :
    (ConsumerGroupCoordinator.rebalance
      { c with members := c.members.insert group members } group).Balanced := by
  intro group'
  by_cases hgroup : group' = group
  · rw [hgroup]
    exact rebalance_balancedAt _ group
  · refine BalancedAt.rebalance ?_ group
    intro members' hmembers
    rw [AList.lookup_insert_ne hgroup] at hmembers
    exact h group' members' hmembers

theorem Balanced.join {c : ConsumerGroupCoordinator} (h : c.Balanced) (group memberId : Bytes)
    (topics : List Bytes) (now : Int) : (c.join group memberId topics now).1.Balanced := by
  rw [ConsumerGroupCoordinator.join]
  split
  · exact h
  · exact h.rebalance_insert group _

/-- A heartbeat changes nothing the lists are made of. -/
theorem Balanced.heartbeat {c : ConsumerGroupCoordinator} (h : c.Balanced) (group memberId : Bytes)
    (now : Int) : (c.heartbeat group memberId now).1.Balanced := by
  rw [ConsumerGroupCoordinator.heartbeat]
  split
  · exact h
  · rename_i members hmembers
    split
    · exact h
    · rename_i member hmember
      intro group' members' hmembers'
      by_cases hgroup : group' = group
      · rw [hgroup] at hmembers'
        rw [hgroup]
        rw [AList.lookup_insert, Option.some.injEq] at hmembers'
        rw [h group members hmembers, ← hmembers', Option.some.injEq]
        refine groupPartitions_congr c _ _ _ (SameTopics.subscribed ?_) (fun topic => rfl)
        intro id
        by_cases hid : id = memberId
        · rw [hid, hmember, AList.lookup_insert]
          rfl
        · rw [AList.lookup_insert_ne hid]
      · rw [AList.lookup_insert_ne hgroup] at hmembers'
        exact h group' members' hmembers'

theorem Balanced.leave {c : ConsumerGroupCoordinator} (h : c.Balanced) (group memberId : Bytes) :
    (c.leave group memberId).1.Balanced := by
  rw [ConsumerGroupCoordinator.leave]
  split
  · exact h
  · split
    · exact h
    · exact h.rebalance_insert group _

theorem Balanced.expireGroup {c : ConsumerGroupCoordinator} (h : c.Balanced)
    (memberTimeout now : Int) (group : Bytes) :
    (c.expireGroup memberTimeout now group).1.Balanced := by
  rw [ConsumerGroupCoordinator.expireGroup]
  split
  · exact h
  · exact h.rebalance_insert group _

theorem Balanced.expire {c : ConsumerGroupCoordinator} (h : c.Balanced) (memberTimeout now : Int) :
    (c.expire memberTimeout now).1.Balanced := by
  rw [ConsumerGroupCoordinator.expire]
  refine List.foldlRecOn (motive := fun state : ConsumerGroupCoordinator × List Bytes =>
    state.1.Balanced) _ _ h ?_
  intro state hstate group _
  exact hstate.expireGroup memberTimeout now group

/-- A new partition count makes all lists anew. -/
theorem setPartitions_balanced (topic : Bytes) (partitionCount : UInt32) :
    (c.setPartitions topic partitionCount).Balanced := by
  intro group members hmembers
  refine foldl_rebalance_balancedAt _ _ group ?_ members hmembers
  rw [setPartitions, foldl_rebalance_members] at hmembers
  exact AList.mem_keys.mp (AList.lookup_isSome.mp (by rw [hmembers]; rfl))

theorem Balanced.setSubscriptions {c : ConsumerGroupCoordinator} (h : c.Balanced)
    (group memberId : Bytes) (topics : List Bytes) :
    (c.setSubscriptions group memberId topics).1.Balanced := by
  rw [ConsumerGroupCoordinator.setSubscriptions]
  split
  · exact h
  · split
    · exact h
    · exact h.rebalance_insert group _

/-! ## What a member is dealt -/

/-- The turn of a member. -/
def rank (members : Table Bytes GroupMember) (id : Bytes) : Nat := (sortedIds members).idxOf id

/-- What a member of a group is dealt of the list of the group. -/
def hand (members : Table Bytes GroupMember) (id : Bytes) : List GroupAssignment :=
  everyNth (sortedIds members).length (rank members id) (c.groupPartitions members)

theorem mem_sortedIds (members : Table Bytes GroupMember) (id : Bytes) :
    id ∈ sortedIds members ↔ id ∈ members := by
  rw [sortedIds, List.mem_mergeSort, AList.mem_keys]

theorem sortedIds_nodup (members : Table Bytes GroupMember) : (sortedIds members).Nodup :=
  (List.mergeSort_perm _ _).nodup_iff.mpr members.keys_nodup

theorem rank_lt (members : Table Bytes GroupMember) (id : Bytes) (h : id ∈ members) :
    rank members id < (sortedIds members).length :=
  List.idxOf_lt_length_of_mem ((mem_sortedIds members id).mpr h)

/-- Every turn is somebody's. -/
theorem exists_rank (members : Table Bytes GroupMember) (index : Nat)
    (h : index < (sortedIds members).length) : ∃ id ∈ members, rank members id = index :=
  ⟨(sortedIds members)[index], (mem_sortedIds members _).mp (List.getElem_mem h),
    (sortedIds_nodup members).idxOf_getElem index h⟩

theorem SameTopics.sortedIds_eq {members members' : Table Bytes GroupMember}
    (h : SameTopics members members') : sortedIds members = sortedIds members' := by
  refine eq_of_sorted_nodup (fun a b => List.le_antisymm) (mergeSort_sorted _)
    (mergeSort_sorted _) (sortedIds_nodup _) (sortedIds_nodup _) ?_
  intro id
  have hsome := congrArg Option.isSome (h id)
  rw [Option.isSome_map, Option.isSome_map] at hsome
  rw [mem_sortedIds, mem_sortedIds, ← AList.lookup_isSome, ← AList.lookup_isSome, hsome]

section Balanced

variable {c} {group : Bytes} {members : Table Bytes GroupMember} (hc : c.Balanced)
  (h : c.members.lookup group = some members)

include hc h

/-- `Sync` answers with what the member is dealt. -/
theorem Balanced.sync_eq (id : Bytes) :
    c.sync group id = if id ∈ members then some (c.hand members id) else none := by
  rw [sync]
  simp only [h, hc group members h, mem_sortedIds, rank, hand]
  by_cases hid : id ∈ members
  · simp only [hid, not_true_eq_false, if_false, if_true]
  · simp only [hid, not_false_eq_true, if_false, if_true]

theorem Balanced.assignment_eq (id : Bytes) :
    c.assignment group id = if id ∈ members then c.hand members id else [] := by
  rw [assignment]
  simp only [h, hc group members h, mem_sortedIds, rank, hand]
  by_cases hid : id ∈ members
  · simp only [hid, not_true_eq_false, if_false, if_true]
  · simp only [hid, not_false_eq_true, if_false, if_true]

end Balanced

section Hands

variable (members : Table Bytes GroupMember)

theorem hand_nodup (id : Bytes) : (c.hand members id).Nodup :=
  (c.groupPartitions_nodup members).sublist (everyNth_sublist _ _ _)

theorem hand_disjoint (id id' : Bytes) (hid : id ∈ members) (hid' : id' ∈ members)
    (hne : id ≠ id') : (c.hand members id).Disjoint (c.hand members id') := by
  have hlt := rank_lt members id hid
  refine everyNth_disjoint (by omega) _ (c.groupPartitions_nodup members) _ _ hlt
    (rank_lt members id' hid') ?_
  intro heq
  exact hne ((List.idxOf_inj ((mem_sortedIds members id).mpr hid)).mp heq)

theorem hand_union (a : GroupAssignment) :
    (∃ id ∈ members, a ∈ c.hand members id) ↔ a ∈ c.groupPartitions members := by
  constructor
  · rintro ⟨id, _, ha⟩
    exact (everyNth_sublist _ _ _).subset ha
  · intro ha
    -- Somebody has subscribed to the topic, so there is a member.
    have hpos : 0 < (sortedIds members).length := by
      rcases (c.mem_groupPartitions members a).mp ha with ⟨⟨id, member, hid, _⟩, _⟩
      have hlt := rank_lt members id (AList.lookup_isSome.mp (by rw [hid]; rfl))
      omega
    rcases everyNth_cover hpos _ a ha with ⟨index, hindex, hmem⟩
    rcases exists_rank members index hindex with ⟨id, hid, hrank⟩
    refine ⟨id, hid, ?_⟩
    rw [hand, hrank]
    exact hmem

theorem hand_length_le (id id' : Bytes) (hid' : id' ∈ members) :
    (c.hand members id).length ≤ (c.hand members id').length + 1 := by
  have hlt := rank_lt members id' hid'
  exact everyNth_length_le (by omega) _ _ _ hlt

end Hands

theorem hand_congr (c' : ConsumerGroupCoordinator) (members members' : Table Bytes GroupMember)
    (h : SameTopics members members') (hcount : ∀ topic, c.count topic = c'.count topic)
    (id : Bytes) : c.hand members id = c'.hand members' id := by
  rw [hand, hand, rank, rank, h.sortedIds_eq,
    c.groupPartitions_congr c' members members' h.subscribed hcount]

end ConsumerGroupCoordinator

/-! ## Series of calls -/

open ConsumerGroupCoordinator

/-- A call of the coordinator that may change its state. -/
inductive GroupOp where
  | join (group memberId : Bytes) (topics : List Bytes) (now : Int)
  | heartbeat (group memberId : Bytes) (now : Int)
  | leave (group memberId : Bytes)
  | expire (now : Int)
  | setPartitions (topic : Bytes) (partitionCount : UInt32)
  | setSubscriptions (group memberId : Bytes) (topics : List Bytes)

/-- What a call does. -/
def GroupOp.exec (memberTimeout : Int) (c : ConsumerGroupCoordinator) :
    GroupOp → ConsumerGroupCoordinator
  | .join group memberId topics now => (c.join group memberId topics now).1
  | .heartbeat group memberId now => (c.heartbeat group memberId now).1
  | .leave group memberId => (c.leave group memberId).1
  | .expire now => (c.expire memberTimeout now).1
  | .setPartitions topic partitionCount => c.setPartitions topic partitionCount
  | .setSubscriptions group memberId topics => (c.setSubscriptions group memberId topics).1

/-- The state after some calls. -/
def runGroups (memberTimeout : Int) (ops : List GroupOp) : ConsumerGroupCoordinator :=
  ops.foldl (GroupOp.exec memberTimeout) {}

/-- The count a topic has after a call. -/
def GroupOp.countAfter (topic : Bytes) (count : UInt32) : GroupOp → UInt32
  | .setPartitions topic' partitionCount => if topic = topic' then partitionCount else count
  | _ => count

/-- The last count that was set for a topic. -/
def lastCount (ops : List GroupOp) (topic : Bytes) : UInt32 :=
  ops.foldl (GroupOp.countAfter topic) 0

theorem GroupOp.exec_balanced (memberTimeout : Int) (c : ConsumerGroupCoordinator) (op : GroupOp)
    (h : c.Balanced) : (op.exec memberTimeout c).Balanced := by
  cases op with
  | join group memberId topics now => exact h.join group memberId topics now
  | heartbeat group memberId now => exact h.heartbeat group memberId now
  | leave group memberId => exact h.leave group memberId
  | expire now => exact h.expire memberTimeout now
  | setPartitions topic partitionCount => exact setPartitions_balanced c topic partitionCount
  | setSubscriptions group memberId topics => exact h.setSubscriptions group memberId topics

/-- The lists are right after any series of calls. -/
theorem runGroups_balanced (memberTimeout : Int) (ops : List GroupOp) :
    (runGroups memberTimeout ops).Balanced := by
  rw [runGroups]
  refine List.foldlRecOn (motive := Balanced) _ _ ?_ ?_
  · intro group members hmembers
    exact nomatch hmembers
  · intro c hc op _
    exact GroupOp.exec_balanced memberTimeout c op hc

theorem expireGroup_partitions (c : ConsumerGroupCoordinator) (memberTimeout now : Int)
    (group : Bytes) : (c.expireGroup memberTimeout now group).1.partitions = c.partitions := by
  rw [expireGroup]
  split
  · rfl
  · exact rebalance_partitions _ group

theorem expire_partitions (c : ConsumerGroupCoordinator) (memberTimeout now : Int) :
    (c.expire memberTimeout now).1.partitions = c.partitions := by
  rw [expire]
  refine List.foldlRecOn (motive := fun state : ConsumerGroupCoordinator × List Bytes =>
    state.1.partitions = c.partitions) _ _ rfl ?_
  intro state hstate group _
  rw [← hstate]
  exact expireGroup_partitions state.1 memberTimeout now group

/-- The counts after a call. -/
def GroupOp.partitionsAfter (partitions : Table Bytes UInt32) : GroupOp → Table Bytes UInt32
  | .setPartitions topic partitionCount => partitions.insert topic partitionCount
  | _ => partitions

/-- Only `SetPartitions` changes the counts. -/
theorem GroupOp.exec_partitions (memberTimeout : Int) (c : ConsumerGroupCoordinator)
    (op : GroupOp) : (op.exec memberTimeout c).partitions = op.partitionsAfter c.partitions := by
  cases op with
  | join group memberId topics now =>
      rw [exec, ConsumerGroupCoordinator.join]
      split
      · rfl
      · exact rebalance_partitions _ group
  | heartbeat group memberId now =>
      rw [exec, ConsumerGroupCoordinator.heartbeat]
      split
      · rfl
      · split <;> rfl
  | leave group memberId =>
      rw [exec, ConsumerGroupCoordinator.leave]
      split
      · rfl
      · split
        · rfl
        · exact rebalance_partitions _ group
  | expire now => exact expire_partitions c memberTimeout now
  | setPartitions topic partitionCount =>
      rw [exec, ConsumerGroupCoordinator.setPartitions, foldl_rebalance_partitions, partitionsAfter]
  | setSubscriptions group memberId topics =>
      rw [exec, ConsumerGroupCoordinator.setSubscriptions]
      split
      · rfl
      · split
        · rfl
        · exact rebalance_partitions _ group

theorem GroupOp.exec_count (memberTimeout : Int) (c : ConsumerGroupCoordinator) (op : GroupOp)
    (topic : Bytes) : (op.exec memberTimeout c).count topic = op.countAfter topic (c.count topic) := by
  rw [count, GroupOp.exec_partitions]
  cases op with
  | setPartitions topic' partitionCount =>
      rw [partitionsAfter, countAfter]
      by_cases htopic : topic = topic'
      · rw [if_pos htopic, htopic, AList.lookup_insert, Option.getD_some]
      · rw [if_neg htopic, AList.lookup_insert_ne htopic, count]
  | join group memberId topics now => rfl
  | heartbeat group memberId now => rfl
  | leave group memberId => rfl
  | expire now => rfl
  | setSubscriptions group memberId topics => rfl

theorem runGroups_count (memberTimeout : Int) (ops : List GroupOp) (topic : Bytes) :
    (runGroups memberTimeout ops).count topic = lastCount ops topic := by
  induction ops using List.reverseRecOn with
  | nil => rfl
  | append_singleton ops op ih =>
      rw [runGroups, List.foldl_append, List.foldl_cons, List.foldl_nil, ← runGroups,
        GroupOp.exec_count, ih, lastCount, lastCount, List.foldl_append, List.foldl_cons,
        List.foldl_nil]

/-- The members of a group share the partitions of the topics they have
    subscribed to, given the number of partitions of every topic. -/
structure SplitExactly (c : ConsumerGroupCoordinator) (group : Bytes)
    (members : Table Bytes GroupMember) (counts : Bytes → UInt32) : Prop where
  /-- `Sync` answers all members, and `Assignment` with the same list. -/
  answered : ∀ id ∈ members, c.sync group id = some (c.assignment group id)
  /-- Nobody gets a partition twice. -/
  nodup : ∀ id ∈ members, (c.assignment group id).Nodup
  /-- No two members get the same partition. -/
  disjoint : ∀ id ∈ members, ∀ id' ∈ members, id ≠ id' →
    (c.assignment group id).Disjoint (c.assignment group id')
  /-- What is given out are the partitions of the topics, all of them. -/
  union : ∀ a, (∃ id ∈ members, a ∈ c.assignment group id)
    ↔ Subscribed members a.topic ∧ a.partition < counts a.topic
  /-- Nobody gets two partitions more than somebody else. -/
  balanced : ∀ id ∈ members, ∀ id' ∈ members,
    (c.assignment group id).length ≤ (c.assignment group id').length + 1

/-- After any calls the members of a group share its partitions, and how they
    share them depends only on who they are, on their subscriptions and on the
    partition counts. -/
theorem assignment_exact (memberTimeout : Int) (ops : List GroupOp) (group : Bytes)
    (members : Table Bytes GroupMember)
    (h : (runGroups memberTimeout ops).members.lookup group = some members) :
    SplitExactly (runGroups memberTimeout ops) group members (lastCount ops) ∧
    ∀ memberTimeout' ops' members',
      (runGroups memberTimeout' ops').members.lookup group = some members' →
      SameTopics members members' → (∀ topic, lastCount ops topic = lastCount ops' topic) →
      ∀ id, (runGroups memberTimeout ops).sync group id
        = (runGroups memberTimeout' ops').sync group id := by
  have hbalanced := runGroups_balanced memberTimeout ops
  have hassign := hbalanced.assignment_eq h
  refine ⟨⟨?_, ?_, ?_, ?_, ?_⟩, ?_⟩
  · intro id hid
    rw [hbalanced.sync_eq h, hassign, if_pos hid, if_pos hid]
  · intro id hid
    rw [hassign, if_pos hid]
    exact hand_nodup _ members id
  · intro id hid id' hid' hne
    rw [hassign, hassign, if_pos hid, if_pos hid']
    exact hand_disjoint _ members id id' hid hid' hne
  · intro a
    rw [← runGroups_count memberTimeout, ← mem_groupPartitions, ← hand_union]
    refine exists_congr fun id => and_congr_right fun hid => ?_
    rw [hassign, if_pos hid]
  · intro id hid id' hid'
    rw [hassign, hassign, if_pos hid, if_pos hid']
    exact hand_length_le _ members id id' hid'
  · intro memberTimeout' ops' members' h' hsame hcounts id
    have hcount : ∀ topic, (runGroups memberTimeout ops).count topic
        = (runGroups memberTimeout' ops').count topic := by
      intro topic
      rw [runGroups_count, runGroups_count, hcounts]
    have hmem : id ∈ members ↔ id ∈ members' := by
      rw [← mem_sortedIds, ← mem_sortedIds, hsame.sortedIds_eq]
    rw [hbalanced.sync_eq h, (runGroups_balanced memberTimeout' ops').sync_eq h',
      hand_congr _ _ members members' hsame hcount]
    simp only [hmem]

/-- Two members that share three partitions of a topic. -/
theorem assignment_exact_two :
    let ops : List GroupOp := [.setPartitions [120] 3, .join [103] [97] [[120]] 0,
      .join [103] [98] [[120]] 5]
    ∃ members, (runGroups 30 ops).members.lookup [103] = some members ∧ [97] ∈ members ∧
      [98] ∈ members ∧ SplitExactly (runGroups 30 ops) [103] members (lastCount ops) :=
  ⟨_, rfl, by decide, by decide, (assignment_exact 30 _ [103] _ rfl).1⟩

/-! ## Own topics -/

namespace ConsumerGroupCoordinator

variable (c : ConsumerGroupCoordinator)

/-- The number of partitions in the list of a group in front of those of a
    topic. -/
def preceding (members : Table Bytes GroupMember) (topic : Bytes) : Nat :=
  (((subscribedTopics members).filter (· < topic)).map (fun t => (c.count t).toNat)).sum

/-- Every topic is dealt only to members that have subscribed to it: whose turn
    it is at one of its partitions. -/
def Aligned (members : Table Bytes GroupMember) : Prop :=
  ∀ topic, Subscribed members topic → ∀ partition < (c.count topic).toNat,
    ∀ id member, members.lookup id = some member →
      rank members id = (c.preceding members topic + partition) % (sortedIds members).length →
      topic ∈ member.topics

theorem allPartitions_length (topics : List Bytes) :
    (c.allPartitions topics).length = (topics.map (fun t => (c.count t).toNat)).sum := by
  rw [allPartitions, List.length_flatMap]
  simp only [List.length_map, List.length_range]
  rfl

/-- The topics in front of a topic in the sorted list are the smaller ones. -/
theorem filter_lt_of_sorted (front back : List Bytes) (topic : Bytes)
    (hs : (front ++ topic :: back).Pairwise (· ≤ ·)) (hn : (front ++ topic :: back).Nodup) :
    (front ++ topic :: back).filter (· < topic) = front := by
  rw [List.pairwise_append] at hs
  rw [List.nodup_append] at hn
  rw [List.filter_append, List.filter_eq_self.mpr, List.filter_eq_nil_iff.mpr, List.append_nil]
  · intro t ht
    rcases List.mem_cons.mp ht with rfl | ht
    · simp only [List.lt_irrefl, decide_false, Bool.false_eq_true, not_false_eq_true]
    · have hle := (List.pairwise_cons.mp hs.2.1).1 t ht
      simp only [decide_eq_true_eq]
      exact List.not_lt.mpr hle
  · intro t ht
    have hle := hs.2.2 t ht topic List.mem_cons_self
    have hne := hn.2.2 t ht topic List.mem_cons_self
    exact decide_eq_true (name_lt hle hne)

/-- Where a partition stands in the list of a group. -/
theorem getElem?_groupPartitions (members : Table Bytes GroupMember) (topic : Bytes)
    (h : Subscribed members topic) (partition : Nat) (hp : partition < (c.count topic).toNat) :
    (c.groupPartitions members)[c.preceding members topic + partition]?
      = some ⟨topic, UInt32.ofNat partition⟩ := by
  rcases List.append_of_mem ((mem_subscribedTopics members topic).mpr h) with ⟨front, back, hsplit⟩
  have hfront := filter_lt_of_sorted front back topic (hsplit ▸ subscribedTopics_sorted members)
    (hsplit ▸ subscribedTopics_nodup members)
  have hlen : c.preceding members topic = (c.allPartitions front).length := by
    rw [preceding, hsplit, hfront, allPartitions_length]
  have hlist : c.allPartitions (front ++ topic :: back) = c.allPartitions front ++
      ((List.range (c.count topic).toNat).map (fun p => ⟨topic, UInt32.ofNat p⟩) ++
        c.allPartitions back) := by
    rw [allPartitions, List.flatMap_append, List.flatMap_cons]
    rfl
  rw [groupPartitions_eq, hsplit, hlist, hlen, List.getElem?_append_right (Nat.le_add_right _ _),
    Nat.add_sub_cancel_left, List.getElem?_append_left (by
      rw [List.length_map, List.length_range]
      exact hp), List.getElem?_map, List.getElem?_range hp, Option.map_some]

/-- If all members have subscribed to the same topics, nobody is dealt a topic
    it has not asked for. -/
theorem aligned_of_same_topics (members : Table Bytes GroupMember)
    (h : ∀ topic, Subscribed members topic → ∀ id member, members.lookup id = some member →
      topic ∈ member.topics) : c.Aligned members :=
  fun topic htopic _ _ id member hid _ => h topic htopic id member hid

/-- The members are dealt only what they have subscribed to if every topic is
    dealt only to members that have. -/
theorem hand_topics_iff (members : Table Bytes GroupMember) :
    (∀ id member, members.lookup id = some member →
      ∀ a ∈ c.hand members id, a.topic ∈ member.topics) ↔ c.Aligned members := by
  have hpos : ∀ id member, members.lookup id = some member → 0 < (sortedIds members).length := by
    intro id member hid
    have hlt := rank_lt members id (AList.lookup_isSome.mp (by rw [hid]; rfl))
    omega
  constructor
  · intro h topic htopic partition hpartition id member hid hrank
    refine h id member hid ⟨topic, UInt32.ofNat partition⟩ ?_
    rw [hand, mem_everyNth (hpos id member hid)]
    refine ⟨(c.preceding members topic + partition) / (sortedIds members).length, ?_⟩
    rw [hrank, Nat.mod_add_div']
    exact c.getElem?_groupPartitions members topic htopic partition hpartition
  · intro h id member hid a ha
    rw [hand, mem_everyNth (hpos id member hid)] at ha
    rcases ha with ⟨k, hk⟩
    -- The partition stands at only one place in the list.
    rcases (c.mem_groupPartitions members a).mp (List.mem_of_getElem? hk) with ⟨htopic, hlt⟩
    have hpartition := UInt32.lt_iff_toNat_lt.mp hlt
    have hplace := c.getElem?_groupPartitions members a.topic htopic a.partition.toNat hpartition
    rw [UInt32.ofNat_toNat] at hplace
    have heq := (List.getElem?_inj (List.getElem?_eq_some_iff.mp hk).1
      (c.groupPartitions_nodup members)).mp (hk.trans hplace.symm)
    refine h a.topic htopic a.partition.toNat hpartition id member hid ?_
    rw [← heq, Nat.add_mul_mod_self_right, Nat.mod_eq_of_lt]
    exact rank_lt members id (AList.lookup_isSome.mp (by rw [hid]; rfl))

end ConsumerGroupCoordinator

/-- After any calls the members of a group get only partitions of topics they
    have subscribed to exactly if every topic is dealt only to members that
    have. -/
theorem own_topics_iff (memberTimeout : Int) (ops : List GroupOp) (group : Bytes)
    (members : Table Bytes GroupMember)
    (h : (runGroups memberTimeout ops).members.lookup group = some members) :
    (∀ id member, members.lookup id = some member →
      ∀ assignments, (runGroups memberTimeout ops).sync group id = some assignments →
        ∀ a ∈ assignments, a.topic ∈ member.topics)
      ↔ (runGroups memberTimeout ops).Aligned members := by
  rw [← hand_topics_iff]
  refine forall_congr' fun id => forall_congr' fun member => forall_congr' fun hid => ?_
  have hmem : id ∈ members := AList.lookup_isSome.mp (by rw [hid]; rfl)
  rw [(runGroups_balanced memberTimeout ops).sync_eq h, if_pos hmem]
  simp only [Option.some.injEq, forall_eq']

/-- Two members that have subscribed to the same topic. -/
theorem own_topics_iff_two :
    let ops : List GroupOp := [.setPartitions [120] 3, .join [103] [97] [[120]] 0,
      .join [103] [98] [[120]] 5]
    ∃ members, (runGroups 30 ops).members.lookup [103] = some members ∧
      ((∀ id member, members.lookup id = some member →
        ∀ assignments, (runGroups 30 ops).sync [103] id = some assignments →
          ∀ a ∈ assignments, a.topic ∈ member.topics)
        ↔ (runGroups 30 ops).Aligned members) :=
  ⟨_, rfl, own_topics_iff 30 _ [103] _ rfl⟩

/-- Two members that have subscribed to a topic each. -/
def crossedOps : List GroupOp :=
  [.setPartitions [120] 2, .setPartitions [121] 1, .join [103] [98] [[121]] 0,
    .join [103] [97] [[120]] 0]

/-- The group of `crossedOps`. -/
def crossedMembers : Table Bytes GroupMember :=
  AList.insert [97] ⟨0, [[120]]⟩ (AList.insert [98] ⟨0, [[121]]⟩ ∅)

/-- The first member takes the first and the third of the three partitions, and
    the third is of the topic of the other. -/
theorem crossed_hand : (runGroups 30 crossedOps).hand crossedMembers [97]
    = [⟨[120], 0⟩, ⟨[121], 0⟩] := by
  have hids : sortedIds crossedMembers = [[97], [98]] := List.mergeSort_of_pairwise (by decide)
  have htopics : subscribedTopics crossedMembers = [[120], [121]] :=
    List.mergeSort_of_pairwise (by decide)
  rw [hand, rank, groupPartitions_eq, hids, htopics]
  decide

/-- Of two members that have subscribed to a topic each, one is given a
    partition of the topic of the other. -/
theorem topic_not_subscribed :
    ¬ ∀ (memberTimeout : Int) (ops : List GroupOp) (group id : Bytes)
      (members : Table Bytes GroupMember) (member : GroupMember)
      (assignments : List GroupAssignment),
      (runGroups memberTimeout ops).members.lookup group = some members →
      members.lookup id = some member →
      (runGroups memberTimeout ops).sync group id = some assignments →
      ∀ a ∈ assignments, a.topic ∈ member.topics := by
  intro h
  have hmembers : (runGroups 30 crossedOps).members.lookup [103] = some crossedMembers := rfl
  have hsync := (runGroups_balanced 30 crossedOps).sync_eq hmembers [97]
  rw [if_pos (by decide), crossed_hand] at hsync
  have htopic := h 30 crossedOps [103] [97] crossedMembers ⟨0, [[120]]⟩ _ hmembers rfl hsync
    ⟨[121], 0⟩ (by decide)
  exact absurd htopic (by decide)

end MqBroker
