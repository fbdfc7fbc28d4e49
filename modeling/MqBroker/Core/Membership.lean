import MqBroker.Core.Assignment

/-!
# Members of a Group

What the calls of the group coordinator do to one member, and how much one
member can be dealt.

Seen from one member the coordinator is simple. Joining and heartbeats of its
own set its time, leaving and being late remove it, and nothing else does
anything. `GroupOp.memberAfter` says this, and `GroupOp.exec_member` that it is
what the tables do.

Nobody can subscribe to more topics than the request for it can count, and a
topic has only so many partitions. Since the partitions of a group are dealt
evenly, these bounds hold for what a member is dealt, however many members
there are.

## Main definitions

* `ConsumerGroupCoordinator.member`: A member of a group.
* `GroupOp.memberAfter`: What a call does to a member.
* `ConsumerGroupCoordinator.Bounded`: Subscriptions and counts in their bounds.

## Theorems

* `GroupOp.exec_member`: The tables do that.
* `GroupOp.exec_bounded`: Calls within the bounds keep them.
* `hand_length_bound`: How much a member is dealt at most.
-/

namespace MqBroker

namespace ConsumerGroupCoordinator

variable (c : ConsumerGroupCoordinator)

/-- A member of a group. -/
def member (group id : Bytes) : Option GroupMember :=
  (c.members.lookup group).bind (fun members => members.lookup id)

theorem member_of_lookup {group : Bytes} {members : Table Bytes GroupMember}
    (h : c.members.lookup group = some members) (id : Bytes) :
    c.member group id = members.lookup id := by
  rw [member, h, Option.bind_some]

/-- The members of one group are replaced. -/
theorem member_insert (c' : ConsumerGroupCoordinator) (group : Bytes)
    (members : Table Bytes GroupMember) (h : c'.members = c.members.insert group members)
    (group' id : Bytes) :
    c'.member group' id = if group' = group then members.lookup id else c.member group' id := by
  rw [member, h]
  split
  · rename_i heq
    rw [heq, AList.lookup_insert, Option.bind_some]
  · rename_i hne
    rw [AList.lookup_insert_ne hne, member]

theorem member_congr (c' : ConsumerGroupCoordinator) (h : c'.members = c.members)
    (group id : Bytes) : c'.member group id = c.member group id := by
  rw [member, h, member]

/-! ## One call -/

/-- One round of `Expire` removes the late members of its group. -/
theorem expireGroup_member (memberTimeout now : Int) (group group' id : Bytes) :
    (c.expireGroup memberTimeout now group).1.member group' id
      = if group' = group then
          (c.member group' id).filter (fun m => !late memberTimeout now m)
        else c.member group' id := by
  rw [expireGroup]
  split
  · rename_i hnone
    split
    · rename_i heq
      rw [heq, member, hnone]
      rfl
    · rfl
  · rename_i members hmembers
    rw [member_insert c _ group _ (rebalance_members _ group)]
    split
    · rename_i heq
      rw [Table.lookup_filterValues, heq, c.member_of_lookup hmembers]
    · rfl

/-- `Expire` removes the late members of all groups. -/
theorem expire_member (memberTimeout now : Int) (group id : Bytes) :
    (c.expire memberTimeout now).1.member group id
      = (c.member group id).filter (fun m => !late memberTimeout now m) := by
  -- Whatever groups were done so far, the others are as they were.
  have hfold : ∀ (groups : List Bytes) (state : ConsumerGroupCoordinator × List Bytes),
      (groups.foldl (fun state group =>
        let next := state.1.expireGroup memberTimeout now group
        (next.1, state.2 ++ next.2)) state).1.member group id
        = if group ∈ groups then
            (state.1.member group id).filter (fun m => !late memberTimeout now m)
          else state.1.member group id := by
    intro groups
    induction groups with
    | nil =>
        intro state
        rw [if_neg List.not_mem_nil]
        rfl
    | cons first rest ih =>
        intro state
        rw [List.foldl_cons, ih]
        simp only [expireGroup_member, List.mem_cons]
        by_cases hfirst : group = first
        · simp only [hfirst, true_or, if_true]
          split
          · rw [Option.filter_filter]
            simp only [Bool.and_self]
          · rfl
        · simp only [hfirst, false_or, if_false]
  rw [expire, hfold]
  split
  · rfl
  · rename_i hgroup
    rw [← AList.mem_keys, ← AList.lookup_isSome, Bool.not_eq_true, Option.isSome_eq_false_iff,
      Option.isNone_iff_eq_none] at hgroup
    rw [member, hgroup]
    rfl

end ConsumerGroupCoordinator

open ConsumerGroupCoordinator

/-- What a call does to a member of a group. -/
def GroupOp.memberAfter (memberTimeout : Int) (group id : Bytes) (before : Option GroupMember) :
    GroupOp → Option GroupMember
  | .join group' id' topics now =>
      if group' ≠ [] ∧ id' ≠ [] ∧ group = group' ∧ id = id' then some ⟨now, topics⟩ else before
  | .heartbeat group' id' now =>
      if group = group' ∧ id = id' then before.map (fun m => { m with lastHeartbeat := now })
      else before
  | .leave group' id' => if group = group' ∧ id = id' then none else before
  | .expire now => before.filter (fun m => !late memberTimeout now m)
  | .setPartitions _ _ => before
  | .setSubscriptions group' id' topics =>
      if group = group' ∧ id = id' then before.map (fun m => { m with topics := topics })
      else before

section Calls

variable (memberTimeout : Int) (c : ConsumerGroupCoordinator) (group id : Bytes)

theorem join_member (group' id' : Bytes) (topics : List Bytes) (now : Int) :
    (c.join group' id' topics now).1.member group id
      = if group' ≠ [] ∧ id' ≠ [] ∧ group = group' ∧ id = id' then some ⟨now, topics⟩
        else c.member group id := by
  rw [ConsumerGroupCoordinator.join]
  by_cases hempty : group' = [] ∨ id' = []
  · rw [if_pos hempty, if_neg]
    rintro ⟨hgroup, hid, _⟩
    exact hempty.elim hgroup hid
  · rw [not_or] at hempty
    rw [if_neg (not_or.mpr hempty), member_insert c _ group' _ (rebalance_members _ group')]
    simp only [ne_eq, hempty.1, hempty.2, not_false_eq_true, true_and]
    by_cases hgroup : group = group'
    · rw [if_pos hgroup]
      by_cases hid : id = id'
      · rw [if_pos ⟨hgroup, hid⟩, hid, AList.lookup_insert]
      · rw [if_neg (fun h => hid h.2), AList.lookup_insert_ne hid, member, hgroup]
        cases c.members.lookup group' <;> rfl
    · rw [if_neg hgroup, if_neg (fun h => hgroup h.1)]

/-- An update of a member that is there leaves all others alone. -/
theorem member_update {c' : ConsumerGroupCoordinator} {group' id' : Bytes}
    {members : Table Bytes GroupMember} {old : GroupMember} (f : GroupMember → GroupMember)
    (hmembers : c.members.lookup group' = some members) (hold : members.lookup id' = some old)
    (h : c'.members = c.members.insert group' (members.insert id' (f old))) :
    c'.member group id
      = if group = group' ∧ id = id' then (c.member group id).map f else c.member group id := by
  rw [member_insert c c' group' _ h]
  by_cases hgroup : group = group'
  · rw [if_pos hgroup, hgroup, c.member_of_lookup hmembers]
    by_cases hid : id = id'
    · rw [if_pos ⟨rfl, hid⟩, hid, AList.lookup_insert, hold]
      rfl
    · rw [if_neg (fun h => hid h.2), AList.lookup_insert_ne hid]
  · rw [if_neg hgroup, if_neg (fun h => hgroup h.1)]

/-- A member that is not there has no update. -/
theorem member_missing {group' id' : Bytes} (h : c.member group' id' = none)
    (f : GroupMember → GroupMember) :
    c.member group id
      = if group = group' ∧ id = id' then (c.member group id).map f else c.member group id := by
  split
  · rename_i heq
    rw [heq.1, heq.2, h]
    rfl
  · rfl

theorem heartbeat_member (group' id' : Bytes) (now : Int) :
    (c.heartbeat group' id' now).1.member group id
      = if group = group' ∧ id = id' then
          (c.member group id).map (fun m => { m with lastHeartbeat := now })
        else c.member group id := by
  rw [ConsumerGroupCoordinator.heartbeat]
  split
  · rename_i hnone
    exact member_missing c group id (by rw [member, hnone]; rfl) _
  · rename_i members hmembers
    split
    · rename_i hnone
      exact member_missing c group id (by rw [c.member_of_lookup hmembers, hnone]) _
    · rename_i old hold
      exact member_update c group id (fun m => { m with lastHeartbeat := now }) hmembers hold rfl

theorem setSubscriptions_member (group' id' : Bytes) (topics : List Bytes) :
    (c.setSubscriptions group' id' topics).1.member group id
      = if group = group' ∧ id = id' then
          (c.member group id).map (fun m => { m with topics := topics })
        else c.member group id := by
  rw [ConsumerGroupCoordinator.setSubscriptions]
  split
  · rename_i hnone
    exact member_missing c group id (by rw [member, hnone]; rfl) _
  · rename_i members hmembers
    split
    · rename_i hnone
      exact member_missing c group id (by rw [c.member_of_lookup hmembers, hnone]) _
    · rename_i old hold
      exact member_update c group id (fun m => { m with topics := topics }) hmembers hold
        (rebalance_members _ group')

theorem leave_member (group' id' : Bytes) :
    (c.leave group' id').1.member group id
      = if group = group' ∧ id = id' then none else c.member group id := by
  rw [ConsumerGroupCoordinator.leave]
  split
  · rename_i hnone
    split
    · rename_i heq
      rw [heq.1, member, hnone]
      rfl
    · rfl
  · rename_i members hmembers
    split
    · rename_i hmissing
      split
      · rename_i heq
        rw [heq.1, heq.2, c.member_of_lookup hmembers]
        exact AList.lookup_eq_none.mpr hmissing
      · rfl
    · rw [member_insert c _ group' _ (rebalance_members _ group')]
      by_cases hgroup : group = group'
      · rw [if_pos hgroup]
        by_cases hid : id = id'
        · rw [if_pos ⟨hgroup, hid⟩, hid, AList.lookup_erase]
        · rw [if_neg (fun h => hid h.2), AList.lookup_erase_ne hid, hgroup,
            c.member_of_lookup hmembers]
      · rw [if_neg hgroup, if_neg (fun h => hgroup h.1)]

/-- A call does to a member what it says. -/
theorem GroupOp.exec_member (op : GroupOp) :
    (op.exec memberTimeout c).member group id
      = op.memberAfter memberTimeout group id (c.member group id) := by
  cases op with
  | join group' id' topics now => exact join_member c group id group' id' topics now
  | heartbeat group' id' now => exact heartbeat_member c group id group' id' now
  | leave group' id' => exact leave_member c group id group' id'
  | expire now => exact expire_member c memberTimeout now group id
  | setPartitions topic count =>
      refine member_congr c _ ?_ group id
      rw [exec, ConsumerGroupCoordinator.setPartitions, foldl_rebalance_members]
  | setSubscriptions group' id' topics => exact setSubscriptions_member c group id group' id' topics

end Calls

/-! ## Bounds -/

/-- A call whose arguments fit into the requests they come from. -/
def GroupOp.Fits : GroupOp → Prop
  | .join _ _ topics _ => topics.length ≤ 65535
  | .setSubscriptions _ _ topics => topics.length ≤ 65535
  | .setPartitions topic partitionCount => topic.length ≤ 64 ∧ partitionCount.toNat ≤ 1024
  | _ => True

/-- Nobody has subscribed to too many topics, and no topic has too long a name
    or too many partitions. -/
structure ConsumerGroupCoordinator.Bounded (c : ConsumerGroupCoordinator) : Prop where
  balanced : c.Balanced
  counts : ∀ topic count, c.partitions.lookup topic = some count →
    topic.length ≤ 64 ∧ count.toNat ≤ 1024
  subscriptions : ∀ group id m, c.member group id = some m → m.topics.length ≤ 65535

/-- No call makes too many subscriptions. -/
theorem GroupOp.memberAfter_topics {memberTimeout : Int} {group id : Bytes}
    {before : Option GroupMember} {op : GroupOp} {m : GroupMember} (hop : op.Fits)
    (hbefore : ∀ m, before = some m → m.topics.length ≤ 65535)
    (h : op.memberAfter memberTimeout group id before = some m) : m.topics.length ≤ 65535 := by
  cases op with
  | join group' id' topics now =>
      simp only [memberAfter] at h
      split at h
      · rw [← Option.some.inj h]
        exact hop
      · exact hbefore m h
  | heartbeat group' id' now =>
      simp only [memberAfter] at h
      split at h
      · rcases Option.map_eq_some_iff.mp h with ⟨old, hold, rfl⟩
        exact hbefore old hold
      · exact hbefore m h
  | leave group' id' =>
      simp only [memberAfter] at h
      split at h
      · cases h
      · exact hbefore m h
  | expire now => exact hbefore m (Option.filter_eq_some_iff.mp h).1
  | setPartitions topic count => exact hbefore m h
  | setSubscriptions group' id' topics =>
      simp only [memberAfter] at h
      split at h
      · rcases Option.map_eq_some_iff.mp h with ⟨old, hold, rfl⟩
        exact hop
      · exact hbefore m h

theorem GroupOp.exec_bounded (memberTimeout : Int) {c : ConsumerGroupCoordinator} (h : c.Bounded)
    (op : GroupOp) (hop : op.Fits) : (op.exec memberTimeout c).Bounded := by
  refine ⟨op.exec_balanced memberTimeout c h.balanced, fun topic count hcount => ?_,
    fun group id m hm => ?_⟩
  · rw [GroupOp.exec_partitions] at hcount
    cases op with
    | setPartitions topic' count' =>
        by_cases htopic : topic = topic'
        · rw [htopic, partitionsAfter, AList.lookup_insert] at hcount
          rw [htopic, ← Option.some.inj hcount]
          exact hop
        · rw [partitionsAfter, AList.lookup_insert_ne htopic] at hcount
          exact h.counts topic count hcount
    | join group' id' topics now => exact h.counts topic count hcount
    | heartbeat group' id' now => exact h.counts topic count hcount
    | leave group' id' => exact h.counts topic count hcount
    | expire now => exact h.counts topic count hcount
    | setSubscriptions group' id' topics => exact h.counts topic count hcount
  · rw [GroupOp.exec_member] at hm
    exact GroupOp.memberAfter_topics hop (fun m hm => h.subscriptions group id m hm) hm

theorem bounded_empty : ({} : ConsumerGroupCoordinator).Bounded :=
  ⟨fun _ _ h => (nomatch h), fun _ _ h => (nomatch h), fun _ _ _ h => (nomatch h)⟩

/-- A series of calls within the bounds keeps them. -/
theorem foldl_exec_bounded (memberTimeout : Int) {c : ConsumerGroupCoordinator} (h : c.Bounded)
    (ops : List GroupOp) (hops : ∀ op ∈ ops, op.Fits) :
    (ops.foldl (GroupOp.exec memberTimeout) c).Bounded := by
  refine List.foldlRecOn (motive := Bounded) _ _ h ?_
  intro d hd op hop
  exact op.exec_bounded memberTimeout hd (hops op hop)

section Hands

variable {c : ConsumerGroupCoordinator} {group : Bytes} {members : Table Bytes GroupMember}

/-- What a member is told is its hand. -/
theorem ConsumerGroupCoordinator.Balanced.sync_hand (h : c.Balanced) {id : Bytes}
    {assignments : List GroupAssignment} (hsync : c.sync group id = some assignments) :
    ∃ members, c.members.lookup group = some members ∧ id ∈ members ∧
      assignments = c.hand members id := by
  cases hgroup : c.members.lookup group with
  | none =>
      rw [sync, hgroup] at hsync
      cases hsync
  | some members =>
      rw [h.sync_eq hgroup] at hsync
      split at hsync
      · rename_i hid
        exact ⟨members, rfl, hid, (Option.some.inj hsync).symm⟩
      · cases hsync

/-- What is in a hand is a partition of a topic that the groups know. -/
theorem mem_hand {id : Bytes} {a : GroupAssignment} (ha : a ∈ c.hand members id) :
    ∃ count, c.partitions.lookup a.topic = some count ∧ a.partition < count := by
  have hmem := (everyNth_sublist _ _ _).subset ha
  have hlt := ((c.mem_groupPartitions members a).mp hmem).2
  rw [count] at hlt
  cases hcount : c.partitions.lookup a.topic with
  | none =>
      rw [hcount] at hlt
      exact absurd hlt UInt32.not_lt_zero
  | some count =>
      rw [hcount] at hlt
      exact ⟨count, rfl, hlt⟩

theorem length_sortedIds (members : Table Bytes GroupMember) :
    (sortedIds members).length = members.values.length := by
  rw [sortedIds, List.length_mergeSort, AList.keys, List.keys, List.length_map, Table.values,
    List.length_map]

theorem count_le (h : c.Bounded) (topic : Bytes) : (c.count topic).toNat ≤ 1024 := by
  rw [count]
  cases hcount : c.partitions.lookup topic with
  | none => exact Nat.zero_le _
  | some count => exact (h.counts topic count hcount).2

/-- What a group has to deal is bounded by the number of its members. -/
theorem groupPartitions_length_le (h : c.Bounded) (hgroup : c.members.lookup group = some members) :
    (c.groupPartitions members).length ≤ 1024 * 65535 * (sortedIds members).length := by
  have htopics : (subscribedTopics members).length ≤ 65535 * (sortedIds members).length := by
    rw [subscribedTopics, List.length_mergeSort, length_sortedIds]
    refine (List.dedup_sublist _).length_le.trans (length_flatMap_le _ _ _ fun m hm => ?_)
    rcases Table.lookup_of_mem_values members m hm with ⟨id, hid⟩
    exact h.subscriptions group id m (by rw [c.member_of_lookup hgroup, hid])
  have hpartitions : (c.allPartitions (subscribedTopics members)).length
      ≤ 1024 * (subscribedTopics members).length := by
    refine length_flatMap_le _ _ _ fun topic _ => ?_
    rw [List.length_map, List.length_range]
    exact count_le h topic
  rw [groupPartitions_eq]
  calc (c.allPartitions (subscribedTopics members)).length
      ≤ 1024 * (subscribedTopics members).length := hpartitions
    _ ≤ 1024 * (65535 * (sortedIds members).length) := Nat.mul_le_mul_left _ htopics
    _ = 1024 * 65535 * (sortedIds members).length := (mul_assoc _ _ _).symm

/-- A member is dealt no more partitions than one subscription can name. -/
theorem hand_length_bound (h : c.Bounded) (hgroup : c.members.lookup group = some members)
    {id : Bytes} (hid : id ∈ members) : (c.hand members id).length ≤ 1024 * 65535 := by
  have hrank := rank_lt members id hid
  have htotal := groupPartitions_length_le h hgroup
  by_contra hlong
  have hlast := (lt_length_everyNth (by omega) (c.groupPartitions members) (rank members id)
    (1024 * 65535)).mp (not_le.mp hlong)
  omega

end Hands

end MqBroker
