import MqBroker.Lib.Table
import MqBroker.Lib.Bytes
import MqBroker.Lib.Dealing

/-!
# Consumer Groups

Who is in a group and what the group has subscribed to.

A `ConsumerGroupCoordinator` keeps the members of every group with their
subscriptions, and for every group the list of all partitions its members have
subscribed to, made anew whenever something changes. The list is in the order
of topics and partitions, so that it does not depend on the order in which a
hash table is walked.

Which member gets which partition of the list is not stored. It is computed
when a member asks: the members in the order of their ids take turns.

## Main definitions

* `ConsumerGroupCoordinator`: The state.
* `rebalance`: `RebalanceLocked`.
* `join`, `heartbeat`, `leave`, `expire`, `setPartitions`, `setSubscriptions`:
  `Join`, `Heartbeat`, `Leave`, `Expire`, `SetPartitions` and
  `SetSubscriptions`.
* `sync`, `assignment`: `Sync` and `Assignment`.
-/

namespace MqBroker

/-- A partition that is assigned to a group. -/
structure GroupAssignment where
  topic : Bytes
  partition : UInt32 := 0
deriving DecidableEq, Repr

/-- A member of a group. -/
structure GroupMember where
  lastHeartbeat : Int
  topics : List Bytes
deriving DecidableEq, Repr

/-- The state of a coordinator of consumer groups. -/
structure ConsumerGroupCoordinator where
  /-- The members of every group. -/
  members : Table Bytes (Table Bytes GroupMember) := ∅
  /-- The partition count of every topic. -/
  partitions : Table Bytes UInt32 := ∅
  /-- The partitions of every group. -/
  assignments : Table Bytes (List GroupAssignment) := ∅
deriving DecidableEq

namespace ConsumerGroupCoordinator

variable (c : ConsumerGroupCoordinator)

/-- The order of the assignments of a group: by topic, then by partition. -/
def assignmentLe (left right : GroupAssignment) : Bool :=
  if left.topic = right.topic then left.partition ≤ right.partition
  else left.topic < right.topic

/-- The topics that somebody in a group has subscribed to, in order. -/
def subscribedTopics (members : Table Bytes GroupMember) : List Bytes :=
  (members.values.flatMap GroupMember.topics).dedup.mergeSort (fun left right => left ≤ right)

/-- All partitions of some topics. Topics that nobody has created have none. -/
def allPartitions (topics : List Bytes) : List GroupAssignment :=
  topics.flatMap (fun topic =>
    (List.range ((c.partitions.lookup topic).getD 0).toNat).map
      (fun partition => ⟨topic, UInt32.ofNat partition⟩))

/-- `RebalanceLocked`. -/
def rebalance (group : Bytes) : ConsumerGroupCoordinator :=
  match c.members.lookup group with
  | none => c
  | some members =>
      { c with
        assignments := c.assignments.insert group
          (if members.size = 0 then []
          else (c.allPartitions (subscribedTopics members)).mergeSort assignmentLe) }

/-- `Join`. A member that joins again replaces its subscriptions. -/
def join (group memberId : Bytes) (topics : List Bytes) (now : Int) :
    ConsumerGroupCoordinator × Bool :=
  if group = [] ∨ memberId = [] then (c, false)
  else
    let members := (c.members.lookup group).getD ∅
    (rebalance { c with members := c.members.insert group (members.insert memberId ⟨now, topics⟩) }
      group, true)

/-- `Heartbeat`. -/
def heartbeat (group memberId : Bytes) (now : Int) : ConsumerGroupCoordinator × Bool :=
  match c.members.lookup group with
  | none => (c, false)
  | some members =>
      match members.lookup memberId with
      | none => (c, false)
      | some member =>
          ({ c with
            members := c.members.insert group
              (members.insert memberId { member with lastHeartbeat := now }) }, true)

/-- `Leave`. -/
def leave (group memberId : Bytes) : ConsumerGroupCoordinator × Bool :=
  match c.members.lookup group with
  | none => (c, false)
  | some members =>
      if memberId ∉ members then (c, false)
      else
        (rebalance { c with members := c.members.insert group (members.erase memberId) } group,
          true)

/-- Whether a member has been silent for too long. -/
def late (memberTimeout now : Int) (member : GroupMember) : Bool :=
  now - member.lastHeartbeat > memberTimeout

/-- One round of the loop of `Expire`: a group without its late members, and
    the names of these. -/
def expireGroup (memberTimeout now : Int) (group : Bytes) : ConsumerGroupCoordinator × List Bytes :=
  match c.members.lookup group with
  | none => (c, [])
  | some members =>
      (rebalance
        { c with
          members := c.members.insert group
            (members.filterValues (fun member => !late memberTimeout now member)) } group,
        (members.filterValues (late memberTimeout now)).keys.map
          (fun memberId => group ++ 0x1f :: memberId))

/-- `Expire`. -/
def expire (memberTimeout now : Int) : ConsumerGroupCoordinator × List Bytes :=
  c.members.keys.foldl
    (fun state group =>
      let next := state.1.expireGroup memberTimeout now group
      (next.1, state.2 ++ next.2))
    (c, [])

/-- `SetPartitions`. -/
def setPartitions (topic : Bytes) (partitionCount : UInt32) : ConsumerGroupCoordinator :=
  c.members.keys.foldl rebalance
    { c with partitions := c.partitions.insert topic partitionCount }

/-- `SetSubscriptions`. -/
def setSubscriptions (group memberId : Bytes) (topics : List Bytes) :
    ConsumerGroupCoordinator × Bool :=
  match c.members.lookup group with
  | none => (c, false)
  | some members =>
      match members.lookup memberId with
      | none => (c, false)
      | some member =>
          (rebalance
            { c with
              members := c.members.insert group
                (members.insert memberId { member with topics := topics }) } group, true)

/-- The ids of the members of a group, in order. -/
def sortedIds (members : Table Bytes GroupMember) : List Bytes :=
  members.keys.mergeSort (fun left right => left ≤ right)

/-- `Sync`. -/
def sync (group memberId : Bytes) : Option (List GroupAssignment) :=
  match c.members.lookup group with
  | none => none
  | some members =>
      if memberId ∉ members then none
      else
        match c.assignments.lookup group with
        | none => some []
        | some all =>
            let sorted := sortedIds members
            if memberId ∉ sorted then none
            else some (everyNth sorted.length (sorted.idxOf memberId) all)

/-- `Assignment`. -/
def assignment (group memberId : Bytes) : List GroupAssignment :=
  match c.members.lookup group with
  | none => []
  | some members =>
      if memberId ∉ members then []
      else
        match c.assignments.lookup group with
        | none => []
        | some all =>
            let sorted := sortedIds members
            if memberId ∉ sorted then []
            else everyNth sorted.length (sorted.idxOf memberId) all

end ConsumerGroupCoordinator

end MqBroker
