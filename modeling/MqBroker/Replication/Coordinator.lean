import MqBroker.Lib.Bytes
import MqBroker.Lib.Table

/-!
# The Replication Coordinator

One node's `ReplicationCoordinator`: role, term, vote, membership, replication
progress and the per-partition log summary, with every public operation of the
class as a state transformer.

All of the class is guarded by one mutex, so an operation is one atomic step.
The clock is an argument: a reading of the steady clock in nanoseconds, while
the heartbeat timeout is configured in milliseconds.

`raft_state.bin` is part of the state. `persist` writes it and `restart`, the
constructor, reads it back; nothing else of a coordinator outlives the
process. The file is written in the byte order of the host, which is
little-endian. A save that fails is not noticed by the code. What the file
system does with the next saves is a part of the state that the environment
sets.

## Main definitions

* `ReplicationCoordinator`: The state of the class.
* `encodeState`, `decodeState`: The format of `raft_state.bin`.
* `ReplicationCoordinator.restart`: The constructor, with `LoadState`.
* `beginElection`, `requestVote`, `observeVote`: Elections.
* `observeAppend`, `observeHeartbeat`, `observeHeartbeatRound`: Messages from
  and about other nodes.
* `recordLocalOffset`, `logMatches`, `advanceCommit`, `isQuorumReplicated`:
  The log summary and what is replicated.
-/

namespace MqBroker

/-- The role of a node. -/
inductive ReplicaRole
  | leader
  | follower
  | candidate
deriving DecidableEq, Repr

/-- What is known about one replica. -/
structure ReplicaProgress where
  nodeId : Bytes := []
  replicatedOffset : UInt64 := 0
  lastHeartbeat : Int := 0
  healthy : Bool := false
  term : UInt64 := 0
deriving DecidableEq, Repr, Inhabited

/-- The log summary of one partition. -/
structure PartitionState where
  localOffset : UInt64 := 0
  commitIndex : UInt64 := 0
  lastApplied : UInt64 := 0
  lastLogTerm : UInt64 := 0
deriving DecidableEq, Repr

/-- The entry `operator[]` creates. -/
instance : Inhabited PartitionState := ⟨{}⟩

/-- An election or a pre-vote round: its term and who runs in it. -/
structure ElectionResult where
  term : UInt64
  candidateId : Bytes
deriving DecidableEq, Repr

/-- What becomes of `raft_state.bin` in a save. -/
inductive SaveOutcome
  /-- The new file is in the place of the old one. -/
  | replaced
  /-- The new file could not be written or not be moved, and the old one stays. -/
  | kept
  /-- The old file was removed, and then the new one could not be renamed. -/
  | removed
deriving DecidableEq, Repr

/-- The state file after a save of some bytes. -/
def SaveOutcome.file (old : Option Bytes) (bytes : Bytes) : SaveOutcome → Option Bytes
  | .replaced => some bytes
  | .kept => old
  | .removed => none

/-- The state of a coordinator. -/
structure ReplicationCoordinator where
  nodeId : Bytes
  heartbeatTimeoutMs : Int
  role : ReplicaRole
  leaderId : Bytes
  votedFor : Bytes := []
  currentTerm : UInt64 := 0
  localOffset : UInt64 := 0
  commitIndex : UInt64 := 0
  lastApplied : UInt64 := 0
  votes : Finset Bytes := ∅
  preVotes : Finset Bytes := ∅
  missedHeartbeatRounds : Nat := 0
  replicas : Table Bytes ReplicaProgress := ∅
  partitionStates : Table Bytes PartitionState := ∅
  partitionReplicas : Table Bytes (Table Bytes ReplicaProgress) := ∅
  /-- Whether a metadata directory is configured. -/
  hasStatePath : Bool
  /-- The contents of `raft_state.bin`, if it exists. -/
  stateFile : Option Bytes
  /-- What the file system does with the next saves; the ones behind the list
      are done. -/
  saves : List SaveOutcome := []
deriving DecidableEq

/-! ## The state file -/

/-- What `raft_state.bin` holds. -/
structure RaftState where
  currentTerm : UInt64 := 0
  commitIndex : UInt64 := 0
  lastApplied : UInt64 := 0
  votedFor : Bytes := []
deriving DecidableEq, Repr

/-- The first word of `raft_state.bin`. -/
def raftMagic : Nat := 0x31544652

/-- The longest vote `LoadState` accepts. -/
def maxVotedSize : Nat := 4096

/-- The bytes `PersistLocked` writes. -/
def encodeState (s : RaftState) : Bytes :=
  putLE 4 raftMagic ++ (putLE 8 s.currentTerm.toNat ++ (putLE 8 s.commitIndex.toNat ++
    (putLE 8 s.lastApplied.toNat ++ (putLE 4 s.votedFor.length ++ s.votedFor))))

/-- What `LoadState` reads: nothing when a field is cut short, the magic is
    wrong or the vote is too long. Bytes behind the vote are ignored. -/
def decodeState (file : Bytes) : Option RaftState :=
  let votedSize := getLE 4 file 28
  if file.length < 32 ∨ getLE 4 file 0 ≠ raftMagic ∨ votedSize > maxVotedSize then none
  else if file.length < 32 + votedSize then none
  else some
    { currentTerm := UInt64.ofNat (getLE 8 file 4)
      commitIndex := UInt64.ofNat (getLE 8 file 12)
      lastApplied := UInt64.ofNat (getLE 8 file 20)
      votedFor := substr file 32 votedSize }

namespace ReplicationCoordinator

/-- The fields of a coordinator that `PersistLocked` saves. -/
def raftState (c : ReplicationCoordinator) : RaftState :=
  { currentTerm := c.currentTerm
    commitIndex := c.commitIndex
    lastApplied := c.lastApplied
    votedFor := c.votedFor }

/-- `PersistLocked`. Its errors are ignored. -/
def persist (c : ReplicationCoordinator) : ReplicationCoordinator :=
  if c.hasStatePath then
    { c with
      stateFile := (c.saves.headD .replaced).file c.stateFile (encodeState c.raftState)
      saves := c.saves.tail }
  else c

/-- The constructor, on the state file a previous run left behind. The leader
    id starts as the node's own, whatever the role. -/
def restart (nodeId : Bytes) (role : ReplicaRole) (timeoutMs : Int) (hasStatePath : Bool)
    (stateFile : Option Bytes) : ReplicationCoordinator :=
  let loaded := if hasStatePath then (stateFile.bind decodeState).getD {} else {}
  { nodeId := nodeId
    heartbeatTimeoutMs := timeoutMs
    role := role
    leaderId := nodeId
    votedFor := loaded.votedFor
    currentTerm := loaded.currentTerm
    commitIndex := loaded.commitIndex
    lastApplied := loaded.lastApplied
    hasStatePath := hasStatePath
    stateFile := stateFile }

variable (c : ReplicationCoordinator)

/-! ## Queries -/

/-- Whether a node id is this node or a registered replica. -/
def isMember (id : Bytes) : Bool := id = c.nodeId || (c.replicas.lookup id).isSome

/-- `lastLogIndex`: the largest local offset over all partitions. -/
def lastLogIndex : UInt64 := c.partitionStates.maxOf PartitionState.localOffset c.localOffset

/-- `lastLogTerm`: the largest log term over all partitions. -/
def lastLogTerm : UInt64 := c.partitionStates.maxOf PartitionState.lastLogTerm 0

/-- `commitIndex()`: the largest commit index over all partitions. -/
def maxCommitIndex : UInt64 := c.partitionStates.maxOf PartitionState.commitIndex 0

/-- `commitIndex(partition)`. -/
def partitionCommitIndex (partition : Bytes) : UInt64 :=
  (c.partitionStates.get partition).commitIndex

/-- `Majority`. -/
def majority : Nat := (c.replicas.size + 1) / 2 + 1

/-- `Healthy`: marked healthy, with the last heartbeat inside the timeout. -/
def isHealthy (replica : ReplicaProgress) (now : Int) : Bool :=
  replica.healthy && now - replica.lastHeartbeat ≤ c.heartbeatTimeoutMs * 1000000

/-- `CanServeWrites`. -/
def canServeWrites (now : Int) : Bool :=
  if c.role ≠ .leader then false
  else if c.replicas.size = 0 then true
  else 1 + c.replicas.values.countP (c.isHealthy · now) ≥ c.majority

/-- `LogMatches`: index 0 always matches, any other must be the last one. -/
def logMatches (partition : Bytes) (prevLogIndex prevLogTerm : UInt64) : Bool :=
  let state := c.partitionStates.get partition
  prevLogIndex = 0 ∨ (prevLogIndex = state.localOffset ∧ prevLogTerm = state.lastLogTerm)

/-- `NextLogIndex`. -/
def nextLogIndex (partition : Bytes) : UInt64 :=
  match c.partitionStates.lookup partition with
  | none => 0
  | some state => state.localOffset + 1

/-- The healthy replicas that have stored a partition up to an offset. -/
def replicatedCount (partition : Bytes) (offset : UInt64) (now : Int) : Nat :=
  (c.partitionReplicas.get partition).values.countP
    (fun replica => c.isHealthy replica now && replica.replicatedOffset ≥ offset)

/-- `IsQuorumReplicated`: the node itself counts when its log reaches the
    offset. -/
def isQuorumReplicated (partition : Bytes) (offset : UInt64) (count : Nat) (now : Int) : Bool :=
  if count = 0 then false
  else
    let own := match c.partitionStates.lookup partition with
      | none => 0
      | some state => if state.localOffset ≥ offset then 1 else 0
    own + c.replicatedCount partition offset now ≥ count

/-- The log check of the two vote requests. -/
def logUpToDate (candidateLastLogIndex candidateLastLogTerm : UInt64) : Bool :=
  candidateLastLogTerm > c.lastLogTerm ∨
    (candidateLastLogTerm = c.lastLogTerm ∧ candidateLastLogIndex ≥ c.lastLogIndex)

/-- The checks of the two vote requests that come before the log check. -/
def acceptsCandidate (term : UInt64) (candidateId : Bytes) : Bool :=
  candidateId ≠ [] ∧ c.currentTerm ≤ term ∧ c.isMember candidateId

/-! ## Membership and progress -/

/-- `SetLeader`. -/
def setLeader (nodeId : Bytes) : ReplicationCoordinator :=
  persist { c with
    leaderId := nodeId
    role := if nodeId = c.nodeId then .leader else .follower
    votes := ∅ }

/-- `RegisterReplica`: known replicas keep their progress. -/
def registerReplica (nodeId : Bytes) : ReplicationCoordinator :=
  if nodeId = [] ∨ nodeId = c.nodeId ∨ (c.replicas.lookup nodeId).isSome then c
  else { c with replicas := c.replicas.insert nodeId default }

/-- `RemoveReplica`. -/
def removeReplica (nodeId : Bytes) : ReplicationCoordinator :=
  { c with
    replicas := c.replicas.erase nodeId
    partitionReplicas := c.partitionReplicas.mapValues (AList.erase nodeId) }

/-- A progress entry after a heartbeat. -/
def heard (nodeId : Bytes) (replicatedOffset : UInt64) (now : Int) (replica : ReplicaProgress) :
    ReplicaProgress :=
  { nodeId := nodeId
    replicatedOffset := max replica.replicatedOffset replicatedOffset
    lastHeartbeat := now
    healthy := true
    term := c.currentTerm }

/-- A progress entry of a partition written back. -/
def setProgress (partition nodeId : Bytes) (replica : ReplicaProgress) : ReplicationCoordinator :=
  { c with
    partitionReplicas := c.partitionReplicas.insert partition
      ((c.partitionReplicas.get partition).insert nodeId replica) }

/-- `ObserveHeartbeat`. -/
def observeHeartbeat (partition nodeId : Bytes) (replicatedOffset : UInt64) (now : Int) :
    ReplicationCoordinator :=
  if nodeId = [] ∨ nodeId = c.nodeId then c
  else
    match c.replicas.lookup nodeId with
    | none => c
    | some replica =>
        let progress := ((c.partitionReplicas.get partition).get nodeId)
        setProgress
          { c with replicas := c.replicas.insert nodeId (c.heard nodeId replicatedOffset now replica) }
          partition nodeId (c.heard nodeId replicatedOffset now progress)

/-! ## Terms, appends and elections -/

/-- The term update of `ObserveAppend`, with its own persist. -/
def adoptTerm (term : UInt64) : ReplicationCoordinator :=
  if term > c.currentTerm then persist { c with currentTerm := term, votedFor := [] } else c

/-- The commit update of `ObserveAppend`. -/
def observeCommit (partition : Bytes) (replicatedOffset leaderCommit : UInt64) :
    ReplicationCoordinator :=
  let state := c.partitionStates.get partition
  let commit := min (max state.commitIndex leaderCommit) replicatedOffset
  { c with
    partitionStates := c.partitionStates.insert partition { state with commitIndex := commit }
    commitIndex := max c.commitIndex commit
    lastApplied := max c.lastApplied commit }

/-- The progress update of `ObserveAppend` for a leader other than the node
    itself. The partition's entry is a copy of the node's. -/
def observeLeader (partition : Bytes) (term : UInt64) (leaderId : Bytes)
    (replicatedOffset : UInt64) (now : Int) : ReplicationCoordinator :=
  let replica : ReplicaProgress :=
    { c.replicas.get leaderId with
      nodeId := leaderId
      lastHeartbeat := now
      healthy := true
      term := term }
  setProgress { c with replicas := c.replicas.insert leaderId replica } partition leaderId
    { replica with replicatedOffset := replicatedOffset }

/-- The checks of `ObserveAppend`. -/
def acceptsLeader (term : UInt64) (leaderId : Bytes) : Bool :=
  c.currentTerm ≤ term ∧ leaderId ≠ [] ∧ c.isMember leaderId

/-- `ObserveAppend`. -/
def observeAppend (partition : Bytes) (term : UInt64) (leaderId : Bytes)
    (replicatedOffset leaderCommit : UInt64) (now : Int) : ReplicationCoordinator × Bool :=
  if ¬ c.acceptsLeader term leaderId then (c, false)
  else
    let following :=
      { c.adoptTerm term with
        leaderId := leaderId
        role := if leaderId = c.nodeId then .leader else .follower }
    let committed := persist (following.observeCommit partition replicatedOffset leaderCommit)
    if leaderId = c.nodeId then (committed, true)
    else (committed.observeLeader partition term leaderId replicatedOffset now, true)

/-- `BeginElection`. -/
def beginElection : ReplicationCoordinator × ElectionResult :=
  let started :=
    { c with
      currentTerm := c.currentTerm + 1
      role := .candidate
      leaderId := []
      votedFor := c.nodeId
      votes := {c.nodeId} }
  (persist started, ⟨started.currentTerm, c.nodeId⟩)

/-- `BeginPreVote`. -/
def beginPreVote : ElectionResult := ⟨c.currentTerm + 1, c.nodeId⟩

/-- `ObservePreVote`. The pre-votes are never cleared. -/
def observePreVote (term : UInt64) (voterId : Bytes) (granted : Bool) :
    ReplicationCoordinator × Bool :=
  if term ≠ c.currentTerm + 1 ∨ ¬ granted ∨ voterId = [] ∨ ¬ c.isMember voterId then (c, false)
  else
    let counted := { c with preVotes := insert voterId c.preVotes }
    (counted, counted.preVotes.card ≥ c.majority)

/-- `RequestVote`. A term above the current one clears the vote and turns the
    node into a follower, so such a request is always granted. -/
def requestVote (term : UInt64) (candidateId : Bytes)
    (candidateLastLogIndex candidateLastLogTerm : UInt64) : ReplicationCoordinator × Bool :=
  if ¬ c.acceptsCandidate term candidateId then (c, false)
  else if ¬ c.logUpToDate candidateLastLogIndex candidateLastLogTerm then (c, false)
  else
    let advanced :=
      if term > c.currentTerm then
        { c with currentTerm := term, votedFor := [], role := .follower, leaderId := [] }
      else c
    if advanced.votedFor ≠ [] ∧ advanced.votedFor ≠ candidateId then (advanced, false)
    else (persist { advanced with votedFor := candidateId }, true)

/-- `RequestPreVote`. -/
def requestPreVote (term : UInt64) (candidateId : Bytes)
    (candidateLastLogIndex candidateLastLogTerm : UInt64) : Bool :=
  c.acceptsCandidate term candidateId && c.logUpToDate candidateLastLogIndex candidateLastLogTerm

/-- The checks of `ObserveVote`. -/
def countsVote (term : UInt64) (voterId : Bytes) (granted : Bool) : Bool :=
  term = c.currentTerm ∧ c.role = .candidate ∧ granted ∧ voterId ≠ [] ∧ c.isMember voterId

/-- `ObserveVote`: a majority of votes makes a candidate the leader. -/
def observeVote (term : UInt64) (voterId : Bytes) (granted : Bool) :
    ReplicationCoordinator × Bool :=
  if ¬ c.countsVote term voterId granted then (c, false)
  else
    let counted := { c with votes := insert voterId c.votes }
    if counted.votes.card ≥ c.majority then
      (persist { counted with role := .leader, leaderId := c.nodeId, votedFor := c.nodeId }, true)
    else (counted, false)

/-- `ObserveHeartbeatRound`: the third missed round in a row ends the
    leadership. The count is not reset by that. -/
def observeHeartbeatRound (majorityResponded : Bool) : ReplicationCoordinator × Bool :=
  if c.role ≠ .leader then (c, false)
  else if majorityResponded then ({ c with missedHeartbeatRounds := 0 }, true)
  else
    let missed := { c with missedHeartbeatRounds := c.missedHeartbeatRounds + 1 }
    if missed.missedHeartbeatRounds < 3 then (missed, true)
    else ({ missed with role := .follower, leaderId := [], votes := ∅ }, false)

/-! ## Log summary -/

/-- `RecordLocalOffset`: the offset never decreases, the term is always the
    current one. -/
def recordLocalOffset (partition : Bytes) (offset : UInt64) : ReplicationCoordinator :=
  let state := c.partitionStates.get partition
  { c with
    partitionStates := c.partitionStates.insert partition
      { state with
        localOffset := max state.localOffset offset
        lastLogTerm := c.currentTerm } }

/-- `AdvanceCommit`. The partition's entry is created also when the commit is
    refused. -/
def advanceCommit (partition : Bytes) (offset : UInt64) (now : Int) :
    ReplicationCoordinator × Bool :=
  if c.role ≠ .leader then (c, false)
  else
    let state := c.partitionStates.get partition
    let touched := { c with partitionStates := c.partitionStates.insert partition state }
    if offset > state.localOffset ∨ state.lastLogTerm ≠ c.currentTerm then (touched, false)
    else if 1 + c.replicatedCount partition offset now < c.majority then (touched, false)
    else
      let commit := max state.commitIndex offset
      (persist
        { c with
          partitionStates := c.partitionStates.insert partition
            { state with commitIndex := commit, lastApplied := commit }
          commitIndex := max c.commitIndex commit
          lastApplied := max c.lastApplied commit }, true)

/-- The partition the operations without a partition argument work on. -/
def legacyPartition : Bytes := "__legacy__".toUTF8.toList

end ReplicationCoordinator

end MqBroker
