import MqBroker.Broker.Parsers
import MqBroker.Replication.Commit
import MqBroker.Storage.FailedAppend

/-!
# Replica Appends That Stop Half Way

A `REPLICA_APPEND` that is refused may have been carried out in part.

The handler checks the offsets of all messages before it writes the first one,
but it does not ask what the storage will ask of each: a value that is not
empty and not too long. Between the checks and the writes it tells the
coordinator about the leader, and that moves the commit index of the partition
up to the last message of the request. Then the messages are written one by
one. Whatever stops this loop leaves the messages in front of it in the log and
the commit index at its new place, and the source takes neither back.

So a refusal is clean in two cases only. Either a check in front of the writes
has failed, or the very first write has, before it touched a file, and the
commit index was already where the request puts it.

## Main definitions

* `Broker.SameLog`: Two brokers with the same log files and commit indices.
* `Partition.writes`: An append that touches a file.
* `storesAll`: Messages that will all be stored.
* `Broker.appendsWhole`: A request that is carried out in full or not at all.

## Theorems

* `appendRecord_same_iff`: When an append leaves a partition as it was.
* `appendReplicas_whole_iff`: When the loop gets to its end.
* `appendReplicas_same_iff`: What it leaves behind when it does not.
* `replica_append_whole_iff`: When a replica append is all or nothing.
* `replica_append_partial`: One that is not.
-/

namespace MqBroker

/-- Two brokers with the same log files, next offsets and commit indices, for
    every partition. -/
def Broker.SameLog (b b' : Broker) : Prop :=
  (∀ topic number, b'.storage.partition topic number = b.storage.partition topic number) ∧
    ∀ key, b'.coordinator.partitionCommitIndex key = b.coordinator.partitionCommitIndex key

/-! ## One append -/

/-- An append of a message touches a file: it creates a new one, or it writes at
    least one byte. -/
def Partition.writes (config : StorageConfig) (io : IoOutcome) (m : Message) (p : Partition) :
    Bool :=
  match p.segments.getLast? with
  | none => false
  | some active =>
      if rolls config active (encodeRecord m).length then io.openOk
      else decide (io.writtenBeforeError ≠ some 0)

/-- `AppendReplica` passes its checks and touches a file. -/
def StorageEngine.replicaWrites (e : StorageEngine) (io : StoreIo) (topic : Bytes)
    (number : UInt32) (m : Message) : Bool :=
  isValidTopicName topic && decide m.Storable && io.partitionOk &&
    decide (m.offset = (e.partition topic number).nextOffset) &&
    (e.partition topic number).writes e.config io.io m

/-- What is stored has touched a file. -/
theorem reachesSync_writes {config : StorageConfig} {io : IoOutcome} {m : Message} {p : Partition}
    (h : p.reachesSync config io m = true) : p.writes config io m = true := by
  unfold Partition.reachesSync at h
  unfold Partition.writes
  split
  · rename_i hnone
    rw [hnone] at h
    cases h
  · rename_i active hsome
    rw [hsome] at h
    simp only [Bool.and_eq_true, Bool.or_eq_true, Bool.not_eq_true', Option.isNone_iff_eq_none] at h
    split
    · rename_i hroll
      exact h.1.resolve_left fun hstay => by rw [hroll] at hstay; cases hstay
    · rw [h.2]
      rfl

/-- An append leaves a partition as it was exactly if it touches no file. -/
theorem appendRecord_same_iff (config : StorageConfig) (io : IoOutcome) (m : Message)
    (p : Partition) :
    (appendRecord config io p m).1 = p ↔ p.writes config io m = false := by
  cases hreached : p.reachesSync config io m with
  | true =>
      -- There is a message more.
      rw [reachesSync_writes hreached]
      refine iff_of_false (fun hsame => ?_) Bool.noConfusion
      rcases appendRecord_reached hreached with ⟨init, active, hp, heq⟩
      have hmessages := congrArg Partition.messages hsame
      rw [heq] at hmessages
      simp only [Partition.messages, messages_appendedSegments, hp] at hmessages
      exact absurd (List.append_right_eq_self.mp hmessages) (List.cons_ne_nil m [])
  | false =>
      rcases List.eq_nil_or_concat p.segments with hp | ⟨init, active, hp⟩
      · simp only [appendRecord, Partition.writes, hp, List.getLast?_nil]
      · rw [List.concat_eq_append] at hp
        have hpe : p = { p with segments := init ++ [active] } := by rw [← hp]
        simp only [Partition.reachesSync, hp, List.getLast?_concat] at hreached
        simp only [appendRecord, Partition.writes, hp, List.getLast?_concat, List.dropLast_concat]
        cases hroll : rolls config active (encodeRecord m).length with
        | true =>
            cases hopen : io.openOk with
            | false => simp only [Bool.not_false, Bool.and_self, if_true]
            | true =>
                -- A new file is there, even if nothing was written to it.
                rw [hroll, hopen] at hreached
                cases hwrite : io.writtenBeforeError with
                | none =>
                    rw [hwrite] at hreached
                    cases hreached
                | some k =>
                    simp only [Bool.not_true, Bool.and_false, Bool.false_eq_true, if_false, if_true]
                    refine iff_of_false (fun hsame => ?_) Bool.noConfusion
                    have hsegments := congrArg Partition.segments hsame
                    simp only [hp] at hsegments
                    exact absurd (List.append_right_eq_self.mp hsegments) (List.cons_ne_nil _ [])
        | false =>
            cases hwrite : io.writtenBeforeError with
            | none =>
                rw [hroll, hwrite] at hreached
                cases hreached
            | some k =>
                simp only [Bool.false_and, Bool.false_eq_true, if_false, decide_eq_false_iff_not,
                  not_not, ne_eq, Option.some.injEq]
                constructor
                · intro hsame
                  have hsegments := congrArg Partition.segments hsame
                  simp only [hp] at hsegments
                  have hlog := congrArg Segment.log
                    (List.singleton_inj.mp (List.append_cancel_left hsegments))
                  have hlength := congrArg List.length (List.append_right_eq_self.mp hlog)
                  rw [List.length_take, List.length_nil] at hlength
                  have hpos := recordHeaderSize_le_length m
                  rw [recordHeaderSize] at hpos
                  omega
                · rintro rfl
                  rw [List.take_zero, List.append_nil, ← hp]

section Append

variable {e : StorageEngine} {io : StoreIo} {topic : Bytes} {number : UInt32} {m : Message}

/-- An `AppendReplica` that stores its message has touched a file. -/
theorem appendReplicaReachesSync_writes
    (h : e.appendReplicaReachesSync io topic number m = true) :
    e.replicaWrites io topic number m = true := by
  simp only [StorageEngine.appendReplicaReachesSync, StorageEngine.replicaWrites,
    Bool.and_eq_true] at h ⊢
  exact ⟨h.1, reachesSync_writes h.2⟩

variable (e io topic number m)

/-- `AppendReplica` leaves the partition as it was exactly if it touches no
    file. -/
theorem appendReplica_same_iff :
    (e.appendReplica io topic number m).1.partition topic number = e.partition topic number ↔
      e.replicaWrites io topic number m = false := by
  simp only [StorageEngine.appendReplica, StorageEngine.replicaWrites]
  split
  · rename_i hinvalid
    refine iff_of_true rfl ?_
    rcases hinvalid with htopic | hstorable
    · simp only [Bool.eq_false_of_not_eq_true htopic, Bool.false_and]
    · simp only [decide_eq_false hstorable, Bool.and_false, Bool.false_and]
  · rename_i hvalid
    rcases not_or.mp hvalid with ⟨htopic, hstorable⟩
    rw [not_not] at htopic hstorable
    split
    · rename_i hopen
      refine iff_of_true rfl ?_
      simp only [Bool.eq_false_of_not_eq_true hopen, Bool.and_false, Bool.false_and]
    · rename_i hopen
      rw [not_not] at hopen
      simp only [Partition.appendReplica, hstorable, not_true_eq_false, if_false, htopic, hopen,
        decide_true, Bool.true_and, put_partition_self]
      by_cases hoffset : m.offset = (e.partition topic number).nextOffset
      · simp only [hoffset, ne_eq, not_true_eq_false, if_false, decide_true, Bool.true_and]
        exact appendRecord_same_iff e.config io.io m _
      · simp only [hoffset, ne_eq, not_false_eq_true, if_true, decide_false, Bool.false_and]

/-- No other partition is touched. -/
theorem appendReplica_others (t : Bytes) (n : UInt32) (h : (t, n) ≠ (topic, number)) :
    (e.appendReplica io topic number m).1.partition t n = e.partition t n := by
  simp only [StorageEngine.appendReplica]
  split
  · rfl
  · split
    · rfl
    · exact put_partition_ne e topic number _ t n h

theorem appendReplica_config :
    (e.appendReplica io topic number m).1.config = e.config := by
  simp only [StorageEngine.appendReplica]
  split
  · rfl
  · split <;> rfl

/-- `AppendReplica` succeeds exactly if its message is stored and synced. -/
theorem appendReplica_none_iff :
    (e.appendReplica io topic number m).2 = none ↔
      e.appendReplicaReachesSync io topic number m = true ∧ io.io.syncOk = true := by
  cases h : e.appendReplicaReachesSync io topic number m with
  | false =>
      rcases (appendReplica_unreached h).2 with ⟨err, herr⟩
      rw [herr]
      exact iff_of_false (fun hnone => (nomatch hnone)) fun hno => (nomatch hno.1)
  | true =>
      rw [(appendReplica_reached h).2]
      cases io.io.syncOk with
      | true => exact iff_of_true rfl ⟨rfl, rfl⟩
      | false => exact iff_of_false (fun hnone => (nomatch hnone)) fun hno => (nomatch hno.2)

end Append

/-! ## The loop -/

/-- Messages that will all be stored and synced, the first of them into a
    segment of the given size: each is one that the storage takes, and the file
    system does what is asked of it. A new file is only asked for when there is
    no room. -/
def storesAll (config : StorageConfig) (ios : Nat → StoreIo) : Nat → Nat → List Message → Bool
  | _, _, [] => true
  | index, size, m :: rest =>
      let length := (encodeRecord m).length
      let full : Bool := size ≠ 0 ∧ size + length > config.segmentSizeBytes.toNat
      decide m.Storable && (ios index).partitionOk && (!full || (ios index).io.openOk) &&
        (ios index).io.writtenBeforeError.isNone && (ios index).io.syncOk &&
        storesAll config ios (index + 1) (if full then length else size + length) rest

/-- Where the active segment of a partition ends, if it has one. -/
def Partition.activeSize (p : Partition) : Option Nat := p.segments.getLast?.map Segment.size

section Loop

variable (ios : Nat → StoreIo) (topic : Bytes) (number : UInt32)

/-- Where the active segment ends after a record. -/
theorem activeSize_appendRecord {config : StorageConfig} {io : IoOutcome} {p : Partition}
    {m : Message} {size : Nat} (h : p.reachesSync config io m = true)
    (hsize : p.activeSize = some size) :
    (appendRecord config io p m).1.activeSize
      = some (if size ≠ 0 ∧ size + (encodeRecord m).length > config.segmentSizeBytes.toNat then
          (encodeRecord m).length
        else size + (encodeRecord m).length) := by
  rcases appendRecord_reached h with ⟨init, active, hp, heq⟩
  rw [Partition.activeSize, hp, List.getLast?_concat, Option.map_some] at hsize
  cases hsize
  rw [heq, Partition.activeSize, appendedSegments, rolls]
  simp only [decide_eq_true_eq]
  split
  · rw [List.getLast?_concat, Option.map_some, Segment.write, Segment.push]
    simp only [Nat.zero_add]
  · rw [List.getLast?_concat, Option.map_some, Segment.write, Segment.push]

/-- The same for `AppendReplica`. -/
theorem activeSize_appendReplica {e : StorageEngine} {io : StoreIo} {m : Message} {size : Nat}
    (h : e.appendReplicaReachesSync io topic number m = true)
    (hsize : (e.partition topic number).activeSize = some size) :
    ((e.appendReplica io topic number m).1.partition topic number).activeSize
      = some (if size ≠ 0 ∧ size + (encodeRecord m).length > e.config.segmentSizeBytes.toNat then
          (encodeRecord m).length
        else size + (encodeRecord m).length) := by
  simp only [StorageEngine.appendReplicaReachesSync, Bool.and_eq_true, decide_eq_true_eq] at h
  rcases h with ⟨⟨⟨⟨htopic, hstorable⟩, hopen⟩, hoffset⟩, hreached⟩
  simp only [StorageEngine.appendReplica, htopic, hstorable, hopen, not_true_eq_false, or_self,
    if_false, Partition.appendReplica, hoffset, ne_eq, put_partition_self]
  exact activeSize_appendRecord hreached hsize

/-- Whether a message gets as far as the sync, by the end of the active
    segment. -/
theorem appendReplicaReachesSync_iff {e : StorageEngine} (io : StoreIo) {m : Message} {size : Nat}
    (htopic : isValidTopicName topic = true)
    (hoffset : m.offset = (e.partition topic number).nextOffset)
    (hsize : (e.partition topic number).activeSize = some size) :
    e.appendReplicaReachesSync io topic number m
      = (decide m.Storable && io.partitionOk &&
        (!decide (size ≠ 0 ∧ size + (encodeRecord m).length > e.config.segmentSizeBytes.toNat) ||
          io.io.openOk) && io.io.writtenBeforeError.isNone) := by
  rw [Partition.activeSize, Option.map_eq_some_iff] at hsize
  rcases hsize with ⟨active, hactive, rfl⟩
  simp only [StorageEngine.appendReplicaReachesSync, htopic, hoffset, decide_true, Bool.true_and,
    Bool.and_true, Partition.reachesSync, hactive, rolls, Bool.and_assoc]

/-- The loop gets to its end exactly if all messages will be stored. -/
theorem appendReplicas_whole_iff (htopic : isValidTopicName topic = true) (ms : List Message)
    (index size : Nat) (e : StorageEngine)
    (hsize : (e.partition topic number).activeSize = some size)
    (hnumbered : Numbered (e.partition topic number).nextOffset ms) :
    (appendReplicas ios topic number ms index e).2 = none ↔
      storesAll e.config ios index size ms = true := by
  induction ms generalizing index size e with
  | nil => exact iff_of_true rfl rfl
  | cons m ms ih =>
      rcases hnumbered with ⟨hoffset, hrest⟩
      have hreaches := appendReplicaReachesSync_iff topic number (ios index) htopic hoffset hsize
      have hresult := appendReplica_none_iff e (ios index) topic number m
      rw [hreaches, ← Bool.and_eq_true] at hresult
      simp only [storesAll, appendReplicas, Bool.and_eq_true (_ && _) (storesAll _ _ _ _ _)]
      cases happend : e.appendReplica (ios index) topic number m with
      | mk e' outcome =>
          rw [happend] at hresult
          cases outcome with
          | some err =>
              exact iff_of_false (Option.some_ne_none err) fun hall =>
                Option.some_ne_none err (hresult.mpr hall.1)
          | none =>
              have hstored := hresult.mp rfl
              have hsync := hstored
              rw [Bool.and_eq_true, ← hreaches] at hsync
              have hnext := (appendReplica_reached hsync.1).1.nextOffset
              have hactive := activeSize_appendReplica topic number hsync.1 hsize
              have hconfig := appendReplica_config e (ios index) topic number m
              rw [happend] at hnext hactive hconfig
              rw [hstored, ← hconfig]
              simp only [true_and, decide_eq_true_eq]
              rw [← hconfig] at hactive
              exact ih (index + 1) _ e' hactive (hnext ▸ hrest)

/-- The loop leaves the partition as it was exactly if the first message touches
    no file. -/
theorem appendReplicas_same_iff (m : Message) (rest : List Message) (index : Nat)
    (e : StorageEngine) :
    (appendReplicas ios topic number (m :: rest) index e).1.partition topic number
        = e.partition topic number ↔
      e.replicaWrites (ios index) topic number m = false := by
  have hsame := appendReplica_same_iff e (ios index) topic number m
  have hresult := appendReplica_none_iff e (ios index) topic number m
  simp only [appendReplicas]
  cases happend : e.appendReplica (ios index) topic number m with
  | mk e' outcome =>
      rw [happend] at hsame hresult
      cases outcome with
      | some err => exact hsame
      | none =>
          -- The first message is stored, and nothing behind it takes it away.
          have hreached := (hresult.mp rfl).1
          rw [appendReplicaReachesSync_writes hreached]
          refine iff_of_false (fun heq => ?_) Bool.noConfusion
          have hfirst := (appendReplica_reached hreached).1.messages
          rcases appendReplicas_cases ios topic number rest (index + 1) e' with
            ⟨stored, _, hext, _⟩
          have hmessages := hext.messages
          rw [happend] at hfirst
          rw [heq, hfirst, List.append_assoc] at hmessages
          exact absurd (List.append_right_eq_self.mp hmessages.symm) (List.cons_ne_nil m stored)

theorem appendReplicas_others (ms : List Message) (index : Nat) (e : StorageEngine) (t : Bytes)
    (n : UInt32) (h : (t, n) ≠ (topic, number)) :
    (appendReplicas ios topic number ms index e).1.partition t n = e.partition t n := by
  induction ms generalizing index e with
  | nil => rfl
  | cons m ms ih =>
      have hothers := appendReplica_others e (ios index) topic number m t n h
      simp only [appendReplicas]
      cases happend : e.appendReplica (ios index) topic number m with
      | mk e' outcome =>
          rw [happend] at hothers
          cases outcome with
          | some err => exact hothers
          | none => exact (ih (index + 1) e').trans hothers

end Loop

/-! ## The request -/

/-- Messages that pass the check of their offsets are numbered from the first
    one on. -/
theorem numbered_of_consecutive (m : Message) (rest : List Message)
    (h : consecutive (m :: rest) = true) : Numbered m.offset (m :: rest) := by
  induction rest generalizing m with
  | nil => exact ⟨rfl, trivial⟩
  | cons n rest ih =>
      simp only [consecutive, decide_eq_true_eq] at h
      refine ⟨rfl, ?_⟩
      rw [← h.2.1]
      exact ih n h.2.2

/-- All messages of a call will be stored. -/
def Broker.storesWhole (b : Broker) (env : ReplicaEnv) (topic : Bytes) (number : UInt32)
    (messages : List Message) : Bool :=
  match (b.storage.partition topic number).activeSize with
  | none => false
  | some size => isValidTopicName topic && storesAll b.storage.config env.ios 0 size messages

/-- The checks of `HandleReplicaAppend` in front of the writes. -/
def Broker.passesChecks (b : Broker) (env : ReplicaEnv) (request : Request)
    (header : AppendHeader) (partition : UInt32) (messages : List Message) : Bool :=
  let key := partitionKey request.topic partition
  let termed := request.hasFlag flagReplicationTerm
  (!termed || b.coordinator.logMatches key header.prevLogIndex header.prevLogTerm) &&
    decide (b.storage.nextOffset env.partitionOk request.topic partition
      = messages.head?.map Message.offset) &&
    consecutive messages && (!termed || b.coordinator.acceptsLeader header.term header.leaderId)

/-- The commit index of the partition is already where a call puts it. -/
def Broker.commitStays (b : Broker) (request : Request) (header : AppendHeader)
    (partition : UInt32) (messages : List Message) : Bool :=
  let commit := b.coordinator.partitionCommitIndex (partitionKey request.topic partition)
  !request.hasFlag flagReplicationTerm ||
    decide (min (max commit header.commit) (lastOffset messages) = commit)

/-- The request as `HandleReplicaAppend` gets it, if it gets that far: the
    checks of `Handle` on version, flags and token. -/
def Broker.acceptsAppend (b : Broker) (request : Request) : Option Request :=
  if request.version ≠ currentVersion then none
  else if request.flags &&& ~~~knownFlags ≠ 0 ∨ request.flags &&& ackMask = ackMask then none
  else if request.hasFlag flagReplication ∧ request.hasFlag flagAuthentication then none
  else b.validateReplicationRequest request

/-- A request is carried out in full, or not at all: it is refused by a check,
    all its messages will be stored, or the first of them touches no file and
    the commit index stays. -/
def Broker.appendsWhole (b : Broker) (env : ReplicaEnv) (request : Request) : Bool :=
  match b.acceptsAppend request with
  | none => true
  | some normalized =>
      match (b.readReplicaAppend normalized).result with
      | .error _ => true
      | .ok (header, partition, messages) =>
          !b.passesChecks env normalized header partition messages ||
            b.storesWhole env normalized.topic partition messages ||
            (b.commitStays normalized header partition messages &&
              messages.head?.all fun m =>
                !b.storage.replicaWrites (env.ios 0) normalized.topic partition m)

section Request

variable {b : Broker} {env : ReplicaEnv} {request : Request} {header : AppendHeader}
  {partition : UInt32} {messages : List Message}

theorem Broker.SameLog.refl (b : Broker) : b.SameLog b :=
  ⟨fun _ _ => rfl, fun _ => rfl⟩

/-- A leader is accepted or refused by the term and the membership alone. -/
theorem observeAppend_accepts (c : ReplicationCoordinator) (key leaderId : Bytes)
    (term offset commit : UInt64) (now : Int) :
    (c.observeAppend key term leaderId offset commit now).2 = c.acceptsLeader term leaderId := by
  simp only [ReplicationCoordinator.observeAppend]
  cases c.acceptsLeader term leaderId with
  | false => rfl
  | true =>
      simp only [not_true_eq_false, if_false]
      split <;> rfl

theorem passesChecks_iff :
    b.passesChecks env request header partition messages = true ↔
      b.PassesChecks env request header partition messages := by
  simp only [Broker.passesChecks, Bool.and_eq_true, decide_eq_true_eq, Bool.or_eq_true,
    Bool.not_eq_true']
  constructor
  · rintro ⟨⟨⟨hmatched, hnext⟩, hordered⟩, hleader⟩
    refine ⟨fun hterm => hmatched.resolve_left (by rw [hterm]; exact Bool.noConfusion), hnext,
      hordered, ?_⟩
    unfold Broker.observedBy
    split
    · rename_i hterm
      rw [observeAppend_accepts]
      exact hleader.resolve_left (by rw [hterm]; exact Bool.noConfusion)
    · rfl
  · rintro ⟨hmatched, hnext, hordered, hleader⟩
    unfold Broker.observedBy at hleader
    cases hterm : request.hasFlag flagReplicationTerm with
    | false => exact ⟨⟨⟨Or.inl rfl, hnext⟩, hordered⟩, Or.inl rfl⟩
    | true =>
        rw [if_pos hterm, observeAppend_accepts] at hleader
        exact ⟨⟨⟨Or.inr (hmatched hterm), hnext⟩, hordered⟩, Or.inr hleader⟩

/-- The check of the leader moves no commit index exactly if that of the
    partition is where the call puts it. -/
theorem observedBy_commit_iff (h : b.PassesChecks env request header partition messages) :
    (∀ key, (b.observedBy env request header partition messages).1.partitionCommitIndex key
        = b.coordinator.partitionCommitIndex key) ↔
      b.commitStays request header partition messages = true := by
  have hleader := h.leader
  unfold Broker.observedBy at hleader ⊢
  simp only [Broker.commitStays, Bool.or_eq_true, Bool.not_eq_true', decide_eq_true_eq]
  cases hterm : request.hasFlag flagReplicationTerm with
  | false =>
      rw [if_neg Bool.false_ne_true]
      exact iff_of_true (fun _ => rfl) (Or.inl rfl)
  | true =>
      rw [if_pos hterm, observeAppend_accepts] at hleader
      have hentry : (Op.observeAppend (partitionKey request.topic partition) header.term
          header.leaderId (lastOffset messages) header.commit env.now).entry b.coordinator
          = some (partitionKey request.topic partition,
            { b.coordinator.partitionStates.get (partitionKey request.topic partition) with
              commitIndex := min (max (b.coordinator.partitionCommitIndex
                (partitionKey request.topic partition)) header.commit) (lastOffset messages) }) := by
        simp only [Op.entry, hleader, if_true]
        rfl
      have hindex := Op.partitionCommitIndex_of_some hentry
      rw [if_pos rfl]
      constructor
      · intro hall
        have hkey := hindex (partitionKey request.topic partition)
        rw [if_pos rfl] at hkey
        exact Or.inr (hkey.symm.trans (hall (partitionKey request.topic partition)))
      · intro hstays key
        refine (hindex key).trans ?_
        split
        · rename_i hkey
          rw [hkey]
          exact hstays.resolve_left Bool.noConfusion
        · rfl

/-- The last part of the handler: it answers `kOk` if the loop gets to its end,
    and otherwise leaves the coordinator alone. -/
theorem storeReplicas_outcome :
    ((appendReplicas env.ios request.topic partition messages 0 b.storage).2 = none →
      (b.storeReplicas env request partition messages).2.status = .ok) ∧
    ((appendReplicas env.ios request.topic partition messages 0 b.storage).2 ≠ none →
      (b.storeReplicas env request partition messages).2.status ≠ .ok ∧
        (b.storeReplicas env request partition messages).1
          = { b with
              storage := (appendReplicas env.ios request.topic partition messages 0
                b.storage).1 }) := by
  simp only [Broker.storeReplicas]
  cases appendReplicas env.ios request.topic partition messages 0 b.storage with
  | mk e outcome =>
      cases outcome with
      | none => exact ⟨fun _ => rfl, fun hnone => absurd rfl hnone⟩
      | some err =>
          refine ⟨fun hnone => absurd hnone (Option.some_ne_none err), fun _ => ⟨?_, rfl⟩⟩
          simp only [makeResponse, appendFailure]
          split <;> decide

/-- A call that passes the checks gets to the end of the loop exactly if all its
    messages will be stored. -/
theorem appendReplicas_none_iff (h : b.PassesChecks env request header partition messages)
    (hne : messages ≠ []) :
    (appendReplicas env.ios request.topic partition messages 0 b.storage).2 = none ↔
      b.storesWhole env request.topic partition messages = true := by
  rcases List.exists_cons_of_ne_nil hne with ⟨m, rest, rfl⟩
  have hnext := h.next
  rw [List.head?_cons, Option.map_some, StorageEngine.nextOffset] at hnext
  split at hnext
  · cases hnext
  · rename_i hopened
    rw [not_or, not_not, not_not] at hopened
    have hnumbered := numbered_of_consecutive m rest h.ordered
    rw [← Option.some.inj hnext] at hnumbered
    simp only [Broker.storesWhole]
    split
    · rename_i hnone
      -- Without an active segment the first message is not stored.
      refine iff_of_false (fun hall => ?_) Bool.noConfusion
      rw [Partition.activeSize, Option.map_eq_none_iff] at hnone
      simp only [appendReplicas] at hall
      have hresult := appendReplica_none_iff b.storage (env.ios 0) request.topic partition m
      cases happend : b.storage.appendReplica (env.ios 0) request.topic partition m with
      | mk e' outcome =>
          rw [happend] at hall hresult
          cases outcome with
          | some err => cases hall
          | none =>
              have hreached := (hresult.mp rfl).1
              simp only [StorageEngine.appendReplicaReachesSync, Partition.reachesSync, hnone,
                Bool.and_false, Bool.false_eq_true] at hreached
    · rename_i size hsize
      rw [appendReplicas_whole_iff env.ios request.topic partition hopened.1 (m :: rest) 0 size
        b.storage hsize hnumbered, hopened.1, Bool.true_and]

/-- A call that passes the checks and is refused all the same leaves everything
    as it was exactly if the first message touches no file and the commit index
    stays. -/
theorem storeReplicas_same_iff (h : b.PassesChecks env request header partition messages)
    (hne : messages ≠ []) :
    b.SameLog
        { b with
          storage := (appendReplicas env.ios request.topic partition messages 0 b.storage).1
          coordinator := (b.observedBy env request header partition messages).1 } ↔
      b.commitStays request header partition messages = true ∧
        (messages.head?.all fun m =>
          !b.storage.replicaWrites (env.ios 0) request.topic partition m) = true := by
  rcases List.exists_cons_of_ne_nil hne with ⟨m, rest, rfl⟩
  rw [Broker.SameLog, observedBy_commit_iff h, and_comm]
  refine and_congr Iff.rfl ?_
  rw [List.head?_cons, Option.all_some, Bool.not_eq_true',
    ← appendReplicas_same_iff env.ios request.topic partition m rest 0 b.storage]
  constructor
  · exact fun hall => hall request.topic partition
  · intro hsame topic number
    by_cases hplace : (topic, number) = (request.topic, partition)
    · cases hplace
      exact hsame
    · exact appendReplicas_others env.ios request.topic partition (m :: rest) 0 b.storage topic
        number hplace

end Request

/-- `Handle` hands over what it accepts, and refuses the rest. -/
theorem receiveAppend_eq (b : Broker) (env : ReplicaEnv) (request : Request) :
    (b.acceptsAppend request = none ∧ (b.receiveAppend env request).1 = b) ∨
      ∃ normalized, b.acceptsAppend request = some normalized ∧
        b.receiveAppend env request = b.handleReplicaAppend env normalized := by
  simp only [Broker.acceptsAppend, Broker.receiveAppend]
  split
  · exact Or.inl ⟨rfl, rfl⟩
  · split
    · exact Or.inl ⟨rfl, rfl⟩
    · split
      · exact Or.inl ⟨rfl, rfl⟩
      · cases b.validateReplicationRequest request with
        | none => exact Or.inl ⟨rfl, rfl⟩
        | some normalized => exact Or.inr ⟨normalized, rfl, rfl⟩

/-- A replica append is all or nothing exactly if it is refused by a check, all
    its messages will be stored, or the first of them touches no file and the
    commit index stays. This is so for every broker, for every request, and for
    every answer of the file system. -/
theorem replica_append_whole_iff (b : Broker) (env : ReplicaEnv) (request : Request) :
    ((b.receiveAppend env request).2.status ≠ .ok →
        b.SameLog (b.receiveAppend env request).1) ↔
      b.appendsWhole env request = true := by
  rcases receiveAppend_eq b env request with ⟨hrefused, hsame⟩ | ⟨normalized, haccepts, heq⟩
  · simp only [Broker.appendsWhole, hrefused, hsame]
    exact iff_of_true (fun _ => Broker.SameLog.refl b) trivial
  · simp only [Broker.appendsWhole, haccepts, heq, handleReplicaAppend_eq]
    cases hread : (b.readReplicaAppend normalized).result with
    | error status => exact iff_of_true (fun _ => Broker.SameLog.refl b) rfl
    | ok call =>
        rcases call with ⟨header, partition, messages⟩
        have hne : messages ≠ [] := List.ne_nil_of_length_pos (readReplicaAppend_ok hread).2.1
        simp only [Bool.or_eq_true, Bool.and_eq_true, Bool.not_eq_true']
        by_cases hpass : b.PassesChecks env normalized header partition messages
        · rw [applyAppend_passed b env normalized header partition messages hpass,
            passesChecks_iff.mpr hpass, ← appendReplicas_none_iff hpass hne,
            ← storeReplicas_same_iff hpass hne]
          rcases @storeReplicas_outcome { b with
              coordinator := (b.observedBy env normalized header partition messages).1 }
            env normalized partition messages with
            ⟨hok, hfailed⟩
          by_cases hend :
              (appendReplicas env.ios normalized.topic partition messages 0 b.storage).2 = none
          · exact iff_of_true (fun hno => absurd (hok hend) hno) (Or.inl (Or.inr hend))
          · rcases hfailed hend with ⟨hstatus, hafter⟩
            rw [hafter]
            simp only [hstatus, hend, ne_eq, not_false_eq_true, forall_const, Bool.true_eq_false,
              false_or]
        · rw [(applyAppend_refused b env normalized header partition messages hpass).1]
          refine iff_of_true (fun _ => Broker.SameLog.refl b) (Or.inl (Or.inl ?_))
          exact Bool.eq_false_of_not_eq_true fun h => hpass (passesChecks_iff.mp h)

/-- A follower is sent two messages, of which the storage does not take the
    second one. The request is refused, but the first message is in the log, the
    next offset has moved on, and the commit index is that of a message the
    follower does not have. -/
theorem replica_append_partial :
    let b := (((Broker.fresh {}).configureReplication [70] [{ nodeId := [76] }] 0 true [116]
      none).createTopic [97] 1).1
    let a : AppendCall :=
      { topic := [97]
        partition := 0
        messages := [⟨0, 5, [], [1]⟩, ⟨1, 5, [], []⟩]
        term := 0
        commitIndex := 1
        leaderId := [76]
        prevLogIndex := 0
        prevLogTerm := 0 }
    ∃ request, appendRequest [116] 1 a = some request ∧
      ¬ ((b.receiveAppend {} request).2.status ≠ .ok → b.SameLog (b.receiveAppend {} request).1) ∧
      (b.receiveAppend {} request).2.status = .storageError ∧
      ((b.receiveAppend {} request).1.storage.partition [97] 0).messages = [⟨0, 5, [], [1]⟩] ∧
      ((b.receiveAppend {} request).1.storage.partition [97] 0).nextOffset = 1 ∧
      (b.receiveAppend {} request).1.coordinator.partitionCommitIndex (partitionKey [97] 0) = 1 := by
  intro b a
  have hafter : (appendRequest [116] 1 a).any (fun request =>
      decide ((b.receiveAppend {} request).2.status = .storageError ∧
        ((b.receiveAppend {} request).1.storage.partition [97] 0).messages = [⟨0, 5, [], [1]⟩] ∧
        ((b.receiveAppend {} request).1.storage.partition [97] 0).nextOffset = 1 ∧
        (b.receiveAppend {} request).1.coordinator.partitionCommitIndex (partitionKey [97] 0)
          = 1)) = true := by
    decide +kernel
  rcases (Option.any_eq_true _ _).mp hafter with ⟨request, hrequest, hafter⟩
  rcases of_decide_eq_true hafter with ⟨hstatus, hmessages, hnext, hcommit⟩
  refine ⟨request, hrequest, fun hwhole => ?_, hstatus, hmessages, hnext, hcommit⟩
  -- The partition was empty before.
  have hsame := (hwhole (by rw [hstatus]; decide)).1 [97] 0
  rw [hsame] at hnext
  exact absurd hnext (by decide +kernel)

end MqBroker
