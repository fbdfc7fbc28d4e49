import MqBroker.Storage.Calls

/-!
# What a Failed Append Leaves Behind

An append that reports a failure has stored its message all the same if what
failed is the sync.

The append paths have five exits with an error. At the checks nothing has
happened yet. When no segment can be created nothing has, and when the write
fails the record is in no list and has used up no offset. But in front of the
sync the message is in memory and the next offset has moved on, and the source
takes neither back. A client that tries again has its message stored twice.

## Main definitions

* `StorageEngine.appendReachesSync`, `appendReplicaReachesSync`: An append that
  gets as far as the sync.
* `SameReads`: Two engines that answer every read alike.

## Theorems

* `append_reached`, `append_unreached`: What is stored, and what is not.
* `failed_append_invisible_iff`: When a failed append is invisible.
* `failed_append_visible`: A sync that fails, and a second try.
-/

namespace MqBroker

namespace StorageEngine

variable (e : StorageEngine) (io : StoreIo)

/-- `Append` passes its checks and gets as far as the sync. -/
def appendReachesSync (now : Int64) (topic : Bytes) (number : UInt32) (key value : Bytes) :
    Bool :=
  let next := (e.partition topic number).nextMessage now key value
  isValidTopicName topic && decide next.Storable && io.partitionOk &&
    (e.partition topic number).reachesSync e.config io.io next

/-- `AppendReplica` passes its checks and gets as far as the sync. -/
def appendReplicaReachesSync (topic : Bytes) (number : UInt32) (m : Message) : Bool :=
  isValidTopicName topic && decide m.Storable && io.partitionOk &&
    decide (m.offset = (e.partition topic number).nextOffset) &&
    (e.partition topic number).reachesSync e.config io.io m

end StorageEngine

/-- Two engines answer every read and every question for the next offset
    alike. -/
def SameReads (e e' : StorageEngine) : Prop :=
  ∀ partitionOk topic number,
    e'.nextOffset partitionOk topic number = e.nextOffset partitionOk topic number ∧
      ∀ start maxBytes, e'.read partitionOk topic number start maxBytes
        = e.read partitionOk topic number start maxBytes

theorem SameMessages.sameReads {e e' : StorageEngine} (h : SameMessages e e') :
    SameReads e e' := by
  intro partitionOk topic number
  rcases h topic number with ⟨hmessages, hnext, _⟩
  refine ⟨?_, fun start maxBytes => ?_⟩
  · rw [StorageEngine.nextOffset, StorageEngine.nextOffset, hnext]
  · rw [StorageEngine.read, StorageEngine.read, Partition.read, Partition.read, hnext, hmessages]

/-- With a message more, the next offset is another one. -/
theorem Stored.not_sameReads {e e' : StorageEngine} {topic : Bytes} {number : UInt32}
    {m : Message} (h : Stored e e' topic number m) (htopic : isValidTopicName topic = true) :
    ¬ SameReads e e' := by
  intro hsame
  have hnext := (hsame true topic number).1
  have hvalid : ¬ (¬ isValidTopicName topic = true ∨ ¬ true = true) :=
    not_or.mpr ⟨not_not.mpr htopic, fun hfalse => hfalse rfl⟩
  rw [StorageEngine.nextOffset, StorageEngine.nextOffset, if_neg hvalid, if_neg hvalid,
    h.nextOffset] at hnext
  -- A number and the one after it are different, also on 64 bits.
  have htoNat := congrArg UInt64.toNat (Option.some.inj hnext)
  have hlt := (e.partition topic number).nextOffset.toNat_lt
  rw [UInt64.toNat_add, show (1 : UInt64).toNat = 1 from rfl] at htoNat
  omega

section Append

variable {e : StorageEngine} {io : StoreIo} {topic : Bytes} {number : UInt32}

/-- Storing a record in a partition is storing it in the engine. -/
theorem stored_put {m : Message}
    (h : (e.partition topic number).reachesSync e.config io.io m = true) :
    Stored e (e.put topic number (appendRecord e.config io.io (e.partition topic number) m).1)
        topic number m ∧
      (appendRecord e.config io.io (e.partition topic number) m).2
        = if io.io.syncOk then none else some .walFsyncFailed := by
  rcases appendRecord_reached h with ⟨init, active, hp, heq⟩
  rw [heq]
  refine ⟨⟨?_, ?_, ?_, fun t n hne => put_partition_ne e topic number _ t n hne⟩, rfl⟩
  · rw [put_partition_self]
    simp only [Partition.messages, messages_appendedSegments, hp]
  · rw [put_partition_self]
  · intro hne
    have hsegments := appendRecord_segments_ne e.config io.io _ m hne
    rw [put_partition_self]
    rw [heq] at hsegments
    exact hsegments

/-- Where the record is not stored, the engine is the same to its readers. -/
theorem unstored_put {m : Message}
    (h : (e.partition topic number).reachesSync e.config io.io m = false) :
    SameReads e (e.put topic number (appendRecord e.config io.io (e.partition topic number) m).1) ∧
      ∃ err, (appendRecord e.config io.io (e.partition topic number) m).2 = some err := by
  rcases appendRecord_unreached h with ⟨hmessages, hnext, err, herr, _⟩
  exact ⟨(sameMessages_put hmessages hnext (appendRecord_segments_ne _ _ _ _)).sameReads, err, herr⟩

/-- `Append`, when its message is stored: it succeeds unless the sync fails. -/
theorem append_reached {now : Int64} {key value : Bytes}
    (h : e.appendReachesSync io now topic number key value = true) :
    Stored e (e.append io now topic number key value).1 topic number
        ((e.partition topic number).nextMessage now key value) ∧
      (e.append io now topic number key value).2
        = if io.io.syncOk then .ok ((e.partition topic number).nextMessage now key value)
          else .error .walFsyncFailed := by
  simp only [StorageEngine.appendReachesSync, Bool.and_eq_true, decide_eq_true_eq] at h
  rcases h with ⟨⟨⟨htopic, hstorable⟩, hopen⟩, hreached⟩
  rcases stored_put hreached with ⟨hstored, hresult⟩
  simp only [StorageEngine.append, htopic, hstorable, hopen, not_true_eq_false, or_self, if_false,
    Partition.append, hresult]
  refine ⟨hstored, ?_⟩
  cases io.io.syncOk <;> rfl

/-- `Append`, when it is not: it fails, and nobody can tell. -/
theorem append_unreached {now : Int64} {key value : Bytes}
    (h : e.appendReachesSync io now topic number key value = false) :
    SameReads e (e.append io now topic number key value).1 ∧
      ∃ err, (e.append io now topic number key value).2 = .error err := by
  have hsame : SameReads e e := (SameMessages.refl e).sameReads
  simp only [StorageEngine.append]
  split
  · exact ⟨hsame, _, rfl⟩
  · rename_i hvalid
    rcases not_or.mp hvalid with ⟨htopic, hstorable⟩
    rw [not_not] at htopic hstorable
    split
    · exact ⟨hsame, _, rfl⟩
    · rename_i hopen
      rw [not_not] at hopen
      simp only [StorageEngine.appendReachesSync, htopic, decide_eq_true hstorable, hopen,
        Bool.true_and] at h
      rcases unstored_put h with ⟨hput, err, herr⟩
      simp only [Partition.append, hstorable, not_true_eq_false, if_false, herr]
      exact ⟨hput, err, rfl⟩

/-- `AppendReplica`, when its message is stored. -/
theorem appendReplica_reached {m : Message}
    (h : e.appendReplicaReachesSync io topic number m = true) :
    Stored e (e.appendReplica io topic number m).1 topic number m ∧
      (e.appendReplica io topic number m).2
        = if io.io.syncOk then none else some .walFsyncFailed := by
  simp only [StorageEngine.appendReplicaReachesSync, Bool.and_eq_true, decide_eq_true_eq] at h
  rcases h with ⟨⟨⟨⟨htopic, hstorable⟩, hopen⟩, hoffset⟩, hreached⟩
  rcases stored_put hreached with ⟨hstored, hresult⟩
  simp only [StorageEngine.appendReplica, htopic, hstorable, hopen, not_true_eq_false, or_self,
    if_false, Partition.appendReplica, hoffset, ne_eq]
  exact ⟨hstored, hresult⟩

/-- `AppendReplica`, when it is not. -/
theorem appendReplica_unreached {m : Message}
    (h : e.appendReplicaReachesSync io topic number m = false) :
    SameReads e (e.appendReplica io topic number m).1 ∧
      ∃ err, (e.appendReplica io topic number m).2 = some err := by
  have hsame : SameReads e e := (SameMessages.refl e).sameReads
  simp only [StorageEngine.appendReplica]
  split
  · exact ⟨hsame, _, rfl⟩
  · rename_i hvalid
    rcases not_or.mp hvalid with ⟨htopic, hstorable⟩
    rw [not_not] at htopic hstorable
    split
    · exact ⟨hsame, _, rfl⟩
    · rename_i hopen
      rw [not_not] at hopen
      simp only [Partition.appendReplica, hstorable, not_true_eq_false, if_false]
      by_cases hoffset : m.offset = (e.partition topic number).nextOffset
      · simp only [StorageEngine.appendReplicaReachesSync, htopic, decide_eq_true hstorable, hopen,
          decide_eq_true hoffset, Bool.true_and] at h
        rw [if_neg (not_not.mpr hoffset)]
        exact unstored_put h
      · rw [if_pos hoffset]
        exact ⟨(sameMessages_put rfl rfl id).sameReads, _, rfl⟩

end Append

/-- A failed append is invisible exactly if it does not get as far as a sync
    that fails. This is so for both append paths, for every state of the engine,
    and for every step at which they can fail. -/
theorem failed_append_invisible_iff (e : StorageEngine) (io : StoreIo) (now : Int64)
    (topic : Bytes) (number : UInt32) (key value : Bytes) (m : Message) :
    (((∃ err, (e.append io now topic number key value).2 = .error err) →
        SameReads e (e.append io now topic number key value).1) ↔
      (e.appendReachesSync io now topic number key value = true → io.io.syncOk = true)) ∧
    (((∃ err, (e.appendReplica io topic number m).2 = some err) →
        SameReads e (e.appendReplica io topic number m).1) ↔
      (e.appendReplicaReachesSync io topic number m = true → io.io.syncOk = true)) := by
  constructor
  · cases h : e.appendReachesSync io now topic number key value with
    | false => exact iff_of_true (fun _ => (append_unreached h).1) fun hno => (nomatch hno)
    | true =>
        rcases append_reached h with ⟨hstored, hresult⟩
        simp only [StorageEngine.appendReachesSync, Bool.and_eq_true] at h
        rw [hresult]
        cases io.io.syncOk with
        | true => exact iff_of_true (fun ⟨_, herr⟩ => (nomatch herr)) fun _ => rfl
        | false =>
            exact iff_of_false (fun hsame => hstored.not_sameReads h.1.1.1 (hsame ⟨_, rfl⟩))
              fun hsync => (nomatch hsync rfl)
  · cases h : e.appendReplicaReachesSync io topic number m with
    | false => exact iff_of_true (fun _ => (appendReplica_unreached h).1) fun hno => (nomatch hno)
    | true =>
        rcases appendReplica_reached h with ⟨hstored, hresult⟩
        simp only [StorageEngine.appendReplicaReachesSync, Bool.and_eq_true] at h
        rw [hresult]
        cases io.io.syncOk with
        | true => exact iff_of_true (fun ⟨_, herr⟩ => (nomatch herr)) fun _ => rfl
        | false =>
            exact iff_of_false (fun hsame => hstored.not_sameReads h.1.1.1.1 (hsame ⟨_, rfl⟩))
              fun hsync => (nomatch hsync rfl)

/-- An append whose sync fails, and a second try that succeeds: the failed one
    can be read, and the message is there twice. -/
theorem failed_append_visible :
    let e : StorageEngine := { config := {} }
    let first := e.append { io := { syncOk := false } } 5 [97] 0 [] [1]
    let second := first.1.append {} 5 [97] 0 [] [1]
    ¬ ((∃ err, first.2 = .error err) → SameReads e first.1) ∧
      (second.1.partition [97] 0).messages = [⟨0, 5, [], [1]⟩, ⟨1, 5, [], [1]⟩] := by
  intro e first second
  have hreached : e.appendReachesSync { io := { syncOk := false } } 5 [97] 0 [] [1] = true := by
    decide +kernel
  rcases append_reached hreached with ⟨hstored, hresult⟩
  exact ⟨fun h => hstored.not_sameReads (by decide +kernel) (h ⟨_, hresult⟩), by decide +kernel⟩

end MqBroker
