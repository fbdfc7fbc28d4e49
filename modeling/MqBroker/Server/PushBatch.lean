import MqBroker.Cluster.Brokers
import MqBroker.Server.Consuming
import MqBroker.Storage.Reading

/-!
# What a Leader Can Push

Whether the batch that the loop of a leader reads for a follower gets into a
request.

The read is limited to 1048576 bytes of keys and values, and the payload of a
request to as many bytes altogether. A record takes 22 bytes beside its key and
value, and the fields of the request and the token are in front of the records.
So a read that uses its limit up is too large by that much, and for small
messages the records are most of the request. The follower takes no more than
10000 messages, which is a limit that the read does not have.

A batch that does not fit is read again in the next round. Nothing in the loop
makes it smaller, and the cursor of the follower stays where it is.

## Main definitions

* `Broker.PushFits`: The batch gets to the follower.
* `BacklogFits`: Every beginning of the backlog that the read may return fits.

## Theorems

* `appendRequest_isSome_iff`: When a call has a request.
* `pushFits_iff`: Which logs can be pushed.
-/

namespace MqBroker

/-- The bytes of a request in front of its records: token, leader, and the
    fields of fixed size. -/
def pushOverhead (token nodeId : Bytes) : Nat := 44 + token.length + nodeId.length

/-- The batch for a follower at an offset is not empty, has no more messages
    than the follower takes, and gets into a request. -/
def Broker.PushFits (b : Broker) (topic : Bytes) (partition : UInt32) (start : UInt64)
    (token : Bytes) (requestId : UInt64) : Prop :=
  let pending := b.pendingMessages true topic partition start
  pending ≠ [] ∧ pending.length ≤ 10000 ∧
    (appendRequest token requestId (b.appendCall topic partition pending)).isSome = true

/-- There is a first message and the read may return it, and whatever beginning
    of the backlog the read may return, it has at most 10000 messages and leaves
    room for 22 bytes a message and what is in front of them. -/
structure BacklogFits (token nodeId : Bytes) (backlog : List Message) : Prop where
  first : ∃ m, backlog.head? = some m ∧ m.payload ≤ 1048576
  room : ∀ run, run <+: backlog → (run.map Message.payload).sum ≤ 1048576 →
    run.length ≤ 10000 ∧
      pushOverhead token nodeId + 22 * run.length + (run.map Message.payload).sum ≤ 1048576

theorem length_flatMap_encodeBody (messages : List Message) :
    (messages.flatMap encodeBody).length
      = 22 * messages.length + (messages.map Message.payload).sum := by
  induction messages with
  | nil => rfl
  | cons m rest ih =>
      rw [List.flatMap_cons, List.length_append, length_encodeBody, bodyFixedSize, ih,
        List.length_cons, List.map_cons, List.sum_cons, Message.payload]
      omega

/-- A call with names of the usual sizes has a request if its payload fits. -/
theorem appendRequest_isSome_iff {a : AppendCall} {token : Bytes} (requestId : UInt64)
    (hmessages : a.messages ≠ []) (hleader : a.leaderId ≠ []) (hsize : a.leaderId.length ≤ 65535)
    (htoken : token ≠ []) (hlen : token.length ≤ 65535) (htopic : a.topic.length ≤ 65535) :
    (appendRequest token requestId a).isSome = true ↔
      pushOverhead token a.leaderId + 22 * a.messages.length
        + (a.messages.map Message.payload).sum ≤ 1048576 := by
  have hpayload : (put16 (UInt16.ofNat token.length) ++ (token ++ appendPayload a)).length
      = pushOverhead token a.leaderId + 22 * a.messages.length
        + (a.messages.map Message.payload).sum := by
    rw [List.length_append, List.length_append, length_put16, length_appendPayload,
      length_flatMap_encodeBody, pushOverhead]
    omega
  have hmax : maxPayloadBytes = 1048576 := rfl
  simp only [appendRequest, hpayload, hmax]
  rw [if_neg (by simp only [hmessages, hleader, false_or]; omega),
    if_neg (by simp only [htoken, false_or]; omega)]
  by_cases hfits : pushOverhead token a.leaderId + 22 * a.messages.length
      + (a.messages.map Message.payload).sum ≤ 1048576
  · rw [if_neg (by omega), Option.isSome_some]
    exact iff_of_true rfl hfits
  · rw [if_pos (by omega), Option.isSome_none]
    exact iff_of_false Bool.false_ne_true hfits

/-- What the loop reads is what fits of the backlog. -/
theorem pendingMessages_eq (b : Broker) (topic : Bytes) (partition : UInt32) (start : UInt64)
    (htopic : isValidTopicName topic = true)
    (hstart : start ≤ (b.storage.partition topic partition).nextOffset) :
    b.pendingMessages true topic partition start
      = fitting Message.payload 1048576
          ((b.storage.partition topic partition).messages.filter (fun m => start ≤ m.offset)) := by
  have hvalid : ¬ (¬ isValidTopicName topic = true ∨ (1048576 : UInt32) = 0) :=
    not_or.mpr ⟨not_not.mpr htopic, by decide⟩
  simp only [Broker.pendingMessages, StorageEngine.read, if_neg hvalid, not_true_eq_false, if_false,
    Partition.read, if_neg (not_lt.mpr hstart), UInt32.reduceToNat]
  exact readLoop_start start 1048576 _

/-- Which logs a leader can push to a follower: those where everything that the
    read may return from the follower's offset on fits, with the rest of the
    request. -/
theorem pushFits_iff (b : Broker) (topic : Bytes) (partition : UInt32) (start : UInt64)
    (token : Bytes) (requestId : UInt64) (htopic : isValidTopicName topic = true)
    (hstart : start < (b.storage.partition topic partition).nextOffset)
    (htoken : 1 ≤ token.length ∧ token.length ≤ 64)
    (hnode : 1 ≤ b.nodeId.length ∧ b.nodeId.length ≤ 64) :
    b.PushFits topic partition start token requestId ↔
      BacklogFits token b.nodeId
        ((b.storage.partition topic partition).messages.filter (fun m => start ≤ m.offset)) := by
  have hpending := pendingMessages_eq b topic partition start htopic hstart.le
  have hname := isValidTopicName_length htopic
  have hlongest := fitting_longest Message.payload 1048576
    ((b.storage.partition topic partition).messages.filter (fun m => start ≤ m.offset))
  have hfirst := fitting_ne_nil_iff Message.payload 1048576
    ((b.storage.partition topic partition).messages.filter (fun m => start ≤ m.offset))
  simp only [Broker.PushFits, hpending]
  generalize (b.storage.partition topic partition).messages.filter (fun m => start ≤ m.offset)
    = backlog at hlongest hfirst ⊢
  generalize fitting Message.payload 1048576 backlog = batch at hlongest hfirst ⊢
  have hrequest : batch ≠ [] →
      ((appendRequest token requestId (b.appendCall topic partition batch)).isSome = true ↔
        pushOverhead token b.nodeId + 22 * batch.length + (batch.map Message.payload).sum
          ≤ 1048576) := fun hne =>
    appendRequest_isSome_iff (a := b.appendCall topic partition batch) requestId hne
      (List.length_pos_iff.mp hnode.1) (hnode.2.trans (by decide)) (List.length_pos_iff.mp htoken.1)
      (htoken.2.trans (by decide)) (hname.trans (by decide))
  constructor
  · rintro ⟨hne, hcount, hsome⟩
    have hbatch := (hrequest hne).mp hsome
    refine ⟨hfirst.mp hne, fun run hrun hsum => ?_⟩
    -- What the read may return is a beginning of what it does return.
    rcases hlongest.longest run hrun hsum with ⟨rest, rfl⟩
    rw [List.length_append] at hcount hbatch
    rw [List.map_append, List.sum_append] at hbatch
    omega
  · intro hbacklog
    have hne := hfirst.mpr hbacklog.first
    rcases hbacklog.room batch hlongest.initial hlongest.fits with ⟨hcount, hfits⟩
    exact ⟨hne, hcount, (hrequest hne).mpr hfits⟩

/-- A log of two messages, from its second message on. -/
theorem pushFits_iff_two :
    let b : Broker :=
      { Broker.fresh {} with
        storage := (Broker.fresh {}).storage.put [97] 0
          (runCalls (StorageConfig.effective {}) [⟨0, []⟩]
            [.append {} 5 [1] [2], .append {} 6 [] [3, 4]]) }
    b.PushFits [97] 0 1 [116] 1 ↔
      BacklogFits [116] b.nodeId
        ((b.storage.partition [97] 0).messages.filter (fun m => 1 ≤ m.offset)) :=
  pushFits_iff _ [97] 0 1 [116] 1 (by decide +kernel) (by decide +kernel) (by decide)
    (by decide +kernel)

/-! ## A log that is not pushed -/

/-- A value that comes in a frame does not always leave room for what a push has
    in front of it. -/
theorem large_not_pushed (value : Bytes) (hne : value ≠ []) (hsize : value.length = 1048547) :
    (((Server.fresh {}).run [createLarge [112]]).handle {}
        (plainProduce [112] value)).2.status = .ok ∧
      (((Server.fresh {}).run (produceRun value)).broker.storage.partition [112] 0).messages
        = [⟨0, 0, [], value⟩] ∧
      (((Server.fresh {}).run (produceRun value)).broker.storage.partition [112] 0).nextOffset = 1 ∧
      ∀ token requestId, 1 ≤ token.length → token.length ≤ 64 →
        ¬ ((Server.fresh {}).run (produceRun value)).broker.PushFits [112] 0 0 token requestId := by
  rcases produceRun_stored hne (by rw [hsize]; decide) with ⟨hstatus, hmessages, _⟩
  have hregular := (run_sound {} (produceRun value)).broker.logs [112] 0
  generalize (Server.fresh {}).run (produceRun value) = s at hmessages hregular ⊢
  have hnext : (s.broker.storage.partition [112] 0).nextOffset = 1 := by
    rcases hregular.numbered with ⟨first, hnumbered, hnext⟩
    rw [hmessages] at hnumbered hnext
    rw [hnext, ← hnumbered.1]
    rfl
  refine ⟨hstatus, hmessages, hnext, fun token requestId hpos hlen => ?_⟩
  have hpending := pendingMessages_eq s.broker [112] 0 0 (by decide +kernel)
    (UInt64.le_iff_toNat_le.mpr (Nat.zero_le _))
  rintro ⟨_, _, hsome⟩
  have hbatch : s.broker.pendingMessages true [112] 0 0 = [⟨0, 0, [], value⟩] := by
    have hsmall : ({ value := value } : Message).payload ≤ 1048576 := by
      simp only [Message.payload, List.length_nil, hsize]
      decide
    have hall : ([{ value := value }] : List Message).filter (fun m => 0 ≤ m.offset)
        = [{ value := value }] := rfl
    rw [hpending, hmessages, hall, fitting, if_pos hsmall, fitting]
  rw [hbatch] at hsome
  rcases Option.isSome_iff_exists.mp hsome with ⟨request, hrequest⟩
  rcases appendRequest_some hrequest with ⟨_, _, hleader, hleadersize, _⟩
  have hfits := (appendRequest_isSome_iff (a := s.broker.appendCall [112] 0 [⟨0, 0, [], value⟩])
    requestId (List.cons_ne_nil _ _) hleader hleadersize (List.length_pos_iff.mp hpos)
    (hlen.trans (by decide)) (show 1 ≤ 65535 by decide)).mp hsome
  simp only [Broker.appendCall, pushOverhead, List.map_cons, List.map_nil, List.sum_cons,
    List.sum_nil, Message.payload, List.length_nil, hsize] at hfits
  omega

/-- A leader with one large message never gets it to a follower. -/
theorem large_never_pushed :
    ∃ value, value = List.replicate 1048547 120 ∧
      (((Server.fresh {}).run [createLarge [112]]).handle {}
        (plainProduce [112] value)).2.status = .ok ∧
      (((Server.fresh {}).run (produceRun value)).broker.storage.partition [112] 0).messages
        = [⟨0, 0, [], value⟩] ∧
      (((Server.fresh {}).run (produceRun value)).broker.storage.partition [112] 0).nextOffset = 1 ∧
      ∀ token requestId, 1 ≤ token.length → token.length ≤ 64 →
        ¬ ((Server.fresh {}).run (produceRun value)).broker.PushFits [112] 0 0 token requestId := by
  refine ⟨_, rfl, large_not_pushed _ ?_ List.length_replicate⟩
  rw [← List.length_pos_iff_ne_nil, List.length_replicate]
  decide

end MqBroker
