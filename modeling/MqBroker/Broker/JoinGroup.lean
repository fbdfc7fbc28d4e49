import MqBroker.Broker.Parsers
import MqBroker.Core.ConsumerGroup

/-!
# Joining a Group

`JOIN_GROUP` from the bytes a consumer sends to the call of the coordinator.

The consumer writes the group, the member id and the topics, each with its
length in front, and the number of topics between the member id and the first
topic. `HandleJoinGroup` reads that number before the member id instead of
behind it: what it takes for the number of topics are the first two bytes of
the member id. The rest it reads where it is. It follows that a request is
answered only if these two bytes happen to spell the number of topics, and is
then read correctly.

## Main definitions

* `joinGroupRequest`: The request `MqConsumer::joinGroup` builds.
* `handleJoinGroup`: `HandleJoinGroup`.
* `LegalJoin`: Arguments within the limits of the protocol.
* `LegalJoin.Agrees`: The broker understands what the consumer has sent.
* `LegalJoin.misreadCount`: What the broker takes for the number of topics.

## Theorems

* `readTopics_encode`: Reading some of the topics of a request.
* `join_agrees_iff`: When the broker understands a request.
-/

namespace MqBroker

open Traced

/-! ## Consumer and broker -/

/-- A topic with its length in front. -/
def encodeTopic (topic : Bytes) : Bytes := put16 (UInt16.ofNat topic.length) ++ topic

/-- The payload of `MqConsumer::joinGroup`. -/
def joinGroupPayload (j : JoinCall) : Bytes :=
  put16 (UInt16.ofNat j.group.length) ++ (j.group ++
    (put16 (UInt16.ofNat j.member.length) ++ (j.member ++
      (put16 (UInt16.ofNat j.topics.length) ++ j.topics.flatMap encodeTopic))))

/-- The request of `MqConsumer::joinGroup`, if it gets that far. -/
def joinGroupRequest (j : JoinCall) : Option Request :=
  if j.group = [] ∨ j.member = [] ∨ j.topics.length > 65535 then none
  else if j.topics.any (fun topic => topic = [] ∨ topic.length > 65535) then none
  else some { command := .joinGroup, payload := joinGroupPayload j }

/-- `HandleJoinGroup`. -/
def handleJoinGroup (groups : ConsumerGroupCoordinator) (now : Int) (request : Request) :
    ConsumerGroupCoordinator × Response :=
  match (readJoinGroup request.payload).result with
  | .error status => (groups, makeResponse request status)
  | .ok call =>
      let joined := groups.join call.group call.member call.topics now
      if ¬ joined.2 then (joined.1, makeResponse request .badRequest)
      else
        (joined.1, makeResponse request .ok
          (put16 (UInt16.ofNat call.member.length) ++ call.member))

/-- Arguments of `MqConsumer::joinGroup` within the limits of the protocol. -/
structure LegalJoin extends JoinCall where
  groupSize : 1 ≤ group.length ∧ group.length ≤ 65535
  memberSize : 1 ≤ member.length ∧ member.length ≤ 65535
  topicCount : topics.length ≤ 65535
  topicSizes : ∀ topic ∈ topics, 1 ≤ topic.length ∧ topic.length ≤ 65535
  /-- The request fits in a frame. -/
  fits : (joinGroupPayload toJoinCall).length ≤ maxPayloadBytes

/-- The consumer sends a request, and the broker answers `kOk` and calls `Join`
    with exactly the arguments of the consumer, in any state and at any time. -/
def LegalJoin.Agrees (j : LegalJoin) : Prop :=
  ∃ request, joinGroupRequest j.toJoinCall = some request ∧
    (readJoinGroup request.payload).result = .ok j.toJoinCall ∧
    ∀ groups now,
      (handleJoinGroup groups now request).1 = (groups.join j.group j.member j.topics now).1 ∧
      (handleJoinGroup groups now request).2.status = .ok

/-- What the broker takes for the number of topics: the first two bytes of the
    member id, or of the member id and the number of topics behind it. -/
def LegalJoin.misreadCount (j : LegalJoin) : Nat :=
  (get16 (j.member ++ put16 (UInt16.ofNat j.topics.length)) 0).toNat

/-! ## Topics -/

theorem encodeTopic_length (topic : Bytes) : (encodeTopic topic).length = 2 + topic.length := by
  rw [encodeTopic, List.length_append, length_put16]

/-- Some of the topics of a request are read, as many as there are. -/
theorem readTopics_encode (topics : List Bytes)
    (h : ∀ topic ∈ topics, 1 ≤ topic.length ∧ topic.length ≤ 65535) (front : Bytes) (count : Nat) :
    (readTopics (front ++ topics.flatMap encodeTopic) count front.length).result
      = if count ≤ topics.length then
          .ok (topics.take count, (front ++ (topics.take count).flatMap encodeTopic).length)
        else .error .badRequest := by
  induction topics generalizing front count with
  | nil =>
      cases count with
      | zero =>
          simp only [readTopics, result_pure, List.length_nil, le_refl, if_true, List.take_nil,
            List.flatMap_nil, List.append_nil]
      | succ count =>
          rw [readTopics, result_check_bind, if_neg, if_neg]
          · simp only [List.length_nil]
            omega
          · simp only [List.flatMap_nil, List.append_nil]
            omega
  | cons topic topics ih =>
      cases count with
      | zero =>
          simp only [readTopics, result_pure, Nat.zero_le, if_true, List.take_zero,
            List.flatMap_nil, List.append_nil]
      | succ count =>
          have hsize := h topic List.mem_cons_self
          have hlen : (front ++ (topic :: topics).flatMap encodeTopic).length
              = front.length + 2 + topic.length + (topics.flatMap encodeTopic).length := by
            rw [List.flatMap_cons, List.length_append, List.length_append, encodeTopic_length]
            omega
          have hget : (get16 (front ++ (topic :: topics).flatMap encodeTopic) front.length).toNat
              = topic.length := by
            rw [List.flatMap_cons, encodeTopic, List.append_assoc,
              get16_append_right _ _ _ le_rfl, Nat.sub_self, get16_put16]
            exact UInt16.toNat_ofNat_of_lt' (Nat.lt_succ_of_le hsize.2)
          have hcopy : substr (front ++ (topic :: topics).flatMap encodeTopic) (front.length + 2)
              topic.length = topic := by
            rw [List.flatMap_cons, encodeTopic, List.append_assoc,
              substr_append_right _ _ _ _ (by omega), Nat.add_sub_cancel_left,
              substr_append_right _ _ _ _ (by rw [length_put16]), length_put16, Nat.sub_self,
              substr_append_left _ _ _ rfl]
          have hrest := ih (fun t ht => h t (List.mem_cons_of_mem _ ht))
            (front ++ encodeTopic topic) count
          rw [List.append_assoc, ← List.flatMap_cons, List.length_append, encodeTopic_length,
            ← Nat.add_assoc] at hrest
          simp only [readTopics, result_check_bind, result_read16_bind, result_copy_bind, hget, hlen]
          rw [if_pos (by omega), if_pos (by omega)]
          by_cases hcount : count ≤ topics.length
          · rw [if_pos hcount] at hrest
            rw [result_bind_of_ok hrest, if_pos (by rw [List.length_cons]; omega), hcopy,
              List.take_succ_cons, List.flatMap_cons, ← List.append_assoc]
            rfl
          · rw [if_neg hcount] at hrest
            rw [result_bind_of_error hrest, if_neg (by rw [List.length_cons]; omega)]

/-- Fewer topics take fewer bytes. -/
theorem flatMap_take_length_lt (topics : List Bytes) (count : Nat) (h : count < topics.length) :
    ((topics.take count).flatMap encodeTopic).length < (topics.flatMap encodeTopic).length := by
  have hsplit : topics.take count ++ topics[count] :: topics.drop (count + 1) = topics := by
    rw [← List.drop_eq_getElem_cons h, List.take_append_drop]
  have hlen := congrArg (fun l => (List.flatMap encodeTopic l).length) hsplit
  simp only [List.flatMap_append, List.flatMap_cons, List.length_append, encodeTopic_length] at hlen
  omega

/-! ## The whole request -/

section Legal

variable (j : LegalJoin)

/-- The part of a payload in front of the topics. -/
def JoinCall.front (j : JoinCall) : Bytes :=
  put16 (UInt16.ofNat j.group.length) ++ (j.group ++
    (put16 (UInt16.ofNat j.member.length) ++ (j.member ++ put16 (UInt16.ofNat j.topics.length))))

theorem joinGroupPayload_eq (j : JoinCall) :
    joinGroupPayload j = j.front ++ j.topics.flatMap encodeTopic := by
  simp only [joinGroupPayload, JoinCall.front, List.append_assoc]

theorem JoinCall.front_length (j : JoinCall) :
    j.front.length = 6 + j.group.length + j.member.length := by
  simp only [JoinCall.front, List.length_append, length_put16]
  omega

theorem LegalJoin.groupSize_read : (get16 (joinGroupPayload j.toJoinCall) 0).toNat
    = j.group.length := by
  rw [joinGroupPayload, get16_put16]
  exact UInt16.toNat_ofNat_of_lt' (Nat.lt_succ_of_le j.groupSize.2)

theorem LegalJoin.memberSize_read :
    (get16 (joinGroupPayload j.toJoinCall) (2 + j.group.length)).toNat = j.member.length := by
  rw [joinGroupPayload, get16_append_right _ _ _ (by rw [length_put16]; omega), length_put16,
    Nat.add_sub_cancel_left, get16_append_right _ _ _ le_rfl, Nat.sub_self, get16_put16]
  exact UInt16.toNat_ofNat_of_lt' (Nat.lt_succ_of_le j.memberSize.2)

/-- The number of topics is looked for at the start of the member id. -/
theorem LegalJoin.topicCount_read :
    (get16 (joinGroupPayload j.toJoinCall) (4 + j.group.length)).toNat = j.misreadCount := by
  have hmember := j.memberSize.1
  have hlen : 0 + 2 ≤ (j.member ++ put16 (UInt16.ofNat j.topics.length)).length := by
    rw [List.length_append, length_put16]
    omega
  rw [LegalJoin.misreadCount, joinGroupPayload,
    get16_append_right _ _ _ (by rw [length_put16]; omega), length_put16,
    get16_append_right _ _ _ (by omega), get16_append_right _ _ _ (by rw [length_put16]; omega),
    length_put16, ← List.append_assoc j.member, get16, get16,
    getBE_append_left _ _ _ _ (by omega)]
  rw [show 4 + j.group.length - 2 - j.group.length - 2 = 0 by omega]

theorem LegalJoin.group_read :
    substr (joinGroupPayload j.toJoinCall) 2 j.group.length = j.group := by
  rw [joinGroupPayload, substr_append_right _ _ _ _ (by rw [length_put16]), length_put16,
    Nat.sub_self, substr_append_left _ _ _ rfl]

theorem LegalJoin.member_read :
    substr (joinGroupPayload j.toJoinCall) (4 + j.group.length) j.member.length = j.member := by
  rw [joinGroupPayload, substr_append_right _ _ _ _ (by rw [length_put16]; omega), length_put16,
    substr_append_right _ _ _ _ (by omega),
    substr_append_right _ _ _ _ (by rw [length_put16]; omega), length_put16,
    show 4 + j.group.length - 2 - j.group.length - 2 = 0 by omega, substr_append_left _ _ _ rfl]

/-- The topics of a request are read up to the misread number of them. -/
theorem LegalJoin.topics_read :
    (readTopics (joinGroupPayload j.toJoinCall) j.misreadCount
        (6 + j.group.length + j.member.length)).result
      = if j.misreadCount ≤ j.topics.length then
          .ok (j.topics.take j.misreadCount, 6 + j.group.length + j.member.length +
            ((j.topics.take j.misreadCount).flatMap encodeTopic).length)
        else .error .badRequest := by
  have h := readTopics_encode j.topics j.topicSizes j.front j.misreadCount
  rw [← joinGroupPayload_eq, JoinCall.front_length, List.length_append, JoinCall.front_length] at h
  exact h

/-- What the broker makes of the request of a consumer. -/
theorem LegalJoin.readJoinGroup_result :
    (readJoinGroup (joinGroupPayload j.toJoinCall)).result
      = if j.misreadCount = j.topics.length then .ok j.toJoinCall else .error .badRequest := by
  have hgroup := j.groupSize.1
  have hmember := j.memberSize.1
  have hlen : (joinGroupPayload j.toJoinCall).length
      = 6 + j.group.length + j.member.length + (j.topics.flatMap encodeTopic).length := by
    rw [joinGroupPayload_eq, List.length_append, JoinCall.front_length]
  simp only [readJoinGroup, result_check_bind, result_read16_bind, hlen, j.groupSize_read,
    j.memberSize_read, j.topicCount_read]
  rw [if_pos (by omega), if_pos (by omega), if_pos ⟨by omega, by omega, by omega⟩]
  rcases lt_trichotomy j.misreadCount j.topics.length with hlt | heq | hgt
  · -- Too few topics are read, and bytes are left over.
    have hread := j.topics_read
    rw [if_pos hlt.le] at hread
    have hshort := flatMap_take_length_lt j.topics j.misreadCount hlt
    rw [result_bind_of_ok hread, result_check_bind, if_neg (by simp only; omega), if_neg (by omega)]
  · have hread := j.topics_read
    rw [if_pos heq.le, heq, List.take_length] at hread
    rw [heq, result_bind_of_ok hread, result_check_bind, if_pos rfl, if_pos rfl, result_copy_bind,
      result_copy_bind, j.group_read, j.member_read]
    rfl
  · -- The bytes run out before enough topics are read.
    have hread := j.topics_read
    rw [if_neg (by omega)] at hread
    rw [result_bind_of_error hread, if_neg (by omega)]

theorem LegalJoin.request_sent : joinGroupRequest j.toJoinCall
    = some { command := .joinGroup, payload := joinGroupPayload j.toJoinCall } := by
  have hgroup : j.group ≠ [] := List.ne_nil_of_length_pos j.groupSize.1
  have hmember : j.member ≠ [] := List.ne_nil_of_length_pos j.memberSize.1
  have hcount := j.topicCount
  have htopics : ¬ (j.topics.any (fun topic => topic = [] ∨ topic.length > 65535) = true) := by
    intro hany
    rcases List.any_eq_true.mp hany with ⟨topic, hmem, hbad⟩
    have hsize := j.topicSizes topic hmem
    rcases of_decide_eq_true hbad with hnil | hlong
    · rw [hnil] at hsize
      exact absurd hsize.1 (by decide)
    · omega
  rw [joinGroupRequest, if_neg, if_neg htopics]
  rintro (h | h | h)
  · exact hgroup h
  · exact hmember h
  · omega

end Legal

/-- Whatever the arguments within the limits of the protocol, the broker answers
    the request of the consumer with `kOk` and calls `Join` with its arguments
    exactly when the two bytes behind the length of the member id spell the
    number of topics. -/
theorem join_agrees_iff (j : LegalJoin) : j.Agrees ↔ j.misreadCount = j.topics.length := by
  have hresult := j.readJoinGroup_result
  constructor
  · rintro ⟨request, hsent, hread, _⟩
    rw [j.request_sent] at hsent
    cases hsent
    by_contra hne
    rw [hresult, if_neg hne] at hread
    cases hread
  · intro heq
    rw [if_pos heq] at hresult
    refine ⟨_, j.request_sent, hresult, fun groups now => ?_⟩
    have hjoin : (groups.join j.group j.member j.topics now).2 = true := by
      rw [ConsumerGroupCoordinator.join, if_neg]
      rintro (h | h)
      · exact absurd j.groupSize.1 (by rw [h]; decide)
      · exact absurd j.memberSize.1 (by rw [h]; decide)
    simp only [handleJoinGroup, hresult, hjoin, not_true_eq_false, if_false]
    exact ⟨trivial, rfl⟩

/-- A member called "m1" joins group "g" with one topic: the broker looks for
    27953 topics. -/
theorem join_disagrees :
    ¬ LegalJoin.Agrees
      { group := [103]
        member := [109, 49]
        topics := [[116]]
        groupSize := by decide
        memberSize := by decide
        topicCount := by decide
        topicSizes := by decide
        fits := by decide } := by
  rintro ⟨request, hsent, hread, _⟩
  rw [LegalJoin.request_sent] at hsent
  cases hsent
  rw [LegalJoin.readJoinGroup_result, if_neg (by decide)] at hread
  cases hread

end MqBroker
