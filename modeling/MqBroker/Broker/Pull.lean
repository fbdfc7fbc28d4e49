import MqBroker.Broker.Parsers

/-!
# Pulling From the Leader

The pull of `ReplicationLoop` on a follower, for one partition:
`HandleReplicaFetch` on the leader, `ReplicationClient::Fetch` on the answer,
and the loop of `AppendReplica` behind it.

The answer of the leader holds as many messages as fit into a frame, in the
format of replica appends, and reads back as exactly these. The follower
stores them up to the first that fails. When none fails, it remembers the
offset behind the last message as its cursor, and reports the cursor to the
leader.

## Main definitions

* `fetchAnswer`, `parseFetched`: The payload of an answer.
* `Broker.handleReplicaFetch`: The handler.
* `Broker.pullStart`: Where a follower fetches from.
* `Broker.applyFetched`: What it does with the messages.

## Theorems

* `parseFetched_framed`, `parseFetched_answer`: An answer reads back.
* `handleReplicaFetch_ok`: What a fetch is answered with.
* `applyFetched_cases`: A follower stores a beginning of what it got.
* `applyFetched_reported`: It reports the offset behind its log.
-/

namespace MqBroker

open Traced

/-! ## The answer of the leader -/

/-- The messages that fit into an answer that has `size` bytes already. -/
def fetchTaken : Nat → List Message → List Message
  | _, [] => []
  | size, m :: rest =>
      let record := bodyFixedSize + m.key.length + m.value.length
      if record > maxPayloadBytes - 4 ∨ size > maxPayloadBytes - 4 - record then []
      else m :: fetchTaken (size + record) rest

/-- The payload of an answer: the number of messages, and the messages as in
    replica appends. -/
def fetchAnswer (messages : List Message) : Bytes :=
  put32 (UInt32.ofNat (fetchTaken 4 messages).length) ++ (fetchTaken 4 messages).flatMap encodeBody

/-- The part of `Fetch` that reads the answer. -/
def parseFetched (payload : Bytes) : Option (List Message) :=
  let count := (get32 payload 0).toNat
  if payload.length < 4 ∨ count > maxPayloadBytes / 18 then none
  else
    match parseReplicaMessages payload count 4 with
    | none => none
    | some (messages, position) => if position = payload.length then some messages else none

/-- `HandleReplicaFetch`. -/
def Broker.handleReplicaFetch (b : Broker) (partitionOk : Bool) (request : Request) : Response :=
  match (readReplicaFetch request).result with
  | .error status => makeResponse request status
  | .ok (requested, offset, maxBytes) =>
      match b.resolvePartition request.topic requested [] with
      | .error .unknownTopic => makeResponse request .unknownTopic
      | .error .outOfRange => makeResponse request .invalidOffset
      | .ok partition =>
          match b.storage.read partitionOk request.topic partition offset maxBytes with
          | .error .invalidOffset => makeResponse request .invalidOffset
          | .error _ => makeResponse request .storageError
          | .ok messages => makeResponse request .ok (fetchAnswer messages)

/-! ## The follower -/

/-- The key of `replication_offsets_` for what a follower has pulled. -/
def pullKey (topic : Bytes) (partition : UInt32) : Bytes := topic ++ 58 :: decimal partition.toNat

/-- The offset a follower fetches from: its cursor, or the end of its log as
    long as the cursor is 0. -/
def Broker.pullStart (b : Broker) (partitionOk : Bool) (topic : Bytes) (partition : UInt32) :
    Option UInt64 :=
  let cursor := (b.replicationOffsets.lookup (pullKey topic partition)).getD 0
  if cursor = 0 then b.storage.nextOffset partitionOk topic partition else some cursor

/-- The payload of a fetch. -/
def fetchPayload (partition : UInt32) (offset : UInt64) (maxBytes : UInt32) : Bytes :=
  put32 partition ++ (put64 offset ++ put32 maxBytes)

/-- What a follower does with the messages of an answer, with the offset it
    reports to the leader. -/
def Broker.applyFetched (b : Broker) (ios : Nat → StoreIo) (topic : Bytes) (partition : UInt32)
    (messages : List Message) : Broker × Option UInt64 :=
  match appendReplicas ios topic partition messages 0 b.storage, messages.getLast? with
  | (e, none), some last =>
      ({ b with
        storage := e
        replicationOffsets :=
          b.replicationOffsets.insert (pullKey topic partition) (last.offset + 1) },
        some (last.offset + 1))
  | (e, _), _ => ({ b with storage := e }, none)

section Answer

theorem fetchTaken_isPrefix (size : Nat) (messages : List Message) :
    fetchTaken size messages <+: messages := by
  induction messages generalizing size with
  | nil => exact List.prefix_rfl
  | cons m rest ih =>
      simp only [fetchTaken]
      split
      · exact List.nil_prefix
      · exact (List.prefix_cons_inj m).mpr (ih _)

/-- What is taken fits into a frame. -/
theorem fetchTaken_size (size : Nat) (messages : List Message) (hsize : size ≤ maxPayloadBytes) :
    size + ((fetchTaken size messages).flatMap encodeBody).length ≤ maxPayloadBytes := by
  induction messages generalizing size with
  | nil => exact hsize
  | cons m rest ih =>
      simp only [fetchTaken]
      split
      · exact hsize
      · rename_i hfits
        have hmax : maxPayloadBytes = 1048576 := rfl
        have hrest := ih (size + (bodyFixedSize + m.key.length + m.value.length)) (by omega)
        rw [List.flatMap_cons, List.length_append, length_encodeBody]
        omega

/-- An answer reads back as the messages that were put into it. -/
theorem parseFetched_framed (messages : List Message) (h : ∀ m ∈ messages, m.Framed) :
    parseFetched (fetchAnswer messages) = some (fetchTaken 4 messages) := by
  have hmax : maxPayloadBytes = 1048576 := rfl
  have htotal := fetchTaken_size 4 messages (by omega)
  have hcount := length_le_flatMap_encodeBody (fetchTaken 4 messages)
  have hread : (get32 (fetchAnswer messages) 0).toNat = (fetchTaken 4 messages).length := by
    rw [fetchAnswer, get32_put32]
    refine UInt32.toNat_ofNat_of_lt' ?_
    rw [UInt32.size]
    omega
  have hparse := parseReplicaMessages_encodeBody (fetchTaken 4 messages)
    (fun m hm => h m ((fetchTaken_isPrefix 4 messages).subset hm))
    (put32 (UInt32.ofNat (fetchTaken 4 messages).length))
  rw [length_put32] at hparse
  have hlength : 4 ≤ (fetchAnswer messages).length := by
    rw [fetchAnswer, List.length_append, length_put32]
    omega
  simp only [parseFetched, hread]
  rw [if_neg (by omega), fetchAnswer, hparse]
  simp only [if_true]

theorem parseFetched_answer (messages : List Message) (h : ∀ m ∈ messages, m.Storable) :
    parseFetched (fetchAnswer messages) = some (fetchTaken 4 messages) :=
  parseFetched_framed messages fun m hm => (h m hm).framed

/-- The first message is taken if its record and 8 more bytes fit into a frame:
    4 for the number of messages, and 4 that nothing uses. -/
theorem fetchTaken_head (messages : List Message) :
    (fetchTaken 4 messages).head?
      = messages.head?.filter (fun m => m.key.length + m.value.length ≤ maxPayloadBytes - 30) := by
  cases messages with
  | nil => rfl
  | cons m rest =>
      simp only [fetchTaken, List.head?_cons, Option.filter_some, decide_eq_true_eq]
      have hmax : maxPayloadBytes = 1048576 := rfl
      have hfixed : bodyFixedSize = 22 := rfl
      by_cases hsmall : m.key.length + m.value.length ≤ maxPayloadBytes - 30
      · rw [if_pos hsmall, if_neg (by omega), List.head?_cons]
      · rw [if_neg hsmall, if_pos (by omega), List.head?_nil]

end Answer

/-- A fetch that succeeds is answered with messages of the partition it asks
    for. -/
theorem handleReplicaFetch_ok {b : Broker} {partitionOk : Bool} {request : Request}
    (h : (b.handleReplicaFetch partitionOk request).status = .ok) :
    ∃ partition messages,
      b.resolvePartition request.topic (get32 request.payload 0) [] = .ok partition ∧
      b.storage.read partitionOk request.topic partition (get64 request.payload 4)
        (get32 request.payload 12) = .ok messages ∧
      (b.handleReplicaFetch partitionOk request).payload = fetchAnswer messages := by
  have hread : (readReplicaFetch request).result = .error .badRequest ∨
      (readReplicaFetch request).result = .ok (get32 request.payload 0, get64 request.payload 4,
        get32 request.payload 12) := by
    simp only [readReplicaFetch, result_check_bind, result_read32_bind, result_read64_bind,
      result_pure]
    split
    · split
      · exact Or.inr rfl
      · exact Or.inl rfl
    · exact Or.inl rfl
  unfold Broker.handleReplicaFetch at h ⊢
  rcases hread with hread | hread
  · rw [hread] at h
    cases h
  · simp only [hread] at h ⊢
    cases hresolve : b.resolvePartition request.topic (get32 request.payload 0) [] with
    | error err =>
        rw [hresolve] at h
        cases err <;> cases h
    | ok partition =>
        simp only [hresolve] at h ⊢
        cases hmessages : b.storage.read partitionOk request.topic partition
          (get64 request.payload 4) (get32 request.payload 12) with
        | error err =>
            rw [hmessages] at h
            cases err <;> cases h
        | ok messages => exact ⟨partition, messages, rfl, hmessages, rfl⟩

/-- A follower stores a beginning of what it got, at the next offsets, and
    reports an offset only when it has stored all of it. -/
theorem applyFetched_cases (b : Broker) (ios : Nat → StoreIo) (topic : Bytes) (partition : UInt32)
    (messages : List Message) :
    ∃ e cursors stored, (b.applyFetched ios topic partition messages).1
        = { b with storage := e, replicationOffsets := cursors } ∧
      e = (appendReplicas ios topic partition messages 0 b.storage).1 ∧
      stored <+: messages ∧ Extended b.storage e topic partition stored ∧
      Numbered (b.storage.partition topic partition).nextOffset stored ∧
      (∀ m ∈ stored, m.Storable) ∧
      ∀ offset, (b.applyFetched ios topic partition messages).2 = some offset →
        stored = messages ∧ ∃ last, messages.getLast? = some last ∧ offset = last.offset + 1 := by
  rcases appendReplicas_cases ios topic partition messages 0 b.storage with
    ⟨stored, hpre, hext, hnumbered, hstorable, hall⟩
  unfold Broker.applyFetched
  cases hloop : appendReplicas ios topic partition messages 0 b.storage with
  | mk e outcome =>
      rw [hloop] at hext hall
      cases outcome with
      | some err =>
          exact ⟨e, b.replicationOffsets, stored, rfl, rfl, hpre, hext, hnumbered, hstorable,
            fun _ h => nomatch h⟩
      | none =>
          cases hlast : messages.getLast? with
          | none =>
              exact ⟨e, b.replicationOffsets, stored, rfl, rfl, hpre, hext, hnumbered, hstorable,
                fun _ h => nomatch h⟩
          | some last =>
              refine ⟨e, _, stored, rfl, rfl, hpre, hext, hnumbered, hstorable, ?_⟩
              intro offset hoffset
              exact ⟨hall rfl, last, rfl, (Option.some.inj hoffset).symm⟩

/-- The offset that a follower reports is the one behind its log. -/
theorem applyFetched_reported {b : Broker} {ios : Nat → StoreIo} {topic : Bytes}
    {partition : UInt32} {messages : List Message} {offset : UInt64}
    (h : (b.applyFetched ios topic partition messages).2 = some offset) :
    offset = ((b.applyFetched ios topic partition messages).1.storage.partition topic
      partition).nextOffset := by
  rcases applyFetched_cases b ios topic partition messages with
    ⟨e, cursors, stored, heq, _, _, hext, hnumbered, _, hall⟩
  rcases hall offset h with ⟨rfl, last, hlast, rfl⟩
  have hpos : 0 < stored.length := by
    cases stored with
    | nil => cases hlast
    | cons => exact Nat.succ_pos _
  rw [List.getLast?_eq_getElem?, List.getElem?_eq_getElem (by omega)] at hlast
  rw [heq, ← Option.some.inj hlast, numbered_getElem _ stored hnumbered _ (by omega),
    hext.nextOffset, UInt64.add_assoc, show (1 : UInt64) = UInt64.ofNat 1 from rfl,
    ← UInt64.ofNat_add, Nat.sub_add_cancel hpos]

end MqBroker
