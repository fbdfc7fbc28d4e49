import MqBroker.Client.Requests
import MqBroker.Lib.CountedList
import MqBroker.Server.Answers

/-!
# Answers to a Client

What the SDK makes of the answers of a broker.

Each call has its own parser for the payload of a successful answer, with its
own checks and texts. What it should find there is what the handler has put
into the answer: topics with their numbers of partitions, the share of a member,
a committed offset, messages, or the places of messages. The numbers in front of
the lists are never too large for these parsers, but only because of bounds in
other places: few topics can be saved, and an answer with messages is not larger
than a frame.

## Main definitions

* `readMessageOr`, `readEntry`: One round of the loops.
* `MqProducer.listTopicsAnswer`, `MqProducer.produceAnswer`,
  `MqProducer.produceBatchAnswer`, `MqConsumer.syncGroupAnswer`,
  `MqConsumer.fetchGroupOffsetsAnswer`, `MqConsumer.pollAnswer`: The parsers.
* `SdkAnswer`: What an answer tells.
* `SdkAnswer.ReadFrom`: A client finds it in a payload.
* `Server.Tells`: A broker has put it there.

## Theorems

* `readEntries_encode`, `readPlaces_encode`: The loops of the parsers.
* `parseReplicaMessages_eq`: The loop of a follower and its result without the reads.
* `sdk_agrees`: Client and broker understand each other.
-/

namespace MqBroker

open Traced ConsumerGroupCoordinator Server

/-! ## Parsers -/

/-- One round of a loop over messages, with an error for each of its checks. -/
def readMessageOr {ε : Type} (header key value : ε) (payload : Bytes) (position : Nat) :
    Traced ε (Message × Nat) := do
  check (position + 18 ≤ payload.length) header
  let offset ← read64 payload position
  let timestamp ← read64 payload (position + 8)
  let keySize ← read16 payload (position + 16)
  check (position + 18 + keySize.toNat + 4 ≤ payload.length) key
  let keyBytes ← copy payload (position + 18) keySize.toNat
  let valueSize ← read32 payload (position + 18 + keySize.toNat)
  check (position + 18 + keySize.toNat + 4 + valueSize.toNat ≤ payload.length) value
  let valueBytes ← copy payload (position + 18 + keySize.toNat + 4) valueSize.toNat
  return ({ offset := offset, timestampMs := timestamp.toInt64, key := keyBytes,
            value := valueBytes },
    position + 18 + keySize.toNat + 4 + valueSize.toNat)

/-- One round of the loop over topics with numbers. -/
def readEntry {ε : Type} (error : ε) (payload : Bytes) (position : Nat) :
    Traced ε ((Bytes × UInt32) × Nat) := do
  check (position + 2 ≤ payload.length) error
  let size ← read16 payload position
  check (position + 2 + size.toNat + 4 ≤ payload.length) error
  let name ← copy payload (position + 2) size.toNat
  let number ← read32 payload (position + 2 + size.toNat)
  return ((name, number), position + 2 + size.toNat + 4)

/-- The loop of `listTopics` and `syncGroup` over topics with numbers, with the
    position behind them. -/
def readEntries {ε : Type} (error : ε) (payload : Bytes) :
    Nat → Nat → Traced ε (List (Bytes × UInt32) × Nat) :=
  readMany (readEntry error payload)

/-- The loop of `produceBatch` over the places of its messages. -/
def readPlaces (payload : Bytes) : Nat → Nat → Traced Unit (List (UInt32 × UInt64))
  | 0, _ => pure []
  | count + 1, position => do
      check (position + 12 ≤ payload.length) ()
      let partition ← read32 payload position
      let offset ← read64 payload (position + 4)
      let rest ← readPlaces payload count (position + 12)
      return (partition, offset) :: rest

/-- One round of the loop of `poll`: a message, and the position behind it. -/
def readMessage : Bytes → Nat → Traced String (Message × Nat) :=
  readMessageOr "invalid fetch response header" "invalid fetch response key"
    "invalid fetch response value"

/-- The loop of `poll`. -/
def readMessages (payload : Bytes) : Nat → Nat → Traced String (List Message × Nat) :=
  readMany (readMessage payload)

/-- The answer `listTopics` gets. A short one is an error without a text. -/
def MqProducer.listTopicsAnswer (payload : Bytes) :
    Traced (Option String) (List (Bytes × UInt32)) := do
  check (4 ≤ payload.length) none
  let count ← read32 payload 0
  check (count.toNat ≤ 100000) (some "too many topics")
  let topics ← readEntries (some "invalid topic response") payload count.toNat 4
  check (topics.2 = payload.length) (some "invalid topic response")
  return topics.1

/-- The answer `produce` gets. The call succeeds in any case, and tells the place
    only if the answer has the right size. -/
def MqProducer.produceAnswer (payload : Bytes) : Traced Unit (UInt32 × UInt64) := do
  check (payload.length = 12) ()
  let partition ← read32 payload 0
  let offset ← read64 payload 4
  return (partition, offset)

/-- The answer `produceBatch` gets for `count` messages. -/
def MqProducer.produceBatchAnswer (count : Nat) (payload : Bytes) :
    Traced Unit (List (UInt32 × UInt64)) := do
  check (4 ≤ payload.length) ()
  let found ← read32 payload 0
  check (found.toNat = count) ()
  readPlaces payload count 4

/-- The answer `syncGroup` gets. -/
def MqConsumer.syncGroupAnswer (payload : Bytes) : Traced Unit (List GroupAssignment) := do
  check (4 ≤ payload.length) ()
  let count ← read32 payload 0
  let assignments ← readEntries () payload count.toNat 4
  check (assignments.2 = payload.length) ()
  return assignments.1.map (fun entry => ⟨entry.1, entry.2⟩)

/-- The answer `fetchGroupOffsets` gets. -/
def MqConsumer.fetchGroupOffsetsAnswer (payload : Bytes) : Traced Unit UInt64 := do
  check (payload.length = 8) ()
  read64 payload 0

/-- The answer `poll` gets: the messages that it queues. A short answer is one
    without messages. -/
def MqConsumer.pollAnswer (payload : Bytes) : Traced String (List Message) :=
  if payload.length < 4 then pure []
  else do
    let count ← read32 payload 0
    if count = 0 then return []
    else do
      check (count.toNat ≤ 100000) "too many messages in fetch response"
      let messages ← readMessages payload count.toNat 4
      check (messages.2 = payload.length ∧ messages.1 ≠ []) "invalid fetch response length"
      return messages.1

/-! ## Values -/

/-- What an answer tells a client. -/
inductive SdkAnswer
  | topics (topics : List (Bytes × UInt32))
  | assignments (assignments : List GroupAssignment)
  | offset (offset : UInt64)
  | messages (messages : List Message)
  | place (place : UInt32 × UInt64)
  /-- For each message of a batch. -/
  | places (count : Nat) (places : List (UInt32 × UInt64))
deriving DecidableEq, Repr

/-- A client finds this in a payload. -/
def SdkAnswer.ReadFrom (payload : Bytes) : SdkAnswer → Prop
  | .topics found => (MqProducer.listTopicsAnswer payload).result = .ok found
  | .assignments found => (MqConsumer.syncGroupAnswer payload).result = .ok found
  | .offset found => (MqConsumer.fetchGroupOffsetsAnswer payload).result = .ok found
  | .messages found => (MqConsumer.pollAnswer payload).result = .ok found
  | .place found => (MqProducer.produceAnswer payload).result = .ok found
  | .places count found => (MqProducer.produceBatchAnswer count payload).result = .ok found

/-- `HandleProduce` answers with the place of the message it has stored, or with
    the one that the cache has for the request. -/
def Broker.Places (b : Broker) (env : ProduceEnv) (request : Request) (rate quota : Bool)
    (place : UInt32 × UInt64) : Prop :=
  (∃ m, (b.handleProduce env request rate quota).stored = some (place.1, m) ∧
    m.offset = place.2) ∨
  ∃ entry, (b.evictExpired env.cacheNow).idempotencyCache.lookup request.cacheKey = some entry ∧
    entry.response.payload = encodePlace place

/-- The places of the items of a batch: what the cache has, and for the others
    what they are answered with when it is their turn. -/
def Broker.ItemPlaces (calls : Nat → ProduceEnv) :
    List BatchEntry → Nat → Broker → List (UInt32 × UInt64) → Prop
  | [], _, _, [] => True
  | .cached response :: rest, index, b, place :: places =>
      response.payload = encodePlace place ∧ Broker.ItemPlaces calls rest (index + 1) b places
  | .pending single :: rest, index, b, place :: places =>
      b.Places (calls index) single false false place ∧
        Broker.ItemPlaces calls rest (index + 1)
          (b.handleProduce (calls index) single false false).broker places
  | _, _, _, _ => False

/-- A broker puts this into the answer to a request. -/
def Server.Tells (s : Server) (env : ServerEnv) (request : Request) : SdkAnswer → Prop
  | .topics topics => request.command = .listTopic ∧ topics = s.broker.listTopics
  | .assignments assignments =>
      request.command = .syncGroup ∧ ∃ group memberId,
        (readSyncGroup request.payload).result = .ok (group, memberId) ∧
        s.groups.sync group memberId = some assignments
  | .offset offset =>
      request.command = .offsetFetch ∧ ∃ group requested partition,
        (readOffsetFetch request.topic request.payload).result = .ok (group, requested) ∧
        s.broker.resolvePartition request.topic requested [] = .ok partition ∧
        offset = (s.committed group request.topic partition).getD 0
  | .messages messages =>
      request.command = .fetch ∧ ∃ call partition found,
        (readFetch request.payload).result = .ok call ∧
        s.broker.resolvePartition request.topic call.partition [] = .ok partition ∧
        s.broker.storage.read env.partitionOk request.topic partition
          (s.fetchStart call request.topic partition) call.maxBytes = .ok found ∧
        messages = fetchTaken 4 found
  | .place place =>
      request.command = .produce ∧ s.broker.Places env.produce request true true place
  | .places count places =>
      request.command = .produceBatch ∧ ∃ producerId first b entries,
        batchHeader request.payload = some (producerId, first, count) ∧
        s.broker.admitBatch env.batch request = (b, .ok entries) ∧
        Broker.ItemPlaces env.batch.calls entries 0 b places

/-- The commands whose answers the SDK looks into. -/
def answeredCommands : List Command :=
  [.listTopic, .syncGroup, .offsetFetch, .fetch, .produce, .produceBatch]

/-! ## Loops -/

/-- Topics read back, wherever they stand. -/
theorem readEntries_encode {ε : Type} (error : ε) (entries : List (Bytes × UInt32))
    (h : ∀ entry ∈ entries, entry.1.length ≤ 65535) (front : Bytes) :
    (readEntries error (front ++ entries.flatMap (fun entry => encodeEntry entry.1 entry.2))
        entries.length front.length).result
      = .ok (entries,
          (front ++ entries.flatMap (fun entry => encodeEntry entry.1 entry.2)).length) := by
  induction entries generalizing front with
  | nil =>
      rw [List.flatMap_nil, List.append_nil]
      rfl
  | cons entry entries ih =>
      rcases entry with ⟨name, number⟩
      have hname : name.length ≤ 65535 := h (name, number) List.mem_cons_self
      have hrest := ih (fun e he => h e (List.mem_cons_of_mem _ he))
        (front ++ encodeEntry name number)
      have hnext : (front ++ encodeEntry name number).length = front.length + (6 + name.length) := by
        rw [List.length_append, length_encodeEntry]
      rw [List.append_assoc, hnext] at hrest
      rw [List.flatMap_cons]
      generalize hback : entries.flatMap (fun entry => encodeEntry entry.1 entry.2) = back at hrest ⊢
      have hlength := length_encodeEntry name number
      have htotal : (front ++ (encodeEntry name number ++ back)).length
          = front.length + (6 + name.length) + back.length := by
        simp only [List.length_append, hlength]
        omega
      have hsize : (get16 (front ++ (encodeEntry name number ++ back)) front.length).toNat
          = name.length := by
        rw [← Nat.add_zero front.length, get16_middle _ _ _ _ (by omega), encodeEntry, get16_put16]
        exact UInt16.toNat_ofNat_of_lt' (Nat.lt_succ_of_le hname)
      have hcopy : substr (front ++ (encodeEntry name number ++ back)) (front.length + 2)
          name.length = name := by
        rw [substr_middle _ _ _ _ _ (by omega), encodeEntry,
          substr_append_right _ _ _ _ (by rw [length_put16]), length_put16, Nat.sub_self,
          substr_append_left _ _ _ rfl]
      have hnumber : get32 (front ++ (encodeEntry name number ++ back))
          (front.length + 2 + name.length) = number := by
        rw [Nat.add_assoc, get32_middle _ _ _ _ (by omega), encodeEntry,
          get32_append_right _ _ _ (by rw [length_put16]; omega), length_put16,
          get32_append_right _ _ _ (by omega),
          show 2 + name.length - 2 - name.length = 0 by omega, ← List.append_nil (put32 number),
          get32_put32]
      simp only [readEntries] at hrest
      simp only [List.length_cons, readEntries, readMany, readEntry, Traced.bind_assoc,
        Traced.pure_bind, result_check_bind, result_read16_bind, result_copy_bind,
        result_read32_bind, hsize, hcopy, hnumber]
      rw [if_pos (by omega), if_pos (by omega),
        show front.length + 2 + name.length + 4 = front.length + (6 + name.length) by omega,
        result_bind_of_ok hrest, result_pure]

/-- Places read back, wherever they stand. -/
theorem readPlaces_encode (places : List (UInt32 × UInt64)) (front : Bytes) :
    (readPlaces (front ++ places.flatMap encodePlace) places.length front.length).result
      = .ok places := by
  induction places generalizing front with
  | nil => rfl
  | cons place places ih =>
      have hrest := ih (front ++ encodePlace place)
      have hnext : (front ++ encodePlace place).length = front.length + 12 := by
        rw [List.length_append, length_encodePlace]
      rw [List.append_assoc, hnext] at hrest
      rw [List.flatMap_cons]
      generalize places.flatMap encodePlace = back at hrest ⊢
      rcases read_place front back place.1 place.2 with ⟨hpartition, hoffset⟩
      have htotal : (front ++ (encodePlace place ++ back)).length
          = front.length + 12 + back.length := by
        simp only [List.length_append, length_encodePlace]
        omega
      rw [← encodePlace] at hpartition hoffset
      simp only [List.length_cons, readPlaces, result_check_bind, result_read32_bind,
        result_read64_bind, hpartition, hoffset]
      rw [if_pos (by omega), result_bind_of_ok hrest]
      rfl

/-- What is parsed without the reads is what is parsed with them. -/
theorem parseReplicaMessage_eq {ε : Type} (payload : Bytes) (header key value : ε) (position : Nat) :
    parseReplicaMessage payload position =
      (readMessageOr header key value payload position).result.toOption := by
  have hkey : ∀ size, position + (18 + size) = position + 18 + size :=
    fun size => (Nat.add_assoc _ _ _).symm
  have hvalue : ∀ size, position + (22 + size) = position + 18 + size + 4 :=
    fun size => by omega
  simp only [parseReplicaMessage, readMessageOr, result_check_bind, result_read64_bind,
    result_read16_bind, result_copy_bind, result_read32_bind, result_pure, hkey, hvalue,
    Nat.add_zero, gt_iff_lt, ← not_le, ite_not]
  split_ifs
  · rfl
  · rfl
  · rfl
  · rfl

theorem parseReplicaMessages_eq {ε : Type} (payload : Bytes) (header key value : ε) (count position : Nat) :
    parseReplicaMessages payload count position =
      (readMany (readMessageOr header key value payload) count position).result.toOption := by
  induction count generalizing position with
  | zero => rfl
  | succ count ih =>
      rw [parseReplicaMessages, readMany, parseReplicaMessage_eq payload header key value]
      cases hfirst : (readMessageOr header key value payload position).result with
      | error e =>
          rw [result_bind_of_error hfirst]
          rfl
      | ok first =>
          rw [result_bind_of_ok hfirst]
          show (parseReplicaMessages payload count first.2 >>= _) = _
          rw [ih first.2]
          cases hrest :
              (readMany (readMessageOr header key value payload) count first.2).result with
          | error e =>
              rw [result_bind_of_error hrest]
              rfl
          | ok rest =>
              rw [result_bind_of_ok hrest]
              rfl

/-- A consumer reads messages as a follower does. -/
theorem readMessages_of_parse {payload : Bytes} {count position : Nat} {found : List Message × Nat}
    (h : parseReplicaMessages payload count position = some found) :
    (readMessages payload count position).result = .ok found := by
  rw [parseReplicaMessages_eq payload "invalid fetch response header" "invalid fetch response key"
    "invalid fetch response value"] at h
  unfold readMessages readMessage
  cases hread : (readMany (readMessageOr "invalid fetch response header"
      "invalid fetch response key" "invalid fetch response value" payload) count position).result with
  | error e =>
      rw [hread] at h
      cases h
  | ok read =>
      rw [hread] at h
      exact congrArg Except.ok (Option.some.inj h)

/-! ## Answers -/

section Answers

variable {entries : List (Bytes × UInt32)} (hsizes : ∀ entry ∈ entries, entry.1.length ≤ 65535)

include hsizes

/-- The part that the parsers of topics with numbers share. -/
theorem readEntries_answer {ε : Type} (error : ε) (hcount : entries.length < 2 ^ 32) :
    4 ≤ (encodeEntries entries).length ∧
      (get32 (encodeEntries entries) 0).toNat = entries.length ∧
      (readEntries error (encodeEntries entries) entries.length 4).result
        = .ok (entries, (encodeEntries entries).length) := by
  have hread := readEntries_encode error entries hsizes (put32 (UInt32.ofNat entries.length))
  rw [length_put32] at hread
  refine ⟨?_, ?_, hread⟩
  · rw [length_encodeEntries]
    exact Nat.le_add_right _ _
  · rw [encodeEntries, get32_put32, UInt32.toNat_ofNat', Nat.mod_eq_of_lt hcount]

theorem listTopicsAnswer_encode (hfew : entries.length ≤ 100000) :
    (MqProducer.listTopicsAnswer (encodeEntries entries)).result = .ok entries := by
  rcases readEntries_answer hsizes (some "invalid topic response") (by omega) with
    ⟨hlength, hcount, hread⟩
  simp only [MqProducer.listTopicsAnswer, result_check_bind, result_read32_bind, hcount]
  rw [if_pos hlength, if_pos hfew, result_bind_of_ok hread, result_check_bind, if_pos rfl,
    result_pure]

theorem syncGroupAnswer_encode (hcount : entries.length < 2 ^ 32) :
    (MqConsumer.syncGroupAnswer (encodeEntries entries)).result
      = .ok (entries.map (fun entry => ⟨entry.1, entry.2⟩)) := by
  rcases readEntries_answer hsizes () hcount with ⟨hlength, hcount, hread⟩
  simp only [MqConsumer.syncGroupAnswer, result_check_bind, result_read32_bind, hcount]
  rw [if_pos hlength, result_bind_of_ok hread, result_check_bind, if_pos rfl, result_pure]

end Answers

theorem fetchGroupOffsetsAnswer_put64 (offset : UInt64) :
    (MqConsumer.fetchGroupOffsetsAnswer (put64 offset)).result = .ok offset := by
  rw [MqConsumer.fetchGroupOffsetsAnswer, result_check_bind, if_pos (length_put64 offset)]
  change Except.ok (get64 (put64 offset) 0) = _
  rw [← List.append_nil (put64 offset), get64_put64]

theorem produceAnswer_encode (place : UInt32 × UInt64) :
    (MqProducer.produceAnswer (encodePlace place)).result = .ok place := by
  rcases read_place [] [] place.1 place.2 with ⟨hpartition, hoffset⟩
  rw [List.nil_append, List.append_nil, ← encodePlace, List.length_nil] at hpartition hoffset
  rw [MqProducer.produceAnswer, result_check_bind, if_pos (length_encodePlace place),
    result_read32_bind, result_read64_bind, hpartition, hoffset]
  rfl

theorem produceBatchAnswer_encode (places : List (UInt32 × UInt64))
    (hcount : places.length < 2 ^ 32) :
    (MqProducer.produceBatchAnswer places.length
      (put32 (UInt32.ofNat places.length) ++ places.flatMap encodePlace)).result = .ok places := by
  have hread := readPlaces_encode places (put32 (UInt32.ofNat places.length))
  rw [length_put32] at hread
  rw [MqProducer.produceBatchAnswer, result_check_bind, if_pos, result_read32_bind, get32_put32,
    result_check_bind, UInt32.toNat_ofNat', Nat.mod_eq_of_lt hcount, if_pos rfl, hread]
  rw [List.length_append, length_put32]
  exact Nat.le_add_right _ _

/-- An answer is not larger than a frame, and a message takes 22 bytes or more,
    so there are never too many for the consumer. -/
theorem pollAnswer_fetchAnswer (messages : List Message) (h : ∀ m ∈ messages, m.Framed) :
    (MqConsumer.pollAnswer (fetchAnswer messages)).result = .ok (fetchTaken 4 messages) := by
  have hmax : maxPayloadBytes = 1048576 := rfl
  have htotal := fetchTaken_size 4 messages (by omega)
  have hmany := length_le_flatMap_encodeBody (fetchTaken 4 messages)
  have hparse := parseReplicaMessages_encodeBody (fetchTaken 4 messages)
    (fun m hm => h m ((fetchTaken_isPrefix 4 messages).subset hm))
    (put32 (UInt32.ofNat (fetchTaken 4 messages).length))
  have hlength : 4 ≤ (fetchAnswer messages).length := by
    rw [fetchAnswer, List.length_append, length_put32]
    omega
  have hread : get32 (fetchAnswer messages) 0 = UInt32.ofNat (fetchTaken 4 messages).length := by
    rw [fetchAnswer, get32_put32]
  rw [length_put32] at hparse
  rw [MqConsumer.pollAnswer, if_neg (by omega), result_read32_bind, hread]
  generalize htaken : fetchTaken 4 messages = taken at *
  have hcount : (UInt32.ofNat taken.length).toNat = taken.length := by
    rw [UInt32.toNat_ofNat', Nat.mod_eq_of_lt (by omega)]
  by_cases hnone : taken = []
  · rw [hnone]
    rfl
  · rw [if_neg, result_check_bind, hcount, if_pos (by omega), fetchAnswer, htaken,
      result_bind_of_ok (readMessages_of_parse hparse), result_check_bind, if_pos ⟨rfl, hnone⟩]
    · rfl
    · intro hzero
      rw [hzero] at hcount
      exact hnone (List.length_eq_zero_iff.mp hcount.symm)

/-! ## Producing -/

/-- A success of the append names the message that was stored. -/
theorem settleProduce_place {b : Broker} {env : ProduceEnv} {request : Request}
    {partition : UInt32} {body : ProduceBody}
    (h : (b.settleProduce env request partition body).response.status = .ok) :
    ∃ m, (b.settleProduce env request partition body).stored = some (partition, m) ∧
      (b.settleProduce env request partition body).response.payload
        = encodePlace (partition, m.offset) := by
  simp only [Broker.settleProduce] at h ⊢
  rcases store_append_cases b.storage env.io env.timestampMs request.topic partition body.key
    body.value with ⟨hstored, hresult⟩ | ⟨_, err, hresult⟩
  · rw [newMessage_stored hstored]
    by_cases hsync : env.io.io.syncOk = true
    · rw [if_pos hsync] at hresult
      simp only [hresult] at h ⊢
      split at h
      · rename_i hacknowledged
        rw [if_pos hacknowledged]
        exact ⟨_, rfl, rfl⟩
      · cases h
    · rw [if_neg hsync] at hresult
      simp only [hresult] at h
      cases h
  · simp only [hresult] at h
    cases h

/-- A success in front of the append comes from the cache. -/
theorem admitProduce_cached {b : Broker} {env : ProduceEnv} {request : Request} {rate quota : Bool}
    {response : Response} (h : (b.admitProduce env request rate quota).2 = .error response)
    (hok : response.status = .ok) :
    ∃ entry, (b.evictExpired env.cacheNow).idempotencyCache.lookup request.cacheKey = some entry ∧
      response.payload = entry.response.payload := by
  by_cases hmeta : request.hasFlag flagProducerMetadata = true
  · rcases admitProduce_cases b env request rate quota hmeta with
      ⟨_, r, hr, hstatus⟩ | ⟨entry, hentry, hanswer⟩ | ⟨_, _, ⟨r, hr, hstatus⟩ | ⟨_, _, hr⟩⟩
    · rw [hr] at h
      cases h
      exact absurd hok hstatus
    · rw [hanswer] at h
      cases h
      exact ⟨entry, hentry, rfl⟩
    · rw [hr] at h
      cases h
      exact absurd hok hstatus
    · rw [hr] at h
      cases h
  · exfalso
    simp only [Broker.admitProduce, hmeta, Bool.false_eq_true, if_false] at h
    split at h
    · cases h
      cases hok
    · split at h
      · cases h
        cases hok
      · rcases (routeProduce_cases b env request quota 0).2 with ⟨r, hr, hstatus⟩ | ⟨_, _, hr⟩
        · rw [hr] at h
          cases h
          exact hstatus hok
        · rw [hr] at h
          cases h

theorem Broker.Sound.handleProduce_places {b : Broker} (h : b.Sound) {env : ProduceEnv}
    {request : Request} {rate quota : Bool}
    (hok : (b.handleProduce env request rate quota).response.status = .ok) :
    ∃ place, (b.handleProduce env request rate quota).response.payload = encodePlace place ∧
      b.Places env request rate quota place := by
  have hevicted := h.evictExpired env.cacheNow
  rw [Broker.handleProduce] at hok ⊢
  cases hverdict : b.admitProduce env request rate quota with
  | mk d outcome =>
      cases outcome with
      | error response =>
          rw [hverdict] at hok
          rcases admitProduce_cached (by rw [hverdict]) hok with ⟨entry, hentry, hpayload⟩
          rcases hevicted.cached _ entry hentry with ⟨_, place, hplace⟩
          exact ⟨place, hpayload.trans hplace, Or.inr ⟨entry, hentry, hplace⟩⟩
      | ok admitted =>
          rcases admitted with ⟨partition, body⟩
          rw [hverdict] at hok
          rcases settleProduce_place hok with ⟨m, hstored, hpayload⟩
          refine ⟨(partition, m.offset), hpayload, Or.inl ⟨m, ?_, rfl⟩⟩
          rw [Broker.handleProduce, hverdict]
          exact hstored

/-- The answer to a batch has the places of its items, in their order. -/
theorem Broker.Sound.produceEntries_places {b : Broker} (h : b.Sound) (request : Request)
    (calls : Nat → ProduceEnv) (entries : List BatchEntry) (index : Nat) (payload : Bytes)
    (stored : List (Request × UInt32 × Message))
    (hcached : ∀ response, .cached response ∈ entries → response.HasPlace)
    (hok : (Broker.produceEntries request calls entries index b payload stored).response.status
      = .ok) :
    ∃ places, places.length = entries.length ∧
      (Broker.produceEntries request calls entries index b payload stored).response.payload
        = payload ++ places.flatMap encodePlace ∧
      Broker.ItemPlaces calls entries index b places := by
  induction entries generalizing index b payload stored with
  | nil => exact ⟨[], rfl, (List.append_nil payload).symm, trivial⟩
  | cons entry rest ih =>
      have hrest := fun response hmem => hcached response (List.mem_cons_of_mem entry hmem)
      cases entry with
      | cached response =>
          rcases hcached response List.mem_cons_self with ⟨_, place, hplace⟩
          simp only [Broker.produceEntries] at hok ⊢
          rcases ih h (index + 1) _ stored hrest hok with ⟨places, hlength, hpayload, hplaces⟩
          refine ⟨place :: places, congrArg Nat.succ hlength, ?_, hplace, hplaces⟩
          rw [hpayload, hplace, List.append_assoc, List.flatMap_cons]
      | pending single =>
          simp only [Broker.produceEntries] at hok ⊢
          split at hok
          · rename_i hstatus
            exact absurd hok hstatus
          · rename_i hstatus
            rcases h.handleProduce_places (not_not.mp hstatus) with ⟨place, hplace, hplaced⟩
            rcases ih (h.handleProduce (calls index) single false false).1 (index + 1) _ _ hrest
              hok with ⟨places, hlength, hpayload, hplaces⟩
            rw [if_neg hstatus]
            refine ⟨place :: places, congrArg Nat.succ hlength, ?_, hplaced, hplaces⟩
            rw [hpayload, hplace, List.append_assoc, List.flatMap_cons]

theorem Broker.Sound.handleProduceBatch_places {b : Broker} (h : b.Sound) {env : BatchEnv}
    {request : Request} (hok : (b.handleProduceBatch env request).response.status = .ok) :
    ∃ producerId first count d entries places,
      batchHeader request.payload = some (producerId, first, count) ∧ places.length = count ∧
      b.admitBatch env request = (d, .ok entries) ∧ Broker.ItemPlaces env.calls entries 0 d places ∧
      (b.handleProduceBatch env request).response.payload
        = put32 (UInt32.ofNat places.length) ++ places.flatMap encodePlace := by
  have hevicted := h.evictExpired env.lookupNow
  rw [Broker.handleProduceBatch] at hok ⊢
  cases hverdict : b.admitBatch env request with
  | mk d outcome =>
      rcases admitBatch_cases b env request with
        ⟨_, status, herror, hstatus⟩ | ⟨producerId, first, count, hheader, hquota, houtcome⟩
      · rw [hverdict] at hok herror
        simp only at herror
        rw [herror] at hok
        exact absurd hok hstatus
      · rw [hverdict] at hok hquota houtcome
        rcases houtcome with ⟨status, herror, hstatus⟩ | ⟨entries, rest, hentries, hprepared⟩
        · simp only at herror
          rw [herror] at hok
          exact absurd hok hstatus
        · simp only at hentries
          rw [hentries] at hok
          have hlength : entries.length = count := by
            rw [← lookupBatch_length request producerId (b.evictExpired env.lookupNow) count first]
            exact prepareBatch_length request producerId hprepared
          rcases (hevicted.quota hquota).produceEntries_places request env.calls entries 0 _ []
            (fun response hmem => hevicted.lookupBatch request producerId count first
              (prepareBatch_cached request producerId _ _ _ _ hprepared hmem)) hok with
            ⟨places, hplaces, hpayload, hitems⟩
          refine ⟨producerId, first, count, d, entries, places, hheader, hplaces.trans hlength,
            by rw [hentries], hitems, ?_⟩
          rw [hentries, hplaces]
          exact hpayload

/-! ## All answers -/

section Tells

variable {s : Server} {env : ServerEnv} {request : Request}

/-- The readers of the requests of consumers do not fail with `kOk`. -/
theorem readSyncGroup_error {payload : Bytes} {status : Status}
    (h : (readSyncGroup payload).result = .error status) : status ≠ .ok := by
  simp only [readSyncGroup, result_check_bind, result_read16_bind, result_copy_bind,
    result_pure] at h
  split at h
  · split at h
    · split at h
      · cases h
      · cases h
        decide
    · cases h
      decide
  · cases h
    decide

theorem readOffsetFetch_error {topic payload : Bytes} {status : Status}
    (h : (readOffsetFetch topic payload).result = .error status) : status ≠ .ok := by
  simp only [readOffsetFetch, result_check_bind, result_read16_bind, result_read32_bind,
    result_copy_bind, result_pure] at h
  split at h
  · split at h
    · cases h
    · cases h
      decide
  · cases h
    decide

theorem readFetch_error {payload : Bytes} {status : Status}
    (h : (readFetch payload).result = .error status) : status ≠ .ok := by
  rw [readFetch, result_check_bind] at h
  split at h
  · rw [result_read32_bind] at h
    split at h
    · simp only [result_read64_bind, result_read32_bind, result_check_bind, result_pure] at h
      split at h
      · cases h
      · cases h
        decide
    · simp only [result_read16_bind, result_read64_bind, result_read32_bind, result_copy_bind,
        result_check_bind, result_pure] at h
      split at h
      · split at h
        · split at h
          · cases h
          · cases h
            decide
        · cases h
          decide
      · cases h
        decide
  · cases h
    decide

theorem handleListTopic_tells (h : s.broker.Sound)
    (hok : (s.handleListTopic request).status = .ok) :
    (MqProducer.listTopicsAnswer (s.handleListTopic request).payload).result
      = .ok s.broker.listTopics := by
  unfold Server.handleListTopic at hok ⊢
  split at hok
  · cases hok
  · rename_i hplain
    rw [if_neg hplain]
    refine listTopicsAnswer_encode (fun entry hentry => ?_) ?_
    · have hname := isValidTopicName_length
        (h.topics entry.1 entry.2 ((mem_listTopics _ _ _).mp hentry)).1
      omega
    · have hfew := h.few
      rw [maxTopics] at hfew
      rw [length_listTopics]
      omega

theorem handleSyncGroup_tells (h : s.groups.Bounded)
    (hok : (s.handleSyncGroup request).status = .ok) :
    ∃ group memberId assignments,
      (readSyncGroup request.payload).result = .ok (group, memberId) ∧
      s.groups.sync group memberId = some assignments ∧
      (MqConsumer.syncGroupAnswer (s.handleSyncGroup request).payload).result
        = .ok assignments := by
  unfold Server.handleSyncGroup at hok ⊢
  cases hread : (readSyncGroup request.payload).result with
  | error status =>
      rw [hread] at hok
      exact absurd hok (readSyncGroup_error hread)
  | ok call =>
      rcases call with ⟨group, memberId⟩
      simp only [hread] at hok
      cases hsync : s.groups.sync group memberId with
      | none =>
          rw [hsync] at hok
          cases hok
      | some assignments =>
          refine ⟨group, memberId, assignments, rfl, hsync, ?_⟩
          rcases h.balanced.sync_hand hsync with ⟨members, hgroup, hid, rfl⟩
          have hmany := hand_length_bound h hgroup hid
          simp only [hsync]
          refine (syncGroupAnswer_encode (fun entry hentry => ?_) ?_).trans ?_
          · rcases List.mem_map.mp hentry with ⟨a, ha, rfl⟩
            rcases mem_hand ha with ⟨count, hcount, _⟩
            exact (h.counts a.topic count hcount).1.trans (by decide)
          · rw [List.length_map]
            omega
          · rw [List.map_map]
            exact congrArg Except.ok (List.map_id _)

theorem handleOffsetFetch_tells (hok : (s.handleOffsetFetch request).status = .ok) :
    ∃ group requested partition,
      (readOffsetFetch request.topic request.payload).result = .ok (group, requested) ∧
      s.broker.resolvePartition request.topic requested [] = .ok partition ∧
      (MqConsumer.fetchGroupOffsetsAnswer (s.handleOffsetFetch request).payload).result
        = .ok ((s.committed group request.topic partition).getD 0) := by
  unfold Server.handleOffsetFetch at hok ⊢
  cases hread : (readOffsetFetch request.topic request.payload).result with
  | error status =>
      rw [hread] at hok
      exact absurd hok (readOffsetFetch_error hread)
  | ok call =>
      rcases call with ⟨group, requested⟩
      simp only [hread] at hok
      cases hresolve : s.broker.resolvePartition request.topic requested [] with
      | error e =>
          rw [hresolve] at hok
          cases e <;> cases hok
      | ok partition =>
          refine ⟨group, requested, partition, rfl, hresolve, ?_⟩
          simp only [hresolve]
          exact fetchGroupOffsetsAnswer_put64 _

theorem handleFetch_tells (h : s.broker.Sound) {partitionOk : Bool}
    (hok : (s.handleFetch partitionOk request).status = .ok) :
    ∃ call partition found,
      (readFetch request.payload).result = .ok call ∧
      s.broker.resolvePartition request.topic call.partition [] = .ok partition ∧
      s.broker.storage.read partitionOk request.topic partition
        (s.fetchStart call request.topic partition) call.maxBytes = .ok found ∧
      (MqConsumer.pollAnswer (s.handleFetch partitionOk request).payload).result
        = .ok (fetchTaken 4 found) := by
  unfold Server.handleFetch at hok ⊢
  cases hread : (readFetch request.payload).result with
  | error status =>
      rw [hread] at hok
      exact absurd hok (readFetch_error hread)
  | ok call =>
      simp only [hread] at hok ⊢
      cases hresolve : s.broker.resolvePartition request.topic call.partition [] with
      | error e =>
          rw [hresolve] at hok
          cases e <;> cases hok
      | ok partition =>
          simp only [hresolve] at hok ⊢
          cases hfound : s.broker.storage.read partitionOk request.topic partition
            (s.fetchStart call request.topic partition) call.maxBytes with
          | error e =>
              rw [hfound] at hok
              cases e <;> cases hok
          | ok found =>
              refine ⟨call, partition, found, rfl, hresolve, hfound, ?_⟩
              exact pollAnswer_fetchAnswer found (h.logs.read_framed hfound)

/-- The counters do not matter. -/
theorem tells_counted (s : Server) (command : Command) (env : ServerEnv) (request : Request)
    (answer : SdkAnswer) :
    (s.counted command).Tells env request answer ↔ s.Tells env request answer := by
  unfold Server.counted Server.countRequest
  split <;> rfl

/-- A client finds in a successful answer what the handler has put there. -/
theorem dispatch_tells (h : s.Sound) (hcommand : request.command ∈ answeredCommands)
    (hok : (s.dispatch env request).2.status = .ok) :
    ∃ answer, s.Tells env request answer ∧ answer.ReadFrom (s.dispatch env request).2.payload := by
  simp only [answeredCommands, List.mem_cons, List.not_mem_nil, or_false] at hcommand
  rcases hcommand with hcommand | hcommand | hcommand | hcommand | hcommand | hcommand
  all_goals simp only [Server.dispatch, hcommand] at hok ⊢
  · exact ⟨.topics _, ⟨hcommand, rfl⟩, handleListTopic_tells h.broker hok⟩
  · rcases handleSyncGroup_tells h.groups hok with
      ⟨group, memberId, assignments, hread, hsync, hanswer⟩
    exact ⟨.assignments assignments, ⟨hcommand, group, memberId, hread, hsync⟩, hanswer⟩
  · rcases handleOffsetFetch_tells hok with ⟨group, requested, partition, hread, hresolve, hanswer⟩
    exact ⟨.offset _, ⟨hcommand, group, requested, partition, hread, hresolve, rfl⟩, hanswer⟩
  · rcases handleFetch_tells h.broker hok with ⟨call, partition, found, hread, hresolve, hfound,
      hanswer⟩
    exact ⟨.messages _, ⟨hcommand, call, partition, found, hread, hresolve, hfound, rfl⟩, hanswer⟩
  · rcases h.broker.handleProduce_places hok with ⟨place, hpayload, hplace⟩
    refine ⟨.place place, ⟨hcommand, hplace⟩, ?_⟩
    rw [SdkAnswer.ReadFrom, hpayload]
    exact produceAnswer_encode place
  · rcases h.broker.handleProduceBatch_places hok with
      ⟨producerId, first, count, d, entries, places, hheader, rfl, hverdict, hitems, hpayload⟩
    refine ⟨.places places.length places, ⟨hcommand, producerId, first, d, entries, hheader, hverdict,
      hitems⟩, ?_⟩
    have hmany := batchHeader_count hheader
    rw [SdkAnswer.ReadFrom, hpayload]
    exact produceBatchAnswer_encode places (by omega)

end Tells

/-- Client and broker understand each other. Every call within the limits of the
    protocol gets to its handler as it was meant, and whatever has happened to
    the broker, a successful answer that can be sent tells the client what the
    handler has put into it. -/
theorem sdk_agrees :
    (∀ c : LegalCall, c.Arrives) ∧
    ∀ (config : ServerConfig) (events : List ServerEvent) (env : ServerEnv)
      (request normalized : Request),
      ((Server.fresh config).run events).Admits request normalized →
      normalized.command ∈ answeredCommands →
      (((Server.fresh config).run events).handle env request).2.status = .ok →
      (∀ frame,
        encodeResponse (((Server.fresh config).run events).handle env request).2.raw = .ok frame →
        decodeResponse frame
          = .ok (((Server.fresh config).run events).handle env request).2.raw) ∧
      ∃ answer, ((Server.fresh config).run events).Tells env normalized answer ∧
        answer.ReadFrom (((Server.fresh config).run events).handle env request).2.payload := by
  refine ⟨LegalCall.arrives, fun config events env request normalized hadmits hcommand hok => ?_⟩
  have hsound := run_sound config events
  generalize (Server.fresh config).run events = s at hadmits hok hsound ⊢
  refine ⟨fun frame hframe => ?_, ?_⟩
  · have hfits := (encodeResponse_iff _).mp ⟨frame, hframe⟩
    let legal : LegalResponse :=
      { (s.handle env request).2.raw with current := hfits.version, payloadSize := hfits.size }
    have hlegal : encodeResponse legal.toRawResponse = .ok frame := hframe
    rw [encodeResponse_legal legal] at hlegal
    rw [← Except.ok.inj hlegal]
    exact decodeResponse_responseFrame legal
  · rw [hadmits.handle_eq] at hok ⊢
    rcases dispatch_tells (hsound.counted request.command) hcommand hok with
      ⟨answer, htells, hread⟩
    exact ⟨answer, (tells_counted s request.command env normalized answer).mp htells, hread⟩

/-- A consumer with a token polls, and a consumer without one asks for the
    offset of its group in a topic that was just created. -/
theorem sdk_agrees_example :
    LegalCall.Arrives
      { token := [116, 107]
        requestId := 7
        call := .poll [116] [103] 0 5
        tokenSize := by decide
        legal := (by decide : LegalName [116] ∧ LegalName [103])
        fits := fun request h => by
          cases h
          decide } ∧
    ∃ answer, ((Server.fresh {}).run [createLarge [116]]).Tells {}
        { command := .offsetFetch, topic := [116], payload := [0, 1, 103, 0, 0, 0, 3] } answer ∧
      answer.ReadFrom (((Server.fresh {}).run [createLarge [116]]).handle {}
        { command := .offsetFetch, topic := [116], payload := [0, 1, 103, 0, 0, 0, 3] }).2.payload := by
  refine ⟨sdk_agrees.1 _, ?_⟩
  rcases exec_createLarge (Server.Sound.fresh {}) rfl rfl
    (⟨by decide, by decide, by decide⟩ : ValidTopic [116] maxPartitions) rfl (by decide) with
    ⟨hopened, htoken, hbroker, _⟩
  have hadmits : ((Server.fresh {}).run [createLarge [116]]).Admits
      { command := .offsetFetch, topic := [116], payload := [0, 1, 103, 0, 0, 0, 3] }
      { command := .offsetFetch, topic := [116], payload := [0, 1, 103, 0, 0, 0, 3] } :=
    admits_plain hopened htoken rfl (show Command.offsetFetch ∉ _ by decide)
      (show (0 : UInt16) ∈ clientFlags by decide)
  refine (sdk_agrees.2 {} [createLarge [116]] {} _ _ hadmits (show Command.offsetFetch ∈ _ by decide)
    ?_).2
  have hresolve : ((Server.fresh {}).run [createLarge [116]]).broker.resolvePartition [116] 3 []
      = .ok 3 := by
    rw [show (Server.fresh {}).run [createLarge [116]] = (createLarge [116]).exec (Server.fresh {})
      from rfl, hbroker]
    decide +kernel
  have hread : (readOffsetFetch [116] [0, 1, 103, 0, 0, 0, 3]).result = .ok ([103], 3) := by
    decide
  have hcounted : (((Server.fresh {}).run [createLarge [116]]).counted .offsetFetch).broker
      = ((Server.fresh {}).run [createLarge [116]]).broker := rfl
  rw [hadmits.handle_eq]
  simp only [Server.dispatch, Server.handleOffsetFetch, hread, hcounted, hresolve]
  rfl

end MqBroker
