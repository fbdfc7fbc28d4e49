import MqBroker.Client.Call

/-!
# Requests of a Client

What the SDK sends for each of its calls, and what the handler makes of it.
Joining a group is somewhere else, since what a consumer sends there is not
what the broker reads.

Client and broker were written apart from each other, each with its own helpers
for numbers and lengths. What they have to agree on is where every field stands.
A fetch of a consumer names its group, and is told from one without a group by
its size alone.

A batch is parsed with the cache at hand: a message that was produced before is
skipped, and any other becomes a request of its own.

## Main definitions

* `MqProducer.createTopic`, `MqProducer.produce`, `MqProducer.produceBatch`: The
  requests of a producer.
* `MqConsumer.syncGroup`, `MqConsumer.fetchGroupOffsets`, `MqConsumer.poll`,
  `MqConsumer.commit`: The requests of a consumer.
* `SdkCall.Legal`: Arguments within the limits of the protocol.
* `SdkCall.Understood`: A handler reads what the client has meant.
* `LegalCall.Arrives`: A call gets from the client to its handler.

## Theorems

* `prepareBatch_items`: A batch reads back.
* `readFetch_poll`, `readCommitOffset_commit` and so on: So does everything
  else.
* `LegalCall.arrives`: Every legal call arrives.
-/

namespace MqBroker

open Traced

/-! ## Producers -/

/-- `AckMode`. -/
inductive AckMode
  | zero
  | one
  | all
deriving DecidableEq, Repr

/-- The bits of an acknowledgement level. -/
def AckMode.bits : AckMode → UInt16
  | .zero => 0
  | .one => 1
  | .all => 2

/-- A message as it is handed to a producer. -/
structure ProducerMessage where
  key : Bytes := []
  value : Bytes
deriving DecidableEq, Repr

/-- What `produce` and `produceBatch` want of a message. -/
def ProducerMessage.sendable (m : ProducerMessage) : Bool :=
  m.key.length ≤ 65535 && m.value ≠ [] && m.value.length ≤ 1024 * 1024

namespace MqProducer

/-- The request of `createTopic`. -/
def createTopic (name : Bytes) (partitions : UInt32) : Request :=
  { command := .createTopic, topic := name, payload := put32 partitions }

/-- The request of `produce`, if it gets that far. -/
def produce (topic : Bytes) (producerId sequence : UInt64) (message : ProducerMessage)
    (ack : AckMode) : Option Request :=
  if ¬ message.sendable ∨ sequence.toNat = 2 ^ 64 - 1 then none
  else some
    { command := .produce
      topic := topic
      flags := flagProducerMetadata ||| ack.bits
      payload := put64 producerId ++ (put64 sequence ++ (put32 0xFFFFFFFF ++
        encodeItem message.key message.value)) }

/-- The request of `produceBatch`, if it gets that far. -/
def produceBatch (topic : Bytes) (producerId sequence : UInt64) (messages : List ProducerMessage)
    (ack : AckMode) : Option Request :=
  if messages = [] ∨ messages.length > 10000 ∨ sequence.toNat > 2 ^ 64 - 1 - messages.length then
    none
  else if messages.any (fun message => ¬ message.sendable) then none
  else some
    { command := .produceBatch
      topic := topic
      flags := flagProducerMetadata ||| ack.bits
      payload := put64 producerId ++ (put64 sequence ++ (put32 (UInt32.ofNat messages.length) ++
        messages.flatMap (fun message => encodeItem message.key message.value))) }

end MqProducer

/-! ## Consumers -/

namespace MqConsumer

/-- The request of `syncGroup`. -/
def syncGroup (group memberId : Bytes) : Option Request :=
  if group = [] then none
  else some
    { command := .syncGroup
      payload := put16 (UInt16.ofNat group.length) ++ (group ++
        (put16 (UInt16.ofNat memberId.length) ++ memberId)) }

/-- The request of `fetchGroupOffsets`. -/
def fetchGroupOffsets (topic group : Bytes) (partition : UInt32) : Option Request :=
  if topic = [] ∨ group = [] then none
  else some
    { command := .offsetFetch
      topic := topic
      payload := put16 (UInt16.ofNat group.length) ++ (group ++ put32 partition) }

/-- The request of `poll`, when no message is left from the last one. -/
def poll (topic group : Bytes) (partition : UInt32) (nextOffset : UInt64) : Request :=
  { command := .fetch
    topic := topic
    payload := put32 partition ++ (put16 (UInt16.ofNat group.length) ++ (group ++
      (put64 nextOffset ++ put32 (1024 * 1024)))) }

/-- The request of `commit`. -/
def commit (topic group : Bytes) (partition : UInt32) (offset : UInt64) : Request :=
  { command := .commitOffset
    topic := topic
    payload := put16 (UInt16.ofNat group.length) ++ (group ++ (put32 partition ++ put64 offset)) }

end MqConsumer

/-! ## Calls -/

/-- A call of the SDK, with what the client knows when it is made. -/
inductive SdkCall
  | createTopic (name : Bytes) (partitions : UInt32)
  | produce (topic : Bytes) (producerId sequence : UInt64) (message : ProducerMessage)
      (ack : AckMode)
  | produceBatch (topic : Bytes) (producerId sequence : UInt64) (messages : List ProducerMessage)
      (ack : AckMode)
  | syncGroup (group memberId : Bytes)
  | fetchGroupOffsets (topic group : Bytes) (partition : UInt32)
  | poll (topic group : Bytes) (partition : UInt32) (nextOffset : UInt64)
  | commit (topic group : Bytes) (partition : UInt32) (offset : UInt64)
deriving DecidableEq, Repr

/-- The request of a call. -/
def SdkCall.request : SdkCall → Option Request
  | .createTopic name partitions => some (MqProducer.createTopic name partitions)
  | .produce topic producerId sequence message ack =>
      MqProducer.produce topic producerId sequence message ack
  | .produceBatch topic producerId sequence messages ack =>
      MqProducer.produceBatch topic producerId sequence messages ack
  | .syncGroup group memberId => MqConsumer.syncGroup group memberId
  | .fetchGroupOffsets topic group partition => MqConsumer.fetchGroupOffsets topic group partition
  | .poll topic group partition nextOffset =>
      some (MqConsumer.poll topic group partition nextOffset)
  | .commit topic group partition offset => some (MqConsumer.commit topic group partition offset)

/-- A name within the limits of the protocol. -/
def LegalName (name : Bytes) : Prop := 1 ≤ name.length ∧ name.length ≤ 65535

instance (name : Bytes) : Decidable (LegalName name) :=
  inferInstanceAs (Decidable (1 ≤ name.length ∧ name.length ≤ 65535))

/-- The arguments of a call are within the limits of the protocol. -/
def SdkCall.Legal : SdkCall → Prop
  | .createTopic name _ => LegalName name
  | .produce topic _ sequence message _ =>
      LegalName topic ∧ message.sendable = true ∧ sequence.toNat < 2 ^ 64 - 1
  | .produceBatch topic _ sequence messages _ =>
      LegalName topic ∧ (∀ message ∈ messages, message.sendable = true) ∧ 1 ≤ messages.length ∧
        messages.length ≤ 10000 ∧ sequence.toNat + messages.length ≤ 2 ^ 64 - 1
  | .syncGroup group memberId => LegalName group ∧ LegalName memberId
  | .fetchGroupOffsets topic group _ => LegalName topic ∧ LegalName group
  | .poll topic group _ _ => LegalName topic ∧ LegalName group
  | .commit topic group _ _ => LegalName topic ∧ LegalName group

/-! ## Handlers -/

/-- What `HandleProduce` takes out of a request is a message of a producer, for
    the partition of its key. -/
structure Request.Produces (r : Request) (topic : Bytes) (producerId sequence : UInt64)
    (message : ProducerMessage) (ack : AckMode) : Prop where
  command : r.command = .produce
  topic : r.topic = topic
  metadata : r.hasFlag flagProducerMetadata = true
  ack : r.flags &&& ackMask = ack.bits
  producerId : get64 r.payload 0 = producerId
  sequence : get64 r.payload 8 = sequence
  body : parseProduce r.payload 16 = some ⟨autoPartition, message.key, message.value⟩

/-- The entries of a batch are what the cache has, and for the other messages
    the requests that produce them. -/
def EntriesOf (topic : Bytes) (producerId : UInt64) (ack : AckMode) :
    List (Option Response) → UInt64 → List ProducerMessage → List BatchEntry → Prop
  | [], _, [], [] => True
  | some found :: rest, sequence, _ :: messages, .cached response :: entries =>
      response = found ∧ EntriesOf topic producerId ack rest (sequence + 1) messages entries
  | none :: rest, sequence, message :: messages, .pending single :: entries =>
      single.Produces topic producerId sequence message ack ∧
        EntriesOf topic producerId ack rest (sequence + 1) messages entries
  | _, _, _, _ => False

/-- The handler of a request reads what the client has meant. -/
def SdkCall.Understood (b : Broker) (r : Request) : SdkCall → Prop
  | .createTopic name partitions =>
      r.command = .createTopic ∧ r.topic = name ∧ (readCreateTopic r.payload).result = .ok partitions
  | .produce topic producerId sequence message ack =>
      r.Produces topic producerId sequence message ack
  | .produceBatch topic producerId sequence messages ack =>
      r.command = .produceBatch ∧ r.topic = topic ∧ r.hasFlag flagProducerMetadata = true ∧
        r.flags &&& ackMask = ack.bits ∧
        batchHeader r.payload = some (producerId, sequence, messages.length) ∧
        -- Whatever the cache has for the messages of the batch.
        ∀ found : List (Option Response), found.length = messages.length →
          (∀ response, some response ∈ found → response.payload.length = 12) →
          ∃ entries newBytes, prepareBatch r producerId found sequence 20 0
              = .ok (entries, r.payload.length, newBytes) ∧
            EntriesOf topic producerId ack found sequence messages entries
  | .syncGroup group memberId =>
      r.command = .syncGroup ∧ (readSyncGroup r.payload).result = .ok (group, memberId)
  | .fetchGroupOffsets topic group partition =>
      r.command = .offsetFetch ∧ r.topic = topic ∧
        (readOffsetFetch r.topic r.payload).result = .ok (group, partition)
  | .poll topic group partition nextOffset =>
      r.command = .fetch ∧ r.topic = topic ∧ (readFetch r.payload).result
        = .ok { partition := partition, group := group, offset := nextOffset, maxBytes := 1048576 }
  | .commit topic group partition offset =>
      r.command = .commitOffset ∧ r.topic = topic ∧
        (b.readCommitOffset r.topic r.payload).result
          = (b.resolveStep topic partition).result.map (fun resolved => (group, resolved, offset))

/-- A client makes a call within the limits of the protocol. -/
structure LegalCall where
  token : Bytes := []
  requestId : UInt64
  call : SdkCall
  tokenSize : token.length ≤ 65535
  legal : call.Legal
  /-- The request fits in a frame. -/
  fits : ∀ request, call.request = some request →
    (clientPayload token request.payload).length ≤ maxPayloadBytes

/-- The client sends a request, the request gets through its frame, and every
    broker with the token of the client hands it to the handler that it is for,
    which reads what the client has meant. -/
def LegalCall.Arrives (c : LegalCall) : Prop :=
  ∃ request sent frame, c.call.request = some request ∧
    clientCall c.token c.requestId request = some sent ∧
    encodeRequest sent.raw = .ok frame ∧ decodeRequest frame = .ok sent.raw ∧
    Command.ofCode sent.raw.command = some sent.command ∧ sent.raw.request sent.command = sent ∧
    ∀ b : Broker, ∃ normalized, b.acceptRequest c.token sent = some normalized ∧
      normalized.requestId = c.requestId ∧ c.call.Understood b normalized

/-! ## Reading -/

theorem sendable_iff (m : ProducerMessage) : m.sendable = true ↔
    m.key.length ≤ 65535 ∧ m.value ≠ [] ∧ m.value.length ≤ 1024 * 1024 := by
  rw [ProducerMessage.sendable, Bool.and_eq_true, Bool.and_eq_true, decide_eq_true_eq,
    decide_eq_true_eq, decide_eq_true_eq, and_assoc]

/-- The flags of a producer tell of its metadata and its acknowledgement
    level. -/
theorem producerFlags (ack : AckMode) :
    flagProducerMetadata ||| ack.bits ∈ clientFlags ∧
      (flagProducerMetadata ||| ack.bits) &&& flagProducerMetadata ≠ 0 ∧
      (flagProducerMetadata ||| ack.bits) &&& ackMask = ack.bits ∧
      ((flagProducerMetadata ||| ack.bits) &&& ~~~flagProducerMetadata ||| flagProducerMetadata)
        = flagProducerMetadata ||| ack.bits := by
  cases ack <;> decide

/-- A message behind its metadata is read as that message. -/
theorem produces_of_payload {r : Request} {topic : Bytes} {producerId sequence : UInt64}
    {message : ProducerMessage} {ack : AckMode} (hmessage : message.sendable = true)
    (hcommand : r.command = .produce) (htopic : r.topic = topic)
    (hflags : r.flags = flagProducerMetadata ||| ack.bits)
    (hpayload : r.payload = put64 producerId ++ (put64 sequence ++ (put32 autoPartition ++
      encodeItem message.key message.value))) :
    r.Produces topic producerId sequence message ack := by
  rcases (sendable_iff message).mp hmessage with ⟨hkey, _, hvalue⟩
  rcases producerFlags ack with ⟨_, hmetadata, hack, _⟩
  have hfront : (put64 producerId ++ put64 sequence).length = 16 := by
    rw [List.length_append, length_put64, length_put64]
  refine ⟨hcommand, htopic, ?_, ?_, ?_, ?_, ?_⟩
  · rw [Request.hasFlag, hflags, decide_eq_true_eq]
    exact hmetadata
  · rw [hflags, hack]
  · rw [hpayload, get64_put64]
  · rw [hpayload, get64_append_right _ _ _ (by rw [length_put64]), length_put64, Nat.sub_self,
      get64_put64]
  · rw [hpayload, ← List.append_assoc, ← hfront]
    exact parseProduce_encodeItem _ (by omega) (by omega) autoPartition

/-- The request that a broker makes of an item of a batch is that of a producer
    with one message. -/
theorem singleRequest_produces {r : Request} {ack : AckMode} {message : ProducerMessage}
    (hmessage : message.sendable = true) (hflags : r.flags = flagProducerMetadata ||| ack.bits)
    (producerId sequence : UInt64) :
    (singleRequest r producerId sequence message.key message.value).Produces r.topic producerId
      sequence message ack := by
  refine produces_of_payload hmessage rfl rfl ?_ rfl
  rw [singleRequest, hflags]
  exact (producerFlags ack).2.2.2

theorem length_items (messages : List ProducerMessage) :
    (messages.flatMap (fun message => encodeItem message.key message.value)).length
      = (messages.map (fun message => 6 + message.key.length + message.value.length)).sum := by
  simp only [List.length_flatMap, length_encodeItem]

/-- The items of a batch read back, whatever the cache has for them. The bytes
    that are new do not run over, since they are all in the payload. -/
theorem prepareBatch_items {r : Request} {ack : AckMode} (producerId : UInt64)
    (messages : List ProducerMessage) (hmessages : ∀ message ∈ messages, message.sendable = true)
    (hflags : r.flags = flagProducerMetadata ||| ack.bits) (found : List (Option Response))
    (hfound : found.length = messages.length)
    (hsizes : ∀ response, some response ∈ found → response.payload.length = 12)
    (sequence : UInt64) (front : Bytes) (newBytes : UInt64)
    (hpayload : r.payload = front ++ messages.flatMap
      (fun message => encodeItem message.key message.value))
    (hroom : newBytes.toNat + (messages.map (fun message =>
      6 + message.key.length + message.value.length)).sum < 2 ^ 64) :
    ∃ entries total, prepareBatch r producerId found sequence front.length newBytes
        = .ok (entries, r.payload.length, total) ∧
      EntriesOf r.topic producerId ack found sequence messages entries := by
  induction messages generalizing found sequence front newBytes with
  | nil =>
      rw [List.length_eq_zero_iff.mp hfound]
      refine ⟨[], newBytes, ?_, trivial⟩
      rw [prepareBatch, hpayload, List.flatMap_nil, List.append_nil]
  | cons message messages ih =>
      rcases found with _ | ⟨first, found⟩
      · cases hfound
      · have hmessage := hmessages message List.mem_cons_self
        rcases (sendable_iff message).mp hmessage with ⟨hkey, _, hvalue⟩
        rw [List.flatMap_cons] at hpayload
        rw [List.map_cons, List.sum_cons] at hroom
        have hitem : parseItem r.payload front.length = some (message.key, message.value,
            (front ++ encodeItem message.key message.value).length) := by
          rw [hpayload, parseItem_encodeItem front (by omega) (by omega), List.length_append,
            length_encodeItem]
        have hrest := fun newBytes' => ih (fun m hm => hmessages m (List.mem_cons_of_mem _ hm)) found
          (Nat.succ.inj hfound) (fun x hx => hsizes x (List.mem_cons_of_mem _ hx)) (sequence + 1)
          (front ++ encodeItem message.key message.value) newBytes'
          (by rw [hpayload, List.append_assoc])
        cases first with
        | some response =>
            rcases hrest newBytes (by omega) with ⟨entries, total, hprepared, hentries⟩
            refine ⟨.cached response :: entries, total, ?_, rfl, hentries⟩
            simp only [prepareBatch, hitem]
            rw [if_neg (not_not.mpr (hsizes response List.mem_cons_self)), hprepared]
            rfl
        | none =>
            have hbytes : (UInt64.ofNat (message.key.length + message.value.length)).toNat
                = message.key.length + message.value.length := by
              rw [UInt64.toNat_ofNat', Nat.mod_eq_of_lt (by omega)]
            have hlimit : (UInt64.ofNat (2 ^ 64 - 1)
                - UInt64.ofNat (message.key.length + message.value.length)).toNat
                = 2 ^ 64 - 1 - (message.key.length + message.value.length) := by
              rw [UInt64.toNat_sub_of_le, hbytes]
              · rfl
              · rw [UInt64.le_iff_toNat_le, hbytes]
                change _ ≤ 2 ^ 64 - 1
                omega
            have hsum : (newBytes + UInt64.ofNat (message.key.length + message.value.length)).toNat
                = newBytes.toNat + (message.key.length + message.value.length) := by
              rw [UInt64.toNat_add, hbytes, Nat.mod_eq_of_lt (by omega)]
            rcases hrest _ (by rw [hsum]; omega) with ⟨entries, total, hprepared, hentries⟩
            refine ⟨.pending (singleRequest r producerId sequence message.key message.value)
              :: entries, total, ?_, singleRequest_produces hmessage hflags producerId sequence,
              hentries⟩
            simp only [prepareBatch, hitem]
            rw [if_neg (by rw [gt_iff_lt, UInt64.lt_iff_toNat_lt, hlimit]; omega), hprepared]
            rfl

/-- A name with its length in front reads back. -/
theorem read_name {name : Bytes} (h : LegalName name) (rest : Bytes) :
    (get16 (put16 (UInt16.ofNat name.length) ++ (name ++ rest)) 0).toNat = name.length ∧
      substr (put16 (UInt16.ofNat name.length) ++ (name ++ rest)) 2 name.length = name := by
  constructor
  · rw [get16_put16]
    exact UInt16.toNat_ofNat_of_lt' (Nat.lt_succ_of_le h.2)
  · rw [substr_append_right _ _ _ _ (by rw [length_put16]), length_put16, Nat.sub_self,
      substr_append_left _ _ _ rfl]

/-- What stands behind a name. -/
theorem drop_name (name rest : Bytes) :
    ∃ front : Bytes, front.length = 2 + name.length ∧
      put16 (UInt16.ofNat name.length) ++ (name ++ rest) = front ++ rest :=
  ⟨put16 (UInt16.ofNat name.length) ++ name, by rw [List.length_append, length_put16],
    (List.append_assoc _ _ _).symm⟩

theorem readSyncGroup_syncGroup {group memberId : Bytes} (hgroup : LegalName group)
    (hmember : LegalName memberId) :
    (readSyncGroup (put16 (UInt16.ofNat group.length) ++ (group ++
      (put16 (UInt16.ofNat memberId.length) ++ memberId)))).result = .ok (group, memberId) := by
  rcases read_name hgroup (put16 (UInt16.ofNat memberId.length) ++ memberId) with ⟨hsize, hcopy⟩
  rcases read_name hmember [] with ⟨hsize', hcopy'⟩
  rcases drop_name group (put16 (UInt16.ofNat memberId.length) ++ memberId) with
    ⟨front, hfront, hsplit⟩
  rw [List.append_nil] at hsize' hcopy'
  generalize hpayload : put16 (UInt16.ofNat group.length) ++ (group ++
    (put16 (UInt16.ofNat memberId.length) ++ memberId)) = payload at hsize hcopy hsplit ⊢
  have hlength : payload.length = 4 + group.length + memberId.length := by
    rw [hsplit, List.length_append, List.length_append, hfront, length_put16]
    omega
  have hmemberSize : (get16 payload (2 + group.length)).toNat = memberId.length := by
    rw [hsplit, get16_append_right _ _ _ (by omega), hfront, Nat.sub_self, hsize']
  have hmemberCopy : substr payload (4 + group.length) memberId.length = memberId := by
    rw [hsplit, substr_append_right _ _ _ _ (by omega), hfront,
      show 4 + group.length - (2 + group.length) = 2 by omega, hcopy']
  rcases hgroup with ⟨hgroup, _⟩
  rcases hmember with ⟨hmember, _⟩
  simp only [readSyncGroup, result_check_bind, result_read16_bind, result_copy_bind, result_pure,
    hsize, hcopy, hmemberSize, hmemberCopy]
  rw [if_pos (by omega), if_pos (by omega), if_pos ⟨by omega, by omega, by omega⟩]

theorem readOffsetFetch_fetchGroupOffsets {topic group : Bytes} (htopic : LegalName topic)
    (hgroup : LegalName group) (partition : UInt32) :
    (readOffsetFetch topic (put16 (UInt16.ofNat group.length) ++ (group ++
      put32 partition))).result = .ok (group, partition) := by
  rcases read_name hgroup (put32 partition) with ⟨hsize, hcopy⟩
  rcases drop_name group (put32 partition) with ⟨front, hfront, hsplit⟩
  generalize hpayload : put16 (UInt16.ofNat group.length) ++ (group ++ put32 partition) = payload
    at hsize hcopy hsplit ⊢
  have hlength : payload.length = 6 + group.length := by
    rw [hsplit, List.length_append, hfront, length_put32]
    omega
  have hpartition : get32 payload (2 + group.length) = partition := by
    rw [hsplit, get32_append_right _ _ _ (by omega), hfront, Nat.sub_self,
      ← List.append_nil (put32 partition), get32_put32]
  have hnamed : topic ≠ [] := List.ne_nil_of_length_pos htopic.1
  rcases hgroup with ⟨hgroup, _⟩
  simp only [readOffsetFetch, result_check_bind, result_read16_bind, result_read32_bind,
    result_copy_bind, result_pure, hsize, hcopy, hpartition]
  rw [if_pos ⟨hnamed, by omega⟩, if_pos ⟨by omega, hlength⟩]

/-- A group takes at least one byte, so a fetch with a group is never as long as
    one without. -/
theorem readFetch_poll {group : Bytes} (hgroup : LegalName group) (partition : UInt32)
    (offset : UInt64) (maxBytes : UInt32) (hmax : maxBytes ≠ 0) :
    (readFetch (put32 partition ++ (put16 (UInt16.ofNat group.length) ++ (group ++
      (put64 offset ++ put32 maxBytes))))).result
      = .ok { partition := partition, group := group, offset := offset, maxBytes := maxBytes } := by
  rcases read_name hgroup (put64 offset ++ put32 maxBytes) with ⟨hsize, hcopy⟩
  rcases drop_name group (put64 offset ++ put32 maxBytes) with ⟨front, hfront, hsplit⟩
  generalize hbehind : put16 (UInt16.ofNat group.length) ++ (group ++
    (put64 offset ++ put32 maxBytes)) = behind at hsize hcopy hsplit ⊢
  have hlength : (put32 partition ++ behind).length = 18 + group.length := by
    rw [hsplit, List.length_append, List.length_append, List.length_append, hfront, length_put32,
      length_put64, length_put32]
    omega
  have hgroupSize : (get16 (put32 partition ++ behind) 4).toNat = group.length := by
    rw [get16_append_right _ _ _ (by rw [length_put32]), length_put32, Nat.sub_self, hsize]
  have hgroupCopy : substr (put32 partition ++ behind) 6 group.length = group := by
    rw [substr_append_right _ _ _ _ (by rw [length_put32]; omega), length_put32, hcopy]
  have hoffset : get64 (put32 partition ++ behind) (6 + group.length) = offset := by
    rw [get64_append_right _ _ _ (by rw [length_put32]; omega), length_put32, hsplit,
      get64_append_right _ _ _ (by omega), hfront,
      show 6 + group.length - 4 - (2 + group.length) = 0 by omega, get64_put64]
  have hbytes : get32 (put32 partition ++ behind) (14 + group.length) = maxBytes := by
    rw [get32_append_right _ _ _ (by rw [length_put32]; omega), length_put32, hsplit,
      get32_append_right _ _ _ (by omega), hfront,
      get32_append_right _ _ _ (by rw [length_put64]; omega), length_put64,
      show 14 + group.length - 4 - (2 + group.length) - 8 = 0 by omega,
      ← List.append_nil (put32 maxBytes), get32_put32]
  rcases hgroup with ⟨hgroup, _⟩
  rw [readFetch, result_check_bind, if_pos (by omega), result_read32_bind, get32_put32,
    if_neg (by omega)]
  simp only [result_check_bind, result_read16_bind, result_copy_bind, result_read64_bind,
    result_read32_bind, result_pure, hgroupSize, hgroupCopy, hoffset, hbytes]
  rw [if_pos (by omega), if_pos ⟨by omega, hlength⟩, if_pos hmax]

/-- A commit is read up to the partition, which the broker has to resolve. -/
theorem readCommitOffset_commit (b : Broker) {topic group : Bytes} (htopic : LegalName topic)
    (hgroup : LegalName group) (partition : UInt32) (offset : UInt64) :
    (b.readCommitOffset topic (put16 (UInt16.ofNat group.length) ++ (group ++
      (put32 partition ++ put64 offset)))).result
      = (b.resolveStep topic partition).result.map (fun resolved => (group, resolved, offset)) := by
  rcases read_name hgroup (put32 partition ++ put64 offset) with ⟨hsize, hcopy⟩
  rcases drop_name group (put32 partition ++ put64 offset) with ⟨front, hfront, hsplit⟩
  generalize hpayload : put16 (UInt16.ofNat group.length) ++ (group ++
    (put32 partition ++ put64 offset)) = payload at hsize hcopy hsplit ⊢
  have hlength : payload.length = 14 + group.length := by
    rw [hsplit, List.length_append, List.length_append, hfront, length_put32, length_put64]
    omega
  have hpartition : get32 payload (2 + group.length) = partition := by
    rw [hsplit, get32_append_right _ _ _ (by omega), hfront, Nat.sub_self, get32_put32]
  have hoffset : get64 payload (2 + group.length + 4) = offset := by
    rw [hsplit, get64_append_right _ _ _ (by omega), hfront, Nat.add_sub_cancel_left,
      get64_append_right _ _ _ (by rw [length_put32]), length_put32, Nat.sub_self,
      ← List.append_nil (put64 offset), get64_put64]
  have hnamed : topic ≠ [] := List.ne_nil_of_length_pos htopic.1
  rcases hgroup with ⟨hgroup, _⟩
  simp only [Broker.readCommitOffset, result_takeBytes_bind, result_read16_bind, Nat.zero_add,
    hsize, result_check_bind, result_read32_bind, result_read64_bind, hpartition, hoffset]
  rw [if_pos (by omega), if_pos (by omega), if_pos (by omega), if_pos (by omega),
    if_pos (by omega), if_pos ⟨by omega, hnamed⟩, result_bind]
  cases (b.resolveStep topic partition).result with
  | error status => rfl
  | ok resolved =>
      change Except.ok (substr payload 2 group.length, resolved, offset) = _
      rw [hcopy]
      rfl

theorem readCreateTopic_createTopic (partitions : UInt32) :
    (readCreateTopic (put32 partitions)).result = .ok partitions := by
  rw [readCreateTopic, result_check_bind, if_pos (length_put32 partitions)]
  change Except.ok (get32 (put32 partitions) 0) = _
  rw [← List.append_nil (put32 partitions), get32_put32]

/-! ## Arriving -/

/-- What the requests of all calls have in common. -/
structure Request.FromClient (r : Request) : Prop where
  version : r.version = currentVersion
  command : r.command ∉ [.replicaFetch, .replicaAppend, .replicaVote]
  flags : r.flags ∈ clientFlags
  topicSize : r.topic.length ≤ 65535

/-- The header of a batch reads back. -/
theorem batchHeader_produceBatch (producerId : UInt64) {sequence : UInt64} {count : Nat}
    (items : Bytes) (hpos : 1 ≤ count) (hmany : count ≤ 10000)
    (hsequence : sequence.toNat + count ≤ 2 ^ 64 - 1) :
    batchHeader (put64 producerId ++ (put64 sequence ++ (put32 (UInt32.ofNat count) ++ items)))
      = some (producerId, sequence, count) := by
  generalize hpayload : put64 producerId ++ (put64 sequence ++
    (put32 (UInt32.ofNat count) ++ items)) = payload
  have hlength : payload.length = 20 + items.length := by
    rw [← hpayload]
    simp only [List.length_append, length_put64, length_put32]
    omega
  have hid : get64 payload 0 = producerId := by
    rw [← hpayload, get64_put64]
  have hfirst : get64 payload 8 = sequence := by
    rw [← hpayload, get64_append_right _ _ _ (by rw [length_put64]), length_put64, Nat.sub_self,
      get64_put64]
  have hcount : (get32 payload 16).toNat = count := by
    rw [← hpayload, get32_append_right _ _ _ (by rw [length_put64]; omega), length_put64,
      get32_append_right _ _ _ (by rw [length_put64]), length_put64, Nat.sub_self, get32_put32,
      UInt32.toNat_ofNat', Nat.mod_eq_of_lt (by omega)]
  simp only [batchHeader, hid, hfirst, hcount]
  rw [if_neg (by omega)]

/-- A legal batch is sent. -/
theorem produceBatch_sent {topic : Bytes} {producerId sequence : UInt64}
    {messages : List ProducerMessage} {ack : AckMode}
    (h : (SdkCall.produceBatch topic producerId sequence messages ack).Legal) :
    MqProducer.produceBatch topic producerId sequence messages ack
      = some
        { command := .produceBatch
          topic := topic
          flags := flagProducerMetadata ||| ack.bits
          payload := put64 producerId ++ (put64 sequence ++ (put32 (UInt32.ofNat messages.length) ++
            messages.flatMap (fun message => encodeItem message.key message.value))) } := by
  rcases h with ⟨_, hmessages, hpos, hmany, hsequence⟩
  have hsome : messages ≠ [] := List.ne_nil_of_length_pos hpos
  have hall : ¬ (messages.any (fun message => ¬ message.sendable) = true) := by
    intro hany
    rcases List.any_eq_true.mp hany with ⟨message, hmem, hbad⟩
    exact of_decide_eq_true hbad (hmessages message hmem)
  rw [MqProducer.produceBatch, if_neg, if_neg hall]
  rintro (hnil | hlong | hlate)
  · exact hsome hnil
  · omega
  · omega

/-- A batch that fits in a frame is read as the messages of the producer. -/
theorem produceBatch_understood {topic : Bytes} {producerId sequence : UInt64}
    {messages : List ProducerMessage} {ack : AckMode} {r : Request}
    (h : (SdkCall.produceBatch topic producerId sequence messages ack).Legal)
    (hcommand : r.command = .produceBatch) (htopic : r.topic = topic)
    (hflags : r.flags = flagProducerMetadata ||| ack.bits)
    (hpayload : r.payload = put64 producerId ++ (put64 sequence ++
      (put32 (UInt32.ofNat messages.length) ++
        messages.flatMap (fun message => encodeItem message.key message.value))))
    (hfits : r.payload.length ≤ maxPayloadBytes) (b : Broker) :
    (SdkCall.produceBatch topic producerId sequence messages ack).Understood b r := by
  rcases h with ⟨_, hmessages, hpos, hmany, hsequence⟩
  rcases producerFlags ack with ⟨_, hmetadata, hack, _⟩
  have hfront : (put64 producerId ++ (put64 sequence ++
      put32 (UInt32.ofNat messages.length))).length = 20 := by
    simp only [List.length_append, length_put64, length_put32]
  have hheader : batchHeader r.payload = some (producerId, sequence, messages.length) := by
    rw [hpayload]
    exact batchHeader_produceBatch producerId _ hpos hmany hsequence
  rw [hpayload] at hfits
  simp only [List.length_append, length_put64, length_put32, length_items, maxPayloadBytes] at hfits
  refine ⟨hcommand, htopic, ?_, ?_, hheader, fun found hfound hsizes => ?_⟩
  · rw [Request.hasFlag, hflags, decide_eq_true_eq]
    exact hmetadata
  · rw [hflags, hack]
  · have hitems := prepareBatch_items producerId messages hmessages hflags found hfound hsizes
      sequence (put64 producerId ++ (put64 sequence ++ put32 (UInt32.ofNat messages.length))) 0
      (by rw [hpayload, List.append_assoc, List.append_assoc]) (by rw [UInt64.toNat_zero]; omega)
    rw [hfront, htopic] at hitems
    exact hitems

/-- A legal call is a request, and its handler understands it. -/
theorem SdkCall.Legal.understood {call : SdkCall} (h : call.Legal)
    (hfits : ∀ request, call.request = some request → request.payload.length ≤ maxPayloadBytes) :
    ∃ request, call.request = some request ∧ request.FromClient ∧
      ∀ (requestId : UInt64) (b : Broker),
        call.Understood b { request with requestId := requestId } := by
  cases call with
  | createTopic name partitions =>
      refine ⟨_, rfl, ⟨rfl, (by decide : Command.createTopic ∉ _), ?_, h.2⟩, fun requestId b =>
        ⟨rfl, rfl, readCreateTopic_createTopic partitions⟩⟩
      exact (by decide : (0 : UInt16) ∈ clientFlags)
  | produce topic producerId sequence message ack =>
      rcases h with ⟨htopic, hmessage, hsequence⟩
      refine ⟨_, if_neg (not_or.mpr ⟨not_not.mpr hmessage, by omega⟩),
        ⟨rfl, (by decide : Command.produce ∉ _), (producerFlags ack).1, htopic.2⟩,
        fun requestId b => ?_⟩
      exact produces_of_payload hmessage rfl rfl rfl rfl
  | produceBatch topic producerId sequence messages ack =>
      have hsent := produceBatch_sent h
      have hsize := hfits _ hsent
      refine ⟨_, hsent, ⟨rfl, (by decide : Command.produceBatch ∉ _), (producerFlags ack).1, h.1.2⟩,
        fun requestId b => ?_⟩
      refine produceBatch_understood h rfl rfl rfl rfl ?_ b
      exact hsize
  | syncGroup group memberId =>
      refine ⟨_, if_neg (List.ne_nil_of_length_pos h.1.1), ⟨rfl, (by decide : Command.syncGroup ∉ _),
        (by decide : (0 : UInt16) ∈ clientFlags), Nat.zero_le _⟩, fun requestId b =>
        ⟨rfl, readSyncGroup_syncGroup h.1 h.2⟩⟩
  | fetchGroupOffsets topic group partition =>
      rcases h with ⟨htopic, hgroup⟩
      refine ⟨_, if_neg (not_or.mpr ⟨List.ne_nil_of_length_pos htopic.1,
        List.ne_nil_of_length_pos hgroup.1⟩), ⟨rfl, (by decide : Command.offsetFetch ∉ _),
        (by decide : (0 : UInt16) ∈ clientFlags), htopic.2⟩, fun requestId b =>
        ⟨rfl, rfl, readOffsetFetch_fetchGroupOffsets htopic hgroup partition⟩⟩
  | poll topic group partition nextOffset =>
      rcases h with ⟨htopic, hgroup⟩
      refine ⟨_, rfl, ⟨rfl, (by decide : Command.fetch ∉ _),
        (by decide : (0 : UInt16) ∈ clientFlags), htopic.2⟩, fun requestId b =>
        ⟨rfl, rfl, readFetch_poll hgroup partition nextOffset _ (by decide)⟩⟩
  | commit topic group partition offset =>
      rcases h with ⟨htopic, hgroup⟩
      refine ⟨_, rfl, ⟨rfl, (by decide : Command.commitOffset ∉ _),
        (by decide : (0 : UInt16) ∈ clientFlags), htopic.2⟩, fun requestId b =>
        ⟨rfl, rfl, readCommitOffset_commit b htopic hgroup partition offset⟩⟩

/-- The token goes in front of the payload, and nothing else changes. -/
theorem clientCall_sent {token : Bytes} (htoken : token.length ≤ 65535) (requestId : UInt64)
    (request : Request) :
    ∃ sent, clientCall token requestId request = some sent ∧ sent.version = request.version ∧
      sent.topic = request.topic ∧ sent.payload = clientPayload token request.payload := by
  rw [clientCall]
  split
  · rename_i hnone
    refine ⟨_, rfl, rfl, rfl, ?_⟩
    rw [clientPayload, if_pos hnone]
  · exact ⟨_, if_neg (by omega), rfl, rfl, rfl⟩

theorem length_clientPayload (token payload : Bytes) :
    payload.length ≤ (clientPayload token payload).length := by
  rw [clientPayload]
  split
  · exact le_rfl
  · rw [List.length_append, List.length_append]
    omega

/-- Every legal call arrives. -/
theorem LegalCall.arrives (c : LegalCall) : c.Arrives := by
  rcases c.legal.understood (fun request hrequest =>
    (length_clientPayload c.token request.payload).trans (c.fits request hrequest)) with
    ⟨request, hrequest, hclient, hunderstood⟩
  rcases clientCall_sent c.tokenSize c.requestId request with
    ⟨sent, hsent, hversion, htopic, hpayload⟩
  rcases request_frame sent (hversion.trans hclient.version) (htopic ▸ hclient.topicSize)
    (hpayload ▸ c.fits request hrequest) with ⟨frame, hencode, hdecode, hcode, hback⟩
  exact ⟨request, sent, frame, hrequest, hsent, hencode, hdecode, hcode, hback, fun b =>
    ⟨_, acceptRequest_clientCall b hclient.version hclient.command hclient.flags hsent, rfl,
      hunderstood c.requestId b⟩⟩

end MqBroker
