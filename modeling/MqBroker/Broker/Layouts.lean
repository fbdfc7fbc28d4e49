import MqBroker.Broker.Bounds

/-!
# The Two Layouts of a Replica Append

`HandleReplicaAppend` takes payloads with and without the previous log entry.
It looks for a number of messages where the newer layout has it, and if that
number is between 1 and 10000, it reads the payload that way.

`Append` always writes the newer layout, with any number of messages. What has
more than 10000 of them is read in the older one: the previous index becomes
the partition and the number of messages, the previous term becomes the first
offset, and what follows is cut up anew. In most cases nothing comes of it. A
previous index below `2 ^ 32` names partition 0, and then the first message has
no value, which no log takes. From there on, though, it names another
partition, and the payload may hold whole messages for it.

In the older layout the four bytes that are looked at are the lower half of
the first timestamp. A payload in that layout is read in the newer one when
that half is a number between 1 and 10000.

## Main definitions

* `AppendCall.oldHeader`, `oldPayload`: A call in the older layout.
* `AppendCall.Misread`: A call whose payload may hold other messages.
* `parseReplicaAppend`: What the handler reads off a payload.
* `LegalAppend`: A call within the limits of the protocol.
* `LegalAppend.OneReading`: Both layouts of a call are read as the call.

## Theorems

* `acceptRequest_sent`: The request of a call gets to the handler.
* `readReplicaAppend_few`: Up to 10000 messages are read as they were sent.
* `readReplicaAppend_many`: What is read from a call with more of them.
* `readReplicaAppend_iff`: The handler works on what `parseReplicaAppend` gives.
* `one_reading_iff`: When both layouts of a call are read as the call.
-/

namespace MqBroker

/-- The header in the older layout. -/
def AppendCall.oldHeader (a : AppendCall) : AppendHeader where
  term := a.term
  commit := a.commitIndex
  leaderId := a.leaderId
  position := 18 + a.leaderId.length

/-- A call whose payload is read in the older layout, for another partition
    and with a number of messages in the range. -/
def AppendCall.Misread (a : AppendCall) : Prop :=
  10000 < a.messages.length ∧ 2 ^ 32 ≤ a.prevLogIndex.toNat ∧
    0 < a.prevLogIndex.toNat % 2 ^ 32 ∧ a.prevLogIndex.toNat % 2 ^ 32 ≤ 10000

instance (a : AppendCall) : Decidable a.Misread :=
  inferInstanceAs (Decidable (_ ∧ _))

section Layouts

variable (a : AppendCall)

/-- What follows the leader in a payload. -/
theorem appendPayload_behind :
    appendPayload a = (a.front ++ a.leaderId) ++ (a.middle ++ a.messages.flatMap encodeBody) := by
  rw [appendPayload_eq, List.append_assoc]

theorem length_leader : (a.front ++ a.leaderId).length = 18 + a.leaderId.length := by
  rw [List.length_append, length_front]

/-- The halves of the previous index. -/
theorem read_prevLogIndex :
    (get32 (appendPayload a) (18 + a.leaderId.length)).toNat = a.prevLogIndex.toNat / 2 ^ 32 ∧
      (get32 (appendPayload a) (18 + a.leaderId.length + 4)).toNat
        = a.prevLogIndex.toNat % 2 ^ 32 := by
  have hlt := a.prevLogIndex.toNat_lt
  have hhigh := getBE_putBE_inside 0 4 4 a.prevLogIndex.toNat (put64 a.prevLogTerm ++
    (put32 a.partition ++ put32 (UInt32.ofNat a.messages.length)))
  have hlow := getBE_putBE_inside 4 4 0 a.prevLogIndex.toNat (put64 a.prevLogTerm ++
    (put32 a.partition ++ put32 (UInt32.ofNat a.messages.length)))
  constructor
  · rw [get32_toNat, appendPayload_behind, ← length_leader,
      ← Nat.add_zero (a.front ++ a.leaderId).length,
      getBE_middle _ _ _ _ _ (by rw [length_middle]; omega), AppendCall.middle, List.append_assoc,
      List.append_assoc, put64]
    rw [hhigh, Nat.shiftRight_eq_div_pow]
    omega
  · rw [get32_toNat, appendPayload_behind, ← length_leader,
      getBE_middle _ _ _ _ _ (by rw [length_middle]; omega), AppendCall.middle, List.append_assoc,
      List.append_assoc, put64]
    rw [hlow, Nat.shiftRight_eq_div_pow]
    omega

/-- With too many messages, the previous log entry is not taken to be there. -/
theorem parseAppendHeader_old (hleader : a.leaderId ≠ []) (hsize : a.leaderId.length ≤ 65535)
    (hmany : 10000 < a.messages.length) (hfits : a.messages.length < 2 ^ 32) :
    parseAppendHeader true (appendPayload a) = some a.oldHeader := by
  rcases read_front a hsize with ⟨hterm, hcommit, hlen, hid⟩
  rcases read_middle a hfits with ⟨_, _, _, hnumber⟩
  have htotal := length_appendPayload a
  have hleaderpos : 0 < a.leaderId.length := List.length_pos_iff.mpr hleader
  rw [show 38 + a.leaderId.length = 18 + a.leaderId.length + 20 by omega] at hnumber
  simp only [parseAppendHeader, hlen, htotal, hnumber, hterm, hcommit, hid]
  rw [if_neg (by decide), if_neg (by omega), if_neg (by omega),
    if_pos (show 42 + a.leaderId.length + (a.messages.flatMap encodeBody).length
      ≥ 38 + a.leaderId.length by omega), if_neg (by omega)]
  rfl

/-- The sizes in the first message of the older layout are bytes of the first
    offset, and they are 0 if that is small. -/
theorem parseReplicaMessage_old {m first : Message} {rest : List Message} {next : Nat}
    (hmessages : a.messages = m :: rest) (hsmall : m.offset.toNat < 2 ^ 16)
    (h : parseReplicaMessage (appendPayload a) (18 + a.leaderId.length + 8) = some (first, next)) :
    first.value = [] := by
  have hpayload : appendPayload a = (a.front ++ a.leaderId ++ a.middle) ++ (putBE 8 m.offset.toNat
      ++ ((encodeBody m).drop 8 ++ rest.flatMap encodeBody)) := by
    rw [appendPayload_behind, hmessages, List.flatMap_cons, List.append_assoc, List.append_assoc,
      List.append_assoc]
    rfl
  have hfront : (a.front ++ a.leaderId ++ a.middle).length = 42 + a.leaderId.length := by
    rw [List.length_append, length_leader, length_middle]
    omega
  have hkey : (get16 (appendPayload a) (18 + a.leaderId.length + 8 + 16)).toNat = 0 := by
    have hhigh := getBE_putBE_inside 0 2 6 m.offset.toNat ((encodeBody m).drop 8 ++
      rest.flatMap encodeBody)
    rw [get16, hpayload, getBE_append_right _ _ _ _ (by omega), hfront,
      show 18 + a.leaderId.length + 8 + 16 - (42 + a.leaderId.length) = 0 by omega, hhigh,
      Nat.shiftRight_eq_div_pow, Nat.div_eq_of_lt (by omega)]
    rfl
  have hvalue : (get32 (appendPayload a) (18 + a.leaderId.length + 8 + (18 + 0))).toNat = 0 := by
    have hinside := getBE_putBE_inside 2 4 2 m.offset.toNat ((encodeBody m).drop 8 ++
      rest.flatMap encodeBody)
    rw [get32_toNat, hpayload, getBE_append_right _ _ _ _ (by omega), hfront,
      show 18 + a.leaderId.length + 8 + (18 + 0) - (42 + a.leaderId.length) = 2 by omega, hinside,
      Nat.shiftRight_eq_div_pow, Nat.div_eq_of_lt (by omega), Nat.zero_mod]
  simp only [parseReplicaMessage, hkey, hvalue] at h
  split at h
  · cases h
  · split at h
    · cases h
    · cases h
      rfl

/-- The request of a call gets to the handler, without its token. -/
theorem acceptRequest_sent {a : AppendCall} {b : Broker} {token : Bytes} {requestId : UInt64}
    {request : Request} (hrequest : appendRequest token requestId a = some request)
    (hconfigured : b.replicationConfigured = true) (htoken : b.replicationAuthToken = token) :
    b.acceptRequest [] request = some (wireRequest a.topic requestId (appendPayload a)) := by
  rcases appendRequest_some hrequest with ⟨rfl, _, _, _, hne, hlen, _⟩
  rcases wireRequest_flags a.topic requestId (put16 (UInt16.ofNat token.length) ++
    (token ++ appendPayload a)) with ⟨hreplication, _, hauth⟩
  have hknown : ¬ ((flagReplication ||| flagReplicationTerm) &&& ~~~knownFlags ≠ 0 ∨
      (flagReplication ||| flagReplicationTerm) &&& ackMask = ackMask) := by decide
  have hvalid := validate_wireRequest b token (appendPayload a) a.topic requestId hconfigured htoken
    hne hlen
  generalize hsent : wireRequest a.topic requestId (put16 (UInt16.ofNat token.length) ++
    (token ++ appendPayload a)) = sent at *
  have hversion : sent.version = currentVersion := by
    rw [← hsent]
    rfl
  have hflags : sent.flags = flagReplication ||| flagReplicationTerm := by
    rw [← hsent]
    rfl
  rw [Broker.acceptRequest, if_neg (not_not.mpr hversion), hflags, if_neg hknown, hauth,
    if_neg (fun h => Bool.false_ne_true h.2), if_pos (Or.inr hreplication), hvalid]

variable {a : AppendCall} {b : Broker} {header : AppendHeader} {partition : UInt32}
  {messages : List Message} {requestId : UInt64}

/-- Up to 10000 messages are read as they were sent. -/
theorem readReplicaAppend_few (hleader : a.leaderId ≠ []) (hsize : a.leaderId.length ≤ 65535)
    (hmessages : a.messages ≠ []) (hcount : a.messages.length ≤ 10000)
    (hstorable : ∀ m ∈ a.messages, m.Storable) (hauto : a.partition ≠ autoPartition)
    (h : (b.readReplicaAppend (wireRequest a.topic requestId (appendPayload a))).result
      = .ok (header, partition, messages)) :
    partition = a.partition ∧ messages = a.messages := by
  rcases readReplicaAppend_parsed h with ⟨hheader, hresolve, _, _, hparse⟩
  rw [(wireRequest_flags _ _ _).2.1] at hheader
  rw [show (wireRequest a.topic requestId (appendPayload a)).payload = appendPayload a from rfl]
    at hheader hresolve hparse
  rw [parseAppendHeader_payload a hleader hsize hmessages hcount] at hheader
  cases hheader
  rcases read_middle a (by omega) with ⟨_, _, hpartition, hnumber⟩
  have hposition : a.header.position = 34 + a.leaderId.length := rfl
  rw [hposition, hpartition] at hresolve
  rw [hposition, show 34 + a.leaderId.length + 4 = 38 + a.leaderId.length by omega, hnumber]
    at hparse
  refine ⟨resolvePartition_named hresolve hauto, ?_⟩
  have hall := parseReplicaMessages_encodeBody a.messages
    (fun m hm => (hstorable m hm).framed)
    (a.front ++ (a.leaderId ++ a.middle))
  rw [List.append_assoc, List.append_assoc, ← appendPayload_eq] at hall
  rw [show 34 + a.leaderId.length + 8 = (a.front ++ (a.leaderId ++ a.middle)).length by
    simp only [List.length_append, length_front, length_middle]; omega, hall] at hparse
  cases hparse
  rfl

/-- From a call with more than 10000 messages that is not misread, a message
    without a value is read first, if anything is. -/
theorem readReplicaAppend_many (hleader : a.leaderId ≠ []) (hsize : a.leaderId.length ≤ 65535)
    (hmany : 10000 < a.messages.length) (hfits : a.messages.length < 2 ^ 32)
    (hprev : ∀ m ∈ a.messages.head?, m.offset.toNat ≤ a.prevLogIndex.toNat + 1)
    (hright : ¬ a.Misread)
    (h : (b.readReplicaAppend (wireRequest a.topic requestId (appendPayload a))).result
      = .ok (header, partition, messages)) :
    ∃ m rest, messages = m :: rest ∧ m.value = [] := by
  rcases readReplicaAppend_parsed h with ⟨hheader, _, hpos, hcount, hparse⟩
  rw [(wireRequest_flags _ _ _).2.1] at hheader
  rw [show (wireRequest a.topic requestId (appendPayload a)).payload = appendPayload a from rfl]
    at hheader hpos hcount hparse
  rw [parseAppendHeader_old a hleader hsize hmany hfits] at hheader
  cases hheader
  have hposition : a.oldHeader.position = 18 + a.leaderId.length := rfl
  rw [hposition] at hpos hcount hparse
  rcases read_prevLogIndex a with ⟨_, hlow⟩
  rw [hlow] at hpos hcount hparse
  -- The previous index is the number of messages that are looked for, and small.
  have hindex : a.prevLogIndex.toNat ≤ 10000 := by
    by_contra hlarge
    exact hright ⟨hmany, by omega, hpos, hcount⟩
  cases hlist : a.messages with
  | nil =>
      rw [hlist] at hmany
      exact absurd hmany (Nat.not_lt_zero _)
  | cons m rest =>
      have hsmall : m.offset.toNat < 2 ^ 16 := by
        have hfirst := hprev m (by rw [hlist]; rfl)
        omega
      rcases Nat.exists_eq_add_of_lt hpos with ⟨count, hnumber⟩
      rw [hnumber, Nat.zero_add, parseReplicaMessages] at hparse
      rcases Option.bind_eq_some_iff.mp hparse with ⟨first, hfirst, hrest⟩
      rcases Option.bind_eq_some_iff.mp hrest with ⟨tail, _, hall⟩
      rw [← (Prod.mk.inj (Option.some.inj hall)).1]
      exact ⟨first.1, tail.1, rfl, parseReplicaMessage_old a hlist hsmall hfirst⟩

/-- Messages of another partition that the bytes of a call with more than 10000
    messages happen to hold are read from it. -/
theorem readReplicaAppend_others (hleader : a.leaderId ≠ []) (hsize : a.leaderId.length ≤ 65535)
    (hmany : 10000 < a.messages.length) (hfits : a.messages.length < 2 ^ 32)
    {others : List Message} (hothers : others ≠ []) (hfew : others.length ≤ 10000)
    (hstorable : ∀ m ∈ others, m.Storable)
    (hnumber : a.prevLogIndex.toNat % 2 ^ 32 = others.length)
    (hbytes : put64 a.prevLogTerm ++ (put32 a.partition ++
      (put32 (UInt32.ofNat a.messages.length) ++ a.messages.flatMap encodeBody))
        = others.flatMap encodeBody)
    (hresolve : b.resolvePartition a.topic (UInt32.ofNat (a.prevLogIndex.toNat / 2 ^ 32)) []
      = .ok partition) :
    (b.readReplicaAppend (wireRequest a.topic requestId (appendPayload a))).result
      = .ok (a.oldHeader, partition, others) := by
  rcases read_prevLogIndex a with ⟨hhigh, hlow⟩
  have hlt := a.prevLogIndex.toNat_lt
  have hpos := List.length_pos_iff.mpr hothers
  have hpartition : get32 (appendPayload a) (18 + a.leaderId.length)
      = UInt32.ofNat (a.prevLogIndex.toNat / 2 ^ 32) := by
    rw [← hhigh, UInt32.ofNat_toNat]
  -- The previous index ends what is in front of the messages.
  have hpayload : appendPayload a
      = (a.front ++ a.leaderId ++ put64 a.prevLogIndex) ++ others.flatMap encodeBody := by
    rw [appendPayload_behind, AppendCall.middle, ← hbytes]
    simp only [List.append_assoc]
  have hfront : (a.front ++ a.leaderId ++ put64 a.prevLogIndex).length
      = 18 + a.leaderId.length + 8 := by
    rw [List.length_append, length_leader, length_put64]
  refine readReplicaAppend_of_parsed (wireRequest_flags _ _ _).1 ?_ ?_ ?_ ?_ ?_
  · rw [(wireRequest_flags _ _ _).2.1]
    exact parseAppendHeader_old a hleader hsize hmany hfits
  · have htotal := length_appendPayload a
    show 18 + a.leaderId.length + 8 ≤ (appendPayload a).length
    omega
  · show (get32 (appendPayload a) (18 + a.leaderId.length + 4)).toNat ≠ 0 ∧
      (get32 (appendPayload a) (18 + a.leaderId.length + 4)).toNat ≤ 10000
    rw [hlow, hnumber]
    exact ⟨by omega, hfew⟩
  · show b.resolvePartition a.topic (get32 (appendPayload a) (18 + a.leaderId.length)) [] = _
    rw [hpartition]
    exact hresolve
  · show parseReplicaMessages (appendPayload a)
      (get32 (appendPayload a) (18 + a.leaderId.length + 4)).toNat (18 + a.leaderId.length + 8) = _
    rw [hlow, hnumber, ← hfront]
    exact (congrArg (fun payload => parseReplicaMessages payload _ _) hpayload).trans
      ((parseReplicaMessages_encodeBody others (fun m hm => (hstorable m hm).framed) _).trans
        (congrArg (fun payload : Bytes => some (others, payload.length)) hpayload.symm))

/-- In either layout, the leader is the one that has sent the call. -/
theorem readReplicaAppend_leader (hsize : a.leaderId.length ≤ 65535)
    (h : (b.readReplicaAppend (wireRequest a.topic requestId (appendPayload a))).result
      = .ok (header, partition, messages)) : header.leaderId = a.leaderId := by
  rcases read_front a hsize with ⟨_, _, hlen, hid⟩
  rcases readReplicaAppend_parsed h with ⟨hheader, _⟩
  rw [(parseAppendHeader_leader hheader (wireRequest_flags _ _ _).2.1).2]
  rw [show (wireRequest a.topic requestId (appendPayload a)).payload = appendPayload a from rfl,
    hlen, hid]

end Layouts

/-! ## Either layout -/

/-- The payload of a call in the older layout, without the previous log entry. -/
def oldPayload (a : AppendCall) : Bytes :=
  put64 a.term ++ put64 a.commitIndex ++ put16 (UInt16.ofNat a.leaderId.length) ++ (a.leaderId ++
    (put32 a.partition ++ put32 (UInt32.ofNat a.messages.length) ++ a.messages.flatMap encodeBody))

/-- What `HandleReplicaAppend` reads off a payload: the header, the partition
    as it stands there, and the messages. -/
def parseReplicaAppend (termed : Bool) (payload : Bytes) :
    Option (AppendHeader × UInt32 × List Message) := do
  let header ← parseAppendHeader termed payload
  if header.position + 8 > payload.length then none
  else
    let count := (get32 payload (header.position + 4)).toNat
    if count = 0 ∨ count > 10000 then none
    else
      let found ← parseReplicaMessages payload count (header.position + 8)
      if found.2 ≠ payload.length then none
      else some (header, get32 payload header.position, found.1)

theorem parseReplicaMessage_size {payload : Bytes} {position : Nat} {found : Message × Nat}
    (h : parseReplicaMessage payload position = some found) :
    found.2 = position + (encodeBody found.1).length := by
  rw [length_encodeBody, bodyFixedSize]
  simp only [parseReplicaMessage] at h
  split at h
  · cases h
  · split at h
    · cases h
    · split at h
      · cases h
      · cases h
        simp only
        rw [length_substr _ _ _ (by omega), length_substr _ _ _ (by omega)]
        omega

/-- The messages take up the bytes between the two positions. -/
theorem parseReplicaMessages_size {payload : Bytes} {count position : Nat} {messages : List Message}
    {next : Nat} (h : parseReplicaMessages payload count position = some (messages, next)) :
    next = position + (messages.flatMap encodeBody).length := by
  induction count generalizing position messages with
  | zero =>
      cases h
      rfl
  | succ count ih =>
      rw [parseReplicaMessages, Option.bind_eq_bind] at h
      rcases Option.bind_eq_some_iff.mp h with ⟨first, hfirst, h⟩
      rcases Option.bind_eq_some_iff.mp h with ⟨rest, hrest, h⟩
      cases h
      rw [List.flatMap_cons, List.length_append, ih hrest, parseReplicaMessage_size hfirst]
      omega

theorem parseReplicaAppend_eq_some {termed : Bool} {payload : Bytes} {header : AppendHeader}
    {partition : UInt32} {messages : List Message} :
    parseReplicaAppend termed payload = some (header, partition, messages) ↔
      parseAppendHeader termed payload = some header ∧ header.position + 8 ≤ payload.length ∧
        ((get32 payload (header.position + 4)).toNat ≠ 0 ∧
          (get32 payload (header.position + 4)).toNat ≤ 10000) ∧
        get32 payload header.position = partition ∧
        parseReplicaMessages payload (get32 payload (header.position + 4)).toNat
          (header.position + 8) = some (messages, payload.length) := by
  rw [parseReplicaAppend, Option.bind_eq_bind, Option.bind_eq_some_iff]
  constructor
  · rintro ⟨found, hheader, h⟩
    split at h
    · cases h
    · rename_i hroom
      simp only at h
      split at h
      · cases h
      · rename_i hcount
        rcases Option.bind_eq_some_iff.mp h with ⟨list, hlist, hend⟩
        split at hend
        · cases hend
        · rename_i hall
          cases hend
          rw [not_not] at hall
          exact ⟨hheader, by omega, by omega, rfl, by rw [hlist, ← hall]⟩
  · rintro ⟨hheader, hroom, hcount, hpartition, hparse⟩
    refine ⟨header, hheader, ?_⟩
    rw [if_neg (by omega)]
    simp only
    rw [if_neg (by omega), hparse, Option.bind_eq_bind, Option.bind_some, if_neg (not_not.mpr rfl),
      hpartition]

/-- The handler works on what is read off the payload, with the partition
    looked up in the topic. -/
theorem readReplicaAppend_iff (b : Broker) (request : Request) (header : AppendHeader)
    (resolved : UInt32) (messages : List Message)
    (hflag : request.hasFlag flagReplication = true) :
    (b.readReplicaAppend request).result = .ok (header, resolved, messages) ↔
      ∃ partition, parseReplicaAppend (request.hasFlag flagReplicationTerm) request.payload
          = some (header, partition, messages) ∧
        b.resolvePartition request.topic partition [] = .ok resolved := by
  constructor
  · intro h
    rcases readReplicaAppend_parsed h with ⟨hheader, hresolve, hpos, hcount, hparse⟩
    have hsize := parseReplicaMessages_size hparse
    exact ⟨_, parseReplicaAppend_eq_some.mpr ⟨hheader, by omega, ⟨by omega, hcount⟩, rfl, hparse⟩,
      hresolve⟩
  · rintro ⟨partition, hparsed, hresolve⟩
    rcases parseReplicaAppend_eq_some.mp hparsed with ⟨hheader, hroom, hcount, hpartition, hparse⟩
    exact readReplicaAppend_of_parsed hflag hheader hroom hcount (hpartition ▸ hresolve) hparse

/-- A call within the limits of the protocol. -/
structure LegalAppend extends AppendCall where
  leaderSize : 1 ≤ leaderId.length ∧ leaderId.length ≤ 65535
  messageCount : 1 ≤ messages.length ∧ messages.length ≤ 10000
  keySizes : ∀ m ∈ messages, m.key.length ≤ 65535
  /-- The shorter of the two payloads fits in a frame. -/
  fits : (oldPayload toAppendCall).length ≤ maxPayloadBytes

/-- The values of a call, with the given previous log entry, are read off a
    payload. -/
def AppendCall.RecoveredFrom (a : AppendCall) (payload : Bytes) (prevLogIndex prevLogTerm : UInt64) :
    Prop :=
  ∃ header, parseReplicaAppend true payload = some (header, a.partition, a.messages) ∧
    header.term = a.term ∧ header.commit = a.commitIndex ∧ header.leaderId = a.leaderId ∧
    header.prevLogIndex = prevLogIndex ∧ header.prevLogTerm = prevLogTerm

/-- Both layouts of a call are read as the call, the older one without a
    previous log entry. -/
def LegalAppend.OneReading (a : LegalAppend) : Prop :=
  a.RecoveredFrom (appendPayload a.toAppendCall) a.prevLogIndex a.prevLogTerm ∧
    a.RecoveredFrom (oldPayload a.toAppendCall) 0 0

/-- The lower half of the first timestamp is no number of messages. -/
def AppendCall.Unambiguous (a : AppendCall) : Prop :=
  ∀ m ∈ a.messages.head?, m.timestampMs.toUInt64.toNat % 2 ^ 32 = 0 ∨
    10000 < m.timestampMs.toUInt64.toNat % 2 ^ 32

section Legal

variable (a : LegalAppend)

theorem length_oldPayload (a : AppendCall) :
    (oldPayload a).length
      = 26 + a.leaderId.length + (a.messages.flatMap encodeBody).length := by
  simp only [oldPayload, List.length_append, length_put64, length_put32, length_put16]
  omega

theorem length_le_flatMap {m : Message} {messages : List Message} (h : m ∈ messages) :
    (encodeBody m).length ≤ (messages.flatMap encodeBody).length := by
  rcases List.append_of_mem h with ⟨front, back, rfl⟩
  simp only [List.flatMap_append, List.flatMap_cons, List.length_append]
  omega

theorem LegalAppend.framed (m : Message) (h : m ∈ a.messages) : m.Framed := by
  have hmax : maxPayloadBytes = 1048576 := rfl
  have hfits := a.fits
  have hlen := length_le_flatMap h
  rw [length_oldPayload] at hfits
  rw [length_encodeBody] at hlen
  exact ⟨a.keySizes m h, by omega⟩

/-- The newer layout is always read as the call. -/
theorem LegalAppend.recoveredFrom_new :
    a.RecoveredFrom (appendPayload a.toAppendCall) a.prevLogIndex a.prevLogTerm := by
  have hleader : a.leaderId ≠ [] := List.length_pos_iff.mp a.leaderSize.1
  have hmessages : a.messages ≠ [] := List.length_pos_iff.mp a.messageCount.1
  have hcount := a.messageCount
  rcases read_middle a.toAppendCall (by omega) with ⟨_, _, hpartition, hnumber⟩
  have htotal := length_appendPayload a.toAppendCall
  have hall := parseReplicaMessages_encodeBody a.messages a.framed
    (a.front ++ (a.leaderId ++ a.middle))
  rw [List.append_assoc, List.append_assoc, ← appendPayload_eq] at hall
  have hbehind : (a.front ++ (a.leaderId ++ a.middle)).length
      = 34 + a.leaderId.length + 8 := by
    simp only [List.length_append, length_front, length_middle]
    omega
  rw [hbehind] at hall
  rw [show 38 + a.leaderId.length = 34 + a.leaderId.length + 4 by omega] at hnumber
  refine ⟨a.header, parseReplicaAppend_eq_some.mpr ⟨?_, ?_, ?_, ?_, ?_⟩, rfl, rfl, rfl, rfl, rfl⟩
  · exact parseAppendHeader_payload a.toAppendCall hleader a.leaderSize.2 hmessages hcount.2
  · show 34 + a.leaderId.length + 8 ≤ _
    omega
  · show (get32 _ (34 + a.leaderId.length + 4)).toNat ≠ 0 ∧
      (get32 _ (34 + a.leaderId.length + 4)).toNat ≤ 10000
    rw [hnumber]
    omega
  · exact hpartition
  · show parseReplicaMessages _ (get32 _ (34 + a.leaderId.length + 4)).toNat
      (34 + a.leaderId.length + 8) = _
    rw [hnumber]
    exact hall

theorem oldPayload_eq (a : AppendCall) :
    oldPayload a = a.front ++ (a.leaderId ++
      ((put32 a.partition ++ put32 (UInt32.ofNat a.messages.length)) ++
        a.messages.flatMap encodeBody)) := rfl

/-- The four bytes that decide between the layouts are the lower half of the
    first timestamp. -/
theorem oldPayload_candidate {a : AppendCall} {m : Message} {rest : List Message}
    (h : a.messages = m :: rest) :
    (get32 (oldPayload a) (18 + a.leaderId.length + 20)).toNat
      = m.timestampMs.toUInt64.toNat % 2 ^ 32 := by
  have hsplit : oldPayload a = (a.front ++ (a.leaderId ++ (put32 a.partition ++
      (put32 (UInt32.ofNat a.messages.length) ++ put64 m.offset)))) ++
        (putBE 8 m.timestampMs.toUInt64.toNat ++ ((encodeBody m).drop 16 ++
          rest.flatMap encodeBody)) := by
    have hbody : encodeBody m = put64 m.offset ++ (putBE 8 m.timestampMs.toUInt64.toNat ++
        (encodeBody m).drop 16) := rfl
    rw [oldPayload_eq, h, List.flatMap_cons, hbody]
    simp only [List.append_assoc]
    rfl
  have hfront : (a.front ++ (a.leaderId ++ (put32 a.partition ++
      (put32 (UInt32.ofNat a.messages.length) ++ put64 m.offset)))).length
        = 34 + a.leaderId.length := by
    simp only [List.length_append, length_front, length_put32, length_put64]
    omega
  have hlow := getBE_putBE_inside 4 4 0 m.timestampMs.toUInt64.toNat ((encodeBody m).drop 16 ++
    rest.flatMap encodeBody)
  rw [get32_toNat, hsplit, getBE_append_right _ _ _ _ (by omega), hfront,
    show 18 + a.leaderId.length + 20 - (34 + a.leaderId.length) = 4 by omega, hlow,
    Nat.shiftRight_eq_div_pow]
  omega

/-- The header of the older layout is recognised, or taken for one of the newer
    layout that ends 16 bytes later. -/
theorem LegalAppend.parseAppendHeader_oldPayload {m : Message} {rest : List Message}
    (h : a.messages = m :: rest) :
    parseAppendHeader true (oldPayload a.toAppendCall)
      = if m.timestampMs.toUInt64.toNat % 2 ^ 32 = 0 ∨ 10000 < m.timestampMs.toUInt64.toNat % 2 ^ 32
        then some a.oldHeader
        else some
          { a.oldHeader with
            prevLogIndex := get64 (oldPayload a.toAppendCall) (18 + a.leaderId.length)
            prevLogTerm := get64 (oldPayload a.toAppendCall) (18 + a.leaderId.length + 8)
            position := 34 + a.leaderId.length } := by
  have htotal := length_oldPayload a.toAppendCall
  have hlong := length_le_flatMap_encodeBody a.messages
  have hcount := a.messageCount
  have hsize := a.leaderSize
  rcases read_leader a.toAppendCall hsize.2 ((put32 a.partition ++
    put32 (UInt32.ofNat a.messages.length)) ++ a.messages.flatMap encodeBody) with
    ⟨hterm, hcommit, hlen, hid⟩
  rw [← oldPayload_eq] at hterm hcommit hlen hid
  have hcandidate := oldPayload_candidate h
  simp only [parseAppendHeader, hlen, hterm, hcommit, hid, hcandidate]
  rw [if_neg (by decide), if_neg (by omega), if_neg (by omega),
    if_pos (show (oldPayload a.toAppendCall).length ≥ 38 + a.leaderId.length by omega)]
  by_cases hlow : m.timestampMs.toUInt64.toNat % 2 ^ 32 = 0 ∨
      10000 < m.timestampMs.toUInt64.toNat % 2 ^ 32
  · rw [if_pos hlow, if_neg (by omega)]
    rfl
  · rw [if_neg hlow, if_pos (by omega)]
    simp only [AppendCall.oldHeader, Option.some.injEq, AppendHeader.mk.injEq, true_and]
    omega

/-- The fields between the leader and the messages. -/
theorem LegalAppend.read_oldMiddle :
    get32 (oldPayload a.toAppendCall) (18 + a.leaderId.length) = a.partition ∧
      (get32 (oldPayload a.toAppendCall) (18 + a.leaderId.length + 4)).toNat
        = a.messages.length := by
  have hcount := a.messageCount
  have hsplit : oldPayload a.toAppendCall = (a.front ++ a.leaderId) ++ (put32 a.partition ++
      (put32 (UInt32.ofNat a.messages.length) ++ a.messages.flatMap encodeBody)) := by
    rw [oldPayload_eq]
    simp only [List.append_assoc]
  have hfront := length_leader a.toAppendCall
  constructor
  · rw [hsplit, get32_append_right _ _ _ (by omega), hfront, Nat.sub_self, get32_put32]
  · rw [hsplit, get32_append_right _ _ _ (by omega), hfront, Nat.add_sub_cancel_left,
      get32_append_right _ _ _ (by rw [length_put32]), length_put32, Nat.sub_self, get32_put32]
    refine UInt32.toNat_ofNat_of_lt' ?_
    rw [UInt32.size]
    omega

/-- The older layout is read as the call unless the lower half of the first
    timestamp is a number of messages. -/
theorem LegalAppend.recoveredFrom_old_iff :
    a.RecoveredFrom (oldPayload a.toAppendCall) 0 0 ↔ a.Unambiguous := by
  have hcount := a.messageCount
  have htotal := length_oldPayload a.toAppendCall
  cases hmessages : a.messages with
  | nil =>
      rw [hmessages] at hcount
      exact absurd hcount.1 (by decide)
  | cons m rest =>
      have hheader := a.parseAppendHeader_oldPayload hmessages
      have hhead : a.Unambiguous ↔ (m.timestampMs.toUInt64.toNat % 2 ^ 32 = 0 ∨
          10000 < m.timestampMs.toUInt64.toNat % 2 ^ 32) := by
        rw [AppendCall.Unambiguous, hmessages]
        simp only [List.head?_cons, Option.mem_def, Option.some.injEq, forall_eq']
      rw [hhead]
      by_cases hlow : m.timestampMs.toUInt64.toNat % 2 ^ 32 = 0 ∨
          10000 < m.timestampMs.toUInt64.toNat % 2 ^ 32
      · refine iff_of_true ?_ hlow
        rw [if_pos hlow] at hheader
        rcases a.read_oldMiddle with ⟨hpartition, hnumber⟩
        have hall := parseReplicaMessages_encodeBody a.messages a.framed
          (a.front ++ (a.leaderId ++ (put32 a.partition ++
            put32 (UInt32.ofNat a.messages.length))))
        rw [List.append_assoc, List.append_assoc, ← oldPayload_eq] at hall
        have hbehind : (a.front ++ (a.leaderId ++ (put32 a.partition ++
            put32 (UInt32.ofNat a.messages.length)))).length = 18 + a.leaderId.length + 8 := by
          simp only [List.length_append, length_front, length_put32]
          omega
        rw [hbehind] at hall
        refine ⟨a.oldHeader, parseReplicaAppend_eq_some.mpr ⟨hheader, ?_, ?_, hpartition, ?_⟩,
          rfl, rfl, rfl, rfl, rfl⟩
        · show 18 + a.leaderId.length + 8 ≤ _
          omega
        · show (get32 _ (18 + a.leaderId.length + 4)).toNat ≠ 0 ∧
            (get32 _ (18 + a.leaderId.length + 4)).toNat ≤ 10000
          rw [hnumber]
          omega
        · show parseReplicaMessages _ (get32 _ (18 + a.leaderId.length + 4)).toNat
            (18 + a.leaderId.length + 8) = _
          rw [hnumber]
          exact hall
      · refine iff_of_false ?_ hlow
        rw [if_neg hlow] at hheader
        rintro ⟨header, hparse, _⟩
        rcases parseReplicaAppend_eq_some.mp hparse with ⟨hfound, _, _, _, hlist⟩
        rw [hheader] at hfound
        cases hfound
        -- The messages of the call do not fit in what is left of the payload.
        have hsize := parseReplicaMessages_size hlist
        simp only at hsize
        omega

/-- Both layouts of a call are read as the call exactly if the lower half of
    the first timestamp is not a number between 1 and 10000. -/
theorem one_reading_iff : a.OneReading ↔ a.Unambiguous :=
  (and_iff_right a.recoveredFrom_new).trans a.recoveredFrom_old_iff

end Legal

/-- A call with one message, made one millisecond into an epoch of timestamps. -/
def ambiguousAppend : LegalAppend where
  topic := [116]
  partition := 0
  messages := [{ offset := 0, timestampMs := 1, key := [], value := [118] }]
  term := 1
  commitIndex := 0
  leaderId := [108]
  prevLogIndex := 0
  prevLogTerm := 0
  leaderSize := by decide
  messageCount := by decide
  keySizes := by decide
  fits := by decide

/-- In the older layout that call is read in the newer one. -/
theorem append_misread : ¬ ∀ a : LegalAppend, a.OneReading := by
  intro h
  have hlow := ambiguousAppend.recoveredFrom_old_iff.mp (h ambiguousAppend).2 _ rfl
  exact absurd hlow (by decide)

end MqBroker
