import MqBroker.Client.Replies
import MqBroker.Broker.Pull

/-!
# Answers That Are Not to Be Trusted

What `ReplicationClient::Fetch`, `MqConsumer::poll`, `MqConsumer::syncGroup` and
`MqProducer::listTopics` make of a payload that can be anything.

All four read a number and then as many items, with a length check in front of every
read. The lengths are 16 and 32 bits wide and the positions have 64, so the sums that
are compared with the size do not wrap. The items are messages for two of the parsers,
with different texts for their errors, and names with numbers for the others.

## Main definitions

* `ReplicationClient.fetchAnswer`: The parser of `Fetch`.
* `ExactParser`: A parser that stays inside its payload and takes nothing but
  encodings.

## Theorems

* `spells_readMessageOr`, `spells_readEntry`: A parsed item is what stands there.
* `parseFetched_eq`: The parser of `Fetch` and its result without the reads.
* `response_parsers_exact`: The four parsers.
-/

namespace MqBroker

open Traced Server

/-! ## Items -/

section Items

variable {ε : Type}

/-- A field of a payload, and what is behind it. -/
theorem drop_eq_put16 {payload : Bytes} {position : Nat} (h : position + 2 ≤ payload.length) :
    payload.drop position = put16 (get16 payload position) ++ payload.drop (position + 2) := by
  rw [put16_get16 payload position h, substr_append_drop]

theorem drop_eq_put32 {payload : Bytes} {position : Nat} (h : position + 4 ≤ payload.length) :
    payload.drop position = put32 (get32 payload position) ++ payload.drop (position + 4) := by
  rw [put32_get32 payload position h, substr_append_drop]

theorem drop_eq_put64 {payload : Bytes} {position : Nat} (h : position + 8 ≤ payload.length) :
    payload.drop position = put64 (get64 payload position) ++ payload.drop (position + 8) := by
  rw [put64_get64 payload position h, substr_append_drop]

variable (payload : Bytes)

theorem inBounds_readMessageOr (header key value : ε) (position : Nat) :
    (readMessageOr header key value payload position).InBounds := by
  simp only [readMessageOr, inBounds_check_bind, inBounds_read16_bind, inBounds_read32_bind,
    inBounds_read64_bind, inBounds_copy_bind, inBounds_pure, and_true]
  omega

theorem inBounds_readEntry (error : ε) (position : Nat) :
    (readEntry error payload position).InBounds := by
  simp only [readEntry, inBounds_check_bind, inBounds_read16_bind, inBounds_read32_bind,
    inBounds_copy_bind, inBounds_pure, and_true]
  omega

/-- A parsed message is what stands at its position. -/
theorem spells_readMessageOr (header key value : ε) :
    Spells payload encodeBody Message.Framed (readMessageOr header key value payload) := by
  intro position found hread
  simp only [readMessageOr, result_check_bind, result_read64_bind, result_read16_bind,
    result_copy_bind, result_read32_bind, result_pure] at hread
  split_ifs at hread with hheader hkey hvalue
  cases hread
  have hkeyLength := length_substr payload (position + 18)
    (get16 payload (position + 16)).toNat (by omega)
  have hvalueLength := length_substr payload
    (position + 18 + (get16 payload (position + 16)).toNat + 4)
    (get32 payload (position + 18 + (get16 payload (position + 16)).toNat)).toNat (by omega)
  refine ⟨⟨?_, ?_⟩, ?_⟩
  · rw [hkeyLength]
    exact Nat.le_of_lt_succ (UInt16.toNat_lt _)
  · rw [hvalueLength]
    exact UInt32.toNat_lt _
  · -- The fields follow each other up to the position behind the message.
    simp only [encodeBody, hkeyLength, hvalueLength, UInt16.ofNat_toNat, UInt32.ofNat_toNat,
      UInt64.toUInt64_toInt64, List.append_assoc, substr_append_drop]
    rw [← drop_eq_put32 (by omega), substr_append_drop, ← drop_eq_put16 (by omega),
      ← drop_eq_put64 (by omega), ← drop_eq_put64 (by omega)]

/-- A parsed name with its number is what stands at its position. -/
theorem spells_readEntry (error : ε) :
    Spells payload (fun entry => encodeEntry entry.1 entry.2) (fun entry => entry.1.length ≤ 65535)
      (readEntry error payload) := by
  intro position found hread
  simp only [readEntry, result_check_bind, result_read16_bind, result_copy_bind,
    result_read32_bind, result_pure] at hread
  split_ifs at hread with hsize hname
  cases hread
  have hlength := length_substr payload (position + 2) (get16 payload position).toNat (by omega)
  refine ⟨?_, ?_⟩
  · show (substr payload (position + 2) (get16 payload position).toNat).length ≤ 65535
    rw [hlength]
    exact Nat.le_of_lt_succ (UInt16.toNat_lt _)
  · simp only [encodeEntry, hlength, UInt16.ofNat_toNat, List.append_assoc]
    rw [← drop_eq_put32 (by omega), substr_append_drop, ← drop_eq_put16 (by omega)]

end Items

/-! ## Parsers -/

/-- The part of `Fetch` that reads the answer. Some of its errors have no text. -/
def ReplicationClient.fetchAnswer (payload : Bytes) : Traced (Option String) (List Message) := do
  check (4 ≤ payload.length) none
  let count ← read32 payload 0
  check (count.toNat ≤ maxPayloadBytes / 18) (some "invalid replica fetch response count")
  let messages ← readMany
    (readMessageOr (some "invalid replica fetch response") none none payload) count.toNat 4
  check (messages.2 = payload.length) none
  return messages.1

/-- `parseFetched` is the same parser without the reads. -/
theorem parseFetched_eq (payload : Bytes) :
    parseFetched payload = (ReplicationClient.fetchAnswer payload).result.toOption := by
  simp only [parseFetched, ReplicationClient.fetchAnswer, result_check_bind, result_read32_bind]
  by_cases hlength : 4 ≤ payload.length
  · by_cases hcount : (get32 payload 0).toNat ≤ maxPayloadBytes / 18
    · rw [if_neg (by omega), if_pos hlength, if_pos hcount,
        parseReplicaMessages_eq payload (some "invalid replica fetch response") none none]
      cases hread : (readMany (readMessageOr (some "invalid replica fetch response") none none
          payload) (get32 payload 0).toNat 4).result with
      | error e =>
          rw [result_bind_of_error hread]
          rfl
      | ok found =>
          rw [result_bind_of_ok hread, result_check_bind]
          simp only [Except.toOption]
          split_ifs
          · rfl
          · rfl
    · rw [if_pos (by omega), if_pos hlength, if_neg hcount]
      rfl
  · rw [if_pos (by omega), if_neg hlength]
    rfl

/-- A parser that reads nothing outside its payload, and finds items only in the
    payload that is their encoding. -/
def ExactParser {ε α : Type} (parser : Bytes → Traced ε (List α)) (encode : List α → Bytes)
    (framed : α → Prop) : Prop :=
  ∀ payload, (parser payload).InBounds ∧
    ∀ found, (parser payload).result = .ok found → found ≠ [] →
      found.length < 2 ^ 32 ∧ (∀ x ∈ found, framed x) ∧ payload = encode found

theorem exactParser_fetchAnswer :
    ExactParser ReplicationClient.fetchAnswer (counted encodeBody) Message.Framed := by
  refine fun payload => ⟨?_, fun found hread _ => ?_⟩
  · simp only [ReplicationClient.fetchAnswer, inBounds_check_bind, inBounds_read32_bind]
    refine fun hlength => ⟨hlength, fun _ => ?_⟩
    exact inBounds_readMany_check (inBounds_readMessageOr payload _ _ _) _ _
  · simp only [ReplicationClient.fetchAnswer, result_check_bind, result_read32_bind] at hread
    split_ifs at hread with hlength hcount
    obtain ⟨messages, hmessages, hend, rfl⟩ := result_readMany_check hread
    exact (spells_readMessageOr payload _ _ _).counted hlength hend hmessages

/-- The answers without messages, a short one and one with the number 0, queue none. -/
theorem exactParser_pollAnswer :
    ExactParser MqConsumer.pollAnswer (counted encodeBody) Message.Framed := by
  intro payload
  rw [MqConsumer.pollAnswer]
  by_cases hshort : payload.length < 4
  · rw [if_pos hshort]
    refine ⟨(inBounds_pure _).mpr trivial, fun found hread hsome => ?_⟩
    exact absurd (Except.ok.inj hread).symm hsome
  rw [if_neg hshort, inBounds_read32_bind, result_read32_bind]
  by_cases hzero : get32 payload 0 = 0
  · rw [if_pos hzero]
    refine ⟨⟨by omega, (inBounds_pure _).mpr trivial⟩, fun found hread hsome => ?_⟩
    exact absurd (Except.ok.inj hread).symm hsome
  · rw [if_neg hzero, inBounds_check_bind, result_check_bind]
    refine ⟨⟨by omega, fun _ => ?_⟩, fun found hread _ => ?_⟩
    · exact inBounds_readMany_check (inBounds_readMessageOr payload _ _ _) _ _
    · split_ifs at hread
      obtain ⟨messages, hmessages, hend, rfl⟩ := result_readMany_check hread
      exact (spells_readMessageOr payload _ _ _).counted (by omega) hend.1 hmessages

theorem exactParser_syncGroupAnswer :
    ExactParser MqConsumer.syncGroupAnswer
      (fun assignments => encodeEntries (assignments.map (fun a => (a.topic, a.partition))))
      (fun a => a.topic.length ≤ 65535) := by
  refine fun payload => ⟨?_, fun found hread _ => ?_⟩
  · simp only [MqConsumer.syncGroupAnswer, inBounds_check_bind, inBounds_read32_bind]
    refine fun hlength => ⟨hlength, ?_⟩
    exact inBounds_readMany_check (inBounds_readEntry payload ()) _ _
  · simp only [MqConsumer.syncGroupAnswer, result_check_bind, result_read32_bind] at hread
    split_ifs at hread with hlength
    obtain ⟨entries, hentries, hend, rfl⟩ := result_readMany_check hread
    obtain ⟨hcount, hsizes, hpayload⟩ :=
      (spells_readEntry payload ()).counted hlength hend hentries
    refine ⟨by rwa [List.length_map], fun a ha => ?_, ?_⟩
    · obtain ⟨entry, hentry, rfl⟩ := List.mem_map.mp ha
      exact hsizes entry hentry
    · -- An assignment is an entry with other names for its fields.
      simp only [List.map_map]
      exact hpayload.trans (congrArg encodeEntries (List.map_id _).symm)

theorem exactParser_listTopicsAnswer :
    ExactParser MqProducer.listTopicsAnswer encodeEntries
      (fun entry => entry.1.length ≤ 65535) := by
  refine fun payload => ⟨?_, fun found hread _ => ?_⟩
  · simp only [MqProducer.listTopicsAnswer, inBounds_check_bind, inBounds_read32_bind]
    refine fun hlength => ⟨hlength, fun _ => ?_⟩
    exact inBounds_readMany_check (inBounds_readEntry payload _) _ _
  · simp only [MqProducer.listTopicsAnswer, result_check_bind, result_read32_bind] at hread
    split_ifs at hread with hlength hcount
    obtain ⟨topics, htopics, hend, rfl⟩ := result_readMany_check hread
    exact (spells_readEntry payload _).counted hlength hend htopics

/-- Whatever arrives as a payload, the four parsers read nothing outside of it, and if
    they find entries, the payload is the encoding of these entries and nothing else.
    That they end is in their definitions, which go down with the number in front. -/
theorem response_parsers_exact :
    ExactParser ReplicationClient.fetchAnswer (counted encodeBody) Message.Framed ∧
      ExactParser MqConsumer.pollAnswer (counted encodeBody) Message.Framed ∧
      ExactParser MqConsumer.syncGroupAnswer
        (fun assignments => encodeEntries (assignments.map (fun a => (a.topic, a.partition))))
        (fun a => a.topic.length ≤ 65535) ∧
      ExactParser MqProducer.listTopicsAnswer encodeEntries (fun entry => entry.1.length ≤ 65535) :=
  ⟨exactParser_fetchAnswer, exactParser_pollAnswer, exactParser_syncGroupAnswer,
    exactParser_listTopicsAnswer⟩

end MqBroker
