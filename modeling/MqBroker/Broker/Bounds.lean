import MqBroker.Broker.Parsers

/-!
# Reads Stay in Bounds

Which requests make a handler read behind the end of its payload.

A request gets to a handler when its version and flags are right and its token
has been checked and taken off. From there every parser checks a length before
it reads, and all of these checks are long enough but one. `HandleReplicaAppend`
looks for a number of messages behind the previous log entry when the payload
has 38 bytes beside the leader id, and that number ends 42 bytes in. For four
lengths of a payload it reads up to four bytes that are not there.

## Main definitions

* `Broker.acceptRequest`: The checks of `Handle` in front of the handlers.
* `Broker.handleReads`: The reads that a request causes.
* `Request.ShortAppend`: A replica append of one of the four lengths.

## Theorems

* `readItem_spans`: Where the parts of an item are.
* `readReplicaAppend_inBounds_iff`: The bounds of a replica append.
* `reads_inBounds_iff`: The bounds of all handlers.
-/

namespace MqBroker

open Traced

/-! ## Rules for the steps -/

section Rules

variable {α β : Type}

theorem inBounds_ite (p : Prop) [Decidable p] (t u : Traced Status α) :
    (if p then t else u).InBounds ↔ (p → t.InBounds) ∧ (¬ p → u.InBounds) := by
  by_cases h : p <;> simp only [h, if_true, if_false, true_implies, not_true_eq_false,
    false_implies, and_true, not_false_eq_true, true_and]

theorem inBounds_takeBytes_bind (payload : Bytes) (position count : Nat)
    (f : Nat → Traced Status β) :
    (takeBytes payload position count >>= f).InBounds
      ↔ (position + count ≤ payload.length → (f (position + count)).InBounds) := by
  unfold takeBytes
  by_cases h : position + count ≤ payload.length
  · rw [take_eq_some h, inBounds_bind]
    constructor
    · intro hboth _
      exact hboth.2 _ rfl
    · intro hf
      refine ⟨(inBounds_pure _).mpr trivial, fun a ha => ?_⟩
      cases ha
      exact hf h
  · rw [take_eq_none h, inBounds_bind]
    constructor
    · intro _ hle
      exact absurd hle h
    · intro _
      exact ⟨(inBounds_fail _).mpr trivial, fun a ha => nomatch ha⟩

theorem inBounds_resolveStep_bind (b : Broker) (topic : Bytes) (partition : UInt32)
    (f : UInt32 → Traced Status β) (h : ∀ resolved, (f resolved).InBounds) :
    (b.resolveStep topic partition >>= f).InBounds := by
  refine (inBounds_bind _ _).mpr ⟨?_, fun resolved _ => h resolved⟩
  unfold Broker.resolveStep
  split
  · exact (inBounds_fail _).mpr trivial
  · exact (inBounds_fail _).mpr trivial
  · exact (inBounds_pure _).mpr trivial

end Rules

/-! ## Parsers -/

theorem readCreateTopic_inBounds (payload : Bytes) : (readCreateTopic payload).InBounds := by
  rw [readCreateTopic, inBounds_check_bind]
  intro hlen r hr
  rw [List.mem_singleton.mp hr]
  exact hlen.ge

theorem readTopics_inBounds (payload : Bytes) (count position : Nat) :
    (readTopics payload count position).InBounds := by
  induction count generalizing position with
  | zero => exact (inBounds_pure _).mpr trivial
  | succ count ih =>
      simp only [readTopics, inBounds_check_bind, inBounds_read16_bind, inBounds_copy_bind]
      intro hsize
      refine ⟨by omega, fun htopic => ⟨by omega, ?_⟩⟩
      exact (inBounds_bind _ _).mpr ⟨ih _, fun rest _ => (inBounds_pure _).mpr trivial⟩

theorem readJoinGroup_inBounds (payload : Bytes) : (readJoinGroup payload).InBounds := by
  simp only [readJoinGroup, inBounds_check_bind, inBounds_read16_bind]
  intro hlen
  refine ⟨by omega, fun hgroup => ⟨by omega, by omega, fun hmember => ?_⟩⟩
  refine (inBounds_bind _ _).mpr ⟨readTopics_inBounds _ _ _, fun topics _ => ?_⟩
  simp only [inBounds_check_bind, inBounds_copy_bind, inBounds_pure, and_true]
  omega

theorem readSyncGroup_inBounds (payload : Bytes) : (readSyncGroup payload).InBounds := by
  simp only [readSyncGroup, inBounds_check_bind, inBounds_read16_bind, inBounds_copy_bind,
    inBounds_pure, and_true]
  omega

theorem readOffsetFetch_inBounds (topic payload : Bytes) :
    (readOffsetFetch topic payload).InBounds := by
  simp only [readOffsetFetch, inBounds_check_bind, inBounds_read16_bind, inBounds_read32_bind,
    inBounds_copy_bind, inBounds_pure, and_true]
  omega

theorem readCommitOffset_inBounds (b : Broker) (topic payload : Bytes) :
    (b.readCommitOffset topic payload).InBounds := by
  simp only [Broker.readCommitOffset, inBounds_takeBytes_bind, inBounds_check_bind,
    inBounds_read16_bind, inBounds_read32_bind, inBounds_read64_bind]
  intro hhead
  refine ⟨hhead, fun hgroup hpartition hoffset hend => ⟨by omega, by omega, fun _ => ?_⟩⟩
  refine inBounds_resolveStep_bind b topic _ _ fun resolved => ?_
  rw [inBounds_copy_bind, inBounds_pure]
  exact ⟨by omega, trivial⟩

theorem readFetch_inBounds (payload : Bytes) : (readFetch payload).InBounds := by
  simp only [readFetch, inBounds_check_bind, inBounds_read16_bind, inBounds_read32_bind,
    inBounds_read64_bind, inBounds_copy_bind, inBounds_ite, inBounds_pure, implies_true, and_true]
  omega

theorem readReplicaHeartbeat_inBounds (topic payload : Bytes) :
    (readReplicaHeartbeat topic payload).InBounds := by
  simp only [readReplicaHeartbeat, inBounds_check_bind, inBounds_read16_bind, inBounds_read32_bind,
    inBounds_read64_bind, inBounds_copy_bind, inBounds_ite, inBounds_pure, implies_true, and_true]
  omega

theorem readGroupHeartbeat_inBounds (payload : Bytes) : (readGroupHeartbeat payload).InBounds := by
  simp only [readGroupHeartbeat, inBounds_check_bind, inBounds_read16_bind, inBounds_copy_bind,
    inBounds_ite, inBounds_pure, implies_true, and_true]
  omega

theorem readReplicaFetch_inBounds (request : Request) : (readReplicaFetch request).InBounds := by
  simp only [readReplicaFetch, inBounds_check_bind, inBounds_read32_bind, inBounds_read64_bind,
    inBounds_pure, implies_true, and_true]
  omega

theorem readReplicaVote_inBounds (request : Request) : (readReplicaVote request).InBounds := by
  simp only [readReplicaVote, inBounds_check_bind, inBounds_read16_bind, inBounds_read64_bind,
    inBounds_copy_bind, inBounds_pure, and_true]
  omega

/-! ## Replica appends -/

/-- A replica append that is too short for the number of messages the handler
    looks for: 38 to 41 bytes beside the leader id. -/
def Request.ShortAppend (request : Request) : Prop :=
  let leaderSize := (get16 request.payload 16).toNat
  request.command = .replicaAppend ∧ leaderSize ≠ 0 ∧
    38 + leaderSize ≤ request.payload.length ∧ request.payload.length < 42 + leaderSize

theorem inBounds_readCandidateCount_bind {β : Type} (payload : Bytes) (leaderSize : Nat)
    (f : UInt32 → Traced Status β) (h : ∀ count, (38 + leaderSize ≤ payload.length ∨
      ¬ 0 < count.toNat) → (f count).InBounds) :
    (readCandidateCount payload leaderSize >>= f).InBounds
      ↔ (38 + leaderSize ≤ payload.length → 42 + leaderSize ≤ payload.length) := by
  unfold readCandidateCount
  by_cases hlong : payload.length ≥ 38 + leaderSize
  · rw [if_pos hlong, inBounds_read32_bind]
    constructor
    · intro hboth _
      omega
    · intro hroom
      exact ⟨by omega, h _ (Or.inl hlong)⟩
  · rw [if_neg hlong]
    refine iff_of_true ?_ (fun hle => absurd hle hlong)
    refine (inBounds_bind _ _).mpr ⟨(inBounds_pure _).mpr trivial, fun count hcount => ?_⟩
    cases hcount
    exact h 0 (Or.inr (lt_irrefl 0))

theorem readAppendHeader_inBounds_iff (payload : Bytes) :
    (readAppendHeader true payload).InBounds
      ↔ ¬ ((get16 payload 16).toNat ≠ 0 ∧ 38 + (get16 payload 16).toNat ≤ payload.length ∧
        payload.length < 42 + (get16 payload 16).toNat) := by
  have hcount : ∀ count : UInt32,
      (38 + (get16 payload 16).toNat ≤ payload.length ∨ ¬ 0 < count.toNat) →
      (if count.toNat > 0 ∧ count.toNat ≤ 10000 then (do
          let prevLogIndex ← read64 payload (18 + (get16 payload 16).toNat)
          let prevLogTerm ← read64 payload (18 + (get16 payload 16).toNat + 8)
          return ⟨get64 payload 0, get64 payload 8, prevLogIndex, prevLogTerm,
            substr payload 18 (get16 payload 16).toNat, 18 + (get16 payload 16).toNat + 16⟩)
        else (return ⟨get64 payload 0, get64 payload 8, 0, 0,
          substr payload 18 (get16 payload 16).toNat, 18 + (get16 payload 16).toNat⟩) :
        Traced Status AppendHeader).InBounds := by
    intro count hroom
    simp only [inBounds_ite, inBounds_read64_bind, inBounds_pure, implies_true, and_true]
    omega
  rw [readAppendHeader, if_neg (by simp only [not_true_eq_false, not_false_eq_true])]
  simp only [inBounds_check_bind, inBounds_read64_bind, inBounds_read16_bind, inBounds_copy_bind,
    inBounds_readCandidateCount_bind payload _ _ hcount]
  omega

theorem readReplicaMessage_inBounds (payload : Bytes) (position : Nat) :
    (readReplicaMessage payload position).InBounds := by
  simp only [readReplicaMessage, inBounds_check_bind, inBounds_read16_bind, inBounds_read32_bind,
    inBounds_read64_bind, inBounds_copy_bind, inBounds_pure, and_true]
  omega

theorem readReplicaMessages_inBounds (payload : Bytes) (count position : Nat) :
    (readReplicaMessages payload count position).InBounds := by
  induction count generalizing position with
  | zero => exact (inBounds_pure _).mpr trivial
  | succ count ih =>
      rw [readReplicaMessages, inBounds_bind]
      refine ⟨readReplicaMessage_inBounds payload position, fun first _ => ?_⟩
      exact (inBounds_bind _ _).mpr ⟨ih _, fun rest _ => (inBounds_pure _).mpr trivial⟩

/-- A replica append is read in bounds, unless it is too short for what the
    handler looks for. -/
theorem readReplicaAppend_inBounds_iff (b : Broker) (request : Request)
    (hcommand : request.command = .replicaAppend) (hflag : request.hasFlag flagReplication = true)
    (hterm : request.hasFlag flagReplicationTerm = true) :
    (b.readReplicaAppend request).InBounds ↔ ¬ request.ShortAppend := by
  have hheader := readAppendHeader_inBounds_iff request.payload
  rw [Broker.readReplicaAppend, inBounds_check_bind, inBounds_bind, hterm, hheader,
    Request.ShortAppend]
  simp only [hcommand, hflag, true_and]
  constructor
  · rintro h ⟨hleader, hlong, hshort⟩
    exact (h (by omega)).1 ⟨hleader, hlong, hshort⟩
  · refine fun h hlen => ⟨h, fun header _ => ?_⟩
    -- Behind the header every read has a check of its own in front of it.
    simp only [inBounds_check_bind, inBounds_read32_bind]
    refine fun hroom => ⟨by omega, by omega, fun hcount => ?_⟩
    refine inBounds_resolveStep_bind b _ _ _ fun resolved => (inBounds_bind _ _).mpr ⟨?_, ?_⟩
    · exact readReplicaMessages_inBounds _ _ _
    · intro messages _
      rw [inBounds_check_bind]
      exact fun _ => (inBounds_pure _).mpr trivial

/-! ## Producing -/

theorem readItem_inBounds (payload : Bytes) (position : Nat) :
    (readItem payload position).InBounds := by
  simp only [readItem, inBounds_takeBytes_bind, inBounds_read16_bind, inBounds_read32_bind,
    inBounds_pure, implies_true, and_true]
  omega

/-- Key and value of an item are where they were found to be. -/
theorem readItem_spans {payload : Bytes} {position : Nat} {item : ItemSpan}
    (h : (readItem payload position).result = .ok item) :
    item.keyPosition + item.keyLength ≤ payload.length ∧
      item.valuePosition + item.valueLength ≤ payload.length := by
  simp only [readItem, result_takeBytes_bind, result_read16_bind, result_read32_bind,
    Nat.add_sub_cancel, result_pure] at h
  split at h
  · split at h
    · split at h
      · split at h
        · cases h
          exact ⟨by omega, by omega⟩
        · cases h
      · cases h
    · cases h
  · cases h

theorem readBody_inBounds (payload : Bytes) (position : Nat) :
    (readBody payload position).InBounds := by
  simp only [readBody, inBounds_check_bind, inBounds_read32_bind, inBounds_takeBytes_bind]
  refine fun hhead => ⟨by omega, fun _ => (inBounds_bind _ _).mpr ⟨?_, ?_⟩⟩
  · exact readItem_inBounds _ _
  · intro item hitem
    simp only [inBounds_check_bind, inBounds_copy_bind, inBounds_pure, and_true]
    exact fun _ => (readItem_spans hitem).1

/-- The value of a body that was read. -/
theorem readBody_value {payload : Bytes} {position : Nat} {partition : UInt32} {item : ItemSpan}
    {key : Bytes} (h : (readBody payload position).result = .ok (partition, item, key)) :
    item.valuePosition + item.valueLength ≤ payload.length := by
  simp only [readBody, result_check_bind, result_read32_bind, result_takeBytes_bind] at h
  split at h
  · cases hitem : (readItem payload (position + 4)).result with
    | error status =>
        rw [result_bind_of_error hitem] at h
        cases h
    | ok found =>
        rw [result_bind_of_ok hitem, result_check_bind] at h
        split at h
        · cases h
          exact (readItem_spans hitem).2
        · cases h
  · cases h

theorem routeReads_inBounds (b : Broker) (env : ProduceEnv) (request : Request) (quota : Bool)
    (position : Nat) : ∀ r ∈ b.routeReads env request quota position, r.InBounds := by
  intro r hr
  simp only [Broker.routeReads] at hr
  rcases List.mem_append.mp hr with hbody | hvalue
  · exact readBody_inBounds request.payload position r hbody
  · split at hvalue
    · rename_i hresult _
      rw [List.mem_singleton.mp hvalue]
      exact readBody_value hresult
    · exact absurd hvalue List.not_mem_nil

theorem produceReads_inBounds (b : Broker) (env : ProduceEnv) (request : Request)
    (rate quota : Bool) : ∀ r ∈ b.produceReads env request rate quota, r.InBounds := by
  intro r hr
  unfold Broker.produceReads at hr
  split at hr
  · exact absurd hr List.not_mem_nil
  · split at hr
    · exact absurd hr List.not_mem_nil
    · split at hr
      · split at hr
        · exact absurd hr List.not_mem_nil
        · rename_i hlen
          simp only [List.cons_append, List.nil_append, List.mem_cons] at hr
          rcases hr with rfl | rfl | hr
          · exact show 0 + 8 ≤ request.payload.length by omega
          · exact show 8 + 8 ≤ request.payload.length by omega
          · split at hr
            · exact absurd hr List.not_mem_nil
            · exact routeReads_inBounds _ env request quota 16 r hr
      · exact routeReads_inBounds b env request quota 0 r hr

theorem readBatchHeader_inBounds (payload : Bytes) : (readBatchHeader payload).InBounds := by
  simp only [readBatchHeader, inBounds_takeBytes_bind, inBounds_read64_bind, inBounds_read32_bind,
    inBounds_check_bind, inBounds_pure, implies_true, and_true]
  omega

theorem readBatch_inBounds (request : Request) (producerId : UInt64)
    (found : List (Option Response)) (sequence : UInt64) (position : Nat) (newBytes : UInt64) :
    (readBatch request producerId found sequence position newBytes).InBounds := by
  induction found generalizing sequence position newBytes with
  | nil => exact (inBounds_pure _).mpr trivial
  | cons first rest ih =>
      rw [readBatch, inBounds_bind]
      refine ⟨readItem_inBounds _ _, fun item hitem => ?_⟩
      rcases readItem_spans hitem with ⟨hkey, hvalue⟩
      cases first with
      | some response =>
          simp only [inBounds_check_bind]
          exact fun _ => (inBounds_bind _ _).mpr
            ⟨ih _ _ _, fun tail _ => (inBounds_pure _).mpr trivial⟩
      | none =>
          simp only [inBounds_copy_bind, inBounds_check_bind]
          exact ⟨hkey, hvalue, fun _ => (inBounds_bind _ _).mpr
            ⟨ih _ _ _, fun tail _ => (inBounds_pure _).mpr trivial⟩⟩

theorem entryReads_inBounds (calls : Nat → ProduceEnv) (entries : List BatchEntry) (index : Nat)
    (b : Broker) : ∀ r ∈ Broker.entryReads calls entries index b, r.InBounds := by
  induction entries generalizing index b with
  | nil => exact fun r hr => absurd hr List.not_mem_nil
  | cons entry rest ih =>
      cases entry with
      | cached response => exact ih (index + 1) b
      | pending single =>
          intro r hr
          simp only [Broker.entryReads] at hr
          rcases List.mem_append.mp hr with hfirst | hrest
          · exact produceReads_inBounds b _ single false false r hfirst
          · split at hrest
            · exact absurd hrest List.not_mem_nil
            · exact ih _ _ r hrest

theorem batchReads_inBounds (b : Broker) (env : BatchEnv) (request : Request) :
    ∀ r ∈ b.batchReads env request, r.InBounds := by
  intro r hr
  unfold Broker.batchReads at hr
  split at hr
  · exact absurd hr List.not_mem_nil
  · split at hr
    · exact absurd hr List.not_mem_nil
    · split at hr
      · exact absurd hr List.not_mem_nil
      · rcases List.mem_append.mp hr with hparse | hentries
        · refine (inBounds_bind _ _).mpr ⟨readBatchHeader_inBounds _, fun header _ => ?_⟩ r hparse
          exact readBatch_inBounds _ _ _ _ _ _
        · split at hentries
          · exact entryReads_inBounds _ _ _ _ r hentries
          · exact absurd hentries List.not_mem_nil

/-! ## All requests -/

/-- `ValidateClientAuth`, with the token clients have to send. Without one the
    flag of tokens is not allowed. -/
def validateClientAuth (clientToken : Bytes) (request : Request) : Option Request :=
  let tokenSize := (get16 request.payload 0).toNat
  if request.hasFlag flagReplication then none
  else if clientToken = [] then
    if request.hasFlag flagAuthentication then none else some request
  else if ¬ request.hasFlag flagAuthentication ∨ request.payload.length < 2 then none
  else if tokenSize ≠ clientToken.length ∨ request.payload.length < 2 + tokenSize ∨
      substr request.payload 2 tokenSize ≠ clientToken then none
  else some
    { request with
      flags := request.flags &&& ~~~flagAuthentication
      payload := request.payload.drop (2 + tokenSize) }

/-- Whether a request is one between brokers, by its command. -/
def Request.isReplication (request : Request) : Bool :=
  (request.command = .heartbeat ∧ request.hasFlag flagReplication) ∨
    request.command = .replicaFetch ∨ request.command = .replicaAppend ∨
    request.command = .replicaVote

/-- The checks of `Handle` in front of the handlers: version, flags and token.
    The request that is handed on has no token. -/
def Broker.acceptRequest (b : Broker) (clientToken : Bytes) (request : Request) : Option Request :=
  if request.version ≠ currentVersion then none
  else if request.flags &&& ~~~knownFlags ≠ 0 ∨ request.flags &&& ackMask = ackMask then none
  else if request.hasFlag flagReplication ∧ request.hasFlag flagAuthentication then none
  else if request.isReplication ∨ request.hasFlag flagReplication then
    b.validateReplicationRequest request
  else validateClientAuth clientToken request

/-- The reads that the handler of a request makes, if the request gets to
    one. -/
def Broker.handleReads (b : Broker) (clientToken : Bytes) (env : HandleEnv) (request : Request) :
    List Read :=
  match b.acceptRequest clientToken request with
  | none => []
  | some normalized => b.requestReads env normalized

/-- A request between brokers that is accepted has the flags of its command,
    and only loses its token. -/
theorem validateReplicationRequest_some {b : Broker} {request normalized : Request}
    (h : b.validateReplicationRequest request = some normalized) :
    request.hasFlag flagReplication = true ∧
      (request.command = .replicaAppend → request.hasFlag flagReplicationTerm = true) ∧
      normalized.command = request.command ∧ normalized.flags = request.flags := by
  simp only [Broker.validateReplicationRequest] at h
  split at h
  · cases h
  · rename_i hflag
    split at h
    · cases h
    · split at h
      · cases h
      · rename_i hterm
        split at h
        · cases h
        · split at h
          · cases h
          · split at h
            · cases h
            · cases h
              rw [not_or, not_or, not_not, not_not] at hflag
              rw [not_and, not_not] at hterm
              exact ⟨hflag.2.2, hterm, rfl, rfl⟩

theorem validateClientAuth_command {clientToken : Bytes} {request normalized : Request}
    (h : validateClientAuth clientToken request = some normalized) :
    normalized.command = request.command := by
  simp only [validateClientAuth] at h
  split at h
  · cases h
  · split at h
    · split at h
      · cases h
      · cases h
        rfl
    · split at h
      · cases h
      · split at h
        · cases h
        · cases h
          rfl

/-- A request is accepted from a broker or from a client, and from a client
    only if it is none between brokers. -/
theorem acceptRequest_cases {b : Broker} {clientToken : Bytes} {request normalized : Request}
    (h : b.acceptRequest clientToken request = some normalized) :
    b.validateReplicationRequest request = some normalized ∨
      (request.isReplication = false ∧
        validateClientAuth clientToken request = some normalized) := by
  simp only [Broker.acceptRequest] at h
  split at h
  · cases h
  · split at h
    · cases h
    · split at h
      · cases h
      · split at h
        · exact Or.inl h
        · rename_i hclient
          rw [not_or, Bool.not_eq_true] at hclient
          exact Or.inr ⟨hclient.1, h⟩

/-- The command of a request stays what it is. -/
theorem acceptRequest_command {b : Broker} {clientToken : Bytes} {request normalized : Request}
    (h : b.acceptRequest clientToken request = some normalized) :
    normalized.command = request.command := by
  rcases acceptRequest_cases h with hbroker | ⟨_, hclient⟩
  · exact (validateReplicationRequest_some hbroker).2.2.1
  · exact validateClientAuth_command hclient

/-- What is accepted as a replica append carries the flags of one. -/
theorem acceptRequest_append {b : Broker} {clientToken : Bytes} {request normalized : Request}
    (h : b.acceptRequest clientToken request = some normalized)
    (hcommand : normalized.command = .replicaAppend) :
    normalized.hasFlag flagReplication = true ∧ normalized.hasFlag flagReplicationTerm = true := by
  rcases acceptRequest_cases h with hbroker | ⟨hkind, hclient⟩
  · rcases validateReplicationRequest_some hbroker with ⟨hflag, hterm, hsame, hflags⟩
    simp only [Request.hasFlag, hflags]
    exact ⟨hflag, hterm (hsame.symm.trans hcommand)⟩
  · -- Clients cannot send replica appends.
    have hsame := validateClientAuth_command hclient
    rw [hcommand] at hsame
    simp only [Request.isReplication, ← hsame, decide_eq_false_iff_not, true_or, or_true,
      not_true_eq_false] at hkind

/-- Every read of every handler is inside the payload, for every request and
    every state of the broker, exactly when the request is not a replica append
    that is too short for what its handler looks for. -/
theorem reads_inBounds_iff (b : Broker) (clientToken : Bytes) (env : HandleEnv)
    (request : Request) :
    (∀ r ∈ b.handleReads clientToken env request, r.InBounds)
      ↔ ∀ normalized, b.acceptRequest clientToken request = some normalized →
        ¬ normalized.ShortAppend := by
  unfold Broker.handleReads
  cases haccept : b.acceptRequest clientToken request with
  | none => exact iff_of_true (fun r hr => absurd hr List.not_mem_nil) (fun _ h => nomatch h)
  | some normalized =>
      simp only [Option.some.injEq, forall_eq']
      by_cases happend : normalized.command = .replicaAppend
      · rcases acceptRequest_append haccept happend with ⟨hflag, hterm⟩
        simp only [Broker.requestReads, happend]
        exact readReplicaAppend_inBounds_iff b normalized happend hflag hterm
      · refine iff_of_true ?_ (fun hshort => happend hshort.1)
        unfold Broker.requestReads
        split
        · exact readCreateTopic_inBounds _
        · exact fun r hr => absurd hr List.not_mem_nil
        · exact fun r hr => absurd hr List.not_mem_nil
        · exact fun r hr => absurd hr List.not_mem_nil
        · exact produceReads_inBounds b env.produce normalized true true
        · exact batchReads_inBounds b env.batch normalized
        · exact readSyncGroup_inBounds _
        · exact readOffsetFetch_inBounds _ _
        · exact readFetch_inBounds _
        · exact readCommitOffset_inBounds b _ _
        · exact readJoinGroup_inBounds _
        · split
          · exact readReplicaHeartbeat_inBounds _ _
          · exact readGroupHeartbeat_inBounds _
        · exact readReplicaFetch_inBounds _
        · exact absurd ‹normalized.command = .replicaAppend› happend
        · exact readReplicaVote_inBounds _

/-- A replica append of 39 bytes from a leader with a name of one byte: the
    handler reads bytes 39 to 42 of the payload. -/
theorem reads_out_of_bounds :
    ¬ ∀ r ∈ Broker.handleReads ((Broker.fresh {}).configureReplication [97] [⟨[98], false⟩] 2 true
          [1] none) [] {}
        { command := .replicaAppend
          flags := flagReplication ||| flagReplicationTerm
          topic := [101]
          payload := [0, 1, 1] ++ (List.replicate 16 0 ++ ([0, 1, 98] ++ List.replicate 20 0)) },
      r.InBounds := by
  decide +kernel

end MqBroker
