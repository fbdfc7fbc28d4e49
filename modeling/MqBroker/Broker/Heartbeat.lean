import MqBroker.Broker.Parsers

/-!
# Heartbeats Between Brokers

The replication branch of `HandleHeartbeat`, and the payload that
`ReplicationClient::Heartbeat` sends to it.

A follower reports how far it has come, and the leader takes a note. A leader
reports its term and its commit index as well, and the follower treats that
like an append without messages. The client tells the two kinds apart by the
term, so that a leader in term 0 sends what looks like the report of a
follower.

## Main definitions

* `heartbeatArgs`, `heartbeatPayload`, `heartbeatRequest`, `heartbeatSent`: What
  `ReplicationClient::Heartbeat` sends.
* `ReplicaHeartbeat.op`: The operation of the coordinator it leads to.
* `Broker.handleReplicaHeartbeat`: The handler.

## Theorems

* `readReplicaHeartbeat_payload`: A payload reads back.
* `validate_heartbeatSent`: What is sent is accepted, without its token.
* `handleReplicaHeartbeat_cases`: The handler does one operation, or nothing.
-/

namespace MqBroker

open Traced

/-- The arguments of `ReplicationClient::Heartbeat`: term 0 stands for the
    report of a follower. -/
def heartbeatArgs (partition : UInt32) (nodeId : Bytes) (replicatedOffset term commit : UInt64) :
    ReplicaHeartbeat where
  nodeId := nodeId
  partition := partition
  replicatedOffset := replicatedOffset
  termed := if term ≠ 0 then some (term, commit) else none

/-- The payload of `ReplicationClient::Heartbeat`, behind the token. -/
def heartbeatPayload (h : ReplicaHeartbeat) : Bytes :=
  put16 (UInt16.ofNat h.nodeId.length) ++ (h.nodeId ++ (put32 h.partition ++
    (put64 h.replicatedOffset ++
      match h.termed with
      | none => []
      | some (term, commit) => put64 term ++ put64 commit)))

/-- The request `Call` sends for a heartbeat. -/
def heartbeatRequest (token topic : Bytes) (h : ReplicaHeartbeat) : Request :=
  { command := .heartbeat
    requestId := 1
    flags := if h.termed.isSome then flagReplication ||| flagReplicationTerm else flagReplication
    topic := topic
    payload := put16 (UInt16.ofNat token.length) ++ (token ++ heartbeatPayload h) }

/-- The request `Heartbeat` hands to the connection, if it gets that far: it
    wants a node id, `Call` a token, and `EncodeRequest` a topic and a payload
    that fit. -/
def heartbeatSent (token topic : Bytes) (h : ReplicaHeartbeat) : Option Request :=
  let request := heartbeatRequest token topic h
  if h.nodeId = [] ∨ h.nodeId.length > 65535 then none
  else if token = [] ∨ token.length > 65535 then none
  else if topic.length > 65535 ∨ request.payload.length > maxPayloadBytes then none
  else some request

/-- The operation of the coordinator that a heartbeat leads to. -/
def ReplicaHeartbeat.op (h : ReplicaHeartbeat) (topic : Bytes) (now : Int) : Op :=
  match h.termed with
  | none => .observeHeartbeat (partitionKey topic h.partition) h.nodeId h.replicatedOffset now
  | some (term, commit) =>
      .observeAppend (partitionKey topic h.partition) term h.nodeId h.replicatedOffset commit now

/-- The replication branch of `HandleHeartbeat`. -/
def Broker.handleReplicaHeartbeat (b : Broker) (now : Int) (request : Request) :
    Broker × Response :=
  match (readReplicaHeartbeat request.topic request.payload).result with
  | .error status => (b, makeResponse request status)
  | .ok h =>
      let key := partitionKey request.topic h.partition
      match h.termed with
      | none =>
          ({ b with
            coordinator := b.coordinator.observeHeartbeat key h.nodeId h.replicatedOffset now },
            makeResponse request .ok (put64 h.replicatedOffset))
      | some (term, commit) =>
          let observed := b.coordinator.observeAppend key term h.nodeId h.replicatedOffset commit now
          ({ b with coordinator := observed.1 },
            if observed.2 then makeResponse request .ok (put64 h.replicatedOffset)
            else makeResponse request .storageError)

/-- The handler refuses a request it cannot read, and otherwise does the
    operation of the heartbeat. -/
theorem handleReplicaHeartbeat_cases (b : Broker) (now : Int) (request : Request) :
    ((∃ status, (readReplicaHeartbeat request.topic request.payload).result = .error status) ∧
      (b.handleReplicaHeartbeat now request).1 = b) ∨
    ∃ h, (readReplicaHeartbeat request.topic request.payload).result = .ok h ∧
      (b.handleReplicaHeartbeat now request).1
        = { b with coordinator := (h.op request.topic now).exec b.coordinator } := by
  unfold Broker.handleReplicaHeartbeat
  cases hread : (readReplicaHeartbeat request.topic request.payload).result with
  | error status => exact Or.inl ⟨⟨status, rfl⟩, rfl⟩
  | ok h =>
      refine Or.inr ⟨h, rfl, ?_⟩
      rcases h with ⟨nodeId, partition, replicatedOffset, _ | ⟨term, commit⟩⟩ <;> rfl

section Payload

variable (h : ReplicaHeartbeat)

theorem heartbeatPayload_length :
    (heartbeatPayload h).length
      = (if h.termed.isSome then 30 else 14) + h.nodeId.length := by
  rcases h with ⟨nodeId, partition, replicatedOffset, _ | ⟨term, commit⟩⟩ <;>
  · simp only [heartbeatPayload, List.length_append, length_put16, length_put32, length_put64,
      List.length_nil, Option.isSome_none, Option.isSome_some, Bool.false_eq_true, if_false,
      if_true]
    omega

/-- What a broker sends as a heartbeat is what the other one reads. -/
theorem readReplicaHeartbeat_payload (topic : Bytes) (htopic : topic ≠ [])
    (hid : h.nodeId ≠ []) (hsize : h.nodeId.length ≤ 65535) :
    (readReplicaHeartbeat topic (heartbeatPayload h)).result = .ok h := by
  have hpos : 0 < h.nodeId.length := List.length_pos_iff.mpr hid
  have hlen := heartbeatPayload_length h
  have hnode : (get16 (heartbeatPayload h) 0).toNat = h.nodeId.length := by
    rw [heartbeatPayload, get16_put16]
    exact UInt16.toNat_ofNat_of_lt' (Nat.lt_succ_of_le hsize)
  have hcopy : substr (heartbeatPayload h) 2 h.nodeId.length = h.nodeId := by
    rw [heartbeatPayload, substr_append_right _ _ _ _ (by rw [length_put16]), length_put16,
      Nat.sub_self, substr_append_left _ _ _ rfl]
  have hpartition : get32 (heartbeatPayload h) (2 + h.nodeId.length) = h.partition := by
    rw [heartbeatPayload, get32_append_right _ _ _ (by rw [length_put16]; omega), length_put16,
      Nat.add_sub_cancel_left, get32_append_right _ _ _ le_rfl, Nat.sub_self, get32_put32]
  have hoffset : get64 (heartbeatPayload h) (6 + h.nodeId.length) = h.replicatedOffset := by
    rw [heartbeatPayload, get64_append_right _ _ _ (by rw [length_put16]; omega), length_put16,
      get64_append_right _ _ _ (by omega), get64_append_right _ _ _ (by rw [length_put32]; omega),
      length_put32, show 6 + h.nodeId.length - 2 - h.nodeId.length - 4 = 0 by omega, get64_put64]
  have hchecks : (heartbeatPayload h).length = 14 + h.nodeId.length ∨
      (heartbeatPayload h).length = 30 + h.nodeId.length := by
    rw [hlen]
    split
    · exact Or.inr rfl
    · exact Or.inl rfl
  simp only [readReplicaHeartbeat, result_check_bind, result_read16_bind, result_read32_bind,
    result_read64_bind, result_copy_bind, hnode, hcopy, hpartition, hoffset]
  rw [if_pos ⟨htopic, by omega⟩, if_pos ⟨by omega, by omega⟩]
  cases hterm : h.termed with
  | none =>
      simp only [hterm, Option.isSome_none, Bool.false_eq_true, if_false] at hlen
      rw [if_neg (by omega), ← hterm]
      rfl
  | some termed =>
      simp only [hterm, Option.isSome_some, if_true] at hlen
      -- The two numbers of a leader stand behind everything else.
      have htail : ∀ position, 14 + h.nodeId.length ≤ position →
          get64 (heartbeatPayload h) position
            = get64 (put64 termed.1 ++ put64 termed.2) (position - (14 + h.nodeId.length)) := by
        intro position hposition
        rw [heartbeatPayload, get64_append_right _ _ _ (by rw [length_put16]; omega), length_put16,
          get64_append_right _ _ _ (by omega),
          get64_append_right _ _ _ (by rw [length_put32]; omega), length_put32,
          get64_append_right _ _ _ (by rw [length_put64]; omega), length_put64, hterm]
        congr 1
        omega
      have hcommit : get64 (put64 termed.2) 0 = termed.2 := by
        rw [← List.append_nil (put64 termed.2), get64_put64]
      rw [if_pos hlen]
      simp only [result_read64_bind, result_pure]
      rw [htail _ le_rfl, htail (22 + h.nodeId.length) (by omega), Nat.sub_self, get64_put64,
        get64_append_right _ _ _ (by rw [length_put64]; omega), length_put64,
        show 22 + h.nodeId.length - (14 + h.nodeId.length) - 8 = 0 by omega, hcommit, ← hterm]

theorem heartbeatRequest_flags (token topic : Bytes) :
    (heartbeatRequest token topic h).hasFlag flagReplication = true ∧
      (heartbeatRequest token topic h).hasFlag flagAuthentication = false ∧
      ¬ ((heartbeatRequest token topic h).flags &&& ~~~knownFlags ≠ 0 ∨
        (heartbeatRequest token topic h).flags &&& ackMask = ackMask) := by
  have hboth : ∀ flags : UInt16, flags = flagReplication ||| flagReplicationTerm ∨
      flags = flagReplication →
      decide (flags &&& flagReplication ≠ 0) = true ∧
        decide (flags &&& flagAuthentication ≠ 0) = false ∧
        ¬ (flags &&& ~~~knownFlags ≠ 0 ∨ flags &&& ackMask = ackMask) := by
    rintro flags (rfl | rfl) <;> decide
  refine hboth (heartbeatRequest token topic h).flags ?_
  unfold heartbeatRequest
  split
  · exact Or.inl rfl
  · exact Or.inr rfl

/-- What `Heartbeat` has sent is accepted by a broker with the same token, and
    only loses the token. The node id fits its length. -/
theorem validate_heartbeatSent {token topic : Bytes} {request : Request}
    (hsent : heartbeatSent token topic h = some request) (b : Broker)
    (hconfigured : b.replicationConfigured = true) (htoken : b.replicationAuthToken = token) :
    request = heartbeatRequest token topic h ∧ h.nodeId ≠ [] ∧ h.nodeId.length ≤ 65535 ∧
      b.validateReplicationRequest request
        = some { heartbeatRequest token topic h with payload := heartbeatPayload h } := by
  simp only [heartbeatSent] at hsent
  split at hsent
  · cases hsent
  · rename_i hargs
    split at hsent
    · cases hsent
    · rename_i htokens
      split at hsent
      · cases hsent
      · cases hsent
        rw [not_or, not_lt] at hargs htokens
        refine ⟨rfl, hargs.1, hargs.2, ?_⟩
        exact validate_token b _ token (heartbeatPayload h) rfl
          (heartbeatRequest_flags h token topic).1 (show Command.heartbeat ∈ _ by decide)
          (fun happend => by cases happend) (fun _ => show Command.heartbeat ∈ _ by decide)
          hconfigured htoken htokens.1 htokens.2

end Payload

end MqBroker
