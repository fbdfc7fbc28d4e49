import MqBroker.Server.Runs

/-!
# Calls Between Brokers

`ReplicationClient::Call` and `ReplicationClient::Append`, with the connection
as a parameter, and what becomes of the answer of a follower that refuses the
messages because of the entry in front of them.

A follower answers such an append with the index it would like to get next, so
that the leader can go back to there. `Append` has a place for the index, and
takes it from the answer when the call has failed. But `Call` hands out the
payload of an answer only when the call has not failed. The two conditions
exclude each other, and the index never comes out.

## Main definitions

* `ReplicationClient`: The client, with the text of its last error.
* `ReplicationClient.call`, `ReplicationClient.append`: Its calls.
* `Broker.conflictHint`: The index in the answer, when a follower refuses.
* `Server.connection`: A connection to a broker.

## Theorems

* `call_success`: What a call that succeeds has received.
* `append_nextLogIndex`: `Append` leaves its place for the index alone.
* `conflict_hint_lost`: So the index of the follower is lost.
-/

namespace MqBroker

/-- `ReplicationClient`. -/
structure ReplicationClient where
  authToken : Bytes
  requestId : UInt64 := 1
  error : String := ""

/-- How a call gets on with its connection: why there is none, or what arrives
    for the frame that is sent, if it can be sent. -/
abbrev Connection := Except String (Bytes → Option Bytes)

namespace ReplicationClient

variable (c : ReplicationClient)

/-- The request of `Call`, with the token in front of the payload. -/
def request (command : Command) (topic payload : Bytes) (termPayload : Bool) : RawRequest where
  command := command.code
  requestId := c.requestId
  flags := flagReplication ||| (if termPayload then flagReplicationTerm else 0)
  topic := topic
  payload := put16 (UInt16.ofNat c.authToken.length) ++ (c.authToken ++ payload)

/-- The part of `Call` that sends a request and receives the answer. -/
def receive (exchange : Bytes → Option Bytes) (request : RawRequest) :
    ReplicationClient × Option RawResponse :=
  match encodeRequest request with
  | .error _ => (c, none)
  | .ok frame =>
      match exchange frame with
      | none => (c, none)
      | some arrived =>
          let payloadSize := (get32 arrived 14).toNat
          if arrived.length < 18 then (c, none)
          else if payloadSize > maxPayloadBytes ∨ arrived.length < 18 + payloadSize then (c, none)
          else
            match decodeResponse (arrived.take (18 + payloadSize)) with
            | .error e => ({ c with error := if e.text = "" then c.error else e.text }, none)
            | .ok response =>
                if response.requestId ≠ request.requestId then (c, none) else (c, some response)

/-- `Call`, with what is in `response_payload` before it and after it. -/
def call (connection : Connection) (command : Command) (topic payload responsePayload : Bytes)
    (termPayload : Bool) : ReplicationClient × Bool × Bytes :=
  if c.authToken = [] ∨ c.authToken.length > 65535 then
    ({ c with error := "replication authentication token is not configured" }, false,
      responsePayload)
  else
    match connection with
    | .error text => ({ c with error := text }, false, responsePayload)
    | .ok exchange =>
        let request := c.request command topic payload termPayload
        match { c with requestId := c.requestId + 1 }.receive exchange request with
        | (c, none) =>
            ({ c with error := if c.error = "" then "replication response failed" else c.error },
              false, responsePayload)
        | (c, some response) =>
            if response.status ≠ Status.ok.code then
              ({ c with error := "replication request rejected" }, false, responsePayload)
            else ({ c with error := "" }, true, response.payload)

/-- `Append`. The last argument is where `next_log_index` points to, before the
    call and after it. -/
def append (connection : Connection) (a : AppendCall) (nextLogIndex : Option UInt64) :
    ReplicationClient × Bool × Option UInt64 :=
  if a.messages = [] ∨ a.leaderId = [] ∨ a.leaderId.length > 65535 then (c, false, nextLogIndex)
  else
    let called := c.call connection .replicaAppend a.topic (appendPayload a) [] true
    let response := called.2.2
    (called.1, called.2.1,
      if ¬ called.2.1 ∧ nextLogIndex.isSome ∧ response.length = 8 then some (get64 response 0)
      else nextLogIndex)

end ReplicationClient

/-! ## The answer of a follower -/

/-- The index that `HandleReplicaAppend` puts into its answer, if it refuses a
    request because of the entry in front of its messages. -/
def Broker.conflictHint (b : Broker) (request : Request) : Option UInt64 :=
  if ¬ request.hasFlag flagReplication ∨ request.payload.length < 8 then none
  else
    match parseAppendHeader (request.hasFlag flagReplicationTerm) request.payload with
    | none => none
    | some header =>
        if header.position + 8 > request.payload.length then none
        else
          let count := (get32 request.payload (header.position + 4)).toNat
          if count = 0 ∨ count > 10000 then none
          else
            match b.resolvePartition request.topic (get32 request.payload header.position) [] with
            | .error _ => none
            | .ok partition =>
                match parseReplicaMessages request.payload count (header.position + 8) with
                | none => none
                | some (_, position) =>
                    let key := partitionKey request.topic partition
                    if position ≠ request.payload.length then none
                    else if request.hasFlag flagReplicationTerm ∧
                        ¬ b.coordinator.logMatches key header.prevLogIndex header.prevLogTerm then
                      some (b.coordinator.nextLogIndex key)
                    else none

/-- The index is in the answer. -/
theorem handleReplicaAppend_conflict {b : Broker} {request : Request} {hint : UInt64}
    (h : b.conflictHint request = some hint) (env : ReplicaEnv) :
    b.handleReplicaAppend env request = (b, makeResponse request .invalidOffset (put64 hint)) := by
  simp only [Broker.conflictHint] at h
  simp only [Broker.handleReplicaAppend]
  -- The handler makes the same checks in the same order.
  split at h
  · cases h
  · rename_i hsize
    rw [if_neg hsize]
    cases hheader : parseAppendHeader (request.hasFlag flagReplicationTerm) request.payload with
    | none =>
        rw [hheader] at h
        cases h
    | some header =>
        simp only [hheader] at h
        split at h
        · cases h
        · rename_i hroom
          simp only [if_neg hroom]
          split at h
          · cases h
          · rename_i hcount
            rw [if_neg hcount]
            cases hpartition : b.resolvePartition request.topic
                (get32 request.payload header.position) [] with
            | error e =>
                rw [hpartition] at h
                cases h
            | ok partition =>
                simp only [hpartition] at h
                cases hmessages : parseReplicaMessages request.payload
                    (get32 request.payload (header.position + 4)).toNat (header.position + 8) with
                | none =>
                    rw [hmessages] at h
                    cases h
                | some parsed =>
                    rcases parsed with ⟨messages, position⟩
                    simp only [hmessages] at h
                    split at h
                    · cases h
                    · rename_i hend
                      simp only [if_neg hend]
                      split at h
                      · rename_i hconflict
                        rw [Broker.applyAppend, if_pos hconflict, Option.some.inj h]
                      · cases h

/-- A connection to a broker: it decodes the frame, and sends the answer back if
    the answer has a frame. -/
def Server.connection (s : Server) (env : ServerEnv) : Connection :=
  .ok fun frame =>
    match decodeRequest frame with
    | .error _ => none
    | .ok raw => (encodeResponse (s.serve env raw).2).toOption

/-- A broker refuses a replica append because of the entry in front of its
    messages. -/
structure Server.Conflicts (s : Server) (raw : RawRequest) (hint : UInt64) : Prop where
  command : raw.command = Command.replicaAppend.code
  rejected : ∃ normalized, s.Admits (raw.request .replicaAppend) normalized ∧
    s.broker.conflictHint normalized = some hint

/-- The index is in the answer that is sent. -/
theorem Server.Conflicts.serve {s : Server} {raw : RawRequest} {hint : UInt64}
    (h : s.Conflicts raw hint) (env : ServerEnv) :
    (s.serve env raw).2.status = Status.invalidOffset.code ∧
      (s.serve env raw).2.payload = put64 hint := by
  rcases h.rejected with ⟨normalized, hadmits, hhint⟩
  have hkind : normalized.command = .replicaAppend := acceptRequest_command hadmits.accepted
  have hcode : Command.ofCode raw.command = some .replicaAppend := by
    rw [h.command]
    exact ofCode_code .replicaAppend
  have hcounted := (counted_frame s (raw.request .replicaAppend).command).1
  simp only [Server.serve, hcode]
  rw [hadmits.handle_eq]
  simp only [Server.dispatch, hkind]
  rw [hcounted, handleReplicaAppend_conflict hhint]
  exact ⟨rfl, rfl⟩

/-! ## Calls -/

namespace ReplicationClient

variable {c : ReplicationClient}

/-- A call that fails leaves the place for the payload alone, and one that
    succeeds has received an answer that is `kOk`. -/
theorem call_success (connection : Connection) (command : Command)
    (topic payload responsePayload : Bytes) (termPayload : Bool) :
    ((c.call connection command topic payload responsePayload termPayload).2
      = (false, responsePayload)) ∨
    ∃ exchange response, connection = .ok exchange ∧
      (({ c with requestId := c.requestId + 1 } : ReplicationClient).receive exchange
        (c.request command topic payload termPayload)).2 = some response ∧
      response.status = Status.ok.code ∧
      (c.call connection command topic payload responsePayload termPayload).2
        = (true, response.payload) := by
  unfold ReplicationClient.call
  split
  · exact Or.inl rfl
  · cases connection with
    | error text => exact Or.inl rfl
    | ok exchange =>
        simp only
        split
        · exact Or.inl rfl
        · rename_i d response hreceive
          split
          · exact Or.inl rfl
          · rename_i hstatus
            exact Or.inr ⟨exchange, response, rfl, by rw [hreceive], not_not.mp hstatus, rfl⟩

/-- `Append` leaves its place for the index alone, whatever the connection
    does. -/
theorem append_nextLogIndex (connection : Connection) (a : AppendCall)
    (nextLogIndex : Option UInt64) :
    (c.append connection a nextLogIndex).2.2 = nextLogIndex := by
  unfold ReplicationClient.append
  split
  · rfl
  · rcases call_success (c := c) connection .replicaAppend a.topic (appendPayload a) [] true with
      hfailed | ⟨exchange, response, _, _, _, hsucceeded⟩
    · -- A call that has failed has not handed out a payload.
      simp only [hfailed]
      refine if_neg fun hindex => ?_
      cases hindex.2.2
    · simp only [hsucceeded]
      exact if_neg fun hindex => hindex.1 trivial

/-- What is received from a broker is its answer. -/
theorem receive_connection {s : Server} {env : ServerEnv} {exchange : Bytes → Option Bytes}
    (hconnection : s.connection env = .ok exchange) {request : RawRequest} {response : RawResponse}
    (h : (c.receive exchange request).2 = some response) : response = (s.serve env request).2 := by
  cases hconnection
  unfold ReplicationClient.receive at h
  cases hframe : encodeRequest request with
  | error e =>
      rw [hframe] at h
      cases h
  | ok frame =>
      have hdecode := (decodeRequest_encodeRequest hframe)
      simp only [hframe, hdecode] at h
      cases hanswer : encodeResponse (s.serve env request).2 with
      | error e =>
          simp only [hanswer] at h
          cases h
      | ok arrived =>
          rcases decodeResponse_encodeResponse hanswer with ⟨hsize, hback⟩
          simp only [hanswer, Except.toOption, ← hsize, List.take_length, hback] at h
          split at h
          · cases h
          · split at h
            · cases h
            · split at h
              · cases h
              · exact (Option.some.inj h).symm

end ReplicationClient

/-- A follower refuses messages because of the entry in front of them, and says
    which index it would like to get next. `Append` fails, and its place for the
    index is what it was before. -/
theorem conflict_hint_lost (c : ReplicationClient) (s : Server) (env : ServerEnv) (a : AppendCall)
    (hint : UInt64)
    (h : s.Conflicts (c.request .replicaAppend a.topic (appendPayload a) true) hint) :
    ((s.serve env (c.request .replicaAppend a.topic (appendPayload a) true)).2.status
        = Status.invalidOffset.code ∧
      (s.serve env (c.request .replicaAppend a.topic (appendPayload a) true)).2.payload
        = put64 hint) ∧
    (∀ v, (c.append (s.connection env) a (some v)).2 = (false, some v)) ∧
    ¬ ∀ v, (c.append (s.connection env) a (some v)).2 = (false, some hint) := by
  have hanswer := h.serve env
  have hlost : ∀ v, (c.append (s.connection env) a (some v)).2 = (false, some v) := by
    intro v
    refine Prod.ext ?_ (ReplicationClient.append_nextLogIndex _ _ _)
    unfold ReplicationClient.append
    split
    · rfl
    · rcases ReplicationClient.call_success (c := c) (s.connection env) .replicaAppend
        a.topic (appendPayload a) [] true with
        hfailed | ⟨exchange, response, hexchange, hreceive, hok, _⟩
      · simp only [hfailed]
      · -- The answer of the follower is not `kOk`.
        rw [ReplicationClient.receive_connection hexchange hreceive, hanswer.1] at hok
        exact absurd hok (by decide)
  refine ⟨hanswer, hlost, fun hstored => ?_⟩
  have htwice := (hlost (hint + 1)).symm.trans (hstored (hint + 1))
  rw [Prod.mk.injEq, Option.some.injEq, UInt64.add_eq_left] at htwice
  exact absurd htwice.2 (by decide)

/-! ## A follower with two messages -/

/-- A follower that has messages 0 and 1 of a topic. -/
def conflictFollower : Server where
  broker :=
    let b := (((Broker.fresh {}).configureReplication [70] [{ nodeId := [76] }] 0 true [116]
      none).createTopic [97] 1).1
    { b with coordinator := b.coordinator.recordLocalOffset (partitionKey [97] 0) 1 }

/-- A leader that goes on behind message 3. -/
def conflictCall : AppendCall where
  topic := [97]
  partition := 0
  messages := [⟨4, 5, [], [1]⟩]
  term := 0
  commitIndex := 0
  leaderId := [76]
  prevLogIndex := 3
  prevLogTerm := 0

theorem conflictFollower_conflicts :
    conflictFollower.Conflicts (({ authToken := [116] } : ReplicationClient).request .replicaAppend
      [97] (appendPayload conflictCall) true) 2 :=
  ⟨rfl, _, ⟨rfl, rfl, Or.inl (by decide +kernel)⟩, by decide +kernel⟩

theorem conflict_hint_lost_two :
    ((conflictFollower.serve {} (({ authToken := [116] } : ReplicationClient).request .replicaAppend
        [97] (appendPayload conflictCall) true)).2.status = Status.invalidOffset.code ∧
      (conflictFollower.serve {} (({ authToken := [116] } : ReplicationClient).request .replicaAppend
        [97] (appendPayload conflictCall) true)).2.payload = put64 2) ∧
    (∀ v, (({ authToken := [116] } : ReplicationClient).append (conflictFollower.connection {})
      conflictCall (some v)).2 = (false, some v)) ∧
    ¬ ∀ v, (({ authToken := [116] } : ReplicationClient).append (conflictFollower.connection {})
      conflictCall (some v)).2 = (false, some 2) :=
  conflict_hint_lost { authToken := [116] } conflictFollower {} conflictCall 2
    conflictFollower_conflicts

/-- The leader has 7 in the place for the index, and the follower asks for 2. -/
theorem conflict_hint_not_stored :
    conflictFollower.Conflicts (({ authToken := [116] } : ReplicationClient).request .replicaAppend
      [97] (appendPayload conflictCall) true) 2 ∧
    (({ authToken := [116] } : ReplicationClient).append (conflictFollower.connection {})
      conflictCall (some 7)).2.2 ≠ some 2 := by
  refine ⟨conflictFollower_conflicts, ?_⟩
  rw [ReplicationClient.append_nextLogIndex]
  decide

end MqBroker
