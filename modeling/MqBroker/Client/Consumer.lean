import MqBroker.Client.Replies
import MqBroker.Server.Offsets
import MqBroker.Storage.Reading

/-!
# A Consumer

`MqConsumer` with what it keeps between its calls, and what its calls do to a
broker.

A fetch brings many messages. The first of them is returned at once and the
others wait in a queue, so that most calls of `poll` do not go to the broker.
The consumer remembers the offset behind the last message it has returned, not
behind the last one it has got: when the queue is dropped with a connection, the
next fetch asks for the rest again. A subscription forgets both, and then only
the broker knows how far the group has come.

A call that gets no answer may have been handled or not. The class tries a call
again on another connection; that is the same as a call without an answer and
one behind it.

## Main definitions

* `MqConsumer.Impl`: What a consumer keeps.
* `MqConsumer.Impl.connect`, `MqConsumer.Impl.subscribe`, `MqConsumer.Impl.poll`
  and so on: Its methods.

## Theorems

* `call_cases`: What a broker does with a call.
* `Partition.Counted.read_isPrefix`: A read gives the log from its start on.
* `call_fetch`: What a fetch brings.
* `call_commit`: What a commit changes.
-/

namespace MqBroker

open Traced

/-! ## The class -/

/-- What a consumer keeps between its calls. -/
structure MqConsumer.Impl where
  authToken : Bytes := []
  topic : Bytes := []
  group : Bytes := []
  partition : UInt32 := 0
  nextOffset : UInt64 := 0
  pendingMessages : List Message := []
deriving DecidableEq, Repr

namespace MqConsumer.Impl

variable (c : MqConsumer.Impl)

/-- `connect`: what is in the queue came over another connection. -/
def connect : MqConsumer.Impl := { c with pendingMessages := [] }

/-- `close`. -/
def close : MqConsumer.Impl := { c with pendingMessages := [] }

/-- `subscribe`. The names are taken in any case. -/
def subscribe (topic group : Bytes) (partition : UInt32) : MqConsumer.Impl × Bool :=
  ({ c with
    topic := topic
    group := group
    partition := partition
    nextOffset := 0
    pendingMessages := [] }, decide (topic ≠ []) && decide (group ≠ []))

/-- `Call`: a request is put into a frame, the broker takes it out again and
    handles it. There is no answer if there is no frame for the request. -/
def call (s : Server) (env : ServerEnv) (requestId : UInt64) (request : Request) :
    Server × Option Response :=
  match clientCall c.authToken requestId request with
  | none => (s, none)
  | some sent =>
      match encodeRequest sent.raw with
      | .error _ => (s, none)
      | .ok _ => ((s.handle env sent).1, some (s.handle env sent).2)

/-- The part of `poll` behind the call: the first message is returned and the
    others are queued. -/
def receive : Option Response → MqConsumer.Impl × Option Message
  | none => (c, none)
  | some response =>
      if response.status ≠ .ok then (c, none)
      else
        match (MqConsumer.pollAnswer response.payload).result with
        | .error _ => ({ c with pendingMessages := [] }, none)
        | .ok [] => (c, none)
        | .ok (message :: rest) =>
            ({ c with nextOffset := message.offset + 1, pendingMessages := rest }, some message)

/-- `poll`. When nothing is queued the broker is asked, and its answer may not
    arrive. -/
def poll (s : Server) (env : ServerEnv) (requestId : UInt64) (arrives : Bool) :
    Server × MqConsumer.Impl × Option Message :=
  match c.pendingMessages with
  | message :: rest =>
      (s, { c with nextOffset := message.offset + 1, pendingMessages := rest }, some message)
  | [] =>
      let answered :=
        c.call s env requestId (MqConsumer.poll c.topic c.group c.partition c.nextOffset)
      (answered.1, c.receive (if arrives then answered.2 else none))

/-- `commit`. -/
def commit (s : Server) (env : ServerEnv) (requestId : UInt64) (arrives : Bool) (offset : UInt64) :
    Server × Bool :=
  let answered := c.call s env requestId (MqConsumer.commit c.topic c.group c.partition offset)
  (answered.1, arrives && answered.2.any (fun response => response.status = .ok))

end MqConsumer.Impl

/-! ## A call -/

section Call

variable {token : Bytes} {requestId : UInt64} {request sent normalized : Request}

/-- What is sent for a request without flags. -/
theorem clientCall_plain (hplain : request.flags = 0)
    (h : clientCall token requestId request = some sent) :
    sent.command = request.command ∧ sent.topic = request.topic ∧
      sent.payload = clientPayload token request.payload ∧
      sent.hasFlag flagReplication = false ∧
      (sent.hasFlag flagAuthentication = true ↔ token ≠ []) ∧ token.length ≤ 65535 := by
  rw [clientCall] at h
  split at h
  · rename_i htoken
    cases h
    simp only [Request.hasFlag, hplain, htoken, clientPayload, if_true]
    decide
  · rename_i htoken
    split at h
    · cases h
    · rename_i hsize
      cases h
      simp only [Request.hasFlag, hplain]
      exact ⟨trivial, trivial, trivial, by decide, iff_of_true (by decide) htoken,
        not_lt.mp hsize⟩

/-- A broker accepts it only if it has the token of the client. -/
theorem validateClientAuth_same {expected : Bytes} (hplain : request.flags = 0)
    (hcall : clientCall token requestId request = some sent)
    (h : validateClientAuth expected sent = some normalized) : expected = token := by
  rcases clientCall_plain hplain hcall with ⟨_, _, hpayload, _, hauth, hsize⟩
  simp only [validateClientAuth] at h
  split at h
  · cases h
  · split at h
    · rename_i hnone
      split at h
      · cases h
      · rename_i hflag
        rw [hnone]
        exact (not_not.mp fun htoken => hflag (hauth.mpr htoken)).symm
    · split at h
      · cases h
      · rename_i hflag
        split at h
        · cases h
        · rename_i hchecks
          rw [not_or, not_not] at hflag
          rw [not_or, not_or, not_not, not_not] at hchecks
          have htoken := hauth.mp hflag.1
          have hlength : (get16 sent.payload 0).toNat = token.length := by
            rw [hpayload, clientPayload_of_ne htoken, get16_put16]
            exact UInt16.toNat_ofNat_of_lt' (Nat.lt_succ_of_le hsize)
          rw [← hchecks.2.2, hlength, hpayload, clientPayload_of_ne htoken,
            substr_append_right _ _ _ _ (by rw [length_put16]), length_put16]
          exact substr_append_left _ _ _ rfl

/-- A request without flags that gets to its handler is what the client has
    made. -/
theorem admits_clientCall {s : Server} (hplain : request.flags = 0)
    (hcall : clientCall token requestId request = some sent) (h : s.Admits sent normalized) :
    normalized.command = request.command ∧ normalized.topic = request.topic ∧
      normalized.payload = request.payload := by
  rcases clientCall_plain hplain hcall with ⟨hcommand, htopic, hpayload, hreplication, _, _⟩
  refine ⟨(acceptRequest_command h.accepted).trans hcommand,
    (acceptRequest_topic h.accepted).trans htopic, ?_⟩
  rcases acceptRequest_cases h.accepted with hbroker | ⟨_, hclient⟩
  · have hflag := (validateReplicationRequest_some hbroker).1
    rw [hreplication] at hflag
    cases hflag
  · have hsame := validateClientAuth_same hplain hcall hclient
    rw [hsame] at hclient
    exact (validateClientAuth_payload hpayload hclient).1

end Call

/-- A call is not sent, or refused, or handled as the client has made it. -/
theorem call_cases (c : MqConsumer.Impl) (s : Server) (env : ServerEnv) (requestId : UInt64)
    {request : Request} (hplain : request.flags = 0) :
    (s.Counts (c.call s env requestId request).1 ∧
      ∀ response, (c.call s env requestId request).2 = some response → response.status ≠ .ok) ∨
    ∃ normalized d, normalized.command = request.command ∧ normalized.topic = request.topic ∧
      normalized.payload = request.payload ∧ s.Counts d ∧
      (d.dispatch env normalized).1.Counts (c.call s env requestId request).1 ∧
      (c.call s env requestId request).2 = some (d.dispatch env normalized).2 := by
  simp only [MqConsumer.Impl.call]
  cases hcall : clientCall c.authToken requestId request with
  | none => exact Or.inl ⟨.refl s, fun _ h => nomatch h⟩
  | some sent =>
      cases hframe : encodeRequest sent.raw with
      | error e =>
          simp only [hframe]
          exact Or.inl ⟨.refl s, fun _ h => nomatch h⟩
      | ok frame =>
          simp only [hframe]
          by_cases hadmitted : ∃ normalized, s.Admits sent normalized
          · rcases hadmitted with ⟨normalized, hadmits⟩
            rcases admits_clientCall hplain hcall hadmits with ⟨hcommand, htopic, hpayload⟩
            refine Or.inr ⟨normalized, s.counted sent.command, hcommand, htopic, hpayload,
              counted_counts s sent.command, ?_, ?_⟩
            · rw [hadmits.handle_eq]
              exact countError_counts _ _
            · rw [hadmits.handle_eq]
          · rcases handle_refused (not_exists.mp hadmitted) env with ⟨hcounts, hstatus⟩
            refine Or.inl ⟨hcounts, fun response h => ?_⟩
            rw [← Option.some.inj h]
            exact hstatus

/-- What is true of a broker at all times is true after a call. -/
theorem call_sound (c : MqConsumer.Impl) {s : Server} (hs : s.Sound) (env : ServerEnv)
    (requestId : UInt64) (request : Request) : (c.call s env requestId request).1.Sound := by
  unfold MqConsumer.Impl.call
  split
  · exact hs
  · split
    · exact hs
    · exact hs.handle env _

/-! ## A fetch -/

/-- A read gives a log that has lost nothing from the start on. -/
theorem Partition.Counted.read_isPrefix {e : StorageEngine} {topic : Bytes} {number : UInt32}
    (h : (e.partition topic number).Counted)
    (hwrap : (e.partition topic number).messages.length < 2 ^ 64) {partitionOk : Bool}
    {start : UInt64} {maxBytes : UInt32} {found : List Message}
    (hread : e.read partitionOk topic number start maxBytes = .ok found) :
    found <+: (e.partition topic number).messages.drop start.toNat := by
  rw [read_ok hread, readLoop_start,
    numbered_filter 0 start _ h.numbered (by rw [UInt64.toNat_zero]; omega), UInt64.toNat_zero,
    Nat.sub_zero]
  exact fitting_initial _ _ _

/-- Only a group with a legal name gets through the checks of a fetch. -/
theorem readFetch_poll_legal {topic group : Bytes} {partition : UInt32} {nextOffset : UInt64}
    {call : FetchCall}
    (h : (readFetch (MqConsumer.poll topic group partition nextOffset).payload).result = .ok call) :
    LegalName group := by
  rw [MqConsumer.poll] at h
  simp only at h
  generalize hbehind : group ++ (put64 nextOffset ++ put32 (1024 * 1024)) = behind at h
  have hlength : (put32 partition ++ (put16 (UInt16.ofNat group.length) ++ behind)).length
      = 18 + group.length := by
    rw [← hbehind]
    simp only [List.length_append, length_put32, length_put16, length_put64]
    omega
  have hsize : get16 (put32 partition ++ (put16 (UInt16.ofNat group.length) ++ behind)) 4
      = UInt16.ofNat group.length := by
    rw [get16_append_right _ _ _ (by rw [length_put32]), length_put32, Nat.sub_self, get16_put16]
  rw [readFetch, result_check_bind, if_pos (by omega), result_read32_bind] at h
  split at h
  · rename_i hplain
    -- A group without a name does not make the request as short as one without a group.
    omega
  · rw [result_check_bind, if_pos (by omega), result_read16_bind, result_check_bind, hsize] at h
    split at h
    · rename_i hgroup
      rw [hlength] at hgroup
      have hbound := (UInt16.ofNat group.length).toNat_lt
      exact ⟨by omega, by omega⟩
    · cases h

/-- A successful answer to a fetch has the messages of the partition from the
    offset of the consumer on, or from that of its group if that is larger. -/
theorem call_fetch (c : MqConsumer.Impl) {s : Server} (hs : s.Sound) (env : ServerEnv)
    (requestId : UInt64) :
    let answered :=
      c.call s env requestId (MqConsumer.poll c.topic c.group c.partition c.nextOffset)
    s.Counts answered.1 ∧
      ∀ response, answered.2 = some response → response.status = .ok →
        ∃ number found,
          s.broker.resolvePartition c.topic c.partition [] = .ok number ∧
          s.broker.storage.read env.partitionOk c.topic number
            (max c.nextOffset ((s.committed c.group c.topic number).getD 0)) (1024 * 1024)
            = .ok found ∧
          (MqConsumer.pollAnswer response.payload).result = .ok (fetchTaken 4 found) := by
  intro answered
  rcases call_cases c s env requestId
    (show (MqConsumer.poll c.topic c.group c.partition c.nextOffset).flags = 0 from rfl) with
    ⟨hcounts, hrefused⟩ | ⟨normalized, d, hcommand, htopic, hpayload, hd, hcounts, hanswer⟩
  · exact ⟨hcounts, fun response hresponse hok => absurd hok (hrefused response hresponse)⟩
  · have hcommand : normalized.command = .fetch := hcommand
    have htopic : normalized.topic = c.topic := htopic
    simp only [Server.dispatch, hcommand] at hcounts hanswer
    refine ⟨hd.trans hcounts, fun response hresponse hok => ?_⟩
    have heq := Option.some.inj (hanswer.symm.trans hresponse)
    rw [← heq] at hok
    have hsound : d.broker.Sound := by
      rw [hd.broker]
      exact hs.broker
    rcases handleFetch_tells hsound hok with ⟨call, number, found, hread, hresolve, hfound, htold⟩
    rw [hpayload] at hread
    have hlegal := readFetch_poll_legal hread
    have hgroup : c.group ≠ [] := List.ne_nil_of_length_pos hlegal.1
    have hcall := Except.ok.inj ((readFetch_poll hlegal c.partition c.nextOffset (1024 * 1024)
      (by decide)).symm.trans hread)
    rw [← hcall, fetchStart_eq _ hgroup, committed_eq, hd.sameMetadata.consumerOffsets,
      ← committed_eq, hd.broker, htopic] at hfound
    rw [← hcall, hd.broker, htopic] at hresolve
    rw [← heq]
    exact ⟨number, found, hresolve, hfound, htold⟩

/-! ## A commit -/

/-- The name of a topic is legal in a frame. -/
theorem legalName_of_isValidTopicName {topic : Bytes} (h : isValidTopicName topic = true) :
    LegalName topic := by
  have hsize := isValidTopicName_length h
  refine ⟨List.length_pos_iff_ne_nil.mpr fun hempty => ?_, by omega⟩
  rw [hempty] at h
  cases h

/-- Only a group with a legal name gets through the checks of a commit. -/
theorem readCommitOffset_commit_legal {b : Broker} {topic group : Bytes} {partition : UInt32}
    {offset : UInt64} {read : Bytes × UInt32 × UInt64}
    (h : (b.readCommitOffset topic (MqConsumer.commit topic group partition offset).payload).result
      = .ok read) : LegalName group := by
  rw [MqConsumer.commit] at h
  simp only at h
  generalize hbehind : group ++ (put32 partition ++ put64 offset) = behind at h
  have hlength : (put16 (UInt16.ofNat group.length) ++ behind).length = 14 + group.length := by
    rw [← hbehind]
    simp only [List.length_append, length_put32, length_put16, length_put64]
    omega
  have hbound := (UInt16.ofNat group.length).toNat_lt
  simp only [Broker.readCommitOffset, result_takeBytes_bind, result_read16_bind,
    result_check_bind, result_read32_bind, result_read64_bind, get16_put16, hlength] at h
  split at h
  · split at h
    · split at h
      · split at h
        · split at h
          · rename_i hend
            split at h
            · rename_i hnamed
              exact ⟨by omega, by omega⟩
            · cases h
          · cases h
        · cases h
      · cases h
    · cases h
  · cases h

/-- A commit sets the offset of the group or does nothing, whatever it is
    answered. -/
theorem call_commit (c : MqConsumer.Impl) {s : Server} (hs : s.Sound) (env : ServerEnv)
    (requestId offset : UInt64) :
    let s' := (c.call s env requestId
      (MqConsumer.commit c.topic c.group c.partition offset)).1
    s'.broker = s.broker ∧
      ∀ number, s.broker.resolvePartition c.topic c.partition [] = .ok number →
        s'.committed c.group c.topic number = s.committed c.group c.topic number ∨
        s'.committed c.group c.topic number = some offset := by
  intro s'
  rcases call_cases c s env requestId
    (show (MqConsumer.commit c.topic c.group c.partition offset).flags = 0 from rfl) with
    ⟨hcounts, _⟩ | ⟨normalized, d, hcommand, htopic, hpayload, hd, hcounts, _⟩
  · refine ⟨hcounts.broker, fun number _ => Or.inl ?_⟩
    rw [committed_eq, committed_eq, hcounts.sameMetadata.consumerOffsets]
  · have hcommand : normalized.command = .commitOffset := hcommand
    have htopic : normalized.topic = c.topic := htopic
    simp only [Server.dispatch, hcommand] at hcounts
    have hbroker : (d.handleCommitOffset env normalized).1.broker = d.broker := by
      simp only [Server.handleCommitOffset]
      split
      · rfl
      · split <;> rfl
    refine ⟨hcounts.broker.trans (hbroker.trans hd.broker), fun number hresolve => ?_⟩
    rw [committed_eq, committed_eq, hcounts.sameMetadata.consumerOffsets,
      ← hd.sameMetadata.consumerOffsets]
    rcases @handleCommitOffset_consumerOffsets d env normalized with
      hsame | ⟨group, partition, committed, hread, hset⟩
    · exact Or.inl (congrArg (committedIn · _) hsame)
    · right
      rw [hd.broker, htopic, hpayload] at hread
      have hgroup := readCommitOffset_commit_legal hread
      rcases readCommitOffset_topic hs.broker hread with ⟨count, hcount, _⟩
      have hlegal := legalName_of_isValidTopicName (hs.broker.topics c.topic count hcount).1
      have hcommit := readCommitOffset_commit s.broker hlegal hgroup c.partition offset
      have hstep : (s.broker.resolveStep c.topic c.partition).result = .ok number := by
        rw [Broker.resolveStep, hresolve]
        rfl
      rw [hstep] at hcommit
      have heq := Except.ok.inj (hcommit.symm.trans hread)
      simp only [Prod.mk.injEq] at heq
      rcases heq with ⟨rfl, rfl, rfl⟩
      rw [hset, htopic, committedIn_setOffset, if_pos rfl]

end MqBroker
