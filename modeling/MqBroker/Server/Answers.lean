import MqBroker.Client.Call
import MqBroker.Server.Runs

/-!
# The Size of an Answer

Whether the answer to a request fits into a frame.

Only the two fetches look at the size of what they answer. All other answers
are as large as the state makes them. Most of them are small for some reason in
another module: a batch has at most 10000 items, there are at most 1024 topics,
and their names are short. Two are not. The share of a member grows with the
topics it and the others have subscribed to, and the metrics show the name of
the node that has the vote, which comes from a configuration. An answer that
does not fit is not sent, and the client waits until its time is up.

## Main definitions

* `Response.Fits`: A response that can be put into a frame.
* `shareSize`: The size of the share of a member in an answer.
* `Server.metricsSize`: The size of the metrics.
* `Server.AnswerFits`: The answer of a handler can be sent.

## Theorems

* `handleFetch_fits`, `handleListTopic_fits` and so on: What always fits.
* `handleSyncGroup_fits_iff`, `handleMetrics_fits_iff`: What does not.
* `answers_fit_iff`: When the answer to a request can be sent.
-/

namespace MqBroker

open Traced ConsumerGroupCoordinator Server

/-- A response that can be put into a frame. -/
structure Response.Fits (r : Response) : Prop where
  version : r.version = currentVersion
  size : r.payload.length ≤ maxPayloadBytes

/-- The size of the answer to a member that asks for its share. -/
def shareSize (share : List GroupAssignment) : Nat :=
  4 + (share.map (fun a => 6 + a.topic.length)).sum

/-- The number of digits of a number. -/
def digits (n : UInt64) : Nat := (decimal n.toNat).length

namespace Server

/-- What of the size of the metrics depends on the state, when a request that
    was counted is answered. -/
def metricsVariable (s : Server) : Nat :=
  let c := s.broker.coordinator
  digits s.requestCount + digits s.produceCount + digits s.fetchCount + digits s.errorCount +
    digits c.currentTerm + 2 * digits c.maxCommitIndex + digits c.lastApplied +
    digits s.broker.topicProduceQuota + digits s.quotaUsed + c.votedFor.length +
    (roleName c.role).toUTF8.toList.length

/-- The size of the metrics. -/
def metricsSize (s : Server) : Nat := 663 + s.metricsVariable

end Server

theorem encodeResponse_iff (r : Response) :
    (∃ frame, encodeResponse r.raw = .ok frame) ↔ r.Fits := by
  constructor
  · rintro ⟨frame, hframe⟩
    unfold encodeResponse at hframe
    split at hframe
    · cases hframe
    · rename_i hversion
      split at hframe
      · cases hframe
      · rename_i hsize
        exact ⟨not_not.mp hversion, not_lt.mp hsize⟩
  · intro h
    exact ⟨_, encodeResponse_legal
      { r.raw with current := h.version, payloadSize := h.size }⟩

/-! ## What always fits -/

theorem fits_small {request : Request} {status : Status} {payload : Bytes}
    (h : payload.length ≤ maxPayloadBytes) : (makeResponse request status payload).Fits :=
  ⟨rfl, h⟩

theorem fits_empty (request : Request) (status : Status) : (makeResponse request status).Fits :=
  fits_small (Nat.zero_le _)

theorem Response.Refuses.fits {r : Response} (h : r.Refuses) : r.Fits := by
  refine ⟨h.version, ?_⟩
  rw [h.payload]
  exact Nat.zero_le _

/-- Messages are only taken as long as there is room. -/
theorem fetchAnswer_fits (request : Request) (messages : List Message) :
    (makeResponse request .ok (fetchAnswer messages)).Fits := by
  refine fits_small ?_
  have hsize := fetchTaken_size 4 messages (by decide)
  rw [fetchAnswer, List.length_append, length_put32]
  exact hsize

section Handlers

variable {s : Server} (request : Request)

theorem handleFetch_fits (partitionOk : Bool) : (s.handleFetch partitionOk request).Fits := by
  unfold Server.handleFetch
  split
  · exact fits_empty request _
  · split
    · exact fits_empty request _
    · exact fits_empty request _
    · split
      · exact fits_empty request _
      · exact fits_empty request _
      · exact fetchAnswer_fits request _

theorem handleReplicaFetch_fits (b : Broker) (partitionOk : Bool) :
    (b.handleReplicaFetch partitionOk request).Fits := by
  unfold Broker.handleReplicaFetch
  split
  · exact fits_empty request _
  · split
    · exact fits_empty request _
    · exact fits_empty request _
    · split
      · exact fits_empty request _
      · exact fits_empty request _
      · exact fetchAnswer_fits request _

theorem length_encodeEntry (topic : Bytes) (number : UInt32) :
    (encodeEntry topic number).length = 6 + topic.length := by
  simp only [encodeEntry, List.length_append, length_put16, length_put32]
  omega

/-- There are few topics, and their names are short. -/
theorem handleListTopic_fits (h : s.broker.Sound) : (s.handleListTopic request).Fits := by
  unfold Server.handleListTopic
  split
  · exact fits_empty request _
  · refine fits_small ?_
    have hfew := h.few
    have hentries : (s.broker.listTopics.flatMap
        (fun entry => encodeEntry entry.1 entry.2)).length ≤ 70 * s.broker.listTopics.length := by
      refine length_flatMap_le _ _ _ fun entry hentry => ?_
      have hvalid := h.topics entry.1 entry.2 ((mem_listTopics _ _ _).mp hentry)
      have hname := isValidTopicName_length hvalid.1
      rw [length_encodeEntry]
      omega
    rw [length_listTopics] at hentries
    rw [encodeEntries, List.length_append, length_put32]
    rw [maxTopics] at hfew
    rw [maxPayloadBytes]
    omega

theorem Response.ToProduce.fits {r : Response} (h : r.ToProduce) : r.Fits := by
  rcases h with hrefuses | ⟨hversion, place, hplace⟩
  · exact hrefuses.fits
  · refine ⟨hversion, ?_⟩
    rw [hplace, length_encodePlace]
    decide

/-- A batch has at most 10000 items. -/
theorem Response.ToBatch.fits {r : Response} (h : r.ToBatch request) : r.Fits := by
  rcases h with hrefuses | ⟨producerId, first, count, places, hheader, hcount, heq⟩
  · exact hrefuses.fits
  · have hmany : count ≤ 10000 := by
      simp only [batchHeader] at hheader
      split at hheader
      · cases hheader
      · cases hheader
        omega
    have hplaces := length_flatMap_le encodePlace 12 places
      (fun place _ => (length_encodePlace place).le)
    rw [heq]
    refine fits_small ?_
    rw [List.length_append, length_put32, maxPayloadBytes]
    omega

theorem substr_length_le (data : Bytes) (position size : Nat) :
    (substr data position size).length ≤ size := by
  rw [substr, List.length_take]
  exact Nat.min_le_left _ _

theorem readJoinGroup_member {payload : Bytes} {call : JoinCall}
    (h : (readJoinGroup payload).result = .ok call) : call.member.length ≤ 65535 := by
  simp only [readJoinGroup, result_check_bind, result_read16_bind] at h
  split at h
  · split at h
    · split at h
      · rcases result_bind_eq_ok h with ⟨topics, _, h⟩
        simp only [result_check_bind, result_copy_bind] at h
        split at h
        · cases h
          exact (substr_length_le _ _ _).trans (Nat.le_of_lt_succ (UInt16.toNat_lt _))
        · cases h
      · cases h
    · cases h
  · cases h

/-- The answer to a member that joins is its id. -/
theorem handleJoinGroup_fits (groups : ConsumerGroupCoordinator) (now : Int) :
    (handleJoinGroup groups now request).2.Fits := by
  unfold handleJoinGroup
  split
  · exact fits_empty request _
  · rename_i call hcall
    simp only
    split
    · exact fits_empty request _
    · refine fits_small ?_
      have hmember := readJoinGroup_member hcall
      rw [List.length_append, length_put16, maxPayloadBytes]
      omega

theorem handleOffsetFetch_fits : (s.handleOffsetFetch request).Fits := by
  unfold Server.handleOffsetFetch
  split
  · exact fits_empty request _
  · split
    · exact fits_empty request _
    · exact fits_empty request _
    · refine fits_small ?_
      rw [length_put64]
      decide

theorem handleCommitOffset_fits (env : ServerEnv) : (s.handleCommitOffset env request).2.Fits := by
  unfold Server.handleCommitOffset
  split
  · exact fits_empty request _
  · simp only
    split
    · exact fits_empty request _
    · exact fits_empty request _

theorem handleCreateTopic_fits (env : ServerEnv) : (s.handleCreateTopic env request).2.Fits := by
  unfold Server.handleCreateTopic
  split
  · exact fits_empty request _
  · simp only [Broker.handleCreateTopic]
    split
    · exact fits_empty request _
    · split
      · split <;> exact fits_empty request _
      · exact fits_empty request _

theorem handleDeleteTopic_fits (env : ServerEnv) : (s.handleDeleteTopic env request).2.Fits := by
  have hbroker : ∀ delete : DeleteEnv, (s.broker.handleDeleteTopic delete request).2.Fits := by
    intro delete
    simp only [Broker.handleDeleteTopic]
    split
    · exact fits_empty request _
    · split
      · exact fits_empty request _
      · split
        · exact fits_empty request _
        · split <;> exact fits_empty request _
  simp only [Server.handleDeleteTopic]
  split
  · exact hbroker _
  · split <;> exact hbroker _

theorem handleReplicaHeartbeat_fits (b : Broker) (now : Int) :
    (b.handleReplicaHeartbeat now request).2.Fits := by
  have hsmall : ∀ offset : UInt64, (makeResponse request .ok (put64 offset)).Fits := by
    intro offset
    refine fits_small ?_
    rw [length_put64]
    decide
  unfold Broker.handleReplicaHeartbeat
  split
  · exact fits_empty request _
  · simp only
    split
    · exact hsmall _
    · simp only
      split
      · exact hsmall _
      · exact fits_empty request _

theorem handleHeartbeat_fits (env : ServerEnv) : (s.handleHeartbeat env request).2.Fits := by
  simp only [Server.handleHeartbeat]
  split
  · exact handleReplicaHeartbeat_fits request _ _
  · split
    · exact fits_empty request _
    · split <;> exact fits_empty request _
    · exact fits_empty request _

theorem handleReplicaVote_fits : (s.handleReplicaVote request).2.Fits := by
  unfold Server.handleReplicaVote
  split
  · exact fits_empty request _
  · simp only
    split <;> exact fits_small (show 1 ≤ maxPayloadBytes by decide)

theorem handleReplicaAppend_fits (b : Broker) (env : ReplicaEnv) :
    (b.handleReplicaAppend env request).2.Fits := by
  rw [handleReplicaAppend_eq]
  split
  · exact fits_empty request _
  · simp only [Broker.applyAppend]
    split
    · refine fits_small ?_
      rw [length_put64]
      decide
    · split
      · exact fits_empty request _
      · split
        · exact fits_empty request _
        · split
          · exact fits_empty request _
          · unfold Broker.storeReplicas
            split <;> exact fits_empty request _

end Handlers

/-! ## What does not always fit -/

theorem length_encodeEntries (entries : List (Bytes × UInt32)) :
    (encodeEntries entries).length = 4 + (entries.map (fun entry => 6 + entry.1.length)).sum := by
  simp only [encodeEntries, List.length_append, length_put32, List.length_flatMap,
    length_encodeEntry]

theorem handleSyncGroup_version (s : Server) (request : Request) :
    (s.handleSyncGroup request).version = currentVersion := by
  unfold Server.handleSyncGroup
  split
  · rfl
  · split <;> rfl

/-- A member can be told its share if the share is not too large. -/
theorem handleSyncGroup_fits_iff {s : Server} (h : s.groups.Balanced) (request : Request) :
    (s.handleSyncGroup request).Fits ↔
      ∀ group id members, (readSyncGroup request.payload).result = .ok (group, id) →
        s.groups.members.lookup group = some members → id ∈ members →
        shareSize (s.groups.hand members id) ≤ maxPayloadBytes := by
  unfold Server.handleSyncGroup
  cases hread : (readSyncGroup request.payload).result with
  | error status => exact iff_of_true (fits_empty request _) (fun _ _ _ h => nomatch h)
  | ok call =>
      rcases call with ⟨group, id⟩
      simp only
      cases hmembers : s.groups.members.lookup group with
      | none =>
          rw [ConsumerGroupCoordinator.sync, hmembers]
          refine iff_of_true (fits_empty request _) fun group' id' members' hcall hlookup => ?_
          cases hcall
          rw [hmembers] at hlookup
          cases hlookup
      | some members =>
          rw [h.sync_eq hmembers]
          by_cases hid : id ∈ members
          · rw [if_pos hid]
            have hlength : (encodeEntries ((s.groups.hand members id).map
                (fun a => (a.topic, a.partition)))).length = shareSize (s.groups.hand members id) := by
              rw [length_encodeEntries, List.map_map]
              rfl
            constructor
            · rintro hfits group' id' members' hcall hlookup _
              cases hcall
              rw [hmembers] at hlookup
              cases hlookup
              rw [← hlength]
              exact hfits.size
            · intro hsmall
              refine fits_small ?_
              rw [hlength]
              exact hsmall group id members rfl hmembers hid
          · rw [if_neg hid]
            refine iff_of_true (fits_empty request _) fun group' id' members' hcall hlookup hid' => ?_
            cases hcall
            rw [hmembers] at hlookup
            cases hlookup
            exact absurd hid' hid

/-- The metrics of two states differ in size only by what is variable. -/
theorem metricsText_length_add (s s' : Server) :
    s.metricsText.length + s'.metricsVariable = s'.metricsText.length + s.metricsVariable := by
  simp only [metricsText, metricsVariable, Server.gauge, Server.line, List.length_append,
    List.length_cons, List.length_nil, digits]
  omega

theorem metricsText_length (s : Server) : s.metricsText.length = s.metricsSize := by
  have hfresh : (Server.fresh {}).metricsText.length = 679 ∧
      (Server.fresh {}).metricsVariable = 16 := by
    decide +kernel
  have hadd := metricsText_length_add s (Server.fresh {})
  rw [hfresh.1, hfresh.2] at hadd
  rw [metricsSize]
  omega

theorem handleMetrics_fits_iff (s : Server) (request : Request) :
    (s.handleMetrics request).Fits ↔
      (request.topic = [] → request.payload = [] → request.hasFlag flagReplication = false →
        s.metricsSize ≤ maxPayloadBytes) := by
  unfold Server.handleMetrics
  split
  · rename_i hrefused
    refine iff_of_true (fits_empty request _) fun htopic hpayload hflag => ?_
    rw [hflag] at hrefused
    rcases hrefused with h | h | h
    · exact absurd htopic h
    · exact absurd hpayload h
    · exact absurd h Bool.false_ne_true
  · rename_i hrefused
    rw [not_or, not_or, not_not, not_not, Bool.not_eq_true] at hrefused
    rw [← metricsText_length]
    exact ⟨fun hfits _ _ _ => hfits.size,
      fun hsmall => fits_small (hsmall hrefused.1 hrefused.2.1 hrefused.2.2)⟩

/-! ## All requests -/

/-- The answer of the handler of a request can be sent: the share of a member
    and the metrics have to fit. -/
def Server.AnswerFits (s : Server) (request : Request) : Prop :=
  match request.command with
  | .syncGroup =>
      ∀ group id members, (readSyncGroup request.payload).result = .ok (group, id) →
        s.groups.members.lookup group = some members → id ∈ members →
        shareSize (s.groups.hand members id) ≤ maxPayloadBytes
  | .metrics =>
      request.topic = [] → request.payload = [] → request.hasFlag flagReplication = false →
        s.metricsSize ≤ maxPayloadBytes
  | _ => True

/-- If what is in a frame gets to a handler, then the answer of that can be
    sent. -/
def Server.Sendable (s : Server) (r : RawRequest) : Prop :=
  ∀ command normalized, Command.ofCode r.command = some command →
    s.Admits (r.request command) normalized → (s.counted command).AnswerFits normalized

theorem dispatch_fits_iff {s : Server} (h : s.Sound) (env : ServerEnv) (request : Request) :
    (s.dispatch env request).2.Fits ↔ s.AnswerFits request := by
  unfold Server.AnswerFits
  cases hcommand : request.command with
  | syncGroup =>
      simp only [Server.dispatch, hcommand]
      exact handleSyncGroup_fits_iff h.groups.balanced request
  | metrics =>
      simp only [Server.dispatch, hcommand]
      exact handleMetrics_fits_iff s request
  | createTopic =>
      simp only [Server.dispatch, hcommand, iff_true]
      exact handleCreateTopic_fits request env
  | deleteTopic =>
      simp only [Server.dispatch, hcommand, iff_true]
      exact handleDeleteTopic_fits request env
  | listTopic =>
      simp only [Server.dispatch, hcommand, iff_true]
      exact handleListTopic_fits request h.broker
  | produce =>
      simp only [Server.dispatch, hcommand, iff_true]
      exact (h.broker.handleProduce env.produce request true true).2.fits
  | produceBatch =>
      simp only [Server.dispatch, hcommand, iff_true]
      exact (h.broker.handleProduceBatch env.batch request).2.fits
  | fetch =>
      simp only [Server.dispatch, hcommand, iff_true]
      exact handleFetch_fits request env.partitionOk
  | commitOffset =>
      simp only [Server.dispatch, hcommand, iff_true]
      exact handleCommitOffset_fits request env
  | joinGroup =>
      simp only [Server.dispatch, hcommand, iff_true]
      exact handleJoinGroup_fits request s.groups env.now
  | offsetFetch =>
      simp only [Server.dispatch, hcommand, iff_true]
      exact handleOffsetFetch_fits request
  | heartbeat =>
      simp only [Server.dispatch, hcommand, iff_true]
      exact handleHeartbeat_fits request env
  | replicaFetch =>
      simp only [Server.dispatch, hcommand, iff_true]
      exact handleReplicaFetch_fits request s.broker env.partitionOk
  | replicaAppend =>
      simp only [Server.dispatch, hcommand, iff_true]
      exact handleReplicaAppend_fits request s.broker env.replica
  | replicaVote =>
      simp only [Server.dispatch, hcommand, iff_true]
      exact handleReplicaVote_fits request

theorem refuse_fits (s : Server) (request : Request) : (s.refuse request).Fits := by
  unfold Server.refuse
  split
  · exact fits_small (show 1 ≤ maxPayloadBytes by decide)
  · split
    · exact fits_empty request _
    · split
      · exact fits_empty request _
      · split <;> exact fits_empty request _

/-- What is turned away gets an answer that can be sent. -/
theorem handle_refused_fits {s : Server} {request : Request}
    (h : ∀ normalized, ¬ s.Admits request normalized) (env : ServerEnv) :
    (s.handle env request).2.Fits := by
  simp only [Server.handle]
  split
  · exact fits_empty request _
  · rename_i hopened
    split
    · exact refuse_fits _ request
    · rename_i normalized haccept
      split
      · exact fits_empty request _
      · rename_i hallowed
        rw [not_and_or, not_and_or, not_not, not_not, not_not] at hallowed
        exact absurd ⟨not_not.mp hopened, haccept, hallowed⟩ (h normalized)

theorem handleUnknown_fits (s : Server) (request : Request) :
    (s.handleUnknown request).2.Fits := by
  simp only [Server.handleUnknown]
  split
  · exact fits_empty request _
  · split
    · exact refuse_fits _ request
    · split <;> exact fits_empty request _

theorem Server.Sound.counted {s : Server} (h : s.Sound) (command : Command) :
    (s.counted command).Sound :=
  h.congr (counted_frame s command).1 (counted_frame s command).2

theorem handle_fits_iff {s : Server} (h : s.Sound) (env : ServerEnv) (request : Request) :
    (s.handle env request).2.Fits ↔
      ∀ normalized, s.Admits request normalized →
        (s.counted request.command).AnswerFits normalized := by
  by_cases hadmitted : ∃ normalized, s.Admits request normalized
  · rcases hadmitted with ⟨normalized, hnormalized⟩
    rw [hnormalized.handle_eq, dispatch_fits_iff (h.counted request.command)]
    constructor
    · intro hfits normalized' hnormalized'
      rw [← Option.some.inj (hnormalized.accepted.symm.trans hnormalized'.accepted)]
      exact hfits
    · exact fun hfits => hfits normalized hnormalized
  · rw [not_exists] at hadmitted
    exact iff_of_true (handle_refused_fits hadmitted env)
      fun normalized hnormalized => absurd hnormalized (hadmitted normalized)

theorem serve_fits_iff {s : Server} (h : s.Sound) (env : ServerEnv) (r : RawRequest) :
    (s.serve env r).2.payload.length ≤ maxPayloadBytes ∧
      (∃ frame, encodeResponse (s.serve env r).2 = .ok frame) ↔ s.Sendable r := by
  have hboth : ∀ response : Response, (response.raw.payload.length ≤ maxPayloadBytes ∧
      ∃ frame, encodeResponse response.raw = .ok frame) ↔ response.Fits := by
    intro response
    rw [encodeResponse_iff]
    exact ⟨fun h => h.2, fun h => ⟨h.size, h⟩⟩
  simp only [Server.serve]
  rw [hboth]
  unfold Server.Sendable
  cases hcode : Command.ofCode r.command with
  | none =>
      exact iff_of_true (handleUnknown_fits s _) (by rintro _ _ ⟨⟩)
  | some command =>
      refine (handle_fits_iff h env (r.request command)).trans ?_
      constructor
      · rintro hfits command' normalized hcommand hadmits
        cases hcommand
        exact hfits normalized hadmits
      · exact fun hfits normalized hadmits => hfits command normalized rfl hadmits

/-- Whatever has happened to a broker, the answer to whatever is in a frame fits
    into a frame and is sent exactly when it is neither a share that is too
    large nor metrics that are. -/
theorem answers_fit_iff (config : ServerConfig) (events : List ServerEvent) (env : ServerEnv)
    (r : RawRequest) :
    ((((Server.fresh config).run events).serve env r).2.payload.length ≤ maxPayloadBytes ∧
      ∃ frame, encodeResponse (((Server.fresh config).run events).serve env r).2 = .ok frame)
      ↔ ((Server.fresh config).run events).Sendable r :=
  serve_fits_iff (run_sound config events) env r

/-! ## A share that does not fit -/

/-- A broker without a token takes the requests of clients as they are. -/
theorem admits_plain {s : Server} (hopened : s.opened = true) (htoken : s.clientAuthToken = [])
    {request : Request} (hversion : request.version = currentVersion)
    (hcommand : request.command ∉ [.replicaFetch, .replicaAppend, .replicaVote])
    (hflags : request.flags ∈ clientFlags) : s.Admits request request := by
  refine ⟨hopened, ?_, Or.inr (Or.inl htoken)⟩
  rw [htoken]
  exact acceptRequest_clientCall s.broker hversion hcommand hflags
    (show clientCall [] request.requestId request = some request from rfl)

/-- A client creates a topic with as many partitions as there can be. -/
def createLarge (name : Bytes) : ServerEvent :=
  .request {} { command := 0x01, topic := name, payload := put32 maxPartitions }

/-- A topic that is valid and new is created, as long as there are not too
    many. -/
theorem exec_createLarge {s : Server} (hs : s.Sound) (hopened : s.opened = true)
    (htoken : s.clientAuthToken = []) {name : Bytes} (hvalid : ValidTopic name maxPartitions)
    (hnew : s.broker.topics.lookup name = none) (hroom : s.broker.topics.size < maxTopics) :
    ((createLarge name).exec s).opened = true ∧ ((createLarge name).exec s).clientAuthToken = [] ∧
      ((createLarge name).exec s).broker
        = { s.broker with topics := s.broker.topics.insert name maxPartitions } ∧
      ((createLarge name).exec s).groups = s.groups.setPartitions name maxPartitions ∧
      ((createLarge name).exec s).consumerOffsets = s.consumerOffsets := by
  have hread : (readCreateTopic (put32 maxPartitions)).result = .ok maxPartitions := by
    decide
  have hcreate := createTopic_valid s.broker hvalid hnew
  have hsavable : topicsSavable
      ({ s.broker with topics := s.broker.topics.insert name maxPartitions } : Broker).listTopics
        = true := by
    have hall : ∀ t count, (s.broker.topics.insert name maxPartitions).lookup t = some count →
        ValidTopic t count := by
      intro t count hcount
      by_cases ht : t = name
      · rw [ht, AList.lookup_insert] at hcount
        rw [ht, ← Option.some.inj hcount]
        exact hvalid
      · rw [AList.lookup_insert_ne ht] at hcount
        exact hs.broker.topics t count hcount
    have hsize := Table.size_insert_le s.broker.topics name maxPartitions
    rw [topicsSavable, Bool.and_eq_true, decide_eq_true_eq, length_listTopics, List.all_eq_true]
    refine ⟨by simp only; omega, fun entry hentry => ?_⟩
    have hentry := hall entry.1 entry.2 ((mem_listTopics _ _ _).mp hentry)
    rw [Bool.and_eq_true, bne_iff_ne]
    exact ⟨hentry.1, hentry.2.1⟩
  have hadmits : s.Admits { command := .createTopic, topic := name, payload := put32 maxPartitions }
      { command := .createTopic, topic := name, payload := put32 maxPartitions } :=
    admits_plain hopened htoken rfl (show Command.createTopic ∉ _ by decide)
      (show (0 : UInt16) ∈ clientFlags by decide)
  have hexec : (createLarge name).exec s = (s.handle {}
      { command := .createTopic, topic := name, payload := put32 maxPartitions }).1 := rfl
  rw [hexec, hadmits.handle_eq]
  simp only [Server.dispatch, Server.handleCreateTopic, hread, Server.counted, countRequest,
    Broker.handleCreateTopic, hcreate, hsavable, Bool.and_self, if_true]
  exact ⟨hopened, htoken, rfl, rfl, rfl⟩

theorem run_createLarge (names : List Bytes) {s : Server} (hs : s.Sound) (hopened : s.opened = true)
    (htoken : s.clientAuthToken = []) (hvalid : ∀ name ∈ names, ValidTopic name maxPartitions)
    (hnodup : names.Nodup) (hnew : ∀ name ∈ names, s.broker.topics.lookup name = none)
    (hroom : s.broker.topics.size + names.length ≤ maxTopics) :
    (s.run (names.map createLarge)).opened = true ∧
      (s.run (names.map createLarge)).clientAuthToken = [] ∧
      (s.run (names.map createLarge)).groups.members = s.groups.members ∧
      ∀ name, (s.run (names.map createLarge)).groups.partitions.lookup name
        = if name ∈ names then some maxPartitions else s.groups.partitions.lookup name := by
  induction names generalizing s with
  | nil => exact ⟨hopened, htoken, rfl, fun name => (if_neg List.not_mem_nil).symm⟩
  | cons first rest ih =>
      rw [List.length_cons] at hroom
      rcases exec_createLarge hs hopened htoken (hvalid first List.mem_cons_self)
        (hnew first List.mem_cons_self) (by omega) with ⟨hopened', htoken', hbroker, hgroups, _⟩
      have htopics : ((createLarge first).exec s).broker.topics
          = s.broker.topics.insert first maxPartitions := by
        rw [hbroker]
      rw [List.nodup_cons] at hnodup
      have hsize := Table.size_insert_le s.broker.topics first maxPartitions
      have hrest := ih (hs.exec (createLarge first)) hopened' htoken'
        (fun name hname => hvalid name (List.mem_cons_of_mem first hname)) hnodup.2
        (fun name hname => by
          have hne : name ≠ first := fun heq => hnodup.1 (heq ▸ hname)
          rw [htopics, AList.lookup_insert_ne hne]
          exact hnew name (List.mem_cons_of_mem first hname))
        (by rw [htopics]; omega)
      rw [List.map_cons, run_cons]
      refine ⟨hrest.1, hrest.2.1, ?_, fun name => ?_⟩
      · rw [hrest.2.2.1, hgroups, ConsumerGroupCoordinator.setPartitions, foldl_rebalance_members]
      · rw [hrest.2.2.2 name, hgroups]
        have hpartitions := GroupOp.exec_partitions memberTimeout s.groups
          (.setPartitions first maxPartitions)
        rw [GroupOp.exec, GroupOp.partitionsAfter] at hpartitions
        rw [hpartitions]
        by_cases hfirst : name = first
        · rw [hfirst, if_neg hnodup.1, if_pos List.mem_cons_self, AList.lookup_insert]
        · rw [AList.lookup_insert_ne hfirst]
          simp only [List.mem_cons, hfirst, false_or]

/-- Fifteen topics with long names. -/
def longNames : List Bytes :=
  (List.range 15).map (fun i => List.replicate 63 97 ++ [UInt8.ofNat (97 + i)])

/-- A member that wants all of them. Its id starts with their number. -/
def greedyJoin : LegalJoin where
  group := [103]
  member := [0, 15]
  topics := longNames
  groupSize := by decide
  memberSize := by decide
  topicCount := by decide
  topicSizes := by decide +kernel
  fits := by decide +kernel

/-- The events up to the question of the member for its share. -/
def greedyRun : List ServerEvent :=
  longNames.map createLarge ++
    [.request {} { command := 0x24, payload := joinGroupPayload greedyJoin.toJoinCall }]

/-- A member that is alone is dealt everything. -/
theorem everyNth_one {α : Type} (l : List α) : everyNth 1 0 l = l := by
  induction l with
  | nil => rfl
  | cons a l ih => exact congrArg (List.cons a) ih

/-- The state in which the member asks for its share. -/
theorem greedyRun_state :
    ((Server.fresh {}).run greedyRun).opened = true ∧
    ((Server.fresh {}).run greedyRun).clientAuthToken = [] ∧
    ((Server.fresh {}).run greedyRun).groups.members.lookup [103]
      = some ((∅ : Table Bytes GroupMember).insert [0, 15] ⟨0, longNames⟩) ∧
    ∀ name ∈ longNames,
      ((Server.fresh {}).run greedyRun).groups.partitions.lookup name = some maxPartitions := by
  have hvalid : ∀ name ∈ longNames, ValidTopic name maxPartitions := by
    have hall : ∀ name ∈ longNames, isValidTopicName name = true := by decide +kernel
    exact fun name hname => ⟨hall name hname, by decide, by decide⟩
  rcases run_createLarge longNames (Server.Sound.fresh {}) rfl rfl hvalid (by decide +kernel)
    (fun name _ => rfl) (by decide +kernel) with ⟨hopened, htoken, hmembers, hpartitions⟩
  generalize hd : (Server.fresh {}).run (longNames.map createLarge) = d at *
  have hread : (readJoinGroup (joinGroupPayload greedyJoin.toJoinCall)).result
      = .ok greedyJoin.toJoinCall := by
    rw [greedyJoin.readJoinGroup_result, if_pos (by decide +kernel)]
  have hadmits : d.Admits
      { command := .joinGroup, payload := joinGroupPayload greedyJoin.toJoinCall }
      { command := .joinGroup, payload := joinGroupPayload greedyJoin.toJoinCall } :=
    admits_plain hopened htoken rfl (show Command.joinGroup ∉ _ by decide)
      (show (0 : UInt16) ∈ clientFlags by decide)
  have hhandle : (d.handle {}
      { command := .joinGroup, payload := joinGroupPayload greedyJoin.toJoinCall }).1
      = { d with
          requestCount := d.requestCount + 1
          groups := (d.groups.join [103] [0, 15] longNames 0).1 } := by
    rw [hadmits.handle_eq]
    simp only [Server.dispatch, handleJoinGroup, hread]
    rfl
  have hempty : d.groups.members.lookup [103] = none := by
    rw [hmembers]
    exact Option.isNone_iff_eq_none.mp (by decide +kernel)
  have hjoin : (d.groups.join [103] [0, 15] longNames 0).1.members = d.groups.members.insert [103]
        ((∅ : Table Bytes GroupMember).insert [0, 15] ⟨0, longNames⟩) ∧
      (d.groups.join [103] [0, 15] longNames 0).1.partitions = d.groups.partitions := by
    refine ⟨?_, GroupOp.exec_partitions memberTimeout d.groups (.join [103] [0, 15] longNames 0)⟩
    rw [ConsumerGroupCoordinator.join, if_neg (by decide)]
    simp only [rebalance_members, hempty, Option.getD_none]
  have hrun : (Server.fresh {}).run greedyRun = (d.handle {}
      { command := .joinGroup, payload := joinGroupPayload greedyJoin.toJoinCall }).1 := by
    rw [greedyRun, run_append, hd]
    rfl
  rw [hrun, hhandle]
  refine ⟨hopened, htoken, ?_, fun name hname => ?_⟩
  · rw [hjoin.1, AList.lookup_insert]
  · rw [hjoin.2, hpartitions name, if_pos hname]

/-- If all topics have names of one length and as many partitions as there can
    be, then the share of a member that is alone is as large as it can be. -/
theorem shareSize_alone {c : ConsumerGroupCoordinator} {members : Table Bytes GroupMember}
    {id : Bytes} {topics : List Bytes}
    (hmembers : members = (∅ : Table Bytes GroupMember).insert id ⟨0, topics⟩)
    (hnodup : topics.Nodup) (size : Nat) (hsize : ∀ topic ∈ topics, topic.length = size)
    (hcount : ∀ topic ∈ topics, c.partitions.lookup topic = some maxPartitions) :
    shareSize (c.hand members id) = 4 + topics.length * 1024 * (6 + size) := by
  have hid : id ∈ members := by
    rw [hmembers]
    exact (AList.mem_insert _).mpr (Or.inl rfl)
  have hvalues : members.values = [⟨0, topics⟩] := by
    rw [hmembers]
    rfl
  have hone : (sortedIds members).length = 1 := by
    rw [length_sortedIds, hvalues]
    rfl
  have hrank : rank members id = 0 := by
    have := rank_lt members id hid
    omega
  have hperm : (subscribedTopics members).Perm topics := by
    rw [subscribedTopics, hvalues, List.flatMap_singleton, hnodup.dedup]
    exact List.mergeSort_perm _ _
  have hall : ∀ a ∈ c.allPartitions (subscribedTopics members), 6 + a.topic.length = 6 + size := by
    intro a ha
    rcases List.mem_flatMap.mp ha with ⟨topic, htopic, hmem⟩
    rcases List.mem_map.mp hmem with ⟨number, _, rfl⟩
    rw [hsize topic (hperm.subset htopic)]
  have htotal : (c.allPartitions (subscribedTopics members)).length = topics.length * 1024 := by
    rw [allPartitions_length, (hperm.map _).sum_eq, List.sum_eq_card_nsmul _ 1024]
    · rw [List.length_map]
      rfl
    · intro count hmem
      rcases List.mem_map.mp hmem with ⟨topic, htopic, rfl⟩
      rw [count, hcount topic htopic]
      rfl
  rw [shareSize, hand, hone, hrank, everyNth_one, groupPartitions_eq,
    List.sum_eq_card_nsmul _ (6 + size) (by
      intro n hn
      rcases List.mem_map.mp hn with ⟨a, ha, rfl⟩
      exact hall a ha),
    List.length_map, htotal]
  rfl

/-- The member asks for its share. -/
def greedySync : RawRequest := { command := 0x20, payload := [0, 1, 103, 0, 2, 0, 15] }

/-- The member cannot be told its share: it has 15360 partitions with 70 bytes
    each. -/
theorem share_not_sent :
    ¬ (((Server.fresh {}).run greedyRun).serve {} greedySync).2.payload.length ≤ maxPayloadBytes ∧
      ¬ ∃ frame, encodeResponse (((Server.fresh {}).run greedyRun).serve {} greedySync).2
        = .ok frame := by
  rcases greedyRun_state with ⟨hopened, htoken, hmembers, hcounts⟩
  have hsound := run_sound {} greedyRun
  generalize (Server.fresh {}).run greedyRun = s at *
  have hadmits : s.Admits { command := .syncGroup, payload := greedySync.payload }
      { command := .syncGroup, payload := greedySync.payload } :=
    admits_plain hopened htoken rfl (show Command.syncGroup ∉ _ by decide)
      (show (0 : UInt16) ∈ clientFlags by decide)
  have hlarge : ¬ (s.handle {} { command := .syncGroup, payload := greedySync.payload }).2.Fits := by
    rw [handle_fits_iff hsound]
    intro hfits
    have hshare : shareSize (s.groups.hand _ [0, 15]) ≤ maxPayloadBytes :=
      hfits _ hadmits [103] [0, 15] _ (by decide) hmembers ((AList.mem_insert _).mpr (Or.inl rfl))
    rw [shareSize_alone rfl (by decide +kernel) 64 (by decide +kernel) hcounts] at hshare
    exact absurd hshare (by decide)
  have hversion : (s.handle {} { command := .syncGroup, payload := greedySync.payload }).2.version
      = currentVersion := by
    rw [hadmits.handle_eq]
    exact handleSyncGroup_version _ _
  exact ⟨fun hsize => hlarge ⟨hversion, hsize⟩, mt (encodeResponse_iff _).mp hlarge⟩

end MqBroker
