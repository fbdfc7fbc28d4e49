import MqBroker.Server.MetadataFiles

/-!
# Topics and Offsets of a Broker

What happens to the topics and to the committed offsets of a broker, in memory
and in its files.

The topics are kept three times: in the table, in the coordinator of the
consumer groups, which knows their partition counts, and in `topics.meta`. The
offsets are kept twice. Three handlers change these, and a restart reads them
again; nothing else touches any of them. Each of the three gets its equations
here, under conditions on the state before it, and what the later modules say
about runs is derived from these.

## Main definitions

* `Server.Counts`: Nothing but the counters is different.
* `Server.SameMetadata`: Topics and offsets are the same, in all places.
* `Server.Handles`: What was decoded gets to the handler of its command.
* `Server.Creates`, `Server.Deletes`: A topic can be created, or deleted.

## Theorems

* `serve_cases`: What was decoded is refused, or gets to its handler.
* `dispatch_sameMetadata`: Most handlers leave topics and offsets alone.
* `handleCreateTopic_creates`, `handleDeleteTopic_deletes`: What the others do.
* `Server.Published.exec`: What is in the files was saved there.
-/

namespace MqBroker

open Traced ConsumerGroupCoordinator

/-! ## Counters -/

/-- Nothing but the counters is different. -/
def Server.Counts (s s' : Server) : Prop :=
  ∃ requests produces fetches errors, s' =
    { s with
      requestCount := requests
      produceCount := produces
      fetchCount := fetches
      errorCount := errors }

theorem Server.Counts.refl (s : Server) : s.Counts s := ⟨_, _, _, _, rfl⟩

theorem Server.Counts.trans {s s' s'' : Server} (h : s.Counts s') (h' : s'.Counts s'') :
    s.Counts s'' := by
  rcases h with ⟨_, _, _, _, rfl⟩
  rcases h' with ⟨_, _, _, _, rfl⟩
  exact ⟨_, _, _, _, rfl⟩

theorem Server.Counts.broker {s s' : Server} (h : s.Counts s') : s'.broker = s.broker := by
  rcases h with ⟨_, _, _, _, rfl⟩
  rfl

theorem counted_counts (s : Server) (command : Command) : s.Counts (s.counted command) := by
  unfold Server.counted Server.countRequest
  split <;> exact ⟨_, _, _, _, rfl⟩

theorem countError_counts (s : Server) (status : Status) : s.Counts (s.countError status) := by
  unfold Server.countError
  split <;> exact ⟨_, _, _, _, rfl⟩

theorem handleUnknown_counts (s : Server) (request : Request) :
    s.Counts (s.handleUnknown request).1 := by
  simp only [Server.handleUnknown]
  split
  · exact ⟨_, _, _, _, rfl⟩
  · split
    · exact ⟨_, _, _, _, rfl⟩
    · split <;> exact ⟨_, _, _, _, rfl⟩

theorem handleUnknown_refused (s : Server) (request : Request) :
    (s.handleUnknown request).2.status ≠ .ok := by
  simp only [Server.handleUnknown]
  split
  · exact error_status (by decide)
  · split
    · exact (refuse_refuses _ request).1
    · split <;> exact error_status (by decide)

/-- Only `kOk` has its code. -/
theorem status_of_code {status : Status} (h : status.code = Status.ok.code) : status = .ok := by
  cases status <;> first | rfl | exact absurd h (by decide)

/-- What was decoded is a request that gets to the handler of its command. -/
def Server.Handles (s : Server) (r : RawRequest) (normalized : Request) : Prop :=
  ∃ command, Command.ofCode r.command = some command ∧ s.Admits (r.request command) normalized

/-- A request that does not get to its handler is counted and refused. -/
theorem handle_refused {s : Server} {request : Request}
    (h : ∀ normalized, ¬ s.Admits request normalized) (env : ServerEnv) :
    s.Counts (s.handle env request).1 ∧ (s.handle env request).2.status ≠ .ok := by
  refine ⟨?_, ?_⟩
  · simp only [Server.handle]
    split
    · exact ⟨_, _, _, _, rfl⟩
    · rename_i hopened
      split
      · exact ⟨_, _, _, _, rfl⟩
      · rename_i normalized haccept
        split
        · exact ⟨_, _, _, _, rfl⟩
        · rename_i hallowed
          rw [not_and_or, not_and_or, not_not, not_not, not_not] at hallowed
          exact absurd ⟨not_not.mp hopened, haccept, hallowed⟩ (h normalized)
  · rcases handle_cases s env request with
      ⟨_, _, hstatus, _⟩ | ⟨normalized, _, haccept, hallowed, hopened, _⟩
    · exact hstatus
    · exact absurd ⟨hopened, haccept, hallowed⟩ (h normalized)

/-- What was decoded is counted and refused, or it is counted, gets to its
    handler and may be counted again. -/
theorem serve_cases (s : Server) (env : ServerEnv) (r : RawRequest) :
    ((∀ normalized, ¬ s.Handles r normalized) ∧ s.Counts (s.serve env r).1 ∧
      (s.serve env r).2.status ≠ Status.ok.code) ∨
    ∃ normalized d, s.Handles r normalized ∧ s.Counts d ∧
      (d.dispatch env normalized).1.Counts (s.serve env r).1 ∧
      (s.serve env r).2 = (d.dispatch env normalized).2.raw := by
  by_cases hhandles : ∃ normalized, s.Handles r normalized
  · rcases hhandles with ⟨normalized, command, hcommand, hadmits⟩
    refine Or.inr ⟨normalized, s.counted command, ⟨command, hcommand, hadmits⟩,
      counted_counts s command, ?_⟩
    have hserve : s.serve env r = ((s.handle env (r.request command)).1,
        (s.handle env (r.request command)).2.raw) := by
      simp only [Server.serve, hcommand]
    rw [hserve, hadmits.handle_eq]
    exact ⟨countError_counts _ _, rfl⟩
  · refine Or.inl ⟨not_exists.mp hhandles, ?_⟩
    simp only [Server.serve]
    cases hcommand : Command.ofCode r.command with
    | none =>
        exact ⟨handleUnknown_counts s _, fun hok => handleUnknown_refused s _ (status_of_code hok)⟩
    | some command =>
        have hrefused := @handle_refused s (r.request command) (fun normalized hadmits =>
          hhandles ⟨normalized, command, hcommand, hadmits⟩) env
        exact ⟨hrefused.1, fun hok => hrefused.2 (status_of_code hok)⟩

/-- The topic of a request stays what it is. -/
theorem acceptRequest_topic {b : Broker} {clientToken : Bytes} {request normalized : Request}
    (h : b.acceptRequest clientToken request = some normalized) :
    normalized.topic = request.topic := by
  rcases acceptRequest_cases h with hbroker | ⟨_, hclient⟩
  · simp only [Broker.validateReplicationRequest] at hbroker
    split at hbroker
    · cases hbroker
    · split at hbroker
      · cases hbroker
      · split at hbroker
        · cases hbroker
        · split at hbroker
          · cases hbroker
          · split at hbroker
            · cases hbroker
            · split at hbroker
              · cases hbroker
              · cases hbroker
                rfl
  · simp only [validateClientAuth] at hclient
    split at hclient
    · cases hclient
    · split at hclient
      · split at hclient
        · cases hclient
        · cases hclient
          rfl
      · split at hclient
        · cases hclient
        · split at hclient
          · cases hclient
          · cases hclient
            rfl

/-! ## What most handlers leave alone -/

/-- Topics and offsets are the same, in all places. -/
structure Server.SameMetadata (s s' : Server) : Prop where
  topics : s'.broker.topics = s.broker.topics
  partitions : s'.groups.partitions = s.groups.partitions
  topicsFile : s'.topicsFile = s.topicsFile
  consumerOffsets : s'.consumerOffsets = s.consumerOffsets
  offsetsFile : s'.offsetsFile = s.offsetsFile

theorem Server.SameMetadata.refl (s : Server) : s.SameMetadata s := ⟨rfl, rfl, rfl, rfl, rfl⟩

theorem Server.SameMetadata.trans {s s' s'' : Server} (h : s.SameMetadata s')
    (h' : s'.SameMetadata s'') : s.SameMetadata s'' :=
  ⟨h'.topics.trans h.topics, h'.partitions.trans h.partitions, h'.topicsFile.trans h.topicsFile,
    h'.consumerOffsets.trans h.consumerOffsets, h'.offsetsFile.trans h.offsetsFile⟩

theorem Server.Counts.sameMetadata {s s' : Server} (h : s.Counts s') : s.SameMetadata s' := by
  rcases h with ⟨_, _, _, _, rfl⟩
  exact ⟨rfl, rfl, rfl, rfl, rfl⟩

theorem foldl_exec_partitions (ops : List GroupOp) (c : ConsumerGroupCoordinator)
    (h : ∀ op ∈ ops, ∀ partitions, op.partitionsAfter partitions = partitions) :
    (ops.foldl (GroupOp.exec memberTimeout) c).partitions = c.partitions := by
  refine List.foldlRecOn (motive := fun d : ConsumerGroupCoordinator =>
    d.partitions = c.partitions) _ _ rfl ?_
  intro d hd op hop
  rw [GroupOp.exec_partitions, h op hop, hd]

/-- The groups hear of partition counts only when a topic is created. -/
theorem groupOps_partitions (s : Server) (env : ServerEnv) {request : Request}
    (hcommand : request.command ≠ .createTopic) :
    ∀ op ∈ s.groupOps env request, ∀ partitions, op.partitionsAfter partitions = partitions := by
  intro op hop partitions
  unfold Server.groupOps at hop
  split at hop
  · rename_i hcreate
    exact absurd hcreate hcommand
  · split at hop
    · exact absurd hop List.not_mem_nil
    · rw [List.mem_singleton.mp hop]
      rfl
  · split at hop
    · rw [List.mem_singleton.mp hop]
      rfl
    · split at hop
      · rcases List.mem_cons.mp hop with rfl | hop
        · rfl
        · rw [List.mem_singleton.mp hop]
          rfl
      · rw [List.mem_singleton.mp hop]
        rfl
  · exact absurd hop List.not_mem_nil

theorem heartbeatRound_topics (b : Broker) (env : RoundEnv) :
    (b.heartbeatRound env).topics = b.topics := by
  rcases heartbeatRound_frame b env with ⟨_, _, heq, _⟩
  rw [heq]

theorem handleReplicaAppend_topics (b : Broker) (env : ReplicaEnv) (request : Request) :
    (b.handleReplicaAppend env request).1.topics = b.topics := by
  have happly : ∀ header partition messages,
      (b.applyAppend env request header partition messages).1.topics = b.topics := by
    intro header partition messages
    rcases applyAppend_cases b env request header partition messages with
      ⟨hsame, _⟩ | ⟨_, _, _, _, _, _, _, ⟨heq, _⟩ | ⟨heq, _⟩⟩
    · rw [hsame]
    · rw [heq]
    · rw [heq]
  simp only [Broker.handleReplicaAppend]
  split
  · rfl
  · split
    · rfl
    · split
      · rfl
      · split
        · rfl
        · split
          · rfl
          · rfl
          · split
            · rfl
            · split
              · rfl
              · exact happly _ _ _

/-- Only three handlers change topics and offsets. -/
theorem dispatch_sameMetadata (s : Server) (env : ServerEnv) (request : Request)
    (hcommand : request.command ∉ [.createTopic, .deleteTopic, .commitOffset]) :
    s.SameMetadata (s.dispatch env request).1 := by
  simp only [List.mem_cons, List.not_mem_nil, or_false, not_or] at hcommand
  have hpartitions : (s.dispatch env request).1.groups.partitions = s.groups.partitions := by
    rw [dispatch_groups]
    exact foldl_exec_partitions _ _ (groupOps_partitions s env hcommand.1)
  suffices hrest : (s.dispatch env request).1.broker.topics = s.broker.topics ∧
      (s.dispatch env request).1.topicsFile = s.topicsFile ∧
      (s.dispatch env request).1.consumerOffsets = s.consumerOffsets ∧
      (s.dispatch env request).1.offsetsFile = s.offsetsFile from
    ⟨hrest.1, hpartitions, hrest.2.1, hrest.2.2.1, hrest.2.2.2⟩
  clear hpartitions
  cases hkind : request.command with
  | createTopic => exact absurd hkind hcommand.1
  | deleteTopic => exact absurd hkind hcommand.2.1
  | commitOffset => exact absurd hkind hcommand.2.2
  | produce =>
      simp only [Server.dispatch, hkind, and_true]
      rcases handleProduce_frame s.broker env.produce request true true with ⟨_, _, _, _, heq⟩
      rw [heq]
  | produceBatch =>
      simp only [Server.dispatch, hkind, and_true]
      rcases handleProduceBatch_frame s.broker env.batch request with ⟨_, _, _, _, heq⟩
      rw [heq]
  | heartbeat =>
      simp only [Server.dispatch, hkind, Server.handleHeartbeat]
      split
      · rcases handleReplicaHeartbeat_cases s.broker env.replica.now request with
          ⟨_, heq⟩ | ⟨_, _, heq⟩ <;> rw [heq] <;> exact ⟨rfl, rfl, rfl, rfl⟩
      · split
        · exact ⟨rfl, rfl, rfl, rfl⟩
        · split <;> exact ⟨rfl, rfl, rfl, rfl⟩
        · exact ⟨rfl, rfl, rfl, rfl⟩
  | replicaAppend =>
      simp only [Server.dispatch, hkind, and_true]
      exact handleReplicaAppend_topics s.broker env.replica request
  | replicaVote =>
      simp only [Server.dispatch, hkind, Server.handleReplicaVote]
      split
      · exact ⟨rfl, rfl, rfl, rfl⟩
      · split <;> exact ⟨rfl, rfl, rfl, rfl⟩
  | listTopic => simp only [Server.dispatch, hkind, and_self]
  | metrics => simp only [Server.dispatch, hkind, and_self]
  | fetch => simp only [Server.dispatch, hkind, and_self]
  | joinGroup => simp only [Server.dispatch, hkind, and_self]
  | syncGroup => simp only [Server.dispatch, hkind, and_self]
  | offsetFetch => simp only [Server.dispatch, hkind, and_self]
  | replicaFetch => simp only [Server.dispatch, hkind, and_self]

/-! ## The list of topics -/

section Lists

variable {b : Broker}

theorem listTopics_valid
    (hvalid : ∀ name count, b.topics.lookup name = some count → ValidTopic name count) :
    ∀ topic ∈ b.listTopics, ValidTopic topic.1 topic.2 := fun topic htopic =>
  hvalid topic.1 topic.2 ((mem_listTopics b topic.1 topic.2).mp htopic)

theorem listTopics_names (b : Broker) : (b.listTopics.map Prod.fst).Nodup := by
  have hperm : (b.listTopics.map Prod.fst).Perm b.topics.keys := by
    refine ((List.mergeSort_perm _ _).map Prod.fst).trans ?_
    rw [List.map_map]
    exact List.Perm.refl _
  exact hperm.nodup_iff.mpr b.topics.keys_nodup

/-- Valid topics can be saved when there are not too many. -/
theorem listTopics_savable
    (hvalid : ∀ name count, b.topics.lookup name = some count → ValidTopic name count) :
    topicsSavable b.listTopics = decide (b.topics.size ≤ maxTopics) := by
  have hall : b.listTopics.all (fun topic => isValidTopicName topic.1 && topic.2 != 0) = true := by
    rw [List.all_eq_true]
    intro topic htopic
    rw [Bool.and_eq_true, bne_iff_ne]
    exact ⟨(listTopics_valid hvalid topic htopic).1, (listTopics_valid hvalid topic htopic).2.1⟩
  rw [topicsSavable, hall, Bool.and_true, length_listTopics]

theorem insert_valid {name : Bytes} {count : UInt32} (h : ValidTopic name count)
    (hvalid : ∀ name count, b.topics.lookup name = some count → ValidTopic name count) :
    ∀ t c, (b.topics.insert name count).lookup t = some c → ValidTopic t c := by
  intro t c hc
  by_cases ht : t = name
  · rw [ht, AList.lookup_insert] at hc
    rw [ht, ← Option.some.inj hc]
    exact h
  · rw [AList.lookup_insert_ne ht] at hc
    exact hvalid t c hc

theorem erase_valid {name : Bytes}
    (hvalid : ∀ name count, b.topics.lookup name = some count → ValidTopic name count) :
    ∀ t c, (b.topics.erase name).lookup t = some c → ValidTopic t c := by
  intro t c hc
  by_cases ht : t = name
  · rw [ht, AList.lookup_erase] at hc
    cases hc
  · rw [AList.lookup_erase_ne ht] at hc
    exact hvalid t c hc

end Lists

/-! ## Creating a topic -/

/-- A request names a valid topic that does not exist. -/
structure Server.Creates (s : Server) (request : Request) (count : UInt32) : Prop where
  read : (readCreateTopic request.payload).result = .ok count
  valid : ValidTopic request.topic count
  new : s.broker.topics.lookup request.topic = none

section Creating

variable {s : Server} {request : Request}

/-- Any other request is refused. -/
theorem handleCreateTopic_refuses (h : ∀ count, ¬ s.Creates request count) (env : ServerEnv) :
    (s.handleCreateTopic env request).1 = s ∧
      (s.handleCreateTopic env request).2.status ≠ .ok := by
  simp only [Server.handleCreateTopic, Broker.handleCreateTopic]
  cases hread : (readCreateTopic request.payload).result with
  | error status => exact ⟨rfl, error_status fun hok => by
      rw [hok] at hread
      simp only [readCreateTopic, result_check_bind] at hread
      split at hread <;> cases hread⟩
  | ok count =>
      rcases createTopic_outcome s.broker request.topic count with ⟨hvalid, hnew, _⟩ | hcreate
      · exact absurd ⟨hread, hvalid, hnew⟩ (h count)
      · simp only [hcreate, Bool.false_eq_true, if_false, Bool.false_and]
        refine ⟨trivial, error_status ?_⟩
        split <;> decide

/-- A topic is created when the list of topics can be saved, and taken out again
    when not. The groups keep its partition count in both cases. -/
theorem handleCreateTopic_creates (hs : s.broker.Sound) {count : UInt32}
    (h : s.Creates request count) (env : ServerEnv) :
    s.handleCreateTopic env request
      = if env.topicsSaved = true ∧ s.broker.topics.size < maxTopics then
          ({ s with
            broker := { s.broker with topics := s.broker.topics.insert request.topic count }
            groups := s.groups.setPartitions request.topic count
            topicsFile :=
              ({ s.broker with topics := s.broker.topics.insert request.topic count } :
                Broker).listTopics }, makeResponse request .ok)
        else
          ({ s with
            broker :=
              { s.broker with
                topics := (s.broker.topics.insert request.topic count).erase request.topic }
            groups := s.groups.setPartitions request.topic count },
            makeResponse request .storageError) := by
  have hsavable := listTopics_savable
    (b := { s.broker with topics := s.broker.topics.insert request.topic count })
    (insert_valid h.valid hs.topics)
  rw [Table.size_insert_of_new h.new] at hsavable
  have hcreate := createTopic_valid s.broker h.valid h.new
  by_cases hsaved : env.topicsSaved = true ∧ s.broker.topics.size < maxTopics
  · rw [decide_eq_true (Nat.succ_le_of_lt hsaved.2)] at hsavable
    simp only [Server.handleCreateTopic, Broker.handleCreateTopic, h.read, hcreate, hsavable,
      hsaved.1, hsaved.2, Bool.and_self, and_self, if_true]
  · have hnot : (env.topicsSaved && topicsSavable
        ({ s.broker with topics := s.broker.topics.insert request.topic count } :
          Broker).listTopics) = false := by
      rw [hsavable, Bool.eq_false_iff, ne_eq, Bool.and_eq_true, decide_eq_true_eq]
      exact hsaved
    simp only [Server.handleCreateTopic, Broker.handleCreateTopic, h.read, hcreate, hnot, hsaved,
      Bool.and_false, Bool.false_eq_true, if_true, if_false]

theorem handleCreateTopic_ok (hs : s.broker.Sound) {env : ServerEnv}
    (hok : (s.handleCreateTopic env request).2.status = .ok) :
    ∃ count, s.Creates request count ∧ env.topicsSaved = true ∧
      s.broker.topics.size < maxTopics := by
  by_cases hcreates : ∃ count, s.Creates request count
  · rcases hcreates with ⟨count, hcreates⟩
    rw [handleCreateTopic_creates hs hcreates] at hok
    split at hok
    · rename_i hsaved
      exact ⟨count, hcreates, hsaved⟩
    · cases hok
  · exact absurd hok (handleCreateTopic_refuses (not_exists.mp hcreates) env).2

end Creating

/-! ## Deleting a topic -/

/-- A request names a topic that exists. -/
structure Server.Deletes (s : Server) (request : Request) (count : UInt32) : Prop where
  payload : request.payload = []
  found : s.broker.topics.lookup request.topic = some count

section Deleting

variable {s : Server} {request : Request}

/-- The broker with a topic that was taken out and put back. -/
def Broker.putBack (b : Broker) (topic : Bytes) (count : UInt32) : Broker :=
  { b with topics := (b.topics.erase topic).insert topic count }

theorem putBack_lookup {b : Broker} {topic : Bytes} {count : UInt32}
    (h : b.topics.lookup topic = some count) (t : Bytes) :
    (b.putBack topic count).topics.lookup t = b.topics.lookup t := by
  rw [Broker.putBack]
  by_cases ht : t = topic
  · rw [ht, AList.lookup_insert, h]
  · rw [AList.lookup_insert_ne ht, AList.lookup_erase_ne ht]

/-- Any other request is refused. -/
theorem handleDeleteTopic_refuses (h : ∀ count, ¬ s.Deletes request count) (env : ServerEnv) :
    (s.handleDeleteTopic env request).1 = s ∧
      (s.handleDeleteTopic env request).2.status ≠ .ok := by
  simp only [Server.handleDeleteTopic, Broker.handleDeleteTopic]
  by_cases hpayload : request.payload ≠ []
  · simp only [hpayload, ne_eq, not_false_eq_true, true_or, if_true]
    exact ⟨trivial, error_status (by decide)⟩
  · rw [not_not] at hpayload
    cases hfound : s.broker.topics.lookup request.topic with
    | none =>
        simp only [hpayload, ne_eq, not_true_eq_false, false_or, true_or, if_true, if_false]
        exact ⟨trivial, error_status (by decide)⟩
    | some count => exact absurd ⟨hpayload, hfound⟩ (h count)

/-- What is left without a topic can be saved. -/
theorem dropped_savable (hs : s.broker.Sound) (topic : Bytes) :
    topicsSavable ({ s.broker with topics := s.broker.topics.erase topic } : Broker).listTopics
      = true := by
  rw [listTopics_savable (erase_valid hs.topics), decide_eq_true_eq]
  exact (Table.size_erase_le s.broker.topics topic).trans hs.few

/-- When the list of topics cannot be saved, the topic is put back. -/
theorem handleDeleteTopic_unsaved (hs : s.broker.Sound) {count : UInt32}
    (h : s.Deletes request count) {env : ServerEnv} (hsaved : env.delete.saved = false) :
    s.handleDeleteTopic env request
      = ({ s with broker := s.broker.putBack request.topic count },
          makeResponse request .storageError) := by
  have hback := createTopic_valid { s.broker with topics := s.broker.topics.erase request.topic }
    (hs.topics _ _ h.found) (AList.lookup_erase _ _)
  simp only [Server.handleDeleteTopic, Broker.handleDeleteTopic, h.payload, h.found, hsaved, hback,
    Broker.putBack, Bool.false_and, ne_eq, not_true_eq_false, Bool.false_eq_true, not_false_eq_true,
    reduceCtorEq, false_or, if_true, if_false]

/-- When the directory of the topic cannot be removed, the topic is put back, and
    it is in the file again if that can be saved. -/
theorem handleDeleteTopic_left (hs : s.broker.Sound) {count : UInt32}
    (h : s.Deletes request count) {env : ServerEnv} (hsaved : env.delete.saved = true)
    (hremoved : env.delete.removed = false) :
    s.handleDeleteTopic env request
      = ({ s with
          broker :=
            { s.broker.putBack request.topic count with
              storage := (s.broker.storage.deleteTopic env.delete request.topic).1 }
          topicsFile :=
            if env.topicsResaved then (s.broker.putBack request.topic count).listTopics
            else ({ s.broker with topics := s.broker.topics.erase request.topic } :
              Broker).listTopics },
          makeResponse request .storageError) := by
  have hvalid := hs.topics _ _ h.found
  have hkept : (s.broker.storage.deleteTopic
      { env.delete with saved := true } request.topic).2 = false :=
    (deleteTopic_left s.broker.storage hvalid.1 (by
      rw [hremoved]
      exact Bool.false_ne_true)).1
  have hback := createTopic_valid { s.broker with
    topics := s.broker.topics.erase request.topic
    storage := (s.broker.storage.deleteTopic { env.delete with saved := true } request.topic).1 }
    hvalid (AList.lookup_erase _ _)
  have hlist : topicsSavable ({ s.broker.putBack request.topic count with
      storage := (s.broker.storage.deleteTopic { env.delete with saved := true }
        request.topic).1 } : Broker).listTopics = true := by
    have hsame := putBack_lookup h.found
    rw [listTopics_savable fun t c hc => hs.topics t c (by rw [← hsame t]; exact hc),
      decide_eq_true_eq]
    refine (Table.size_le _ s.broker.topics fun t ht => ?_).trans hs.few
    rw [← AList.lookup_isSome, hsame, AList.lookup_isSome] at ht
    exact ht
  rw [Broker.putBack] at hlist
  simp only [Server.handleDeleteTopic, Broker.handleDeleteTopic, h.payload, h.found, hsaved,
    dropped_savable hs, hkept, hback, Bool.and_self, ne_eq, not_true_eq_false, Bool.false_eq_true,
    not_false_eq_true, reduceCtorEq, or_self, if_true, if_false]
  rw [if_pos (error_status (by decide))]
  simp only [hlist, Bool.and_true]
  rfl

/-- A topic is deleted, with what was cached and committed for it. -/
theorem handleDeleteTopic_deletes (hs : s.broker.Sound) {count : UInt32}
    (h : s.Deletes request count) {env : ServerEnv} (hsaved : env.delete.saved = true)
    (hremoved : env.delete.removed = true) :
    s.handleDeleteTopic env request
      = ({ s with
          broker :=
            { s.broker with
              topics := s.broker.topics.erase request.topic
              storage := (s.broker.storage.deleteTopic env.delete request.topic).1
              idempotencyCache := s.broker.idempotencyCache.filterKeys
                (fun key => ¬ (request.topic ++ [keySeparator]) <+: key) }
          topicsFile := ({ s.broker with topics := s.broker.topics.erase request.topic } :
            Broker).listTopics
          consumerOffsets := s.consumerOffsets.filter (fun item => item.topic ≠ request.topic)
          offsetsFile :=
            if env.offsetsSaved && offsetsSavable
              (s.consumerOffsets.filter (fun item => item.topic ≠ request.topic)) then
              s.consumerOffsets.filter (fun item => item.topic ≠ request.topic)
            else s.offsetsFile },
          makeResponse request .ok) := by
  have hdone : (s.broker.storage.deleteTopic
      { env.delete with saved := true } request.topic).2 = true :=
    (deleteTopic_removed s.broker.storage (hs.topics _ _ h.found).1 hremoved).1
  simp only [Server.handleDeleteTopic, Broker.handleDeleteTopic, h.payload, h.found, hsaved,
    dropped_savable hs, hdone, Bool.and_self, ne_eq, not_true_eq_false, reduceCtorEq, or_self,
    if_false]
  rfl

theorem handleDeleteTopic_ok (hs : s.broker.Sound) {env : ServerEnv}
    (hok : (s.handleDeleteTopic env request).2.status = .ok) :
    ∃ count, s.Deletes request count ∧ env.delete.saved = true ∧ env.delete.removed = true := by
  by_cases hdeletes : ∃ count, s.Deletes request count
  · rcases hdeletes with ⟨count, hdeletes⟩
    cases hsaved : env.delete.saved with
    | false =>
        rw [handleDeleteTopic_unsaved hs hdeletes hsaved] at hok
        cases hok
    | true =>
        cases hremoved : env.delete.removed with
        | false =>
            rw [handleDeleteTopic_left hs hdeletes hsaved hremoved] at hok
            cases hok
        | true => exact ⟨count, hdeletes, rfl, rfl⟩
  · exact absurd hok (handleDeleteTopic_refuses (not_exists.mp hdeletes) env).2

end Deleting

/-! ## Steps -/

/-- The commands that change topics or offsets. -/
def metadataCommands : List Command := [.createTopic, .deleteTopic, .commitOffset]

/-- Topics and offsets change in a restart, or when a request gets to one of the
    three handlers. -/
theorem ServerEvent.exec_cases (s : Server) (event : ServerEvent) :
    s.SameMetadata (event.exec s) ∨
    (∃ config kept, event = .restart config kept) ∨
    ∃ env r normalized d, event = .request env r ∧ s.Handles r normalized ∧
      normalized.command ∈ metadataCommands ∧ s.Counts d ∧
      (d.dispatch env normalized).1.Counts (event.exec s) := by
  cases event with
  | request env r =>
      rcases serve_cases s env r with ⟨_, hcounts, _⟩ | ⟨normalized, d, hhandles, hd, hcounts, _⟩
      · exact Or.inl hcounts.sameMetadata
      · by_cases hcommand : normalized.command ∈ metadataCommands
        · exact Or.inr (Or.inr ⟨env, r, normalized, d, rfl, hhandles, hcommand, hd, hcounts⟩)
        · exact Or.inl ((hd.sameMetadata.trans
            (dispatch_sameMetadata d env normalized hcommand)).trans hcounts.sameMetadata)
  | operate op => exact Or.inl ⟨rfl, rfl, rfl, rfl, rfl⟩
  | heartbeatRound env => exact Or.inl ⟨heartbeatRound_topics s.broker env, rfl, rfl, rfl, rfl⟩
  | pull topic partition payload ios =>
      left
      simp only [ServerEvent.exec, Server.pull]
      split
      · split
        · rename_i messages _ _ _
          rcases applyFetched_cases s.broker ios topic partition messages with
            ⟨_, _, _, heq, _⟩
          rw [heq]
          exact ⟨rfl, rfl, rfl, rfl, rfl⟩
        · exact .refl s
      · exact .refl s
  | cleanup now => exact Or.inl ⟨rfl, rfl, rfl, rfl, rfl⟩
  | restart config kept => exact Or.inr (Or.inl ⟨config, kept, rfl⟩)

/-- Only requests and restarts do. -/
theorem ServerEvent.exec_sameMetadata (s : Server) (event : ServerEvent)
    (hrequest : ∀ env r, event ≠ .request env r)
    (hrestart : ∀ config kept, event ≠ .restart config kept) : s.SameMetadata (event.exec s) := by
  rcases event.exec_cases s with hsame | ⟨config, kept, heq⟩ | ⟨env, r, _, _, heq, _⟩
  · exact hsame
  · exact absurd heq (hrestart config kept)
  · exact absurd heq (hrequest env r)

theorem Server.Counts.handles {s d : Server} (h : s.Counts d) {request : Request} (count : UInt32) :
    (d.Creates request count ↔ s.Creates request count) ∧
      (d.Deletes request count ↔ s.Deletes request count) := by
  rcases h with ⟨_, _, _, _, rfl⟩
  exact ⟨⟨fun h => ⟨h.read, h.valid, h.new⟩, fun h => ⟨h.read, h.valid, h.new⟩⟩,
    ⟨fun h => ⟨h.payload, h.found⟩, fun h => ⟨h.payload, h.found⟩⟩⟩

theorem Server.Handles.unique {s : Server} {r : RawRequest} {request request' : Request}
    (h : s.Handles r request) (h' : s.Handles r request') : request = request' := by
  rcases h with ⟨command, hcommand, hadmits⟩
  rcases h' with ⟨command', hcommand', hadmits'⟩
  rw [← Option.some.inj (hcommand.symm.trans hcommand')] at hadmits'
  exact Option.some.inj (hadmits.accepted.symm.trans hadmits'.accepted)

/-- What gets to a handler has the command that was decoded. -/
theorem Server.Handles.command {s : Server} {r : RawRequest} {normalized : Request}
    (h : s.Handles r normalized) : Command.ofCode r.command = some normalized.command := by
  rcases h with ⟨command, hcommand, hadmits⟩
  rw [hcommand, acceptRequest_command hadmits.accepted]
  rfl

theorem Server.Handles.command_ne {s : Server} {r : RawRequest} {normalized : Request}
    (h : s.Handles r normalized) {command : Command}
    (hother : Command.ofCode r.command ≠ some command) : normalized.command ≠ command := by
  rintro rfl
  exact hother h.command

/-- Its topic stays what it is, too. -/
theorem Server.Handles.topic {s : Server} {r : RawRequest} {normalized : Request}
    (h : s.Handles r normalized) : normalized.topic = r.topic := by
  rcases h with ⟨command, _, hadmits⟩
  exact acceptRequest_topic hadmits.accepted

/-- What gets to its handler is answered there. -/
theorem serve_handles {s : Server} {r : RawRequest} {normalized : Request}
    (h : s.Handles r normalized) (env : ServerEnv) :
    ∃ d, s.Counts d ∧ (d.dispatch env normalized).1.Counts (s.serve env r).1 ∧
      (s.serve env r).2 = (d.dispatch env normalized).2.raw := by
  rcases serve_cases s env r with ⟨hrefused, _⟩ | ⟨normalized', d, hhandles, hd, hcounts, heq⟩
  · exact absurd h (hrefused normalized)
  · rw [h.unique hhandles]
    exact ⟨d, hd, hcounts, heq⟩

/-- What is answered `kOk` got to its handler and was answered there. -/
theorem serve_ok {s : Server} {env : ServerEnv} {r : RawRequest}
    (h : (s.serve env r).2.status = Status.ok.code) :
    ∃ normalized d, s.Handles r normalized ∧ s.Counts d ∧
      (d.dispatch env normalized).1.Counts (s.serve env r).1 ∧
      (d.dispatch env normalized).2.status = .ok := by
  rcases serve_cases s env r with ⟨_, _, hrefused⟩ | ⟨normalized, d, hhandles, hd, hcounts, heq⟩
  · exact absurd h hrefused
  · rw [heq] at h
    exact ⟨normalized, d, hhandles, hd, hcounts, status_of_code h⟩

/-- An event is a request of some kind that gets to its handler. -/
def ServerEvent.Requests (s : Server) (kind : ServerEnv → Request → Prop) (event : ServerEvent) :
    Prop :=
  ∃ env r normalized, event = .request env r ∧ s.Handles r normalized ∧ kind env normalized

theorem requests_request {s : Server} {kind : ServerEnv → Request → Prop} {env : ServerEnv}
    {r : RawRequest} :
    (ServerEvent.request env r).Requests s kind ↔
      ∃ normalized, s.Handles r normalized ∧ kind env normalized := by
  constructor
  · rintro ⟨env', r', normalized, heq, hhandles, hkind⟩
    cases heq
    exact ⟨normalized, hhandles, hkind⟩
  · rintro ⟨normalized, hhandles, hkind⟩
    exact ⟨env, r, normalized, rfl, hhandles, hkind⟩

theorem not_requests {s : Server} {kind : ServerEnv → Request → Prop} {event : ServerEvent}
    (h : ∀ env r, event ≠ .request env r) : ¬ event.Requests s kind :=
  fun ⟨env, r, _, heq, _⟩ => h env r heq

/-- A property of topics and offsets is kept by an event exactly when the event is
    no bad request, if the three handlers keep it exactly for requests that are
    not bad. -/
theorem ServerEvent.exec_iff {s : Server} {P : Server → Prop}
    {bad : ServerEnv → Request → Prop} (event : ServerEvent)
    (hcongr : ∀ s s', s.SameMetadata s' → (P s' ↔ P s)) (hs : P s)
    (hrestart : ∀ config kept, P (s.restart config kept))
    (hbad : ∀ env request, bad env request → request.command ∈ metadataCommands)
    (hhandler : ∀ d, s.Counts d → ∀ env request, request.command ∈ metadataCommands →
      (P (d.dispatch env request).1 ↔ ¬ bad env request)) :
    P (event.exec s) ↔ ¬ event.Requests s bad := by
  cases event with
  | request env r =>
      rcases serve_cases s env r with
        ⟨hrefused, hcounts, _⟩ | ⟨normalized, d, hhandles, hd, hcounts, _⟩
      · refine iff_of_true ((hcongr _ _ hcounts.sameMetadata).mpr hs) ?_
        rw [requests_request]
        exact fun ⟨normalized, hhandles, _⟩ => hrefused normalized hhandles
      · have hone : (ServerEvent.request env r).Requests s bad ↔ bad env normalized := by
          rw [requests_request]
          constructor
          · rintro ⟨normalized', hhandles', hkind⟩
            rw [hhandles.unique hhandles']
            exact hkind
          · exact fun h => ⟨normalized, hhandles, h⟩
        rw [ServerEvent.exec, hcongr _ _ hcounts.sameMetadata, hone]
        by_cases hcommand : normalized.command ∈ metadataCommands
        · exact hhandler d hd env normalized hcommand
        · exact iff_of_true ((hcongr _ _ (hd.sameMetadata.trans
            (dispatch_sameMetadata d env normalized hcommand))).mpr hs)
            fun h => hcommand (hbad env normalized h)
  | restart config kept =>
      exact iff_of_true (hrestart config kept) (not_requests (by rintro _ _ ⟨⟩))
  | operate op =>
      have hrequest : ∀ env r, ServerEvent.operate op ≠ .request env r :=
        by rintro _ _ ⟨⟩
      refine iff_of_true ((hcongr _ _ ?_).mpr hs) (not_requests hrequest)
      exact ServerEvent.exec_sameMetadata s _ hrequest (by rintro _ _ ⟨⟩)
  | heartbeatRound env =>
      have hrequest : ∀ env' r, ServerEvent.heartbeatRound env ≠ .request env' r :=
        by rintro _ _ ⟨⟩
      refine iff_of_true ((hcongr _ _ ?_).mpr hs) (not_requests hrequest)
      exact ServerEvent.exec_sameMetadata s _ hrequest (by rintro _ _ ⟨⟩)
  | pull topic partition payload ios =>
      have hrequest : ∀ env r, ServerEvent.pull topic partition payload ios ≠ .request env r :=
        by rintro _ _ ⟨⟩
      refine iff_of_true ((hcongr _ _ ?_).mpr hs) (not_requests hrequest)
      exact ServerEvent.exec_sameMetadata s _ hrequest (by rintro _ _ ⟨⟩)
  | cleanup now =>
      have hrequest : ∀ env r, ServerEvent.cleanup now ≠ .request env r :=
        by rintro _ _ ⟨⟩
      refine iff_of_true ((hcongr _ _ ?_).mpr hs) (not_requests hrequest)
      exact ServerEvent.exec_sameMetadata s _ hrequest (by rintro _ _ ⟨⟩)

/-! ## What is in the files -/

theorem Server.SameMetadata.published {s s' : Server} (h : s.SameMetadata s')
    (hs : s.Published) : s'.Published := by
  rcases hs with ⟨htopics, hnames, hfew, hoffsets⟩
  rw [← h.topicsFile] at htopics hnames hfew
  rw [← h.offsetsFile] at hoffsets
  exact ⟨htopics, hnames, hfew, hoffsets⟩

/-- A list of topics is published. -/
theorem Server.Published.withTopics {s s' : Server} (h : s.Published) {b : Broker}
    (hvalid : ∀ name count, b.topics.lookup name = some count → ValidTopic name count)
    (hfew : b.topics.size ≤ maxTopics) (htopics : s'.topicsFile = b.listTopics)
    (hoffsets : s'.offsetsFile = s.offsetsFile) : s'.Published := by
  refine ⟨?_, ?_, ?_, ?_⟩
  · rw [htopics]
    exact listTopics_valid hvalid
  · rw [htopics]
    exact listTopics_names b
  · rw [htopics, length_listTopics]
    exact hfew
  · rw [hoffsets]
    exact h.offsets

theorem Server.Published.createTopic {s : Server} (h : s.Published) (hs : s.broker.Sound)
    (env : ServerEnv) (request : Request) : (s.handleCreateTopic env request).1.Published := by
  by_cases hcreates : ∃ count, s.Creates request count
  · rcases hcreates with ⟨count, hcreates⟩
    rw [handleCreateTopic_creates hs hcreates env]
    split
    · rename_i hsaved
      refine h.withTopics (b := { s.broker with
        topics := s.broker.topics.insert request.topic count })
        (insert_valid hcreates.valid hs.topics) ?_ rfl rfl
      exact (Table.size_insert_le _ _ _).trans (Nat.succ_le_of_lt hsaved.2)
    · exact ⟨h.topics, h.names, h.few, h.offsets⟩
  · rw [(handleCreateTopic_refuses (not_exists.mp hcreates) env).1]
    exact h

theorem Server.Published.deleteTopic {s : Server} (h : s.Published) (hs : s.broker.Sound)
    (env : ServerEnv) (request : Request) : (s.handleDeleteTopic env request).1.Published := by
  have hdropped : ({ s.broker with topics := s.broker.topics.erase request.topic } :
      Broker).topics.size ≤ maxTopics := (Table.size_erase_le _ _).trans hs.few
  have hvalid := @erase_valid s.broker request.topic hs.topics
  by_cases hdeletes : ∃ count, s.Deletes request count
  · rcases hdeletes with ⟨count, hdeletes⟩
    cases hsaved : env.delete.saved with
    | false =>
        rw [handleDeleteTopic_unsaved hs hdeletes hsaved]
        exact ⟨h.topics, h.names, h.few, h.offsets⟩
    | true =>
        cases hremoved : env.delete.removed with
        | false =>
            rw [handleDeleteTopic_left hs hdeletes hsaved hremoved]
            cases env.topicsResaved with
            | false => exact h.withTopics hvalid hdropped rfl rfl
            | true =>
                have hsame := putBack_lookup hdeletes.found
                refine h.withTopics (b := s.broker.putBack request.topic count)
                  (fun t c hc => hs.topics t c (by rw [← hsame t]; exact hc)) ?_ rfl rfl
                refine (Table.size_le _ s.broker.topics fun t ht => ?_).trans hs.few
                rw [← AList.lookup_isSome, hsame, AList.lookup_isSome] at ht
                exact ht
        | true =>
            rw [handleDeleteTopic_deletes hs hdeletes hsaved hremoved]
            rcases @Server.Published.withTopics s { s with
              topicsFile := ({ s.broker with topics := s.broker.topics.erase request.topic } :
                Broker).listTopics } h _ hvalid hdropped rfl rfl with ⟨htopics, hnames, hfew, _⟩
            refine ⟨htopics, hnames, hfew, ?_⟩
            simp only
            split
            · rename_i hoffsets
              exact (Bool.and_eq_true_iff.mp hoffsets).2
            · exact h.offsets
  · rw [(handleDeleteTopic_refuses (not_exists.mp hdeletes) env).1]
    exact h

theorem Server.Published.commitOffset {s : Server} (h : s.Published) (env : ServerEnv)
    (request : Request) : (s.handleCommitOffset env request).1.Published := by
  simp only [Server.handleCommitOffset]
  split
  · exact h
  · split
    · rename_i hsaved
      exact ⟨h.topics, h.names, h.few, (Bool.and_eq_true_iff.mp hsaved).2⟩
    · exact ⟨h.topics, h.names, h.few, h.offsets⟩

theorem Server.Published.exec {s : Server} (h : s.Published) (hs : s.Sound)
    (event : ServerEvent) : (event.exec s).Published := by
  rcases event.exec_cases s with hsame | ⟨config, kept, rfl⟩ |
    ⟨env, r, normalized, d, rfl, hhandles, hcommand, hd, hcounts⟩
  · exact hsame.published h
  · rcases h.restart_eq config kept with ⟨table, _, _, heq⟩
    rw [ServerEvent.exec, heq]
    exact ⟨h.topics, h.names, h.few, h.offsets⟩
  · refine hcounts.sameMetadata.published ?_
    have hpublished := hd.sameMetadata.published h
    have hbroker : d.broker.Sound := by
      rw [hd.broker]
      exact hs.broker
    simp only [metadataCommands, List.mem_cons, List.not_mem_nil, or_false] at hcommand
    rcases hcommand with hkind | hkind | hkind
    · simp only [Server.dispatch, hkind]
      exact hpublished.createTopic hbroker env normalized
    · simp only [Server.dispatch, hkind]
      exact hpublished.deleteTopic hbroker env normalized
    · simp only [Server.dispatch, hkind]
      exact hpublished.commitOffset env normalized

theorem published_fresh (config : ServerConfig) : (Server.fresh config).Published :=
  ⟨fun _ htopic => absurd htopic List.not_mem_nil, List.nodup_nil, Nat.zero_le _, rfl⟩

/-- Whatever has happened to a broker, what is in its files was saved there. -/
theorem run_published (config : ServerConfig) (events : List ServerEvent) :
    ((Server.fresh config).run events).Published := by
  have hboth : ((Server.fresh config).run events).Sound ∧
      ((Server.fresh config).run events).Published := by
    refine List.foldlRecOn (motive := fun s : Server => s.Sound ∧ s.Published) _ _
      ⟨Server.Sound.fresh config, published_fresh config⟩ ?_
    intro s hs event _
    exact ⟨hs.1.exec event, hs.2.exec hs.1 event⟩
  exact hboth.2

end MqBroker
