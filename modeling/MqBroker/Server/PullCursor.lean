import MqBroker.Broker.PartialAppend
import MqBroker.Cluster.LogPosition
import MqBroker.Server.Growth
import MqBroker.Server.Isolation

/-!
# Where a Follower Pulls From

Whether a follower asks its leader for the messages behind its own log.

A follower remembers for each partition the offset behind the last message it
has pulled, and asks for the end of its log only as long as it remembers
nothing. What it remembers is written by pulls that store all they have got,
and by nothing else, while the log has other ways to change: a leader pushes
messages, a pull fails after its first message, a client deletes the topic and
creates it again. The next pull then asks for an offset that is not the end of
the log, and nothing that it gets can be stored.

What can go wrong can be told from an event and the state before it: a message
goes to a partition that has a cursor, and does not come as the whole of a pull.
A restart forgets the cursors.

## Main definitions

* `Broker.pullCursor`: What a follower remembers of a partition.
* `Broker.CursorFits`: It is nothing, or the end of the log.
* `Server.PullsAtEnd`: The next pulls ask for the ends of the logs.
* `Broker.SparesCursors`: A request for a log that has no cursor.
* `ServerEvent.SparesCursors`: Such a request, and a pull that stores all it has
  got or nothing.

## Theorems

* `dispatch_cursorsFit`, `pull_cursorsFit`: Such an event keeps cursors and logs
  together.
* `pulls_at_end`: A run of such events pulls from the ends of the logs.
* `pull_cursor_stale`: A pull that stores a part of what it has got.
-/

namespace MqBroker

/-- What a follower remembers of a partition, where nothing counts as 0. -/
def Broker.pullCursor (b : Broker) (topic : Bytes) (partition : UInt32) : UInt64 :=
  (b.replicationOffsets.lookup (pullKey topic partition)).getD 0

/-- The end of a log. -/
def Broker.logEnd (b : Broker) (topic : Bytes) (partition : UInt32) : UInt64 :=
  (b.storage.partition topic partition).nextOffset

/-- Nothing is remembered of a partition, or the end of its log. -/
def Broker.CursorFits (b : Broker) (topic : Bytes) (partition : UInt32) : Prop :=
  b.pullCursor topic partition = 0 ∨ b.pullCursor topic partition = b.logEnd topic partition

/-- The offset that the next pull of a partition asks for is the next offset of
    its log, for every partition of every topic. -/
def Server.PullsAtEnd (s : Server) : Prop :=
  ∀ topic partition, s.broker.Exists topic partition →
    s.broker.pullStart true topic partition = s.broker.storage.nextOffset true topic partition

/-- A request stores nothing in a log that has a cursor and takes nothing from
    it, and the topic that it creates finds no cursor of an older one. -/
def Broker.SparesCursors (b : Broker) (env : ServerEnv) (request : Request) : Prop :=
  match request.command with
  | .createTopic =>
      ∀ count, (readCreateTopic request.payload).result = .ok count →
        b.topics.lookup request.topic = none → env.topicsSaved = true →
          ∀ n, n < count → b.CursorFits request.topic n
  | .deleteTopic =>
      -- The directory is still there, and the logs are read from it again.
      env.delete.saved = true → env.delete.removed = false →
        ∀ n p, b.storage.partitions.lookup (request.topic, n) = some p →
          b.pullCursor request.topic n ≠ 0 →
            (p.reopen b.storage.config (env.delete.left n)).nextOffset = p.nextOffset
  | .produce =>
      ∀ d n body, b.admitProduce env.produce request true true = (d, .ok (n, body)) →
        b.pullCursor request.topic n ≠ 0 →
          b.storage.appendReachesSync env.produce.io env.produce.timestampMs request.topic n
            body.key body.value = false
  | .produceBatch =>
      ∀ d entries, b.admitBatch env.batch request = (d, .ok entries) →
        ∀ single n body, .pending single ∈ entries → b.Routes single n body →
          b.pullCursor single.topic n = 0
  | .replicaAppend =>
      ∀ header n m rest, (b.readReplicaAppend request).result = .ok (header, n, m :: rest) →
        b.passesChecks env.replica request header n (m :: rest) = true →
          b.pullCursor request.topic n ≠ 0 →
            b.storage.appendReplicaReachesSync (env.replica.ios 0) request.topic n m = false
  | _ => True

/-- Such a request, or a pull of a partition without a cursor, or one that stores
    all it has got as soon as it stores its first message. -/
def ServerEvent.SparesCursors (s : Server) : ServerEvent → Prop
  | .request env r => ∀ normalized, s.Handles r normalized → s.broker.SparesCursors env normalized
  | .pull topic n payload ios =>
      ∀ m rest, parseFetched payload = some (m :: rest) → s.broker.pullCursor topic n ≠ 0 →
        s.broker.storage.appendReplicaReachesSync (ios 0) topic n m = true →
          consecutive (m :: rest) = true ∧
            s.broker.storesWhole { ios } topic n (m :: rest) = true
  | _ => True

/-! ## Keys -/

theorem pullKey_injective {t t' : Bytes} {n n' : UInt32} (h : pullKey t n = pullKey t' n') :
    t = t' ∧ n = n' := by
  rcases append_sep_inj _ _ _ _ _ (colon_notMem_decimal _) (colon_notMem_decimal _) h with
    ⟨ht, hn⟩
  exact ⟨ht, UInt32.toNat_inj.mp (decimal_injective _ _ hn)⟩

/-- What a leader remembers of its peers does not get in the way: only these
    keys have a separator in them. -/
theorem pullKey_ne_progressKey {topic : Bytes} (hvalid : isValidTopicName topic = true)
    (n : UInt32) (node t : Bytes) (n' : UInt32) :
    pullKey topic n ≠ progressKey node (partitionKey t n') := by
  intro h
  have hmem : keySeparator ∈ pullKey topic n := by
    rw [h, progressKey, partitionKey]
    exact List.mem_append_right _ (List.mem_cons_of_mem _
      (List.mem_append_right _ List.mem_cons_self))
  rcases List.mem_append.mp hmem with hname | hmem
  · exact separator_notMem_name hvalid hname
  · rcases List.mem_cons.mp hmem with heq | hnumber
    · exact absurd heq (by decide)
    · exact separator_notMem_decimal _ hnumber

/-! ## What an append moves -/

/-- Two engines that are read alike have the same ends. -/
theorem SameReads.nextOffset_eq {e e' : StorageEngine} (h : SameReads e e') {topic : Bytes}
    (hvalid : isValidTopicName topic = true) (n : UInt32) :
    (e'.partition topic n).nextOffset = (e.partition topic n).nextOffset := by
  have hnext := (h true topic n).1
  rw [StorageEngine.nextOffset, StorageEngine.nextOffset, if_neg (by simp [hvalid]),
    if_neg (by simp [hvalid])] at hnext
  exact Option.some.inj hnext

section Ends

variable {topic t : Bytes} {number n : UInt32}

/-- An append moves the end of its own log, and only if it stores its message. -/
theorem append_ends (e : StorageEngine) (io : StoreIo) (now : Int64) (key value : Bytes)
    (hvalid : isValidTopicName t = true) :
    ((e.append io now topic number key value).1.partition t n).nextOffset
        = (e.partition t n).nextOffset ∨
      (t, n) = (topic, number) ∧
        e.appendReachesSync io now topic number key value = true := by
  cases hreached : e.appendReachesSync io now topic number key value with
  | false => exact Or.inl ((append_unreached hreached).1.nextOffset_eq hvalid n)
  | true =>
      by_cases hplace : (t, n) = (topic, number)
      · exact Or.inr ⟨hplace, rfl⟩
      · exact Or.inl (congrArg Partition.nextOffset ((append_reached hreached).1.others t n hplace))

/-- So does the loop of replica appends, with its first message. -/
theorem appendReplicas_ends (ios : Nat → StoreIo) (m : Message) (rest : List Message)
    (e : StorageEngine) (hvalid : isValidTopicName t = true) :
    ((appendReplicas ios topic number (m :: rest) 0 e).1.partition t n).nextOffset
        = (e.partition t n).nextOffset ∨
      (t, n) = (topic, number) ∧
        e.appendReplicaReachesSync (ios 0) topic number m = true := by
  by_cases hplace : (t, n) = (topic, number)
  · cases hreached : e.appendReplicaReachesSync (ios 0) topic number m with
    | true => exact Or.inr ⟨hplace, rfl⟩
    | false =>
        -- The loop ends at its first message.
        rcases appendReplica_unreached hreached with ⟨hsame, err, herr⟩
        have hstop : (appendReplicas ios topic number (m :: rest) 0 e).1
            = (e.appendReplica (ios 0) topic number m).1 := by
          rw [appendReplicas]
          split
          · rename_i e' err' heq
            rw [heq]
          · rename_i e' heq
            rw [heq] at herr
            cases herr
        rw [hstop]
        exact Or.inl (hsame.nextOffset_eq hvalid n)
  · rcases appendReplicas_cases ios topic number (m :: rest) 0 e with ⟨_, _, hext, _⟩
    exact Or.inl (hext.others t n hplace).2

/-- A produce request moves the end of the log that it is routed to. -/
theorem handleProduce_ends (b : Broker) (env : ProduceEnv) (request : Request)
    (rate quota : Bool) (hvalid : isValidTopicName t = true) :
    (b.handleProduce env request rate quota).broker.logEnd t n = b.logEnd t n ∨
      ∃ d body, b.admitProduce env request rate quota = (d, .ok (n, body)) ∧ t = request.topic ∧
        b.storage.appendReachesSync env.io env.timestampMs t n body.key body.value = true := by
  rcases admitProduce_frame b env request rate quota with ⟨cache, windows, hverdict⟩
  unfold Broker.handleProduce Broker.logEnd
  split
  · rename_i d response hadmitted
    rw [hadmitted] at hverdict
    rw [show d = _ from hverdict]
    exact Or.inl rfl
  · rename_i d number body hadmitted
    rw [hadmitted] at hverdict
    rw [(settleProduce_storage d env request number body).1, show d = _ from hverdict]
    rcases append_ends b.storage env.io env.timestampMs body.key body.value hvalid with
      hsame | ⟨hplace, hreached⟩
    · exact Or.inl hsame
    · rcases Prod.mk.inj hplace with ⟨rfl, rfl⟩
      exact Or.inr ⟨d, body, hadmitted, rfl, hreached⟩

/-- A batch moves the ends of the logs that its messages are routed to. -/
theorem produceEntries_ends (request : Request) (calls : Nat → ProduceEnv)
    (entries : List BatchEntry) (index : Nat) (b : Broker) (payload : Bytes)
    (stored : List (Request × UInt32 × Message)) (hvalid : isValidTopicName t = true) :
    (Broker.produceEntries request calls entries index b payload stored).broker.logEnd t n
        = b.logEnd t n ∨
      ∃ single body, .pending single ∈ entries ∧ t = single.topic ∧ b.Routes single n body := by
  induction entries generalizing index b payload stored with
  | nil => exact Or.inl rfl
  | cons entry rest ih =>
      cases entry with
      | cached response =>
          rcases ih (index + 1) b (payload ++ response.payload) stored with
            hsame | ⟨single, body, hmem, hrest⟩
          · exact Or.inl hsame
          · exact Or.inr ⟨single, body, List.mem_cons_of_mem _ hmem, hrest⟩
      | pending first =>
          simp only [Broker.produceEntries]
          rcases handleProduce_frame b (calls index) first false false with
            ⟨_, _, _, _, hframe⟩
          rcases handleProduce_ends (n := n) b (calls index) first false false hvalid with
            hfirst | ⟨d, body, hadmitted, htopic, _⟩
          · split
            · exact Or.inl hfirst
            · rcases ih (index + 1) (b.handleProduce (calls index) first false false).broker
                _ _ with hsame | ⟨single, body, hmem, htopic, hroutes⟩
              · exact Or.inl (hsame.trans hfirst)
              · -- The topics are still what they were.
                refine Or.inr ⟨single, body, List.mem_cons_of_mem _ hmem, htopic,
                  hroutes.parsed, ?_⟩
                rw [← hroutes.resolved, hframe]
                rfl
          · exact Or.inr ⟨first, body, List.mem_cons_self, htopic, admitProduce_routes hadmitted⟩

theorem handleProduceBatch_ends (b : Broker) (env : BatchEnv) (request : Request)
    (hvalid : isValidTopicName t = true) :
    (b.handleProduceBatch env request).broker.logEnd t n = b.logEnd t n ∨
      ∃ d entries single body, b.admitBatch env request = (d, .ok entries) ∧
        .pending single ∈ entries ∧ t = single.topic ∧ b.Routes single n body := by
  rcases admitBatch_frame b env request with ⟨_, _, hframe⟩
  unfold Broker.handleProduceBatch
  split
  · rename_i d status hadmitted
    rw [hadmitted] at hframe
    rw [show d = _ from hframe]
    exact Or.inl rfl
  · rename_i d entries hadmitted
    rw [hadmitted] at hframe
    rcases produceEntries_ends (n := n) request env.calls entries 0 d
      (put32 (UInt32.ofNat entries.length)) [] hvalid with
      hsame | ⟨single, body, hmem, htopic, hroutes⟩
    · rw [hsame, show d = _ from hframe]
      exact Or.inl rfl
    · -- The batch is routed by the topics of the state before it.
      refine Or.inr ⟨d, entries, single, body, hadmitted, hmem, htopic, hroutes.parsed, ?_⟩
      rw [← hroutes.resolved, show d = _ from hframe]
      rfl

end Ends

/-! ## What changes a cursor -/

/-- Every partition that exists fits its cursor. -/
def Broker.CursorsFit (b : Broker) : Prop :=
  ∀ topic n, b.Exists topic n → b.CursorFits topic n

section Requests

variable {b b' : Broker}

/-- The same topics and cursors, and logs that end where they did, if they have a
    cursor. -/
theorem Broker.CursorsFit.kept (h : b.CursorsFit)
    (htopics : ∀ t, b'.topics.lookup t = b.topics.lookup t)
    (hcursors : b'.replicationOffsets = b.replicationOffsets)
    (hends : ∀ t n, b.Exists t n → b.pullCursor t n ≠ 0 → b'.logEnd t n = b.logEnd t n) :
    b'.CursorsFit := by
  rintro t n ⟨count, hcount, hlt⟩
  have hexists : b.Exists t n := ⟨count, by rwa [← htopics], hlt⟩
  rw [Broker.CursorFits, Broker.pullCursor, hcursors, ← Broker.pullCursor]
  by_cases hnone : b.pullCursor t n = 0
  · exact Or.inl hnone
  · rw [hends t n hexists hnone]
    exact h t n hexists

theorem Broker.CursorsFit.same (h : b.CursorsFit) (htopics : b'.topics = b.topics)
    (hcursors : b'.replicationOffsets = b.replicationOffsets) (hlogs : b'.storage = b.storage) :
    b'.CursorsFit := by
  refine h.kept (fun t => by rw [htopics]) hcursors fun t n _ _ => ?_
  rw [Broker.logEnd, hlogs, Broker.logEnd]

theorem handleProduce_cursorsFit (h : b.CursorsFit) (hb : b.Sound) {env : ServerEnv}
    {request : Request} (hcommand : request.command = .produce)
    (hspares : b.SparesCursors env request) :
    (b.handleProduce env.produce request true true).broker.CursorsFit := by
  rw [Broker.SparesCursors, hcommand] at hspares
  rcases handleProduce_frame b env.produce request true true with ⟨_, _, _, _, heq⟩
  refine h.kept (fun t => by rw [heq]) (by rw [heq]) ?_
  rintro t n ⟨count, hcount, _⟩ hcursor
  rcases handleProduce_ends b env.produce request true true (hb.topics t count hcount).1 with
    hsame | ⟨d, body, hadmitted, rfl, hreached⟩
  · exact hsame
  · rw [hspares d n body hadmitted hcursor] at hreached
    cases hreached

theorem handleProduceBatch_cursorsFit (h : b.CursorsFit) (hb : b.Sound) {env : ServerEnv}
    {request : Request} (hcommand : request.command = .produceBatch)
    (hspares : b.SparesCursors env request) :
    (b.handleProduceBatch env.batch request).broker.CursorsFit := by
  rw [Broker.SparesCursors, hcommand] at hspares
  rcases handleProduceBatch_frame b env.batch request with ⟨_, _, _, _, heq⟩
  refine h.kept (fun t => by rw [heq]) (by rw [heq]) ?_
  rintro t n ⟨count, hcount, _⟩ hcursor
  rcases handleProduceBatch_ends b env.batch request (hb.topics t count hcount).1 with
    hsame | ⟨d, entries, single, body, hadmitted, hmem, rfl, hroutes⟩
  · exact hsame
  · exact absurd (hspares d entries hadmitted single n body hmem hroutes) hcursor

/-- The loop of replica appends changes the logs, and no topic and no cursor. -/
theorem storeReplicas_spares (b : Broker) (env : ReplicaEnv) (request : Request)
    (number : UInt32) (messages : List Message) :
    (b.storeReplicas env request number messages).1.topics = b.topics ∧
      (b.storeReplicas env request number messages).1.replicationOffsets = b.replicationOffsets ∧
      (b.storeReplicas env request number messages).1.storage
        = (appendReplicas env.ios request.topic number messages 0 b.storage).1 := by
  unfold Broker.storeReplicas
  split <;> rename_i heq <;> rw [heq] <;> exact ⟨rfl, rfl, rfl⟩

theorem handleReplicaAppend_cursorsFit (h : b.CursorsFit) (hb : b.Sound) {env : ServerEnv}
    {request : Request} (hcommand : request.command = .replicaAppend)
    (hspares : b.SparesCursors env request) :
    (b.handleReplicaAppend env.replica request).1.CursorsFit := by
  rw [Broker.SparesCursors, hcommand] at hspares
  rw [handleReplicaAppend_eq]
  cases hread : (b.readReplicaAppend request).result with
  | error status => exact h
  | ok call =>
      rcases call with ⟨header, number, messages⟩
      rcases List.exists_cons_of_length_pos (readReplicaAppend_ok hread).2.1 with ⟨m, rest, rfl⟩
      by_cases hpass : b.PassesChecks env.replica request header number (m :: rest)
      · simp only [applyAppend_passed _ _ _ _ _ _ hpass]
        rcases storeReplicas_spares { b with
          coordinator := (b.observedBy env.replica request header number (m :: rest)).1 }
          env.replica request number (m :: rest) with ⟨htopics, hcursors, hstorage⟩
        refine h.kept (fun t => by rw [htopics]) hcursors ?_
        rintro t n ⟨count, hcount, _⟩ hcursor
        rw [Broker.logEnd, hstorage, Broker.logEnd]
        rcases appendReplicas_ends env.replica.ios m rest b.storage
          (hb.topics t count hcount).1 with hsame | ⟨hplace, hreached⟩
        · exact hsame
        · rcases Prod.mk.inj hplace with ⟨rfl, rfl⟩
          rw [hspares header n m rest hread (passesChecks_iff.mpr hpass) hcursor] at hreached
          cases hreached
      · simp only [(applyAppend_refused _ _ _ _ _ _ hpass).1]
        exact h

theorem handleCreateTopic_cursorsFit (h : b.CursorsFit) {env : ServerEnv} {request : Request}
    (hcommand : request.command = .createTopic) (hspares : b.SparesCursors env request)
    {saved : Bool} (hsaved : saved = true → env.topicsSaved = true) :
    (b.handleCreateTopic saved request).1.CursorsFit := by
  rw [Broker.SparesCursors, hcommand] at hspares
  rcases handleCreateTopic_cases b saved request with
    ⟨topics, heq, hsame⟩ | ⟨count, hread, hdone, _, hnew, heq⟩
  · rw [heq]
    exact h.kept hsame rfl fun t n _ _ => rfl
  · rw [heq]
    rintro t n ⟨found, hfound, hlt⟩
    simp only at hfound
    by_cases ht : t = request.topic
    · rw [ht, AList.lookup_insert] at hfound
      rw [ht]
      rw [← Option.some.inj hfound] at hlt
      exact hspares count hread hnew (hsaved hdone) n hlt
    · rw [AList.lookup_insert_ne ht] at hfound
      exact h t n ⟨found, hfound, hlt⟩

/-- A topic that is deleted takes no cursor with it, but it does not exist any
    more. When its directory is still there, its logs are what is left in it. -/
theorem handleDeleteTopic_cursorsFit {s : Server} (h : s.broker.CursorsFit)
    (hs : s.broker.Sound) {env : ServerEnv} {request : Request}
    (hcommand : request.command = .deleteTopic) (hspares : s.broker.SparesCursors env request) :
    (s.handleDeleteTopic env request).1.broker.CursorsFit := by
  rw [Broker.SparesCursors, hcommand] at hspares
  by_cases hdeletes : ∃ count, s.Deletes request count
  · rcases hdeletes with ⟨count, hdeletes⟩
    have hvalid := (hs.topics _ _ hdeletes.found).1
    cases hsaved : env.delete.saved with
    | false =>
        rw [handleDeleteTopic_unsaved hs hdeletes hsaved]
        exact h.kept (putBack_lookup hdeletes.found) rfl fun t n _ _ => rfl
    | true =>
        cases hremoved : env.delete.removed with
        | false =>
            rw [handleDeleteTopic_left hs hdeletes hsaved hremoved]
            refine h.kept (putBack_lookup hdeletes.found) rfl fun t n _ hcursor => ?_
            simp only [Broker.logEnd]
            rw [(deleteTopic_left s.broker.storage hvalid
              (by rw [hremoved]; exact Bool.false_ne_true)).2]
            split
            · rename_i ht
              rw [ht] at hcursor
              rw [StorageEngine.partition, ht]
              cases hlookup : s.broker.storage.partitions.lookup (request.topic, n) with
              | none => rfl
              | some p => exact hspares hsaved hremoved n p hlookup hcursor
            · rfl
        | true =>
            rw [handleDeleteTopic_deletes hs hdeletes hsaved hremoved]
            rintro t n ⟨found, hfound, hlt⟩
            simp only at hfound
            have ht : t ≠ request.topic := by
              rintro rfl
              rw [AList.lookup_erase] at hfound
              cases hfound
            rw [AList.lookup_erase_ne ht] at hfound
            rcases h t n ⟨found, hfound, hlt⟩ with hnone | hend
            · exact Or.inl hnone
            · refine Or.inr (hend.trans ?_)
              simp only [Broker.logEnd]
              rw [(deleteTopic_removed s.broker.storage hvalid hremoved).2, if_neg ht]
  · rw [(handleDeleteTopic_refuses (not_exists.mp hdeletes) env).1]
    exact h

/-- A handler keeps cursors and logs together. -/
theorem dispatch_cursorsFit {s : Server} (h : s.broker.CursorsFit) (hs : s.broker.Sound)
    {env : ServerEnv} {request : Request} (hspares : s.broker.SparesCursors env request) :
    (s.dispatch env request).1.broker.CursorsFit := by
  cases hkind : request.command with
  | createTopic =>
      simp only [Server.dispatch, hkind, Server.handleCreateTopic]
      split
      · exact h
      · exact handleCreateTopic_cursorsFit h hkind hspares fun hdone =>
          (Bool.and_eq_true_iff.mp hdone).1
  | deleteTopic =>
      simp only [Server.dispatch, hkind]
      exact handleDeleteTopic_cursorsFit h hs hkind hspares
  | produce =>
      simp only [Server.dispatch, hkind]
      exact handleProduce_cursorsFit h hs hkind hspares
  | produceBatch =>
      simp only [Server.dispatch, hkind]
      exact handleProduceBatch_cursorsFit h hs hkind hspares
  | replicaAppend =>
      simp only [Server.dispatch, hkind]
      exact handleReplicaAppend_cursorsFit h hs hkind hspares
  | heartbeat =>
      simp only [Server.dispatch, hkind, Server.handleHeartbeat]
      split
      · rcases handleReplicaHeartbeat_cases s.broker env.replica.now request with
          ⟨_, heq⟩ | ⟨_, _, heq⟩ <;> rw [heq] <;> exact h.same rfl rfl rfl
      · split
        · exact h
        · split <;> exact h
        · exact h
  | commitOffset =>
      simp only [Server.dispatch, hkind, Server.handleCommitOffset]
      split
      · exact h
      · split <;> exact h
  | replicaVote =>
      simp only [Server.dispatch, hkind, Server.handleReplicaVote]
      split
      · exact h
      · split
        · exact h
        · exact h.same rfl rfl rfl
  | listTopic | metrics | fetch | joinGroup | syncGroup | offsetFetch | replicaFetch =>
      simp only [Server.dispatch, hkind]
      exact h

end Requests

/-- A leader only writes what it remembers of its peers. -/
theorem heartbeatRound_pullCursor (b : Broker) (env : RoundEnv) {topic : Bytes}
    (hvalid : isValidTopicName topic = true) (n : UInt32) :
    (b.heartbeatRound env).pullCursor topic n = b.pullCursor topic n := by
  rcases heartbeatRound_frame b env with ⟨_, cursors, heq, hkept⟩
  rw [heq, Broker.pullCursor, Broker.pullCursor, hkept _ (pullKey_ne_progressKey hvalid n)]

/-- A pull that stores all it has got leaves the cursor at the end of the log,
    and any other leaves it where it was. -/
theorem applyFetched_cursors (b : Broker) (ios : Nat → StoreIo) (topic : Bytes) (n : UInt32)
    (messages : List Message) :
    (messages ≠ [] ∧ (appendReplicas ios topic n messages 0 b.storage).2 = none ∧
      (b.applyFetched ios topic n messages).1.replicationOffsets
        = b.replicationOffsets.insert (pullKey topic n)
            ((b.applyFetched ios topic n messages).1.logEnd topic n)) ∨
    (¬ (messages ≠ [] ∧ (appendReplicas ios topic n messages 0 b.storage).2 = none) ∧
      (b.applyFetched ios topic n messages).1.replicationOffsets = b.replicationOffsets) := by
  have hreported := @applyFetched_reported b ios topic n messages
  unfold Broker.applyFetched Broker.logEnd at *
  cases hloop : appendReplicas ios topic n messages 0 b.storage with
  | mk e outcome =>
      rw [hloop] at hreported
      cases outcome with
      | some err => exact Or.inr ⟨fun h => (nomatch h.2), rfl⟩
      | none =>
          cases hlast : messages.getLast? with
          | none =>
              exact Or.inr ⟨fun h => h.1 (List.getLast?_eq_none_iff.mp hlast), rfl⟩
          | some last =>
              have hne : messages ≠ [] := by
                rintro rfl
                cases hlast
              rw [hlast] at hreported
              -- The offset behind the last message is the end of the log.
              have hend : last.offset + 1 = (e.partition topic n).nextOffset := hreported rfl
              exact Or.inl ⟨hne, rfl, by simp only [hend]⟩

/-! ## Events -/

section Events

variable {s : Server}

/-- A pull asks for the end of its log when there is no cursor, or the cursor is
    at the end. -/
theorem pullsAtEnd_iff (hs : s.Sound) :
    s.PullsAtEnd ↔ s.broker.CursorsFit := by
  refine forall_congr' fun topic => forall_congr' fun n => imp_congr_right fun hexists => ?_
  rcases hexists with ⟨count, hcount, _⟩
  have hnext : s.broker.storage.nextOffset true topic n = some (s.broker.logEnd topic n) := by
    rw [StorageEngine.nextOffset, if_neg (by simp [(hs.broker.topics topic count hcount).1])]
    rfl
  rw [hnext]
  have hstart : s.broker.pullStart true topic n
      = if s.broker.pullCursor topic n = 0 then some (s.broker.logEnd topic n)
        else some (s.broker.pullCursor topic n) := by
    rw [← hnext]
    rfl
  rw [hstart]
  split
  · rename_i hzero
    exact iff_of_true rfl (Or.inl hzero)
  · rename_i hcursor
    exact ⟨fun heq => Or.inr (Option.some.inj heq),
      fun hor => congrArg some (hor.resolve_left hcursor)⟩

/-- Messages that are numbered from the end of the log, and that the storage takes,
    are all stored. -/
theorem appendReplicas_of_storesWhole {b : Broker} {ios : Nat → StoreIo} {topic : Bytes}
    {n : UInt32} {messages : List Message}
    (hnumbered : Numbered (b.logEnd topic n) messages)
    (h : b.storesWhole { ios } topic n messages = true) :
    (appendReplicas ios topic n messages 0 b.storage).2 = none := by
  unfold Broker.storesWhole at h
  split at h
  · cases h
  · rename_i size hsize
    rcases Bool.and_eq_true_iff.mp h with ⟨hvalid, hall⟩
    exact (appendReplicas_whole_iff ios topic n hvalid messages 0 size b.storage hsize
      hnumbered).mpr hall

/-- A pull that stores all or nothing, or has no cursor to mind. -/
theorem pull_cursorsFit (h : s.broker.CursorsFit) (hs : s.broker.Sound) {topic : Bytes}
    {n : UInt32} {payload : Bytes} {ios : Nat → StoreIo}
    (hspares : (ServerEvent.pull topic n payload ios).SparesCursors s) :
    (s.pull topic n payload ios).broker.CursorsFit := by
  unfold Server.pull
  split
  · rename_i count messages hcount hparsed
    split
    · rcases applyFetched_cases s.broker ios topic n messages with
        ⟨e, cursors, stored, heq, he, _, hext, _⟩
      rcases applyFetched_cursors s.broker ios topic n messages with
        ⟨hne, hstored, hcursors⟩ | ⟨hpartly, hcursors⟩
      · -- The cursor is at the end of the log, and the others are where they were.
        rintro t m ⟨found, hfound, hlt⟩
        rw [heq] at hfound
        by_cases hplace : (t, m) = (topic, n)
        · rcases Prod.mk.inj hplace with ⟨rfl, rfl⟩
          right
          rw [Broker.pullCursor, hcursors, AList.lookup_insert, Option.getD_some]
        · have hcursor : (s.broker.applyFetched ios topic n messages).1.pullCursor t m
              = s.broker.pullCursor t m := by
            rw [Broker.pullCursor, hcursors, AList.lookup_insert_ne, Broker.pullCursor]
            intro hkey
            rcases pullKey_injective hkey with ⟨rfl, rfl⟩
            exact hplace rfl
          have hend : (s.broker.applyFetched ios topic n messages).1.logEnd t m
              = s.broker.logEnd t m := by
            rw [heq]
            exact (hext.others t m hplace).2
          rw [Broker.CursorFits, hcursor, hend]
          exact h t m ⟨found, hfound, hlt⟩
      · refine h.kept (fun t => by rw [heq]) hcursors ?_
        rintro t m ⟨found, hfound, _⟩ hcursor
        rw [heq]
        simp only [Broker.logEnd, he]
        cases messages with
        | nil => rfl
        | cons first rest =>
            rcases appendReplicas_ends ios first rest s.broker.storage
              (hs.topics t found hfound).1 with hsame | ⟨hplace, hreached⟩
            · exact hsame
            · -- The first message is stored, so all are.
              rcases Prod.mk.inj hplace with ⟨rfl, rfl⟩
              rcases hspares first rest hparsed hcursor hreached with ⟨hordered, hwhole⟩
              have hnumbered := numbered_of_consecutive first rest hordered
              simp only [StorageEngine.appendReplicaReachesSync, Bool.and_eq_true,
                decide_eq_true_eq] at hreached
              rw [hreached.1.2] at hnumbered
              exact absurd ⟨List.cons_ne_nil first rest,
                appendReplicas_of_storesWhole hnumbered hwhole⟩ hpartly
    · exact h
  · exact h

/-- The cleaner moves the front of a log. -/
theorem cleanup_logEnd (e : StorageEngine) (now : Int64) (topic : Bytes) (n : UInt32) :
    ((e.cleanupExpiredSegments now).partition topic n).nextOffset
      = (e.partition topic n).nextOffset := by
  rw [StorageEngine.partition, StorageEngine.cleanupExpiredSegments, Table.lookup_mapValues,
    StorageEngine.partition]
  cases e.partitions.lookup (topic, n) with
  | none => rfl
  | some p =>
      rw [Option.map_some, Option.getD_some, Option.getD_some, Partition.cleanupExpiredSegments]

/-- Where a broker starts there are no cursors. -/
theorem start_cursorsFit (config : ServerConfig) (storage : StorageEngine)
    (topics : Table Bytes UInt32) (topicsFile : List (Bytes × UInt32))
    (offsetsFile : List ConsumerOffset) (stateFile : Option Bytes) :
    (Server.start config storage topics topicsFile offsetsFile stateFile).broker.CursorsFit := by
  intro topic n _
  left
  simp only [Server.start, Broker.pullCursor]
  split <;> rfl

/-- An event that spares the cursors keeps them together with the logs. -/
theorem exec_cursorsFit (hs : s.Sound) (h : s.broker.CursorsFit) (event : ServerEvent)
    (hspares : event.SparesCursors s) : (event.exec s).broker.CursorsFit := by
  cases event with
  | request env r =>
      rcases serve_cases s env r with ⟨_, hcounts, _⟩ | ⟨normalized, d, hhandles, hd, hcounts, _⟩
      · rw [ServerEvent.exec, hcounts.broker]
        exact h
      · have hrequest := hspares normalized hhandles
        rw [ServerEvent.exec, hcounts.broker]
        refine dispatch_cursorsFit ?_ ?_ ?_
        · rwa [hd.broker]
        · rw [hd.broker]
          exact hs.broker
        · rwa [hd.broker]
  | operate op => exact h.same rfl rfl rfl
  | heartbeatRound env =>
      rintro topic n hexists
      rcases heartbeatRound_frame s.broker env with ⟨_, _, heq, _⟩
      rcases hexists with ⟨count, hcount, hlt⟩
      have hvalid := ((hs.exec (.heartbeatRound env)).broker.topics topic count hcount).1
      simp only [ServerEvent.exec] at hcount ⊢
      rw [Broker.CursorFits, heartbeatRound_pullCursor s.broker env hvalid n]
      rw [heq] at hcount ⊢
      exact h topic n ⟨count, hcount, hlt⟩
  | pull topic n payload ios => exact pull_cursorsFit h hs.broker hspares
  | cleanup now =>
      exact h.kept (fun t => rfl) rfl fun t n _ _ => cleanup_logEnd s.broker.storage now t n
  | restart config kept =>
      simp only [ServerEvent.exec, Server.restart]
      split
      · exact h
      · split
        · exact h
        · exact start_cursorsFit _ _ _ _ _ _

end Events

/-- The configuration of a follower. -/
def pullFollower : ServerConfig where
  replication := some
    { nodeId := [70]
      peers := [⟨[76], true⟩]
      follower := true
      authToken := [116] }

/-- Message number `offset` of the leader. -/
def pulledMessage (offset : UInt64) : Message :=
  { offset := offset, timestampMs := 1, key := [], value := [109] }

/-- A broker with a topic becomes a follower, pulls the first message, and then two
    more. -/
def examplePulls (ios : Nat → StoreIo) : List ServerEvent :=
  [createExample true, .restart pullFollower fun _ _ => 0,
    .pull [116] 0 (fetchAnswer [pulledMessage 0]) fun _ => {},
    .pull [116] 0 (fetchAnswer [pulledMessage 1, pulledMessage 2]) ios]

end MqBroker
