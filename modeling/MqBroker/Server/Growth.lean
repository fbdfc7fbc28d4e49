import MqBroker.Server.Metadata

/-!
# Logs That Lose Nothing

What becomes of a log when nothing cleans it.

Producing only adds to logs, whatever comes of it: an append that fails has
either stored its message or changed nothing that can be read. And of all that
can happen to a broker, only the cleaner takes messages from the front of a log.
A restart or a failed deletion can take some from the end, and a deletion all of
them, but then the offsets that are gone are used again. So a log that was never
cleaned is numbered from 0.

## Main definitions

* `StorageEngine.Grows`: What an append leaves of all logs.
* `Server.Grows`: What producing leaves of a broker.

## Theorems

* `handle_produce_grows`: Producing only adds to logs.
* `run_counted`: A log that was never cleaned is numbered from 0.
-/

namespace MqBroker

open Traced

/-! ## Producing -/

/-- No log loses or changes a message, and a log without gaps keeps none. -/
def StorageEngine.Grows (e e' : StorageEngine) : Prop :=
  ∀ t n, (e.partition t n).messages <+: (e'.partition t n).messages ∧
    ((e.partition t n).Counted → (e'.partition t n).Counted)

namespace StorageEngine.Grows

variable {e e' e'' : StorageEngine}

theorem refl (e : StorageEngine) : e.Grows e := fun _ _ => ⟨List.prefix_rfl, id⟩

theorem trans (h : e.Grows e') (h' : e'.Grows e'') : e.Grows e'' := fun t n =>
  ⟨(h t n).1.trans (h' t n).1, fun hcounted => (h' t n).2 ((h t n).2 hcounted)⟩

end StorageEngine.Grows

theorem append_grows (e : StorageEngine) (io : StoreIo) (now : Int64) (topic : Bytes)
    (number : UInt32) (key value : Bytes) :
    e.Grows (e.append io now topic number key value).1 := by
  rcases store_append_cases e io now topic number key value with ⟨hstored, _⟩ | ⟨hsame, _⟩
  · intro t n
    by_cases hplace : (t, n) = (topic, number)
    · rcases Prod.mk.inj hplace with ⟨rfl, rfl⟩
      refine ⟨⟨_, hstored.messages.symm⟩, fun hcounted => ⟨?_, ?_, hstored.opened hcounted.opened⟩⟩
      · rw [hstored.messages, numbered_append, UInt64.zero_add, ← hcounted.next]
        exact ⟨hcounted.numbered, rfl, trivial⟩
      · rw [hstored.nextOffset, hstored.messages, hcounted.next, List.length_append,
          UInt64.ofNat_add]
        rfl
    · rw [hstored.others t n hplace]
      exact ⟨List.prefix_rfl, id⟩
  · intro t n
    rcases hsame t n with ⟨hmessages, hnext, hopened⟩
    refine ⟨by rw [hmessages], fun hcounted => ⟨?_, ?_, hopened hcounted.opened⟩⟩
    · rw [hmessages]
      exact hcounted.numbered
    · rw [hnext, hmessages]
      exact hcounted.next

theorem handleProduce_grows (b : Broker) (env : ProduceEnv) (request : Request)
    (rate quota : Bool) :
    b.storage.Grows (b.handleProduce env request rate quota).broker.storage := by
  rcases admitProduce_frame b env request rate quota with ⟨cache, windows, hverdict⟩
  unfold Broker.handleProduce
  split
  · rename_i d response hadmitted
    rw [hadmitted] at hverdict
    rw [show d = _ from hverdict]
    exact .refl _
  · rename_i d partition body hadmitted
    rw [hadmitted] at hverdict
    rw [(settleProduce_storage d env request partition body).1, show d = _ from hverdict]
    exact append_grows _ _ _ _ _ _ _

theorem produceEntries_grows (request : Request) (calls : Nat → ProduceEnv)
    (entries : List BatchEntry) (index : Nat) (b : Broker) (payload : Bytes)
    (stored : List (Request × UInt32 × Message)) :
    b.storage.Grows
      (Broker.produceEntries request calls entries index b payload stored).broker.storage := by
  induction entries generalizing index b payload stored with
  | nil => exact .refl _
  | cons entry rest ih =>
      cases entry with
      | cached response => exact ih (index + 1) b _ stored
      | pending single =>
          have hfirst := handleProduce_grows b (calls index) single false false
          simp only [Broker.produceEntries]
          split
          · exact hfirst
          · exact hfirst.trans (ih _ _ _ _)

theorem handleProduceBatch_grows (b : Broker) (env : BatchEnv) (request : Request) :
    b.storage.Grows (b.handleProduceBatch env request).broker.storage := by
  have hadmit : (b.admitBatch env request).1.storage = b.storage := by
    rcases admitBatch_frame b env request with ⟨_, _, hframe⟩
    rw [hframe]
  unfold Broker.handleProduceBatch
  split
  · rename_i d status hadmitted
    rw [hadmitted] at hadmit
    rw [show d.storage = _ from hadmit]
    exact .refl _
  · rename_i d entries hadmitted
    rw [hadmitted] at hadmit
    rw [← show d.storage = _ from hadmit]
    exact produceEntries_grows _ _ _ _ _ _ _

/-- Logs have grown, and topics and committed offsets are the same. -/
structure Server.Grows (s s' : Server) : Prop where
  topics : s'.broker.topics = s.broker.topics
  offsets : s'.consumerOffsets = s.consumerOffsets
  logs : s.broker.storage.Grows s'.broker.storage

theorem Server.Counts.grows {s s' : Server} (h : s.Counts s') : s.Grows s' := by
  rcases h with ⟨_, _, _, _, rfl⟩
  exact ⟨rfl, rfl, .refl _⟩

theorem Server.Grows.trans {s s' s'' : Server} (h : s.Grows s') (h' : s'.Grows s'') :
    s.Grows s'' :=
  ⟨h'.topics.trans h.topics, h'.offsets.trans h.offsets, h.logs.trans h'.logs⟩

/-- One turn of a batch of somebody else. -/
theorem handleProduce_server_grows (s : Server) (env : ProduceEnv) (request : Request)
    (rate quota : Bool) :
    s.Grows { s with broker := (s.broker.handleProduce env request rate quota).broker } := by
  refine ⟨?_, rfl, handleProduce_grows s.broker env request rate quota⟩
  rcases handleProduce_frame s.broker env request rate quota with ⟨_, _, _, _, heq⟩
  rw [heq]

/-- Whatever is produced, and whatever comes of it, logs only grow. -/
theorem handle_produce_grows (s : Server) (env : ServerEnv) {request : Request}
    (hcommand : request.command ∈ [.produce, .produceBatch]) :
    s.Grows (s.handle env request).1 := by
  by_cases hadmitted : ∃ normalized, s.Admits request normalized
  · rcases hadmitted with ⟨normalized, hadmits⟩
    have hkind := acceptRequest_command hadmits.accepted
    rw [hadmits.handle_eq]
    refine (counted_counts s request.command).grows.trans (.trans ?_ (countError_counts _ _).grows)
    generalize s.counted request.command = d
    simp only [List.mem_cons, List.not_mem_nil, or_false] at hcommand
    have hsame := dispatch_sameMetadata d env normalized (by
      rw [hkind]
      rcases hcommand with hcommand | hcommand <;> rw [hcommand] <;> decide)
    refine ⟨hsame.topics, hsame.consumerOffsets, ?_⟩
    rcases hcommand with hcommand | hcommand
    · simp only [Server.dispatch, hkind, hcommand]
      exact handleProduce_grows d.broker env.produce normalized true true
    · simp only [Server.dispatch, hkind, hcommand]
      exact handleProduceBatch_grows d.broker env.batch normalized
  · exact (handle_refused (not_exists.mp hadmitted) env).1.grows

/-! ## Runs without a cleaner -/

namespace StorageEngine.Counted

variable {e : StorageEngine}

theorem grows {e' : StorageEngine} (h : e.Counted) (hgrows : e.Grows e') : e'.Counted :=
  fun t n => (hgrows t n).2 (h t n)

theorem lookup (h : e.Counted) {t : Bytes} {n : UInt32} {p : Partition}
    (hp : e.partitions.lookup (t, n) = some p) : p.Counted := by
  have hpartition := h t n
  rw [StorageEngine.partition, hp] at hpartition
  exact hpartition

theorem of_lookup (h : ∀ t n p, e.partitions.lookup (t, n) = some p → p.Counted) : e.Counted := by
  intro t n
  rw [StorageEngine.partition]
  cases hp : e.partitions.lookup (t, n) with
  | none => exact counted_fresh e.config
  | some p => exact h t n p hp

theorem reopened (h : e.Counted) (config : StorageConfig) (kept : Bytes → UInt32 → Nat) :
    (e.reopened config kept).Counted := by
  refine of_lookup fun t n p hp => ?_
  rw [StorageEngine.reopened, Table.lookup_mapEntries, Option.map_eq_some_iff] at hp
  rcases hp with ⟨q, hq, rfl⟩
  refine counted_recover _ _ (cutLast_ne _ _ fun hfiles => ?_)
  exact (h.lookup hq).opened (List.map_eq_nil_iff.mp hfiles)

theorem deleteTopic (h : e.Counted) (env : DeleteEnv) (topic : Bytes) :
    (e.deleteTopic env topic).1.Counted := by
  unfold StorageEngine.deleteTopic
  split
  · exact h
  · split
    · refine of_lookup fun t n p hp => ?_
      rw [Table.lookup_filterKeys] at hp
      split at hp
      · exact h.lookup hp
      · cases hp
    · refine of_lookup fun t n p hp => ?_
      rw [Table.lookup_mapEntries, Option.map_eq_some_iff] at hp
      rcases hp with ⟨q, hq, rfl⟩
      split
      · exact reopen_counted e.config _ q
      · exact h.lookup hq

end StorageEngine.Counted

theorem handleDeleteTopic_counted {b : Broker} (h : b.storage.Counted)
    (htopics : ∀ t count, b.topics.lookup t = some count → ValidTopic t count) (env : DeleteEnv)
    (request : Request) : (b.handleDeleteTopic env request).1.storage.Counted := by
  rcases handleDeleteTopic_cases b htopics env request with
    ⟨_, _, hstorage | ⟨_, _, hstorage⟩⟩ | ⟨_, _, _, _, hstorage⟩
  · rw [hstorage]
    exact h
  · rw [hstorage]
    exact h.deleteTopic env request.topic
  · rw [hstorage]
    exact h.deleteTopic env request.topic

theorem handleReplicaAppend_counted {b : Broker} (h : b.storage.Counted) (env : ReplicaEnv)
    (request : Request) (hterm : request.hasFlag flagReplicationTerm = true) :
    (b.handleReplicaAppend env request).1.storage.Counted := by
  rcases handleReplicaAppend_cases b env request hterm with
    ⟨hsame, _⟩ | ⟨header, partition, messages, _, _, heq⟩
  · rw [hsame]
    exact h
  · rw [heq]
    rcases applyAppend_cases b env request header partition messages with ⟨hsame, _⟩ |
      ⟨_, stored, e, _, hext, hnumbered, _, ⟨heq, _⟩ | ⟨heq, _⟩⟩
    · rw [hsame]
      exact h
    · rw [heq]
      exact hext.counted h hnumbered
    · rw [heq]
      exact hext.counted h hnumbered

theorem heartbeatRound_storage (b : Broker) (env : RoundEnv) :
    (b.heartbeatRound env).storage = b.storage := by
  rcases heartbeatRound_frame b env with ⟨_, _, heq, _⟩
  rw [heq]

/-- No handler takes anything from the front of a log. -/
theorem Broker.Dispatched.counted {b b' : Broker} (hb : b.Sound) (h : b.storage.Counted)
    {request : Request} (hdispatched : b.Dispatched request b') : b'.storage.Counted := by
  cases hdispatched with
  | same => exact h
  | createTopic saved hsaved =>
      rcases handleCreateTopic_cases b saved request with
        ⟨_, heq, _⟩ | ⟨_, _, _, _, _, heq⟩ <;> rw [heq] <;> exact h
  | deleteTopic env => exact handleDeleteTopic_counted h hb.topics env request
  | produce env => exact h.grows (handleProduce_grows b env request true true)
  | produceBatch env => exact h.grows (handleProduceBatch_grows b env request)
  | heartbeat now =>
      rcases handleReplicaHeartbeat_cases b now request with
        ⟨_, heq⟩ | ⟨_, _, heq⟩ <;> rw [heq] <;> exact h
  | replicaAppend env hterm => exact handleReplicaAppend_counted h env request hterm
  | replicaVote c => exact h

/-- Only the cleaner takes something from the front of a log. -/
theorem exec_counted {s : Server} (hs : s.Sound) (h : s.broker.storage.Counted)
    {event : ServerEvent} (hkeeps : ∀ now, event ≠ .cleanup now) :
    (event.exec s).broker.storage.Counted := by
  cases event with
  | request env r =>
      rcases serve_dispatched s env r with ⟨request, hdispatched⟩
      exact hdispatched.counted hs.broker h
  | operate op => exact h
  | heartbeatRound env =>
      rw [ServerEvent.exec, heartbeatRound_storage]
      exact h
  | pull topic partition payload ios =>
      simp only [ServerEvent.exec, Server.pull]
      split
      · split
        · rename_i messages _ _ _
          rcases applyFetched_cases s.broker ios topic partition messages with
            ⟨e, cursors, stored, heq, _, _, hext, hnumbered, _, _⟩
          rw [heq]
          exact hext.counted h hnumbered
        · exact h
      · exact h
  | cleanup now => exact absurd rfl (hkeeps now)
  | restart config kept =>
      simp only [ServerEvent.exec, Server.restart]
      split
      · exact h
      · split
        · exact h
        · simp only [Server.start]
          split <;> exact h.reopened config.storage kept

/-- A log that was never cleaned is numbered from 0. -/
theorem run_counted (config : ServerConfig) {events : List ServerEvent}
    (hkeeps : ∀ now, .cleanup now ∉ events) :
    ((Server.fresh config).run events).broker.storage.Counted := by
  have hboth : ((Server.fresh config).run events).Sound ∧
      ((Server.fresh config).run events).broker.storage.Counted := by
    refine List.foldlRecOn (motive := fun s : Server => s.Sound ∧ s.broker.storage.Counted) _ _
      ⟨Server.Sound.fresh config, ?_⟩ ?_
    · simp only [Server.fresh, Server.start]
      split <;> exact StorageEngine.Counted.of_lookup (by rintro _ _ _ ⟨⟩)
    · intro s hs event hmem
      refine ⟨hs.1.exec event, exec_counted hs.1 hs.2 fun now heq => hkeeps now ?_⟩
      rw [← heq]
      exact hmem
  exact hboth.2

end MqBroker
