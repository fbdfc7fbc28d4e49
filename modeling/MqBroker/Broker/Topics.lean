import MqBroker.Broker.Parsers

/-!
# Creating and Deleting Topics

`HandleCreateTopic` and `HandleDeleteTopic`, with `DeleteTopic` of the storage
engine behind the latter.

A topic lives in the topic table, in the file that lists the topics, and in a
directory of log files. When one of the three cannot be changed, the handlers
put back what they have changed before. The log files are the exception: once
their removal has begun, what is gone is gone, and the partitions are opened
again on what is left. Neither handler tells the coordinator.

## Main definitions

* `DeleteEnv`: How the file system answers the deletion of a topic.
* `StorageEngine.deleteTopic`: The deletion of the log files.
* `Broker.handleCreateTopic`, `Broker.handleDeleteTopic`: The handlers.

## Theorems

* `createTopic_outcome`: A topic is created or nothing happens.
* `handleCreateTopic_cases`, `handleDeleteTopic_cases`: What the handlers can
  do.
-/

namespace MqBroker

open Traced

/-- How the file system answers the deletion of a topic. -/
structure DeleteEnv where
  /-- The list of topics is saved. -/
  saved : Bool := true
  /-- The directory of the topic is removed. -/
  removed : Bool := true
  /-- The segments that are left in a partition when it is not. -/
  left : UInt32 → Nat → Bool := fun _ _ => true

/-- A partition that is opened again on some of its log files. -/
def Partition.reopen (config : StorageConfig) (keep : Nat → Bool) (p : Partition) : Partition :=
  match p.files.filter (fun file => keep file.number) with
  | [] => freshPartition config
  | file :: files => recover config (file :: files)

/-- `DeleteTopic` of the storage engine. The partitions in memory are dropped
    in any case, and opened again when they are next asked for. -/
def StorageEngine.deleteTopic (e : StorageEngine) (env : DeleteEnv) (topic : Bytes) :
    StorageEngine × Bool :=
  if ¬ isValidTopicName topic then (e, false)
  else if env.removed then
    ({ e with partitions := e.partitions.filterKeys (fun place => place.1 ≠ topic) }, true)
  else
    ({ e with
      partitions := e.partitions.mapEntries (fun place p =>
        if place.1 = topic then p.reopen e.config (env.left place.2) else p) }, false)

/-- `HandleCreateTopic`. -/
def Broker.handleCreateTopic (b : Broker) (saved : Bool) (request : Request) : Broker × Response :=
  match (readCreateTopic request.payload).result with
  | .error status => (b, makeResponse request status)
  | .ok count =>
      let created := b.createTopic request.topic count
      if created.2 then
        if saved then (created.1, makeResponse request .ok)
        else
          ({ created.1 with topics := created.1.topics.erase request.topic },
            makeResponse request .storageError)
      else
        (b, makeResponse request
          (if ¬ isValidTopicName request.topic ∨ count = 0 ∨ count > maxPartitions then .badRequest
            else .topicExists))

/-- `HandleDeleteTopic`. -/
def Broker.handleDeleteTopic (b : Broker) (env : DeleteEnv) (request : Request) :
    Broker × Response :=
  if request.payload ≠ [] then (b, makeResponse request .badRequest)
  else
    match b.topics.lookup request.topic with
    | none => (b, makeResponse request .unknownTopic)
    | some count =>
        let dropped := { b with topics := b.topics.erase request.topic }
        if ¬ env.saved then
          ((dropped.createTopic request.topic count).1, makeResponse request .storageError)
        else
          let deleted := b.storage.deleteTopic env request.topic
          let dropped := { dropped with storage := deleted.1 }
          if ¬ deleted.2 then
            ((dropped.createTopic request.topic count).1, makeResponse request .storageError)
          else
            ({ dropped with
              idempotencyCache := b.idempotencyCache.filterKeys
                (fun key => ¬ (request.topic ++ [keySeparator]) <+: key) },
              makeResponse request .ok)

/-- A topic as it can be created: a valid name, and a number of partitions in
    the range. -/
def ValidTopic (name : Bytes) (count : UInt32) : Prop :=
  isValidTopicName name = true ∧ count ≠ 0 ∧ count ≤ maxPartitions

theorem reopen_counted (config : StorageConfig) (keep : Nat → Bool) (p : Partition) :
    (p.reopen config keep).Counted := by
  unfold Partition.reopen
  split
  · exact counted_fresh config
  · exact counted_recover config _ (List.cons_ne_nil _ _)

section Topics

variable (b : Broker)

/-- A topic that is valid and new is created, any other is not. -/
theorem createTopic_outcome (name : Bytes) (count : UInt32) :
    (ValidTopic name count ∧ b.topics.lookup name = none ∧
      b.createTopic name count = ({ b with topics := b.topics.insert name count }, true)) ∨
    b.createTopic name count = (b, false) := by
  unfold Broker.createTopic
  split
  · exact Or.inr rfl
  · rename_i hvalid
    split
    · exact Or.inr rfl
    · rename_i hnew
      rw [not_or, not_or, not_not] at hvalid
      rw [Option.not_isSome_iff_eq_none] at hnew
      exact Or.inl ⟨⟨hvalid.1, hvalid.2.1, UInt32.not_lt.mp hvalid.2.2⟩, hnew, rfl⟩

theorem createTopic_valid {name : Bytes} {count : UInt32} (h : ValidTopic name count)
    (hnew : b.topics.lookup name = none) :
    b.createTopic name count = ({ b with topics := b.topics.insert name count }, true) := by
  unfold Broker.createTopic
  rw [if_neg, if_neg]
  · rw [hnew]
    exact Bool.false_ne_true
  · rintro (hname | hzero | hlarge)
    · exact hname h.1
    · exact h.2.1 hzero
    · exact absurd h.2.2 (UInt32.not_le.mpr hlarge)

/-- The handler creates a topic, or leaves everything as it was. -/
theorem handleCreateTopic_cases (saved : Bool) (request : Request) :
    (∃ topics, (b.handleCreateTopic saved request).1 = { b with topics := topics } ∧
      ∀ t, topics.lookup t = b.topics.lookup t) ∨
    ∃ count, (readCreateTopic request.payload).result = .ok count ∧ saved = true ∧
      ValidTopic request.topic count ∧ b.topics.lookup request.topic = none ∧
      (b.handleCreateTopic saved request).1
        = { b with topics := b.topics.insert request.topic count } := by
  unfold Broker.handleCreateTopic
  cases (readCreateTopic request.payload).result with
  | error status => exact Or.inl ⟨b.topics, rfl, fun t => rfl⟩
  | ok count =>
      rcases createTopic_outcome b request.topic count with ⟨hvalid, hnew, hcreate⟩ | hcreate
      · simp only [hcreate, if_true]
        cases saved with
        | true => exact Or.inr ⟨count, rfl, rfl, hvalid, hnew, rfl⟩
        | false =>
            -- The topic that cannot be saved is taken out again.
            refine Or.inl ⟨_, rfl, fun t => ?_⟩
            by_cases ht : t = request.topic
            · rw [ht, AList.lookup_erase, hnew]
            · rw [AList.lookup_erase_ne ht, AList.lookup_insert_ne ht]
      · simp only [hcreate, Bool.false_eq_true, if_false]
        exact Or.inl ⟨b.topics, rfl, fun t => rfl⟩

/-- When the directory is removed, the partitions of the topic are fresh. -/
theorem deleteTopic_removed (e : StorageEngine) {env : DeleteEnv} {topic : Bytes}
    (hvalid : isValidTopicName topic = true) (hremoved : env.removed = true) :
    (e.deleteTopic env topic).2 = true ∧
      ∀ t n, (e.deleteTopic env topic).1.partition t n
        = if t = topic then freshPartition e.config else e.partition t n := by
  rw [StorageEngine.deleteTopic, if_neg (not_not.mpr hvalid), if_pos hremoved]
  refine ⟨rfl, fun t n => ?_⟩
  simp only [StorageEngine.partition, Table.lookup_filterKeys, decide_not, Bool.not_eq_true',
    decide_eq_false_iff_not]
  by_cases ht : t = topic
  · rw [if_neg (not_not.mpr ht), if_pos ht, Option.getD_none]
  · rw [if_pos ht, if_neg ht]

/-- When it is not, they are opened again on the files that are left. -/
theorem deleteTopic_left (e : StorageEngine) {env : DeleteEnv} {topic : Bytes}
    (hvalid : isValidTopicName topic = true) (hremoved : ¬ env.removed = true) :
    (e.deleteTopic env topic).2 = false ∧
      ∀ t n, (e.deleteTopic env topic).1.partition t n
        = if t = topic then
            ((e.partitions.lookup (t, n)).map (Partition.reopen e.config (env.left n))).getD
              (freshPartition e.config)
          else e.partition t n := by
  rw [StorageEngine.deleteTopic, if_neg (not_not.mpr hvalid), if_neg hremoved]
  refine ⟨rfl, fun t n => ?_⟩
  simp only [StorageEngine.partition, Table.lookup_mapEntries]
  by_cases ht : t = topic
  · simp only [if_pos ht]
  · simp only [if_neg ht, Option.map_id']

/-- The handler deletes a topic with its logs, or leaves the table of topics as
    it was; if it got as far as the log files, they are what is left. -/
theorem handleDeleteTopic_cases
    (hvalid : ∀ t count, b.topics.lookup t = some count → ValidTopic t count) (env : DeleteEnv)
    (request : Request) :
    ((b.handleDeleteTopic env request).1.coordinator = b.coordinator ∧
      (∀ t, (b.handleDeleteTopic env request).1.topics.lookup t = b.topics.lookup t) ∧
      ((b.handleDeleteTopic env request).1.storage = b.storage ∨
        (env.removed = false ∧ (b.topics.lookup request.topic).isSome ∧
          (b.handleDeleteTopic env request).1.storage
            = (b.storage.deleteTopic env request.topic).1))) ∨
    (env.removed = true ∧ (b.topics.lookup request.topic).isSome ∧
      (b.handleDeleteTopic env request).1.coordinator = b.coordinator ∧
      (∀ t, (b.handleDeleteTopic env request).1.topics.lookup t
        = if t = request.topic then none else b.topics.lookup t) ∧
      (b.handleDeleteTopic env request).1.storage
        = (b.storage.deleteTopic env request.topic).1) := by
  -- A topic that is put back is the one that was there before.
  have hback : ∀ (d : Broker) (count : UInt32), d.topics = b.topics.erase request.topic →
      b.topics.lookup request.topic = some count →
      (d.createTopic request.topic count).1.coordinator = d.coordinator ∧
        (∀ t, (d.createTopic request.topic count).1.topics.lookup t = b.topics.lookup t) ∧
        (d.createTopic request.topic count).1.storage = d.storage := by
    intro d count hd hcount
    have hnew : d.topics.lookup request.topic = none := by rw [hd, AList.lookup_erase]
    rw [createTopic_valid d (hvalid _ _ hcount) hnew]
    refine ⟨rfl, fun t => ?_, rfl⟩
    by_cases ht : t = request.topic
    · rw [ht, AList.lookup_insert, hcount]
    · rw [AList.lookup_insert_ne ht, hd, AList.lookup_erase_ne ht]
  simp only [Broker.handleDeleteTopic]
  split
  · exact Or.inl ⟨rfl, fun t => rfl, Or.inl rfl⟩
  · split
    · exact Or.inl ⟨rfl, fun t => rfl, Or.inl rfl⟩
    · rename_i count hcount
      have hname := (hvalid _ _ hcount).1
      split
      · rcases hback { b with topics := b.topics.erase request.topic } count rfl hcount with
          ⟨hcoordinator, htopics, hstorage⟩
        exact Or.inl ⟨hcoordinator, htopics, Or.inl hstorage⟩
      · by_cases hremoved : env.removed = true
        · have hdeleted := (deleteTopic_removed b.storage hname hremoved).1
          rw [if_neg (not_not.mpr hdeleted)]
          refine Or.inr ⟨hremoved, by rw [hcount]; rfl, rfl, fun t => ?_, rfl⟩
          by_cases ht : t = request.topic
          · rw [if_pos ht, ht, AList.lookup_erase]
          · rw [if_neg ht, AList.lookup_erase_ne ht]
        · have hdeleted := (deleteTopic_left b.storage hname hremoved).1
          rw [if_pos (by rw [hdeleted]; exact Bool.false_ne_true)]
          rcases hback { b with
            topics := b.topics.erase request.topic
            storage := (b.storage.deleteTopic env request.topic).1 } count rfl hcount with
            ⟨hcoordinator, htopics, hstorage⟩
          refine Or.inl ⟨hcoordinator, htopics, Or.inr ⟨?_, by rw [hcount]; rfl, hstorage⟩⟩
          exact Bool.eq_false_iff.mpr hremoved

end Topics

end MqBroker
