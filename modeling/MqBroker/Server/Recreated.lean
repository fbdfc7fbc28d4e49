import MqBroker.Broker.Restart
import MqBroker.Server.Answers
import MqBroker.Server.Assignments
import MqBroker.Server.Offsets

/-!
# A Topic with the Name of a Deleted One

What a new topic finds that has the name of a topic that was deleted.

Seven places hold something under the name of a topic: the logs, the table of
topics, the record of the consumer groups, the committed offsets, the cache of
answers, the coordinator of the replication with the cursors next to it, and the
quota windows. Deleting a topic empties the logs, the offsets and the cache, and
creating one writes the table and the record of the groups. Nothing touches the
rest: a new topic starts with the log positions, the commit indexes, the replica
progress, the cursors and the quota window of the topic before it, although its
own log is empty.

## Main definitions

* `Server.Untracked`: The places that are not cleared hold nothing for a topic.
* `Server.NewTopic`: No place holds anything from an earlier topic.
* `Server.Recreates`: A topic is deleted and created again.

## Theorems

* `start_untracked`: A broker that was started knows nothing.
* `Server.Recreates.frame`: What deleting and creating leaves of a broker.
* `recreated_new_iff`: The new topic is a new topic when nothing was held for the
  old one in the places that are not cleared.
-/

namespace MqBroker

open Server ConsumerGroupCoordinator

/-! ## New topics -/

/-- Replication and quota know nothing of a topic: there is no log position and no
    commit index for its partitions, no progress of a replica, no cursor other
    than 0, neither of a pull nor of a push, and no quota window. -/
structure Server.Untracked (s : Server) (topic : Bytes) : Prop where
  states : ∀ n, s.broker.coordinator.partitionStates.lookup (partitionKey topic n) = none
  replicas : ∀ n node,
    (s.broker.coordinator.partitionReplicas.get (partitionKey topic n)).lookup node = none
  pulled : ∀ n, (s.broker.replicationOffsets.lookup (pullKey topic n)).getD 0 = 0
  pushed : ∀ n node,
    (s.broker.replicationOffsets.lookup (progressKey node (partitionKey topic n))).getD 0 = 0
  quota : s.broker.topicQuotaWindows.lookup topic = none

/-- Everything that is held for a topic is as if there had been no topic of its
    name before. -/
structure Server.NewTopic (s : Server) (topic : Bytes) : Prop where
  empty : ∀ n, (s.broker.storage.partition topic n).messages = []
  first : ∀ n, (s.broker.storage.partition topic n).nextOffset = 0
  offsets : ∀ group n, (s.committed group topic n).getD 0 = 0
  uncached : ∀ producerId sequence,
    s.broker.idempotencyCache.lookup (idempotencyKey topic producerId sequence) = none
  counted : s.groups.partitions.lookup topic = s.broker.topics.lookup topic
  untracked : s.Untracked topic

/-- A broker deletes a topic and creates one with its name, and answers `kOk` to
    both. -/
def Server.Recreates (s s' : Server) (topic : Bytes) : Prop :=
  ∃ env r env' r',
    Command.ofCode r.command = some .deleteTopic ∧ r.topic = topic ∧
    Command.ofCode r'.command = some .createTopic ∧ r'.topic = topic ∧
    (s.serve env r).2.status = Status.ok.code ∧
    ((s.serve env r).1.serve env' r').2.status = Status.ok.code ∧
    s' = ((s.serve env r).1.serve env' r').1

/-- What is not cleared is not kept on the disk either. -/
theorem start_untracked (config : ServerConfig) (storage : StorageEngine)
    (topics : Table Bytes UInt32) (topicsFile : List (Bytes × UInt32))
    (offsetsFile : List ConsumerOffset) (stateFile : Option Bytes) (topic : Bytes) :
    (Server.start config storage topics topicsFile offsetsFile stateFile).Untracked topic := by
  have hcoordinator : ∃ c,
      (Server.start config storage topics topicsFile offsetsFile stateFile).broker.coordinator = c ∧
        c.partitionStates = ∅ ∧ c.partitionReplicas = ∅ := by
    refine ⟨_, rfl, ?_⟩
    simp only [Server.start]
    split
    · exact ⟨rfl, rfl⟩
    · rename_i r _
      rcases configureReplication_coordinator
          { Broker.fresh config.storage with
            storage := storage
            topics := topics
            topicProduceQuota := config.topicProduceQuota }
          r.nodeId r.peers r.quorum r.follower r.authToken stateFile with ⟨replicas, heq⟩
      rw [heq]
      exact ⟨rfl, rfl⟩
  have hrest :
      (Server.start config storage topics topicsFile offsetsFile
        stateFile).broker.replicationOffsets = ∅ ∧
      (Server.start config storage topics topicsFile offsetsFile
        stateFile).broker.topicQuotaWindows = ∅ := by
    simp only [Server.start]
    split <;> exact ⟨rfl, rfl⟩
  rcases hcoordinator with ⟨_, rfl, hstates, hreplicas⟩
  refine ⟨fun n => ?_, fun n node => ?_, fun n => ?_, fun n node => ?_, ?_⟩
  · rw [hstates]
    rfl
  · rw [hreplicas]
    rfl
  · rw [hrest.1]
    rfl
  · rw [hrest.1]
    rfl
  · rw [hrest.2]
    rfl

section Recreating

variable {s s' : Server}

/-- A request that gets to the handler and finds its topic deletes it. -/
theorem serve_deletes (hs : s.broker.Sound) {env : ServerEnv} {r : RawRequest}
    {normalized : Request} {count : UInt32} (hhandles : s.Handles r normalized)
    (hcommand : normalized.command = .deleteTopic) (h : s.Deletes normalized count)
    (hsaved : env.delete.saved = true) (hremoved : env.delete.removed = true) :
    (s.serve env r).2.status = Status.ok.code ∧
      (s.handleDeleteTopic env normalized).1.Counts (s.serve env r).1 := by
  rcases serve_handles hhandles env with ⟨d, hd, hcounts, hanswer⟩
  have hsound : d.broker.Sound := by
    rw [hd.broker]
    exact hs
  simp only [Server.dispatch, hcommand] at hcounts hanswer
  rw [handleDeleteTopic_deletes hsound ((hd.handles count).2.mpr h) hsaved hremoved]
    at hcounts hanswer
  rw [hanswer, handleDeleteTopic_deletes hs h hsaved hremoved]
  refine ⟨rfl, Server.Counts.trans ?_ hcounts⟩
  rcases hd with ⟨_, _, _, _, rfl⟩
  exact ⟨_, _, _, _, rfl⟩

/-- A request that gets to the handler with a new name creates a topic. -/
theorem serve_creates (hs : s.broker.Sound) {env : ServerEnv} {r : RawRequest}
    {normalized : Request} {count : UInt32} (hhandles : s.Handles r normalized)
    (hcommand : normalized.command = .createTopic) (h : s.Creates normalized count)
    (hsaved : env.topicsSaved = true) (hroom : s.broker.topics.size < maxTopics) :
    (s.serve env r).2.status = Status.ok.code ∧
      (s.handleCreateTopic env normalized).1.Counts (s.serve env r).1 := by
  rcases serve_handles hhandles env with ⟨d, hd, hcounts, hanswer⟩
  have hsound : d.broker.Sound := by
    rw [hd.broker]
    exact hs
  have hroom' : d.broker.topics.size < maxTopics := by
    rw [hd.broker]
    exact hroom
  simp only [Server.dispatch, hcommand] at hcounts hanswer
  rw [handleCreateTopic_creates hsound ((hd.handles count).1.mpr h), if_pos ⟨hsaved, hroom'⟩]
    at hcounts hanswer
  rw [hanswer, handleCreateTopic_creates hs h, if_pos ⟨hsaved, hroom⟩]
  refine ⟨rfl, Server.Counts.trans ?_ hcounts⟩
  rcases hd with ⟨_, _, _, _, rfl⟩
  exact ⟨_, _, _, _, rfl⟩

/-- No other request to delete a topic is answered `kOk`. -/
theorem serve_deleted (hs : s.broker.Sound) {env : ServerEnv} {r : RawRequest}
    (hcommand : Command.ofCode r.command = some .deleteTopic)
    (hok : (s.serve env r).2.status = Status.ok.code) :
    ∃ normalized count, normalized.topic = r.topic ∧ s.Deletes normalized count ∧
      env.delete.saved = true ∧ env.delete.removed = true ∧
      (s.handleDeleteTopic env normalized).1.Counts (s.serve env r).1 := by
  rcases serve_ok hok with ⟨normalized, d, hhandles, hd, _, hstatus⟩
  have hdelete : normalized.command = .deleteTopic :=
    Option.some.inj (hhandles.command.symm.trans hcommand)
  have hsound : d.broker.Sound := by
    rw [hd.broker]
    exact hs
  simp only [Server.dispatch, hdelete] at hstatus
  rcases handleDeleteTopic_ok hsound hstatus with ⟨count, hdeletes, hsaved, hremoved⟩
  have hdeletes' := (hd.handles count).2.mp hdeletes
  exact ⟨normalized, count, hhandles.topic, hdeletes', hsaved, hremoved,
    (serve_deletes hs hhandles hdelete hdeletes' hsaved hremoved).2⟩

/-- No other request to create a topic is answered `kOk`. -/
theorem serve_created (hs : s.broker.Sound) {env : ServerEnv} {r : RawRequest}
    (hcommand : Command.ofCode r.command = some .createTopic)
    (hok : (s.serve env r).2.status = Status.ok.code) :
    ∃ normalized count, normalized.topic = r.topic ∧ s.Creates normalized count ∧
      env.topicsSaved = true ∧ s.broker.topics.size < maxTopics ∧
      (s.handleCreateTopic env normalized).1.Counts (s.serve env r).1 := by
  rcases serve_ok hok with ⟨normalized, d, hhandles, hd, _, hstatus⟩
  have hcreate : normalized.command = .createTopic :=
    Option.some.inj (hhandles.command.symm.trans hcommand)
  have hsound : d.broker.Sound := by
    rw [hd.broker]
    exact hs
  simp only [Server.dispatch, hcreate] at hstatus
  rcases handleCreateTopic_ok hsound hstatus with ⟨count, hcreates, hsaved, hroom⟩
  have hcreates' := (hd.handles count).1.mp hcreates
  rw [hd.broker] at hroom
  exact ⟨normalized, count, hhandles.topic, hcreates', hsaved, hroom,
    (serve_creates hs hhandles hcreate hcreates' hsaved hroom).2⟩

/-- What is left of a broker that deletes a topic and creates it again: its logs,
    answers and offsets are gone, the groups have the new partition count, and
    the rest is what it was. -/
theorem Server.Recreates.frame {topic : Bytes} (hs : s.Sound) (h : s.Recreates s' topic) :
    isValidTopicName topic = true ∧
    (∃ env topics, env.removed = true ∧ s'.broker =
      { s.broker with
        topics := topics
        storage := (s.broker.storage.deleteTopic env topic).1
        idempotencyCache := s.broker.idempotencyCache.filterKeys
          (fun key => ¬ (topic ++ [keySeparator]) <+: key) }) ∧
    s'.consumerOffsets = s.consumerOffsets.filter (fun item => item.topic ≠ topic) ∧
    s'.groups.partitions.lookup topic = s'.broker.topics.lookup topic := by
  rcases h with ⟨env, r, env', r', hdelete, rfl, hcreate, htopic, hdeleted, hcreated, rfl⟩
  have hsound : (s.serve env r).1.broker.Sound := (hs.exec (.request env r)).broker
  rcases serve_deleted hs.broker hdelete hdeleted with
    ⟨normalized, count, hname, hdeletes, hsaved, hremoved, hcounts⟩
  rcases serve_created hsound hcreate hcreated with
    ⟨normalized', count', hname', hcreates, hsaved', hroom, hcounts'⟩
  have hvalid := (hs.broker.topics _ _ hdeletes.found).1
  rw [handleCreateTopic_creates hsound hcreates, if_pos ⟨hsaved', hroom⟩] at hcounts'
  rw [handleDeleteTopic_deletes hs.broker hdeletes hsaved hremoved] at hcounts
  rw [hname] at hvalid hcounts
  rw [hname', htopic] at hcounts'
  rcases hcounts' with ⟨_, _, _, _, heq'⟩
  rcases hcounts with ⟨_, _, _, _, heq⟩
  rw [heq', heq]
  refine ⟨hvalid, ⟨env.delete, _, hremoved, rfl⟩, rfl, ?_⟩
  simp only [setPartitions_partitions, AList.lookup_insert]

/-- All of it is as if the topic were the first with its name, if the places that
    are not cleared held nothing. -/
theorem Server.Recreates.new_iff {topic : Bytes} (hs : s.Sound) (h : s.Recreates s' topic) :
    s'.NewTopic topic ↔ s.Untracked topic := by
  rcases h.frame hs with ⟨hvalid, ⟨env, topics, hremoved, hbroker⟩, hoffsets, hcounted⟩
  have huntracked : s'.Untracked topic ↔ s.Untracked topic := by
    constructor
    · rintro ⟨hstates, hreplicas, hpulled, hpushed, hquota⟩
      rw [hbroker] at hstates hreplicas hpulled hpushed hquota
      exact ⟨hstates, hreplicas, hpulled, hpushed, hquota⟩
    · rintro ⟨hstates, hreplicas, hpulled, hpushed, hquota⟩
      refine ⟨?_, ?_, ?_, ?_, ?_⟩ <;> rw [hbroker] <;> assumption
  refine ⟨fun hnew => huntracked.mp hnew.untracked, fun hold => ?_⟩
  have hfresh : ∀ n, s'.broker.storage.partition topic n
      = freshPartition s.broker.storage.config := by
    intro n
    rw [hbroker]
    exact ((deleteTopic_removed s.broker.storage hvalid hremoved).2 topic n).trans (if_pos rfl)
  refine ⟨fun n => ?_, fun n => ?_, fun group n => ?_, fun producerId sequence => ?_, hcounted,
    huntracked.mpr hold⟩
  · rw [hfresh, freshPartition_eq]
    rfl
  · rw [hfresh, freshPartition_eq]
  · rw [committed_eq, hoffsets, committedIn_filter, if_pos rfl, Option.getD_none]
  · have hkey : topic ++ [keySeparator] <+: idempotencyKey topic producerId sequence :=
      ⟨_, List.append_assoc topic [keySeparator] _⟩
    rw [hbroker, Table.lookup_filterKeys, if_neg]
    simp only [hkey, not_true_eq_false, decide_false, Bool.false_eq_true, not_false_eq_true]

end Recreating

/-- In whatever state a broker is: when it deletes a topic and creates one with
    the same name, the new one is a new topic exactly when replication and quota
    knew nothing of the old one. -/
theorem recreated_new_iff (config : ServerConfig) (events : List ServerEvent) {s' : Server}
    {topic : Bytes} (h : ((Server.fresh config).run events).Recreates s' topic) :
    s'.NewTopic topic ↔ ((Server.fresh config).run events).Untracked topic :=
  h.new_iff (run_sound config events)

/-! ## Examples -/

/-- A client deletes topic "t", which is the only one, and creates it again. -/
theorem recreates_example {s : Server} (hs : s.Sound) (hopened : s.opened = true)
    (htoken : s.clientAuthToken = []) (htopics : s.broker.topics = AList.singleton [116] 1) :
    s.Recreates
      ((s.serve {} { command := 0x02, topic := [116] }).1.serve {}
        { command := 0x01, topic := [116], payload := put32 1 }).1 [116] := by
  have hdeletes : s.Deletes { command := .deleteTopic, topic := [116] } 1 :=
    ⟨rfl, by rw [htopics]; rfl⟩
  have hhandles : s.Handles { command := 0x02, topic := [116] }
      { command := .deleteTopic, topic := [116] } :=
    ⟨.deleteTopic, rfl, admits_plain hopened htoken rfl (show Command.deleteTopic ∉ _ by decide)
      (show (0 : UInt16) ∈ clientFlags by decide)⟩
  rcases @serve_deletes s hs.broker {} _ _ _ hhandles rfl hdeletes rfl rfl with
    ⟨hdeleted, hcounts⟩
  have hsound : (s.serve {} { command := 0x02, topic := [116] }).1.broker.Sound :=
    (hs.exec (.request {} { command := 0x02, topic := [116] })).broker
  refine ⟨{}, { command := 0x02, topic := [116] }, {},
    { command := 0x01, topic := [116], payload := put32 1 }, rfl, rfl, rfl, rfl, hdeleted, ?_, rfl⟩
  rw [@handleDeleteTopic_deletes s _ hs.broker _ hdeletes {} rfl rfl] at hcounts
  generalize (s.serve {} { command := 0x02, topic := [116] }).1 = s1 at *
  rcases hcounts with ⟨_, _, _, _, heq⟩
  have herased : s1.broker.topics = (AList.singleton [116] 1 : Table Bytes UInt32).erase [116] := by
    rw [heq, htopics]
  have hnone : s1.broker.topics.lookup [116] = none := by
    rw [herased]
    exact AList.lookup_erase _ _
  have hroom : s1.broker.topics.size < maxTopics := by
    rw [herased]
    decide
  have hhandles' : s1.Handles { command := 0x01, topic := [116], payload := put32 1 }
      { command := .createTopic, topic := [116], payload := put32 1 } := by
    refine ⟨.createTopic, rfl, admits_plain ?_ ?_ rfl (show Command.createTopic ∉ _ by decide)
      (show (0 : UInt16) ∈ clientFlags by decide)⟩
    · rw [heq]
      exact hopened
    · rw [heq]
      exact htoken
  have hcreates : s1.Creates { command := .createTopic, topic := [116], payload := put32 1 } 1 :=
    ⟨by decide, ⟨by decide, by decide, by decide⟩, hnone⟩
  exact (@serve_creates s1 hsound {} _ _ _ hhandles' rfl hcreates rfl hroom).1

/-- A topic nothing was written to is replaced by a new one. -/
theorem recreated_unused :
    (((((Server.fresh {}).run [createExample true]).serve {}
      { command := 0x02, topic := [116] }).1.serve {}
        { command := 0x01, topic := [116], payload := put32 1 }).1).NewTopic [116] := by
  have hexec : (Server.fresh {}).run [createExample true] = _ := createExample_exec
  have htopics : ((Server.fresh {}).run [createExample true]).broker.topics
      = AList.singleton [116] 1 := by
    rw [hexec]
    rfl
  refine (recreated_new_iff {} [createExample true] (recreates_example
    (run_sound {} [createExample true]) ?_ ?_ htopics)).mpr ?_
  · rw [hexec]
    rfl
  · rw [hexec]
    rfl
  · rw [hexec]
    exact ⟨fun _ => rfl, fun _ _ => rfl, fun _ => rfl, fun _ _ => rfl, rfl⟩

/-- A client writes the message "m" to topic "t". -/
def produceExample : ServerEvent :=
  .request {}
    { command := 0x10
      topic := [116]
      payload := put32 0 ++ (put16 0 ++ (put32 1 ++ [109])) }

/-- The topic is deleted and created again, and its partition has the log position
    of the message that is gone. -/
theorem recreated_keeps_position :
    ¬ ∀ (config : ServerConfig) (events : List ServerEvent) (s' : Server) (topic : Bytes),
      ((Server.fresh config).run events).Recreates s' topic → s'.NewTopic topic := by
  intro h
  have hrun : (Server.fresh {}).run [createExample true, produceExample]
      = produceExample.exec ((createExample true).exec (Server.fresh {})) := rfl
  have hsound := run_sound {} [createExample true, produceExample]
  have hrecreates := recreates_example hsound
    (by rw [hrun, createExample_exec]; decide +kernel)
    (by rw [hrun, createExample_exec]; decide +kernel)
    (AList.ext (by rw [hrun, createExample_exec]; decide +kernel))
  have hstates := ((hrecreates.new_iff hsound).mp (h {} _ _ [116] hrecreates)).states 0
  rw [hrun, createExample_exec] at hstates
  exact absurd hstates (by decide +kernel)

end MqBroker
