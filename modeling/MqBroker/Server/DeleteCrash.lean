import MqBroker.Server.Offsets

/-!
# Stopping in the Middle of a Deletion

What a broker finds that was stopped while it deleted a topic.

Deleting a topic changes three things on the disk, one after the other: the list
of topics is published without the topic, the directory with its log files is
removed, and the list of offsets is published without its entries. Nothing says
in between that the rest is still to be done, and starting a broker does not
compare the three. So a broker that stops after the first or the second change
finds log files or offsets of a topic that does not exist, and keeps them. They
belong to the next topic with that name.

## Main definitions

* `DeleteStep`: What is changed on the disk, in this order.
* `Server.stopped`: The broker when it has done some of it.
* `Server.CrashConsistent`: After a restart the topic is there, or gone.

## Theorems

* `handleDeleteTopic_stopped`: The handler does all of it.
* `crashConsistent_iff`: After how many steps a broker can stop.
* `delete_crash_consistent_iff`: The same, for all brokers that there are.
-/

namespace MqBroker

open Server

/-! ## Steps on the disk -/

/-- What the deletion of a topic changes on the disk. -/
inductive DeleteStep
  | publishTopics
  | removeLogs
  | publishOffsets
deriving DecidableEq, Repr

/-- The steps in the order of the handler. -/
def DeleteStep.all : List DeleteStep := [.publishTopics, .removeLogs, .publishOffsets]

/-- The list of topics without one. -/
def Server.droppedTopics (s : Server) (topic : Bytes) : List (Bytes × UInt32) :=
  ({ s.broker with topics := s.broker.topics.erase topic } : Broker).listTopics

/-- The list of offsets without those for a topic. -/
def Server.droppedOffsets (s : Server) (topic : Bytes) : List ConsumerOffset :=
  s.consumerOffsets.filter (fun item => item.topic ≠ topic)

/-- The broker when one step is done. What it has in memory does not matter, since
    it is gone with the broker. -/
def DeleteStep.exec (topic : Bytes) (s : Server) : DeleteStep → Server
  | .publishTopics => { s with topicsFile := s.droppedTopics topic }
  | .removeLogs =>
      { s with broker := { s.broker with storage := (s.broker.storage.deleteTopic {} topic).1 } }
  | .publishOffsets =>
      { s with
        offsetsFile :=
          if offsetsSavable (s.droppedOffsets topic) then s.droppedOffsets topic
          else s.offsetsFile }

/-- The broker when some of the steps are done. -/
def Server.stopped (s : Server) (topic : Bytes) (steps : Nat) : Server :=
  (DeleteStep.all.take steps).foldl (DeleteStep.exec topic) s

/-- A broker that was started again has a topic with all its messages and all its
    offsets. -/
def Server.HasAll (s r : Server) (topic : Bytes) : Prop :=
  (∃ count, r.broker.topics.lookup topic = some count) ∧
  (∀ n, (r.broker.storage.partition topic n).messages
    = (s.broker.storage.partition topic n).messages) ∧
  ∀ group n, r.committed group topic n = s.committed group topic n

/-- A broker has no topic of a name, and if one is created, there are no messages
    in any partition it can have, and `OFFSET_FETCH` answers 0 to all groups. -/
def Server.StartsEmpty (r : Server) (topic : Bytes) : Prop :=
  r.broker.topics.lookup topic = none ∧
  ∀ env request, request.topic = topic →
    (∀ n < maxPartitions, ((r.handleCreateTopic env request).1.broker.storage.partition topic
      n).messages = []) ∧
    ∀ group n, ((r.handleCreateTopic env request).1.committed group topic n).getD 0 = 0

/-- If the broker stops after some of the steps and is started again, the topic is
    there with everything, or it can be created as a new one. -/
def Server.CrashConsistent (s : Server) (topic : Bytes) (steps : Nat) (config : ServerConfig)
    (kept : Bytes → UInt32 → Nat) : Prop :=
  s.HasAll ((s.stopped topic steps).restart config kept) topic ∨
    ((s.stopped topic steps).restart config kept).StartsEmpty topic

/-- The files hold a topic with everything it has in memory. -/
def Server.OnDisk (s : Server) (topic : Bytes) (config : ServerConfig)
    (kept : Bytes → UInt32 → Nat) : Prop :=
  (∃ count, (topic, count) ∈ s.topicsFile) ∧
  (∀ n, ((s.broker.storage.reopened config.storage kept).partition topic n).messages
    = (s.broker.storage.partition topic n).messages) ∧
  ∀ group n, committedIn s.offsetsFile (group, topic, n) = s.committed group topic n

/-- Whatever of a topic the steps have not reached holds nothing of it: the list
    of topics, the log files, and the list of offsets. -/
def Server.NothingLeft (s : Server) (topic : Bytes) (steps : Nat) (config : ServerConfig)
    (kept : Bytes → UInt32 → Nat) : Prop :=
  (steps = 0 → ∀ count, (topic, count) ∉ s.topicsFile) ∧
  (steps < 2 → ∀ n < maxPartitions,
    ((s.broker.storage.reopened config.storage kept).partition topic n).messages = []) ∧
  (steps < 3 ∨ offsetsSavable (s.droppedOffsets topic) = false →
    ∀ group n, (committedIn s.offsetsFile (group, topic, n)).getD 0 = 0)

section Stopped

variable (s : Server) (topic : Bytes) (steps : Nat)

theorem stopped_all (h : 3 ≤ steps) : s.stopped topic steps = s.stopped topic 3 := by
  rw [Server.stopped, Server.stopped, List.take_of_length_le h]
  rfl

theorem stopped_topicsFile :
    (s.stopped topic steps).topicsFile
      = if steps = 0 then s.topicsFile else s.droppedTopics topic := by
  match steps with
  | 0 => rfl
  | 1 => rfl
  | 2 => rfl
  | n + 3 =>
      rw [stopped_all s topic (n + 3) (Nat.le_add_left 3 n), if_neg (Nat.succ_ne_zero _)]
      rfl

theorem stopped_storage :
    (s.stopped topic steps).broker.storage
      = if steps < 2 then s.broker.storage else (s.broker.storage.deleteTopic {} topic).1 := by
  match steps with
  | 0 => rfl
  | 1 => rfl
  | 2 => rfl
  | n + 3 =>
      rw [stopped_all s topic (n + 3) (Nat.le_add_left 3 n), if_neg (by omega)]
      rfl

theorem stopped_offsetsFile :
    (s.stopped topic steps).offsetsFile
      = if steps < 3 ∨ offsetsSavable (s.droppedOffsets topic) = false then s.offsetsFile
        else s.droppedOffsets topic := by
  match steps with
  | 0 => rfl
  | 1 => rfl
  | 2 => rfl
  | n + 3 =>
      rw [stopped_all s topic (n + 3) (Nat.le_add_left 3 n)]
      have hfile : (s.stopped topic 3).offsetsFile
          = if offsetsSavable (s.droppedOffsets topic) then s.droppedOffsets topic
            else s.offsetsFile := rfl
      rw [hfile]
      cases hsavable : offsetsSavable (s.droppedOffsets topic) with
      | true => rw [if_pos rfl, if_neg (by rintro (hlt | hfalse) <;> [omega; cases hfalse])]
      | false => rw [if_neg Bool.false_ne_true, if_pos (Or.inr rfl)]

end Stopped

section Restarted

variable {s : Server}

/-- The list of topics without one does not have it. -/
theorem not_mem_droppedTopics (topic : Bytes) (count : UInt32) :
    (topic, count) ∉ s.droppedTopics topic := by
  intro hmem
  have hfound := (mem_listTopics _ _ _).mp hmem
  exact (Table.lookup_erase_eq_some.mp hfound).1 rfl

theorem Server.Published.stopped (h : s.Published) (hs : s.broker.Sound) (topic : Bytes)
    (steps : Nat) : (s.stopped topic steps).Published := by
  have hdropped : ∀ t c, (s.broker.topics.erase topic).lookup t = some c → ValidTopic t c :=
    erase_valid hs.topics
  refine ⟨?_, ?_, ?_, ?_⟩
  · rw [stopped_topicsFile]
    split
    · exact h.topics
    · exact listTopics_valid hdropped
  · rw [stopped_topicsFile]
    split
    · exact h.names
    · exact listTopics_names _
  · rw [stopped_topicsFile]
    split
    · exact h.few
    · rw [Server.droppedTopics, length_listTopics]
      exact (Table.size_erase_le _ _).trans hs.few
  · rw [stopped_offsetsFile]
    split
    · exact h.offsets
    · rename_i hsavable
      exact Bool.eq_true_of_not_eq_false fun hfalse => hsavable (Or.inr hfalse)

/-- A broker that is started again has the logs and the offsets in its files. -/
theorem Server.Published.restart_files (h : s.Published) (config : ServerConfig)
    (kept : Bytes → UInt32 → Nat) :
    (s.restart config kept).broker.storage = s.broker.storage.reopened config.storage kept ∧
      (s.restart config kept).consumerOffsets = s.offsetsFile := by
  rcases h.restart_eq config kept with ⟨table, _, _, heq⟩
  rw [heq]
  simp only [Server.start, and_true]
  split <;> rfl

/-- Creating a topic touches neither logs nor offsets. -/
theorem handleCreateTopic_frame (env : ServerEnv) (request : Request) :
    (s.handleCreateTopic env request).1.broker.storage = s.broker.storage ∧
      (s.handleCreateTopic env request).1.consumerOffsets = s.consumerOffsets := by
  refine ⟨?_, (handleCreateTopic_consumerOffsets env request).1⟩
  have hbroker : ∀ saved, (s.broker.handleCreateTopic saved request).1.storage
      = s.broker.storage := by
    intro saved
    rcases handleCreateTopic_cases s.broker saved request with
      ⟨_, heq, _⟩ | ⟨_, _, _, _, _, heq⟩ <;> rw [heq]
  simp only [Server.handleCreateTopic]
  split
  · rfl
  · exact hbroker _

/-- A name that is not listed starts with what is in the logs and the offsets. -/
theorem startsEmpty_iff (r : Server) (topic : Bytes) :
    r.StartsEmpty topic ↔
      r.broker.topics.lookup topic = none ∧
      (∀ n < maxPartitions, (r.broker.storage.partition topic n).messages = []) ∧
      ∀ group n, (committedIn r.consumerOffsets (group, topic, n)).getD 0 = 0 := by
  have hcommitted : ∀ env request group n,
      (r.handleCreateTopic env request).1.committed group topic n
        = committedIn r.consumerOffsets (group, topic, n) := by
    intro env request group n
    rw [committed_eq, (handleCreateTopic_frame env request).2]
  constructor
  · rintro ⟨hnone, hempty⟩
    have hone := hempty {} { command := .createTopic, topic := topic } rfl
    simp only [hcommitted, (handleCreateTopic_frame _ _).1] at hone
    exact ⟨hnone, hone⟩
  · rintro ⟨hnone, hempty⟩
    refine ⟨hnone, fun env request _ => ?_⟩
    simp only [hcommitted, (handleCreateTopic_frame _ _).1]
    exact hempty

/-- The logs of a topic whose directory was removed are empty. -/
theorem deleted_reopened {topic : Bytes} (hvalid : isValidTopicName topic = true)
    (config : ServerConfig) (kept : Bytes → UInt32 → Nat) (n : UInt32) :
    (((s.broker.storage.deleteTopic {} topic).1.reopened config.storage kept).partition topic
      n).messages = [] := by
  have hnone : ((s.broker.storage.deleteTopic {} topic).1.reopened config.storage
      kept).partitions.lookup (topic, n) = none := by
    rw [StorageEngine.reopened, Table.lookup_mapEntries, StorageEngine.deleteTopic,
      if_neg (not_not.mpr hvalid), if_pos rfl, Table.lookup_filterKeys, if_neg (by simp)]
    rfl
  rw [StorageEngine.partition, hnone, Option.getD_none, freshPartition_eq]
  rfl

/-- A broker can stop before the first step, if its files have everything, and
    after any number of steps if what they have not reached is empty. -/
theorem crashConsistent_iff (hs : s.Listed) {request : Request} {count : UInt32}
    (hdeletes : s.Deletes request count) (steps : Nat) (config : ServerConfig)
    (kept : Bytes → UInt32 → Nat) :
    s.CrashConsistent request.topic steps config kept ↔
      (steps = 0 ∧ s.OnDisk request.topic config kept) ∨
        s.NothingLeft request.topic steps config kept := by
  have hname := (hs.sound.broker.topics _ _ hdeletes.found).1
  have hpublished := hs.published.stopped hs.sound.broker request.topic steps
  rcases hpublished.restart_files config kept with ⟨hstorage, hoffsets⟩
  have htopic := hpublished.restart_topics config kept request.topic
  rw [stopped_topicsFile] at htopic
  rw [stopped_storage] at hstorage
  rw [stopped_offsetsFile] at hoffsets
  unfold Server.CrashConsistent
  generalize (s.stopped request.topic steps).restart config kept = r at *
  rw [startsEmpty_iff]
  -- What the restarted broker has of the topic, file by file.
  have hlisted : (∃ count, r.broker.topics.lookup request.topic = some count) ↔
      steps = 0 ∧ ∃ count, (request.topic, count) ∈ s.topicsFile := by
    by_cases hzero : steps = 0
    · simp only [htopic, hzero, if_true, true_and]
    · simp only [htopic, hzero, if_false, false_and, not_mem_droppedTopics, exists_false]
  have hmessages : ∀ n, (r.broker.storage.partition request.topic n).messages
      = if steps < 2 then
          ((s.broker.storage.reopened config.storage kept).partition request.topic n).messages
        else [] := by
    intro n
    rw [hstorage]
    split
    · rfl
    · exact deleted_reopened hname config kept n
  have hcommitted : ∀ group n, committedIn r.consumerOffsets (group, request.topic, n)
      = if steps < 3 ∨ offsetsSavable (s.droppedOffsets request.topic) = false then
          committedIn s.offsetsFile (group, request.topic, n)
        else none := by
    intro group n
    rw [hoffsets]
    split
    · rfl
    · rw [Server.droppedOffsets, committedIn_filter, if_pos rfl]
  constructor
  · rintro (⟨hfound, hall, hsame⟩ | ⟨hnone, hempty, hzero⟩)
    · rcases hlisted.mp hfound with ⟨rfl, hfile⟩
      refine Or.inl ⟨rfl, hfile, fun n => ?_, fun group n => ?_⟩
      · rw [← hall n, hmessages, if_pos (by decide)]
      · rw [← hsame group n, committed_eq, hcommitted, if_pos (Or.inl (by decide))]
    · refine Or.inr ⟨?_, ?_, ?_⟩
      · rintro rfl count' hmem
        rcases hlisted.mpr ⟨rfl, count', hmem⟩ with ⟨count'', hfound⟩
        rw [hnone] at hfound
        cases hfound
      · intro hfirst n hn
        rw [← hempty n hn, hmessages, if_pos hfirst]
      · intro hbefore group n
        have hanswer := hzero group n
        rw [hcommitted, if_pos hbefore] at hanswer
        exact hanswer
  · rintro (⟨rfl, hfile, hall, hsame⟩ | ⟨hfile, hlogs, hrest⟩)
    · refine Or.inl ⟨hlisted.mpr ⟨rfl, hfile⟩, fun n => ?_, fun group n => ?_⟩
      · rw [← hall n, hmessages, if_pos (by decide)]
      · rw [← hsame group n, committed_eq, hcommitted, if_pos (Or.inl (by decide))]
    · refine Or.inr ⟨?_, fun n hn => ?_, fun group n => ?_⟩
      · refine Option.eq_none_iff_forall_ne_some.mpr fun count' hfound => ?_
        rcases hlisted.mp ⟨count', hfound⟩ with ⟨hzero, count'', hmem⟩
        exact hfile hzero count'' hmem
      · rw [hmessages]
        split
        · rename_i hfirst
          exact hlogs hfirst n hn
        · rfl
      · rw [hcommitted]
        split
        · rename_i hbefore
          exact hrest hbefore group n
        · rfl

/-- The handler does all the steps: when nothing fails, its files are those that
    are left after the last one. -/
theorem handleDeleteTopic_stopped (hs : s.broker.Sound) {request : Request} {count : UInt32}
    (h : s.Deletes request count) {env : ServerEnv} (hsaved : env.delete.saved = true)
    (hremoved : env.delete.removed = true) (hoffsets : env.offsetsSaved = true) :
    (s.handleDeleteTopic env request).1.topicsFile = (s.stopped request.topic 3).topicsFile ∧
      (s.handleDeleteTopic env request).1.broker.storage
        = (s.stopped request.topic 3).broker.storage ∧
      (s.handleDeleteTopic env request).1.offsetsFile
        = (s.stopped request.topic 3).offsetsFile := by
  have hname := (hs.topics _ _ h.found).1
  rw [handleDeleteTopic_deletes hs h hsaved hremoved, hoffsets, Bool.true_and]
  refine ⟨rfl, ?_, rfl⟩
  rw [stopped_storage, if_neg (show ¬ 3 < 2 by decide)]
  simp only [StorageEngine.deleteTopic, hname, hremoved, not_true_eq_false, if_false, if_true]

end Restarted

/-- In whatever state a broker is: it can stop after some steps of the deletion of
    a topic and leave files that are good exactly when it has done none of them
    and its files have everything, or when what is left of the topic in the files
    is nothing. -/
theorem delete_crash_consistent_iff (config : ServerConfig) (events : List ServerEvent)
    {request : Request} {count : UInt32}
    (hdeletes : ((Server.fresh config).run events).Deletes request count) (steps : Nat)
    (config' : ServerConfig) (kept : Bytes → UInt32 → Nat) :
    ((Server.fresh config).run events).CrashConsistent request.topic steps config' kept ↔
      (steps = 0 ∧ ((Server.fresh config).run events).OnDisk request.topic config' kept) ∨
        ((Server.fresh config).run events).NothingLeft request.topic steps config' kept :=
  crashConsistent_iff (run_listed config events) hdeletes steps config' kept

/-- A topic without messages and offsets can be gone from the list alone. -/
theorem stopped_first_step :
    ((Server.fresh {}).run [createExample true]).CrashConsistent [116] 1 {} (fun _ _ => 0) := by
  have hexec : (Server.fresh {}).run [createExample true] = _ := createExample_exec
  have hdeletes : ((Server.fresh {}).run [createExample true]).Deletes
      { command := .deleteTopic, topic := [116] } 1 := by
    rw [hexec]
    exact ⟨rfl, by decide +kernel⟩
  refine (delete_crash_consistent_iff {} [createExample true] hdeletes 1 {} (fun _ _ => 0)).mpr
    (Or.inr ⟨fun hzero => absurd hzero (by decide), fun _ n _ => ?_, fun _ group n => ?_⟩)
  · rw [hexec]
    rfl
  · rw [hexec]
    rfl

/-- A group has committed 5, and the broker stops before the offsets are published.
    The next topic with the name starts with the offset. -/
theorem stopped_before_offsets :
    ¬ ∀ (config : ServerConfig) (events : List ServerEvent) (request : Request) (count : UInt32)
      (steps : Nat) (config' : ServerConfig) (kept : Bytes → UInt32 → Nat),
      ((Server.fresh config).run events).Deletes request count →
      ((Server.fresh config).run events).CrashConsistent request.topic steps config' kept := by
  intro h
  have hrun : (Server.fresh {}).run [createExample true, .request {} commitExample]
      = (ServerEvent.request {} commitExample).exec
        ((createExample true).exec (Server.fresh {})) := rfl
  have hlisted := run_listed {} [createExample true, .request {} commitExample]
  have hdeletes : ((Server.fresh {}).run [createExample true, .request {} commitExample]).Deletes
      { command := .deleteTopic, topic := [116] } 1 := by
    rw [hrun, createExample_exec]
    exact ⟨rfl, by decide +kernel⟩
  have hconsistent := (crashConsistent_iff hlisted hdeletes 2 {} (fun _ _ => 0)).mp
    (h {} _ _ 1 2 {} (fun _ _ => 0) hdeletes)
  rcases hconsistent with ⟨htwo, _⟩ | ⟨_, _, hoffsets⟩
  · exact absurd htwo (by decide)
  · have hzero := hoffsets (Or.inl (by decide)) [103] 0
    rw [hrun, createExample_exec] at hzero
    exact absurd hzero (by decide +kernel)

end MqBroker
