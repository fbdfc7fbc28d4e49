import MqBroker.Lib.Runs
import MqBroker.Server.GroupHeartbeat
import MqBroker.Server.Metadata

/-!
# Assignments of Partitions that Exist

Whether the members of a group are told to read partitions that are there.

The coordinator of the groups has its own record of the topics. A topic is
entered there when it is created, before the list of topics is saved, and it
never leaves again: not when the list could not be saved and the topic is taken
out of the table, and not when the topic is deleted. A member that wants such a
topic is told to read its partitions, and every request for them is answered
with `kUnknownTopic` until the broker is started again.

As long as neither happens the two records are the same.

## Main definitions

* `Server.AssignsExisting`: Members are told only partitions that exist.
* `Server.Synced`: The groups know of no topic that is not there.
* `Server.Strands`: A request takes a topic out of the table that stays with the
  groups.

## Theorems

* `exec_synced_iff`: The events that strand a topic are those after which the
  groups know of one that is not there.
* `assignments_exist`: In a run without such events, members are told only
  partitions that exist.
* `stranded_assigned`: In another one they are not.
-/

namespace MqBroker

open ConsumerGroupCoordinator

/-- Every partition that `SYNC_GROUP` returns to a member belongs to a topic in
    the table and is below its partition count. -/
def Server.AssignsExisting (s : Server) : Prop :=
  ∀ group memberId assignments, s.groups.sync group memberId = some assignments →
    ∀ a ∈ assignments, ∃ count, s.broker.topics.lookup a.topic = some count ∧ a.partition < count

/-- The groups know of no topic that is not in the table, and have the same
    partition counts. -/
def Server.Synced (s : Server) : Prop :=
  ∀ topic count, s.groups.partitions.lookup topic = some count →
    s.broker.topics.lookup topic = some count

/-- The groups know of every topic in the table. -/
def Server.Known (s : Server) : Prop :=
  ∀ topic count, s.broker.topics.lookup topic = some count →
    s.groups.partitions.lookup topic = some count

/-- A request takes a topic out of the table that the groups know of: it is
    deleted, or it is created and the list of topics cannot be saved. -/
def Server.Strands (s : Server) (env : ServerEnv) (request : Request) : Prop :=
  (request.command = .createTopic ∧ (∃ count, s.Creates request count) ∧
    ¬ (env.topicsSaved = true ∧ s.broker.topics.size < maxTopics)) ∨
  (request.command = .deleteTopic ∧ (∃ count, s.Deletes request count) ∧
    env.delete.saved = true ∧ env.delete.removed = true)

/-- An event is such a request. -/
def ServerEvent.Strands (s : Server) (event : ServerEvent) : Prop := event.Requests s s.Strands

/-- What the groups know of is also what they are assigned from. -/
theorem Server.Synced.assignsExisting {s : Server} (h : s.Synced) (hs : s.Sound) :
    s.AssignsExisting := by
  intro group memberId assignments hsync a ha
  rcases hs.groups.balanced.sync_hand hsync with ⟨members, _, _, rfl⟩
  rcases mem_hand ha with ⟨count, hcount, hlt⟩
  exact ⟨count, h a.topic count hcount, hlt⟩

theorem Server.SameMetadata.synced {s s' : Server} (h : s.SameMetadata s') :
    s'.Synced ↔ s.Synced := by
  unfold Server.Synced
  rw [h.partitions, h.topics]

theorem Server.SameMetadata.known {s s' : Server} (h : s.SameMetadata s') :
    s'.Known ↔ s.Known := by
  unfold Server.Known
  rw [h.partitions, h.topics]

theorem setPartitions_partitions (c : ConsumerGroupCoordinator) (topic : Bytes) (count : UInt32) :
    (c.setPartitions topic count).partitions = c.partitions.insert topic count :=
  GroupOp.exec_partitions memberTimeout c (.setPartitions topic count)

/-- The groups are told of the topics that are loaded, and of no others. -/
theorem foldl_setPartitions_lookup (topics : List (Bytes × UInt32)) (c : ConsumerGroupCoordinator)
    {name : Bytes} {count : UInt32}
    (h : (topics.foldl (fun groups topic => groups.setPartitions topic.1 topic.2)
      c).partitions.lookup name = some count) :
    (name, count) ∈ topics ∨ c.partitions.lookup name = some count := by
  induction topics generalizing c with
  | nil => exact Or.inr h
  | cons first rest ih =>
      rcases ih (c.setPartitions first.1 first.2) h with hrest | hfirst
      · exact Or.inl (List.mem_cons_of_mem first hrest)
      · rw [setPartitions_partitions] at hfirst
        by_cases hname : name = first.1
        · rw [hname, AList.lookup_insert] at hfirst
          rw [hname, ← Option.some.inj hfirst]
          exact Or.inl List.mem_cons_self
        · rw [AList.lookup_insert_ne hname] at hfirst
          exact Or.inr hfirst

/-- They are told of each of them. -/
theorem lookup_foldl_setPartitions (topics : List (Bytes × UInt32)) (c : ConsumerGroupCoordinator)
    (hnodup : (topics.map Prod.fst).Nodup) {name : Bytes} {count : UInt32}
    (h : (name, count) ∈ topics ∨
      (name ∉ topics.map Prod.fst ∧ c.partitions.lookup name = some count)) :
    (topics.foldl (fun groups topic => groups.setPartitions topic.1 topic.2)
      c).partitions.lookup name = some count := by
  induction topics generalizing c with
  | nil =>
      rcases h with hmem | ⟨_, hcount⟩
      · exact absurd hmem List.not_mem_nil
      · exact hcount
  | cons first rest ih =>
      rw [List.map_cons, List.nodup_cons] at hnodup
      refine ih (c.setPartitions first.1 first.2) hnodup.2 ?_
      rw [setPartitions_partitions]
      rcases h with hmem | ⟨hother, hcount⟩
      · rcases List.mem_cons.mp hmem with heq | hrest
        · right
          rw [← heq] at hnodup ⊢
          exact ⟨hnodup.1, AList.lookup_insert _⟩
        · exact Or.inl hrest
      · rw [List.map_cons, List.mem_cons, not_or] at hother
        right
        rw [AList.lookup_insert_ne hother.1]
        exact ⟨hother.2, hcount⟩

theorem start_known (config : ServerConfig) (storage : StorageEngine) (topics : Table Bytes UInt32)
    (topicsFile : List (Bytes × UInt32)) (offsetsFile : List ConsumerOffset)
    (stateFile : Option Bytes) :
    (Server.start config storage topics topicsFile offsetsFile stateFile).Known := by
  intro topic count hcount
  have hcount' : topics.lookup topic = some count := by
    simp only [Server.start] at hcount
    split at hcount
    · exact hcount
    · exact hcount
  exact lookup_foldl_setPartitions _ _ (listTopics_names _)
    (Or.inl ((mem_listTopics _ topic count).mpr hcount'))

theorem start_synced (config : ServerConfig) (storage : StorageEngine) (topics : Table Bytes UInt32)
    (topicsFile : List (Bytes × UInt32)) (offsetsFile : List ConsumerOffset)
    (stateFile : Option Bytes) :
    (Server.start config storage topics topicsFile offsetsFile stateFile).Synced := by
  intro topic count hcount
  rcases foldl_setPartitions_lookup _ _ hcount with hlisted | hnone
  · have htopics := (mem_listTopics _ topic count).mp hlisted
    simp only [Server.start] at htopics ⊢
    split
    · exact htopics
    · exact htopics
  · cases hnone

section Handlers

variable {s : Server} {request : Request}

theorem handleCreateTopic_synced_iff (hs : s.broker.Sound) (h : s.Synced) (env : ServerEnv) :
    (s.handleCreateTopic env request).1.Synced ↔
      ¬ ((∃ count, s.Creates request count) ∧
        ¬ (env.topicsSaved = true ∧ s.broker.topics.size < maxTopics)) := by
  by_cases hcreates : ∃ count, s.Creates request count
  · simp only [hcreates, true_and, not_not]
    rcases hcreates with ⟨count, hcreates⟩
    rw [handleCreateTopic_creates hs hcreates env]
    by_cases hsaved : env.topicsSaved = true ∧ s.broker.topics.size < maxTopics
    · rw [if_pos hsaved]
      refine iff_of_true (fun topic count' hcount => ?_) hsaved
      simp only [setPartitions_partitions] at hcount ⊢
      by_cases htopic : topic = request.topic
      · rw [htopic, AList.lookup_insert] at hcount ⊢
        exact hcount
      · rw [AList.lookup_insert_ne htopic] at hcount ⊢
        exact h topic count' hcount
    · rw [if_neg hsaved]
      refine iff_of_false (fun hsynced => ?_) hsaved
      -- The groups have the topic, and the table does not.
      have hfound := hsynced request.topic count (by
        simp only [setPartitions_partitions, AList.lookup_insert])
      simp only [AList.lookup_erase, reduceCtorEq] at hfound
  · rw [(handleCreateTopic_refuses (not_exists.mp hcreates) env).1]
    exact iff_of_true h fun hno => hcreates hno.1

theorem handleDeleteTopic_synced_iff (hs : s.broker.Sound) (h : s.Synced)
    (hknown : s.Known) (env : ServerEnv) :
    (s.handleDeleteTopic env request).1.Synced ↔
      ¬ ((∃ count, s.Deletes request count) ∧ env.delete.saved = true ∧
        env.delete.removed = true) := by
  by_cases hdeletes : ∃ count, s.Deletes request count
  · rcases hdeletes with ⟨count, hdeletes⟩
    have hback : ∀ topic count', s.groups.partitions.lookup topic = some count' →
        (s.broker.putBack request.topic count).topics.lookup topic = some count' := by
      intro topic count' hcount
      rw [putBack_lookup hdeletes.found]
      exact h topic count' hcount
    cases hsaved : env.delete.saved with
    | false =>
        rw [handleDeleteTopic_unsaved hs hdeletes hsaved]
        exact iff_of_true hback fun hno => Bool.false_ne_true hno.2.1
    | true =>
        cases hremoved : env.delete.removed with
        | false =>
            rw [handleDeleteTopic_left hs hdeletes hsaved hremoved]
            exact iff_of_true hback fun hno => Bool.false_ne_true hno.2.2
        | true =>
            rw [handleDeleteTopic_deletes hs hdeletes hsaved hremoved]
            refine iff_of_false (fun hsynced => ?_) (not_not.mpr ⟨⟨count, hdeletes⟩, rfl, rfl⟩)
            have hfound := hsynced request.topic count (hknown _ _ hdeletes.found)
            simp only [AList.lookup_erase, reduceCtorEq] at hfound
  · rw [(handleDeleteTopic_refuses (not_exists.mp hdeletes) env).1]
    exact iff_of_true h fun hno => hdeletes hno.1

theorem handleCreateTopic_known (hs : s.broker.Sound) (h : s.Known) (env : ServerEnv) :
    (s.handleCreateTopic env request).1.Known := by
  by_cases hcreates : ∃ count, s.Creates request count
  · rcases hcreates with ⟨count, hcreates⟩
    have hinsert : ∀ topic count', (s.broker.topics.insert request.topic count).lookup topic
        = some count' →
        (s.groups.partitions.insert request.topic count).lookup topic = some count' := by
      intro topic count' hcount
      by_cases htopic : topic = request.topic
      · rw [htopic, AList.lookup_insert] at hcount ⊢
        exact hcount
      · rw [AList.lookup_insert_ne htopic] at hcount ⊢
        exact h topic count' hcount
    rw [handleCreateTopic_creates hs hcreates env]
    split
    · intro topic count' hcount
      simp only [setPartitions_partitions]
      exact hinsert topic count' hcount
    · intro topic count' hcount
      simp only [setPartitions_partitions]
      by_cases htopic : topic = request.topic
      · subst htopic
        simp only [AList.lookup_erase, reduceCtorEq] at hcount
      · simp only [AList.lookup_erase_ne htopic] at hcount
        exact hinsert topic count' hcount
  · rw [(handleCreateTopic_refuses (not_exists.mp hcreates) env).1]
    exact h

theorem handleDeleteTopic_known (hs : s.broker.Sound) (h : s.Known) (env : ServerEnv) :
    (s.handleDeleteTopic env request).1.Known := by
  by_cases hdeletes : ∃ count, s.Deletes request count
  · rcases hdeletes with ⟨count, hdeletes⟩
    have hback : ∀ topic count',
        (s.broker.putBack request.topic count).topics.lookup topic = some count' →
        s.groups.partitions.lookup topic = some count' := by
      intro topic count' hcount
      rw [putBack_lookup hdeletes.found] at hcount
      exact h topic count' hcount
    cases hsaved : env.delete.saved with
    | false =>
        rw [handleDeleteTopic_unsaved hs hdeletes hsaved]
        exact hback
    | true =>
        cases hremoved : env.delete.removed with
        | false =>
            rw [handleDeleteTopic_left hs hdeletes hsaved hremoved]
            exact hback
        | true =>
            rw [handleDeleteTopic_deletes hs hdeletes hsaved hremoved]
            intro topic count' hcount
            by_cases htopic : topic = request.topic
            · subst htopic
              simp only [AList.lookup_erase, reduceCtorEq] at hcount
            · simp only [AList.lookup_erase_ne htopic] at hcount
              exact h topic count' hcount
  · rw [(handleDeleteTopic_refuses (not_exists.mp hdeletes) env).1]
    exact h

theorem handleCommitOffset_sameTopics (env : ServerEnv) :
    (s.handleCommitOffset env request).1.broker = s.broker ∧
      (s.handleCommitOffset env request).1.groups = s.groups := by
  simp only [Server.handleCommitOffset]
  split
  · exact ⟨rfl, rfl⟩
  · split <;> exact ⟨rfl, rfl⟩

end Handlers

/-! ## Steps -/

/-- What the handlers of topics rely on. -/
structure Server.Listed (s : Server) : Prop where
  sound : s.Sound
  published : s.Published
  known : s.Known

theorem Server.Listed.exec {s : Server} (h : s.Listed) (event : ServerEvent) :
    (event.exec s).Listed := by
  refine ⟨h.sound.exec event, h.published.exec h.sound event, ?_⟩
  rcases event.exec_cases s with hsame | ⟨config, kept, rfl⟩ |
    ⟨env, r, normalized, d, rfl, _, hcommand, hd, hcounts⟩
  · exact hsame.known.mpr h.known
  · rcases h.published.restart_eq config kept with ⟨table, _, _, heq⟩
    rw [ServerEvent.exec, heq]
    exact start_known _ _ _ _ _ _
  · have hsound : d.broker.Sound := by
      rw [hd.broker]
      exact h.sound.broker
    have hknown := hd.sameMetadata.known.mpr h.known
    rw [hcounts.sameMetadata.known]
    simp only [metadataCommands, List.mem_cons, List.not_mem_nil, or_false] at hcommand
    rcases hcommand with hkind | hkind | hkind
    · simp only [Server.dispatch, hkind]
      exact handleCreateTopic_known hsound hknown env
    · simp only [Server.dispatch, hkind]
      exact handleDeleteTopic_known hsound hknown env
    · simp only [Server.dispatch, hkind]
      unfold Server.Known
      rw [(handleCommitOffset_sameTopics env).1, (handleCommitOffset_sameTopics env).2]
      exact hknown

/-- An event leaves the groups with a topic that is not there exactly when it
    strands one. -/
theorem exec_synced_iff {s : Server} (event : ServerEvent) (h : s.Listed) (hsynced : s.Synced) :
    (event.exec s).Synced ↔ ¬ event.Strands s := by
  refine event.exec_iff (fun _ _ hsame => hsame.synced) hsynced ?_ ?_ ?_
  · intro config kept
    rcases h.published.restart_eq config kept with ⟨table, _, _, heq⟩
    rw [heq]
    exact start_synced _ _ _ _ _ _
  · rintro env request (⟨hcreate, _⟩ | ⟨hdelete, _⟩)
    · rw [hcreate]
      decide
    · rw [hdelete]
      decide
  · intro d hd env request hcommand
    have hsound : d.broker.Sound := by
      rw [hd.broker]
      exact h.sound.broker
    have hsynced' := hd.sameMetadata.synced.mpr hsynced
    have hknown := hd.sameMetadata.known.mpr h.known
    unfold Server.Strands
    simp only [← (hd.handles _).1, ← (hd.handles _).2, ← hd.sameMetadata.topics]
    simp only [metadataCommands, List.mem_cons, List.not_mem_nil, or_false] at hcommand
    rcases hcommand with hkind | hkind | hkind
    · simp only [Server.dispatch, hkind, true_and, reduceCtorEq, false_and, or_false]
      exact handleCreateTopic_synced_iff hsound hsynced' env
    · simp only [Server.dispatch, hkind, true_and, reduceCtorEq, false_and, false_or]
      exact handleDeleteTopic_synced_iff hsound hsynced' hknown env
    · simp only [Server.dispatch, hkind, reduceCtorEq, false_and, or_self, not_false_eq_true,
        iff_true]
      unfold Server.Synced
      rw [(handleCommitOffset_sameTopics env).1, (handleCommitOffset_sameTopics env).2]
      exact hsynced'

theorem listed_fresh (config : ServerConfig) : (Server.fresh config).Listed :=
  ⟨Server.Sound.fresh config, published_fresh config, start_known _ _ _ _ _ _⟩

theorem synced_fresh (config : ServerConfig) : (Server.fresh config).Synced :=
  start_synced _ _ _ _ _ _

/-- Whatever has happened to a broker, its groups know of every topic and its
    files can be loaded. -/
theorem run_listed (config : ServerConfig) (events : List ServerEvent) :
    ((Server.fresh config).run events).Listed := by
  refine List.foldlRecOn (motive := Server.Listed) _ _ (listed_fresh config) ?_
  intro s hs event _
  exact hs.exec event

/-- The groups know of no topic that is not there, in all states of a run,
    exactly when no event of the run strands a topic. -/
theorem run_synced_iff (config : ServerConfig) (events : List ServerEvent) :
    Always ServerEvent.exec Server.Synced (Server.fresh config) events ↔
      Along ServerEvent.exec (fun s event => ¬ event.Strands s) (Server.fresh config) events :=
  always_iff_along (P := Server.Synced) (Q := Server.Listed) (fun _ event hs => hs.exec event)
    (fun _ event hs hsynced => exec_synced_iff event hs hsynced) events (listed_fresh config)
    (synced_fresh config)

/-- If no topic is deleted and every topic that is created can be saved, then in
    all states of a run the members of all groups are told only partitions that
    exist, whatever else happens. -/
theorem assignments_exist (config : ServerConfig) (events : List ServerEvent)
    (h : Along ServerEvent.exec (fun s event => ¬ event.Strands s) (Server.fresh config) events) :
    Always ServerEvent.exec Server.AssignsExisting (Server.fresh config) events := by
  have hall : Always ServerEvent.exec (fun s : Server => s.Listed ∧ s.Synced)
      (Server.fresh config) events := by
    refine Always.of_along ?_ ⟨listed_fresh config, synced_fresh config⟩ h
    intro s event ⟨hs, hsynced⟩ hgood
    exact ⟨hs.exec event, (exec_synced_iff event hs hsynced).mpr hgood⟩
  exact hall.mono fun s hs => hs.2.assignsExisting hs.1.sound

/-- Topic "t" is created, with one partition. -/
def createExample (saved : Bool) : ServerEvent :=
  .request { topicsSaved := saved } { command := 0x01, topic := [116], payload := put32 1 }

/-- Member "0 1" of group "g" joins for topic "t". -/
def joinExampleEvent : ServerEvent := .request {} { command := 0x24, payload := joinExample }

/-- A fresh broker has it in all three places then. -/
theorem createExample_serve :
    (Server.fresh {}).serve {} { command := 0x01, topic := [116], payload := put32 1 }
      = ({ Server.fresh {} with
            broker :=
              { (Server.fresh {}).broker with
                topics := (Server.fresh {}).broker.topics.insert [116] 1 }
            groups := (Server.fresh {}).groups.setPartitions [116] 1
            topicsFile := [([116], 1)]
            requestCount := 1 },
          (makeResponse { command := .createTopic, topic := [116], payload := put32 1 }
            .ok).raw) := by
  have hadmits : (Server.fresh {}).Admits
      { command := .createTopic, topic := [116], payload := put32 1 }
      { command := .createTopic, topic := [116], payload := put32 1 } :=
    ⟨rfl, by decide +kernel, Or.inr (Or.inl rfl)⟩
  have hcreates : ((Server.fresh {}).counted .createTopic).Creates
      { command := .createTopic, topic := [116], payload := put32 1 } 1 :=
    ⟨by decide, ⟨by decide, by decide, by decide⟩, rfl⟩
  have hsound : ((Server.fresh {}).counted .createTopic).broker.Sound :=
    (listed_fresh {}).sound.broker
  have hlist : ({ (Server.fresh {}).broker with
      topics := (Server.fresh {}).broker.topics.insert [116] 1 } : Broker).listTopics
        = [([116], 1)] :=
    List.mergeSort_singleton _
  have hcreate := handleCreateTopic_creates hsound hcreates {}
  rw [if_pos ⟨rfl, by decide⟩] at hcreate
  have hserve : (Server.fresh {}).serve {} { command := 0x01, topic := [116], payload := put32 1 }
      = (((Server.fresh {}).handle {}
            { command := .createTopic, topic := [116], payload := put32 1 }).1,
          ((Server.fresh {}).handle {}
            { command := .createTopic, topic := [116], payload := put32 1 }).2.raw) := rfl
  rw [hserve, hadmits.handle_eq]
  simp only [Server.dispatch]
  rw [hcreate]
  -- Only the list of topics has to be sorted.
  exact congrArg (fun file =>
    (({ Server.fresh {} with
        broker :=
          { (Server.fresh {}).broker with
            topics := (Server.fresh {}).broker.topics.insert [116] 1 }
        groups := (Server.fresh {}).groups.setPartitions [116] 1
        topicsFile := file
        requestCount := 1 } : Server),
      (makeResponse { command := .createTopic, topic := [116], payload := put32 1 }
        .ok).raw)) hlist

theorem createExample_exec :
    (createExample true).exec (Server.fresh {})
      = { Server.fresh {} with
          broker :=
            { (Server.fresh {}).broker with
              topics := (Server.fresh {}).broker.topics.insert [116] 1 }
          groups := (Server.fresh {}).groups.setPartitions [116] 1
          topicsFile := [([116], 1)]
          requestCount := 1 } :=
  congrArg Prod.fst createExample_serve

/-- A first topic that can be saved is not stranded. -/
theorem createExample_saved : ¬ (createExample true).Strands (Server.fresh {}) := by
  intro hstrands
  rcases requests_request.mp hstrands with
    ⟨normalized, hhandles, ⟨_, _, hunsaved⟩ | ⟨hdelete, _⟩⟩
  · exact hunsaved ⟨rfl, by decide⟩
  · exact hhandles.command_ne (by decide) hdelete

/-- The topic is created and a member joins for it. -/
theorem assignments_exist_example :
    Always ServerEvent.exec Server.AssignsExisting (Server.fresh {})
      [createExample true, joinExampleEvent] := by
  refine assignments_exist {} [createExample true, joinExampleEvent]
    ⟨createExample_saved, ?_, trivial⟩
  intro hstrands
  rcases requests_request.mp hstrands with
    ⟨normalized, hhandles, ⟨hcreate, _⟩ | ⟨hdelete, _⟩⟩
  · exact hhandles.command_ne (by decide) hcreate
  · exact hhandles.command_ne (by decide) hdelete

/-! ## A topic that stays with the groups -/

/-- A topic that the groups know of and that is not in the table is assigned to
    somebody as soon as one member wants it. -/
theorem stranded_assigned {s : Server} (hs : s.Sound) {group id topic : Bytes} {count : UInt32}
    {m : GroupMember} (hmember : s.groups.member group id = some m) (htopic : topic ∈ m.topics)
    (hknown : s.groups.partitions.lookup topic = some count) (hcount : 0 < count)
    (hgone : s.broker.topics.lookup topic = none) : ¬ s.AssignsExisting := by
  intro hexisting
  cases hmembers : s.groups.members.lookup group with
  | none =>
      rw [member, hmembers] at hmember
      cases hmember
  | some members =>
      rw [s.groups.member_of_lookup hmembers] at hmember
      have hmem : (⟨topic, 0⟩ : GroupAssignment) ∈ s.groups.groupPartitions members := by
        refine (s.groups.mem_groupPartitions members ⟨topic, 0⟩).mpr ⟨⟨id, m, hmember, htopic⟩, ?_⟩
        rw [ConsumerGroupCoordinator.count, hknown]
        exact hcount
      -- Somebody is dealt its first partition.
      rcases (hand_union s.groups members ⟨topic, 0⟩).mpr hmem with ⟨id', hid', hhand⟩
      have hsync := hs.groups.balanced.sync_eq hmembers id'
      rw [if_pos hid'] at hsync
      rcases hexisting group id' _ hsync _ hhand with ⟨count', hcount', _⟩
      rw [hgone] at hcount'
      cases hcount'

/-- The topic cannot be saved and is taken out again, and the member is told to
    read its partition. -/
theorem assignment_of_missing_topic :
    ¬ ∀ (config : ServerConfig) (events : List ServerEvent),
      Always ServerEvent.exec Server.AssignsExisting (Server.fresh config) events := by
  intro h
  have hlast := (h {} [createExample false, joinExampleEvent]).last
  have hmember : ((Server.fresh {}).run [createExample false, joinExampleEvent]).groups.member
      [103] [0, 1] = some ⟨0, [[116]]⟩ := by decide +kernel
  have hknown : ((Server.fresh {}).run
      [createExample false, joinExampleEvent]).groups.partitions.lookup [116] = some 1 := by
    decide +kernel
  exact stranded_assigned (run_sound {} [createExample false, joinExampleEvent]) hmember
    List.mem_cons_self hknown (by decide) (by decide +kernel) hlast

end MqBroker
