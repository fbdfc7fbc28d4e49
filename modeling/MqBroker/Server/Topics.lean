import MqBroker.Server.Assignments

/-!
# The Table of Topics and its File

Whether the topics in memory are the topics in `topics.meta`.

Creating a topic saves the list once, and takes the topic out of the table when
that fails. Deleting one saves the list without it, and when the log files
cannot be removed then, the topic is put back and the list is saved again. That
nobody looks at the outcome of the second save is the one way for the two to
come apart: the topic is in the table and not in the file, and gone after a
restart.

## Main definitions

* `Server.InSync`: The same topics in memory and in the file.
* `Server.Diverges`: A request by which a topic is put back in the table only.

## Theorems

* `listTopics_congr`: A table is listed in one way.
* `InSync.restart_listTopics`: A broker that is started again lists the same
  topics.
* `exec_inSync_iff`: What one event does.
* `topics_in_sync_iff`: When memory and file agree throughout a run.
-/

namespace MqBroker

/-- The topics in the table, with their partition counts, are those in the file
    that was published last. -/
def Server.InSync (s : Server) : Prop :=
  ∀ name count, (name, count) ∈ s.topicsFile ↔ s.broker.topics.lookup name = some count

/-- A request takes a topic out of the list, its log files are not removed, and
    the list cannot be saved with it again. -/
def Server.Diverges (s : Server) (env : ServerEnv) (request : Request) : Prop :=
  request.command = .deleteTopic ∧ (∃ count, s.Deletes request count) ∧
    env.delete.saved = true ∧ env.delete.removed = false ∧ env.topicsResaved = false

/-- An event is such a request. -/
def ServerEvent.Diverges (s : Server) (event : ServerEvent) : Prop := event.Requests s s.Diverges

/-! ## Lists of topics -/

theorem listTopics_sorted (b : Broker) : b.listTopics.Pairwise (fun x y => x.1 ≤ y.1) := by
  have hsorted := @List.pairwise_mergeSort _ (fun x y : Bytes × UInt32 => decide (x.1 ≤ y.1))
    (fun x y z hxy hyz => decide_eq_true (List.le_trans (of_decide_eq_true hxy)
      (of_decide_eq_true hyz)))
    (fun x y => by
      rw [Bool.or_eq_true, decide_eq_true_eq, decide_eq_true_eq]
      exact List.le_total x.1 y.1)
    (b.topics.entries.map (fun entry => (entry.1, entry.2)))
  exact hsorted.imp of_decide_eq_true

/-- Tables with the same entries are listed in the same way. -/
theorem listTopics_congr {b b' : Broker}
    (h : ∀ name, b'.topics.lookup name = b.topics.lookup name) : b'.listTopics = b.listTopics := by
  have hmem : ∀ topic, topic ∈ b'.listTopics ↔ topic ∈ b.listTopics := by
    intro topic
    rw [mem_listTopics b' topic.1 topic.2, mem_listTopics b topic.1 topic.2, h]
  have hperm := (List.perm_ext_iff_of_nodup (listTopics_names b').of_map
    (listTopics_names b).of_map).mpr hmem
  refine hperm.eq_of_pairwise (fun x y hx hy hxy hyx => ?_) (listTopics_sorted b')
    (listTopics_sorted b)
  -- Two topics with one name have one partition count.
  have hname : x.1 = y.1 := List.le_antisymm hxy hyx
  have hxcount := (mem_listTopics b x.1 x.2).mp ((hmem x).mp hx)
  have hycount := (mem_listTopics b y.1 y.2).mp hy
  rw [hname, hycount] at hxcount
  exact Prod.ext hname (Option.some.inj hxcount).symm

/-! ## Steps -/

theorem start_topics (config : ServerConfig) (storage : StorageEngine) (topics : Table Bytes UInt32)
    (topicsFile : List (Bytes × UInt32)) (offsetsFile : List ConsumerOffset)
    (stateFile : Option Bytes) :
    (Server.start config storage topics topicsFile offsetsFile stateFile).broker.topics
      = topics := by
  simp only [Server.start]
  split <;> rfl

/-- A broker that is started again has the topics in its file. -/
theorem Server.Published.restart_topics {s : Server} (h : s.Published) (config : ServerConfig)
    (kept : Bytes → UInt32 → Nat) (name : Bytes) (count : UInt32) :
    (s.restart config kept).broker.topics.lookup name = some count
      ↔ (name, count) ∈ s.topicsFile := by
  rcases h.restart_eq config kept with ⟨table, _, htable, heq⟩
  rw [heq, start_topics, htable]

theorem Server.Published.restart_inSync {s : Server} (h : s.Published) (config : ServerConfig)
    (kept : Bytes → UInt32 → Nat) : (s.restart config kept).InSync := by
  intro name count
  rw [h.restart_topics]
  rcases h.restart_eq config kept with ⟨table, _, _, heq⟩
  rw [heq]
  rfl

/-- A broker that is started again lists the same topics. -/
theorem Server.InSync.restart_listTopics {s : Server} (h : s.InSync) (hs : s.Published)
    (config : ServerConfig) (kept : Bytes → UInt32 → Nat) :
    (s.restart config kept).broker.listTopics = s.broker.listTopics := by
  refine listTopics_congr fun name => Option.ext fun count => ?_
  rw [hs.restart_topics]
  exact h name count

theorem Server.SameMetadata.inSync {s s' : Server} (h : s.SameMetadata s') :
    s'.InSync ↔ s.InSync := by
  unfold Server.InSync
  rw [h.topicsFile, h.topics]

section Handlers

variable {s : Server} {request : Request}

theorem handleCreateTopic_inSync (hs : s.broker.Sound) (h : s.InSync) (env : ServerEnv) :
    (s.handleCreateTopic env request).1.InSync := by
  by_cases hcreates : ∃ count, s.Creates request count
  · rcases hcreates with ⟨count, hcreates⟩
    rw [handleCreateTopic_creates hs hcreates env]
    split
    · intro name count'
      exact mem_listTopics _ name count'
    · -- The topic is taken out again, and the file is the old one.
      intro name count'
      rw [h name count']
      by_cases hname : name = request.topic
      · subst hname
        rw [hcreates.new, AList.lookup_erase]
      · rw [AList.lookup_erase_ne hname, AList.lookup_insert_ne hname]
  · rw [(handleCreateTopic_refuses (not_exists.mp hcreates) env).1]
    exact h

theorem handleDeleteTopic_inSync_iff (hs : s.broker.Sound) (h : s.InSync) (env : ServerEnv) :
    (s.handleDeleteTopic env request).1.InSync ↔
      ¬ ((∃ count, s.Deletes request count) ∧ env.delete.saved = true ∧
        env.delete.removed = false ∧ env.topicsResaved = false) := by
  by_cases hdeletes : ∃ count, s.Deletes request count
  · simp only [hdeletes, true_and]
    rcases hdeletes with ⟨count, hdeletes⟩
    cases hsaved : env.delete.saved with
    | false =>
        rw [handleDeleteTopic_unsaved hs hdeletes hsaved]
        refine iff_of_true (fun name count' => ?_) fun hno => Bool.false_ne_true hno.1
        rw [h name count', putBack_lookup hdeletes.found]
    | true =>
        cases hremoved : env.delete.removed with
        | true =>
            rw [handleDeleteTopic_deletes hs hdeletes hsaved hremoved]
            exact iff_of_true (fun name count' => mem_listTopics _ name count')
              fun hno => Bool.false_ne_true hno.2.1.symm
        | false =>
            rw [handleDeleteTopic_left hs hdeletes hsaved hremoved]
            cases hresaved : env.topicsResaved with
            | true =>
                exact iff_of_true (fun name count' => mem_listTopics _ name count')
                  fun hno => Bool.false_ne_true hno.2.2.symm
            | false =>
                refine iff_of_false (fun hsync => ?_) (not_not.mpr ⟨rfl, rfl, rfl⟩)
                -- The topic is in the table, and the file is without it.
                have hfile := (hsync request.topic count).mpr (by
                  rw [putBack_lookup hdeletes.found, hdeletes.found])
                have hdropped := (mem_listTopics _ _ _).mp hfile
                rw [AList.lookup_erase] at hdropped
                cases hdropped
  · rw [(handleDeleteTopic_refuses (not_exists.mp hdeletes) env).1]
    exact iff_of_true h fun hno => hdeletes hno.1

end Handlers

theorem handleCommitOffset_inSync {s : Server} (h : s.InSync) (env : ServerEnv)
    (request : Request) : (s.handleCommitOffset env request).1.InSync := by
  have hfile : (s.handleCommitOffset env request).1.topicsFile = s.topicsFile := by
    simp only [Server.handleCommitOffset]
    split
    · rfl
    · split <;> rfl
  unfold Server.InSync
  rw [(handleCommitOffset_sameTopics env).1, hfile]
  exact h

/-- Memory and file come apart in an event exactly when it diverges. -/
theorem exec_inSync_iff {s : Server} (event : ServerEvent) (h : s.Listed) (hsync : s.InSync) :
    (event.exec s).InSync ↔ ¬ event.Diverges s := by
  refine event.exec_iff (fun _ _ hsame => hsame.inSync) hsync h.published.restart_inSync ?_ ?_
  · rintro env request ⟨hdelete, _⟩
    rw [hdelete]
    decide
  · intro d hd env request hcommand
    have hsound : d.broker.Sound := by
      rw [hd.broker]
      exact h.sound.broker
    have hsync' := hd.sameMetadata.inSync.mpr hsync
    unfold Server.Diverges
    simp only [← (hd.handles _).2]
    simp only [metadataCommands, List.mem_cons, List.not_mem_nil, or_false] at hcommand
    rcases hcommand with hkind | hkind | hkind
    · simp only [Server.dispatch, hkind, reduceCtorEq, false_and, not_false_eq_true, iff_true]
      exact handleCreateTopic_inSync hsound hsync' env
    · simp only [Server.dispatch, hkind, true_and]
      exact handleDeleteTopic_inSync_iff hsound hsync' env
    · simp only [Server.dispatch, hkind, reduceCtorEq, false_and, not_false_eq_true, iff_true]
      exact handleCommitOffset_inSync hsync' env request

/-! ## Runs -/

theorem inSync_fresh (config : ServerConfig) : (Server.fresh config).InSync := by
  intro name count
  rw [Server.fresh, start_topics]
  exact ⟨fun h => absurd h List.not_mem_nil, fun h => nomatch h⟩

/-- The topics in memory are those in the file, and a broker that is started on
    what is left lists the same. -/
def Server.ListsAgree (s : Server) : Prop :=
  s.InSync ∧ ∀ config kept, (s.restart config kept).broker.listTopics = s.broker.listTopics

/-- Whatever else happens and whatever fails, the topics in memory are those in
    the file that was published last, and a restart lists the same ones, in all
    states of a run exactly when nothing in the run is a deletion whose log files
    cannot be removed and whose topic cannot be saved again. -/
theorem topics_in_sync_iff (config : ServerConfig) (events : List ServerEvent) :
    Always ServerEvent.exec Server.ListsAgree (Server.fresh config) events ↔
      Along ServerEvent.exec (fun s event => ¬ event.Diverges s) (Server.fresh config) events := by
  refine always_iff_along (Q := Server.Listed) (fun _ event hs => hs.exec event) ?_ events
    (listed_fresh config) ⟨inSync_fresh config,
      (inSync_fresh config).restart_listTopics (published_fresh config)⟩
  intro s event hs hagree
  rw [← exec_inSync_iff event hs hagree.1]
  exact and_iff_left_of_imp fun hsync => hsync.restart_listTopics (hs.exec event).published

/-- Topic "t" is deleted: its directory cannot be removed, and the list of topics
    cannot be saved again. -/
def deleteExample : ServerEvent :=
  .request { delete := { removed := false }, topicsResaved := false }
    { command := 0x02, topic := [116] }

/-- The topic that was created is in the table, and no longer in the file. -/
theorem topics_out_of_sync :
    ¬ ∀ (config : ServerConfig) (events : List ServerEvent),
      Always ServerEvent.exec Server.ListsAgree (Server.fresh config) events := by
  intro h
  have halong := h {} [createExample true, deleteExample]
  have hlisted := run_listed {} [createExample true]
  have hfound : ((createExample true).exec (Server.fresh {})).broker.topics.lookup [116]
      = some 1 := by
    rw [createExample_exec]
    decide +kernel
  refine ((exec_inSync_iff deleteExample hlisted halong.2.start.1).mp halong.2.2.start.1) ?_
  refine requests_request.mpr ⟨{ command := .deleteTopic, topic := [116] }, ?_, rfl,
    ⟨1, rfl, hfound⟩, rfl, rfl, rfl⟩
  exact ⟨.deleteTopic, rfl, by decide +kernel, by decide +kernel,
    Or.inr (Or.inl (by decide +kernel))⟩

end MqBroker
