import MqBroker.Server.Assignments
import MqBroker.Server.Offsets
import MqBroker.Storage.Paths

/-!
# Topics Next to a Deleted One

What the deletion of a topic leaves of the other topics: everything.

Three things keep the topics apart. The logs of a topic are in a directory that
no other topic has, since the name of the directory can be read back. The key of
a cached answer begins with the name of a topic and a separator, and the
separator is a control byte, which no valid name contains; so a key of one topic
does not begin like those of another one, also if the name of the topic does.
And offsets are compared by the whole name.

## Main definitions

* `Server.SameFor`: Nothing of a topic is different.

## Theorems

* `idempotencyKey_other`: The keys of a topic are not dropped with another one.
* `deleteTopic_other`: Nor are its logs.
* `delete_topic_isolated`: Deleting a topic leaves the other ones alone.
-/

namespace MqBroker

open Server

/-! ## Keys -/

/-- A valid name has no control bytes. -/
theorem separator_notMem_name {topic : Bytes} (h : isValidTopicName topic = true) :
    keySeparator ∉ topic := by
  intro hmem
  have hany : topic.any forbiddenTopicByte = true :=
    List.any_eq_true.mpr ⟨keySeparator, hmem, by decide⟩
  rw [isValidTopicName, hany] at h
  simp only [Bool.not_true, Bool.and_false, Bool.false_and, Bool.false_eq_true] at h

/-- The keys of a topic begin with the prefix of no other topic. -/
theorem idempotencyKey_other {topic u : Bytes} (hvalid : isValidTopicName u = true)
    (hne : u ≠ topic) (producerId sequence : UInt64) :
    ¬ topic ++ [keySeparator] <+: idempotencyKey u producerId sequence := by
  rintro ⟨rest, hkey⟩
  rw [List.append_assoc, List.singleton_append, idempotencyKey] at hkey
  have hfree : keySeparator ∉
      decimal producerId.toNat ++ 58 :: decimal sequence.toNat := by
    intro hmem
    rcases List.mem_append.mp hmem with hmem | hmem
    · exact separator_notMem_decimal _ hmem
    · rcases List.mem_cons.mp hmem with heq | hmem
      · exact absurd heq (by decide)
      · exact separator_notMem_decimal _ hmem
  -- The key has one separator, so it is the one of the prefix.
  exact hne ((List.append_cons_inj_of_notMem (separator_notMem_name hvalid) hfree).mp
    hkey.symm).1

/-! ## Logs -/

section Logs

variable (e : StorageEngine) (env : DeleteEnv) {topic u : Bytes}

/-- When the engine deletes a topic, the directory is what it removes. -/
theorem deleteTopic_disk (hvalid : isValidTopicName topic = true) (hremoved : env.removed = true) :
    (e.deleteTopic env topic).1.disk = removeAll (topicDirectory topic) e.disk := by
  rw [StorageEngine.deleteTopic, if_neg (not_not.mpr hvalid), if_pos hremoved]
  exact disk_filterKeys e topic

/-- The other topics keep their partitions and their files, whether the directory
    could be removed or not. -/
theorem deleteTopic_other (hne : u ≠ topic) :
    (∀ n, (e.deleteTopic env topic).1.partition u n = e.partition u n) ∧
      filesUnder (topicDirectory u) (e.deleteTopic env topic).1.disk
        = filesUnder (topicDirectory u) e.disk := by
  by_cases hvalid : isValidTopicName topic = true
  · by_cases hremoved : env.removed = true
    · refine ⟨fun n => ?_, ?_⟩
      · rw [(deleteTopic_removed e hvalid hremoved).2, if_neg hne]
      · rw [deleteTopic_disk e env hvalid hremoved, filesUnder_removeAll hne]
    · refine ⟨fun n => ?_, ?_⟩
      · rw [(deleteTopic_left e hvalid hremoved).2, if_neg hne]
      · rw [StorageEngine.deleteTopic, if_neg (not_not.mpr hvalid), if_neg hremoved]
        refine filesUnder_mapEntries e fun n p => ?_
        exact if_neg hne
  · rw [StorageEngine.deleteTopic, if_pos hvalid]
    exact ⟨fun n => rfl, rfl⟩

end Logs

/-! ## Other topics -/

/-- Nothing of a topic is different: it is there with as many partitions, and with
    the same messages, offsets, answers and files. -/
structure Server.SameFor (s s' : Server) (u : Bytes) : Prop where
  found : s'.broker.topics.lookup u = s.broker.topics.lookup u
  partitions : ∀ n, s'.broker.storage.partition u n = s.broker.storage.partition u n
  offsets : ∀ group n, s'.committed group u n = s.committed group u n
  answers : ∀ producerId sequence,
    s'.broker.idempotencyCache.lookup (idempotencyKey u producerId sequence)
      = s.broker.idempotencyCache.lookup (idempotencyKey u producerId sequence)
  files : filesUnder (topicDirectory u) s'.broker.storage.disk
    = filesUnder (topicDirectory u) s.broker.storage.disk

theorem Server.SameFor.refl (s : Server) (u : Bytes) : s.SameFor s u :=
  ⟨rfl, fun _ => rfl, fun _ _ => rfl, fun _ _ => rfl, rfl⟩

theorem Server.SameFor.trans {s s' s'' : Server} {u : Bytes} (h : s.SameFor s' u)
    (h' : s'.SameFor s'' u) : s.SameFor s'' u :=
  ⟨h'.found.trans h.found, fun n => (h'.partitions n).trans (h.partitions n),
    fun group n => (h'.offsets group n).trans (h.offsets group n),
    fun producerId sequence => (h'.answers producerId sequence).trans
      (h.answers producerId sequence), h'.files.trans h.files⟩

theorem Server.Counts.sameFor {s s' : Server} (h : s.Counts s') (u : Bytes) : s.SameFor s' u := by
  rcases h with ⟨_, _, _, _, rfl⟩
  exact ⟨rfl, fun _ => rfl, fun _ _ => rfl, fun _ _ => rfl, rfl⟩

/-- The handler leaves the other topics alone, however far it gets. -/
theorem handleDeleteTopic_sameFor {s : Server} (hs : s.broker.Sound) (env : ServerEnv)
    {request : Request} {u : Bytes} (hvalid : isValidTopicName u = true)
    (hne : u ≠ request.topic) : s.SameFor (s.handleDeleteTopic env request).1 u := by
  by_cases hdeletes : ∃ count, s.Deletes request count
  · rcases hdeletes with ⟨count, hdeletes⟩
    rcases deleteTopic_other s.broker.storage env.delete hne with ⟨hpartition, hfiles⟩
    cases hsaved : env.delete.saved with
    | false =>
        rw [handleDeleteTopic_unsaved hs hdeletes hsaved]
        exact ⟨putBack_lookup hdeletes.found u, fun _ => rfl, fun _ _ => rfl, fun _ _ => rfl, rfl⟩
    | true =>
        cases hremoved : env.delete.removed with
        | false =>
            rw [handleDeleteTopic_left hs hdeletes hsaved hremoved]
            exact ⟨putBack_lookup hdeletes.found u, hpartition, fun _ _ => rfl, fun _ _ => rfl,
              hfiles⟩
        | true =>
            rw [handleDeleteTopic_deletes hs hdeletes hsaved hremoved]
            refine ⟨AList.lookup_erase_ne hne, hpartition, fun group n => ?_,
              fun producerId sequence => ?_, hfiles⟩
            · rw [committed_eq, committedIn_filter, if_neg hne, committed_eq]
            · rw [Table.lookup_filterKeys, if_pos]
              exact decide_eq_true (idempotencyKey_other hvalid hne producerId sequence)
  · rw [(handleDeleteTopic_refuses (not_exists.mp hdeletes) env).1]
    exact .refl s u

/-- In whatever state a broker is: a request to delete a topic leaves every other
    valid topic as it was. -/
theorem delete_topic_isolated (config : ServerConfig) (events : List ServerEvent)
    (env : ServerEnv) {r : RawRequest} (hcommand : Command.ofCode r.command = some .deleteTopic)
    {u : Bytes} (hvalid : isValidTopicName u = true) (hne : u ≠ r.topic) :
    ((Server.fresh config).run events).SameFor
      (((Server.fresh config).run events).serve env r).1 u := by
  have hsound := run_sound config events
  generalize (Server.fresh config).run events = s at *
  rcases serve_cases s env r with ⟨_, hcounts, _⟩ | ⟨normalized, d, hhandles, hd, hcounts, _⟩
  · exact hcounts.sameFor u
  · have hdelete : normalized.command = .deleteTopic :=
      Option.some.inj (hhandles.command.symm.trans hcommand)
    have hbroker : d.broker.Sound := by
      rw [hd.broker]
      exact hsound.broker
    simp only [Server.dispatch, hdelete] at hcounts
    rw [← hhandles.topic] at hne
    exact ((hd.sameFor u).trans (handleDeleteTopic_sameFor hbroker env hvalid hne)).trans
      (hcounts.sameFor u)

/-- A topic whose name begins with that of the deleted one. -/
theorem delete_topic_isolated_prefix :
    ((Server.fresh {}).run [createExample true]).SameFor
      (((Server.fresh {}).run [createExample true]).serve {}
        { command := 0x02, topic := [116] }).1 [116, 116] :=
  delete_topic_isolated {} [createExample true] {} rfl (by decide) (by decide)

end MqBroker
