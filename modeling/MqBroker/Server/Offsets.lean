import MqBroker.Lib.Upsert
import MqBroker.Server.Topics

/-!
# Committed Offsets

What a group has committed, and what a commit does that is refused.

The offsets are a list of records with a group, a topic and a partition as the
key. A commit writes its record into the list in memory and then saves the whole
list. The list is not put back when that fails. So a commit that is answered
with an error can still move its group, until the broker is started again. And
when it brings the list to one record more than can be saved, all later commits
fail with it, those of other groups too.

## Main definitions

* `committedIn`: What a list of offsets has for a key.
* `Server.KeepsOffsets`: Nothing has happened to the committed offsets.
* `Server.Harmless`: A commit would change nothing that anybody sees.

## Theorems

* `committedIn_setOffset`: What a list has after an offset was set.
* `Server.OffsetsFit.exec`: The names in the list can be saved.
* `rejected_commit_iff`: When a refused commit changes nothing.
-/

namespace MqBroker

open Traced Server

/-! ## Lists of offsets -/

/-- A group, a topic and a partition. -/
abbrev OffsetKey := Bytes × Bytes × UInt32

def ConsumerOffset.key (item : ConsumerOffset) : OffsetKey :=
  (item.group, item.topic, item.partition)

/-- What a list of offsets has for a key. -/
def committedIn (offsets : List ConsumerOffset) (k : OffsetKey) : Option UInt64 :=
  (findKey ConsumerOffset.key k offsets).map ConsumerOffset.offset

/-- The names of a record have sizes of 16 bits. -/
def ConsumerOffset.Fits (item : ConsumerOffset) : Prop :=
  item.group.length ≤ 65535 ∧ item.topic.length ≤ 65535

theorem committed_eq (s : Server) (group topic : Bytes) (partition : UInt32) :
    s.committed group topic partition = committedIn s.consumerOffsets (group, topic, partition) := by
  simp only [Server.committed, committedIn, findKey, ConsumerOffset.key, Prod.mk.injEq]

theorem setOffset_eq (group topic : Bytes) (partition : UInt32) (offset : UInt64)
    (offsets : List ConsumerOffset) :
    setOffset group topic partition offset offsets
      = upsert ConsumerOffset.key ⟨group, topic, partition, offset⟩ offsets := by
  induction offsets with
  | nil => rfl
  | cons item rest ih =>
      rw [setOffset, upsert, ih]
      simp only [ConsumerOffset.key, Prod.mk.injEq]
      -- The record keeps its names, which are those that are looked for.
      split
      · rename_i hkey
        rcases hkey with ⟨rfl, rfl, rfl⟩
        rfl
      · rfl

section SetOffset

variable (group topic : Bytes) (partition : UInt32) (offset : UInt64)
  (offsets : List ConsumerOffset)

theorem committedIn_setOffset (k : OffsetKey) :
    committedIn (setOffset group topic partition offset offsets) k
      = if (group, topic, partition) = k then some offset else committedIn offsets k := by
  rw [setOffset_eq, committedIn, findKey_upsert]
  exact apply_ite (Option.map ConsumerOffset.offset) _ _ _

theorem length_setOffset :
    (setOffset group topic partition offset offsets).length
      = if committedIn offsets (group, topic, partition) = none then offsets.length + 1
        else offsets.length := by
  rw [setOffset_eq, length_upsert]
  simp only [committedIn, Option.map_eq_none_iff]
  rfl

variable {group topic partition offset offsets}

theorem setOffset_fits (hfits : ∀ item ∈ offsets, item.Fits) (hgroup : group.length ≤ 65535)
    (htopic : topic.length ≤ 65535) :
    ∀ item ∈ setOffset group topic partition offset offsets, item.Fits := by
  rw [setOffset_eq]
  intro item hitem
  rcases mem_upsert hitem with rfl | hitem
  · exact ⟨hgroup, htopic⟩
  · exact hfits item hitem

end SetOffset

/-- Deleting a topic drops its offsets and no others. -/
theorem committedIn_filter (offsets : List ConsumerOffset) (topic : Bytes) (k : OffsetKey) :
    committedIn (offsets.filter (fun item => item.topic ≠ topic)) k
      = if k.2.1 = topic then none else committedIn offsets k := by
  unfold committedIn
  have hkey : ∀ item : ConsumerOffset, item.key = k → item.topic = k.2.1 := by
    rintro item rfl
    rfl
  split
  · rename_i htopic
    rw [findKey_filter_drop fun item hitem => decide_eq_false
      (not_not.mpr ((hkey item hitem).trans htopic))]
    rfl
  · rename_i htopic
    rw [findKey_filter_keep fun item hitem => decide_eq_true
      (by rw [hkey item hitem]; exact htopic)]

/-- A record that is found has names that fit. -/
theorem committedIn_fits {offsets : List ConsumerOffset} (hfits : ∀ item ∈ offsets, item.Fits)
    {k : OffsetKey} (h : committedIn offsets k ≠ none) :
    k.1.length ≤ 65535 ∧ k.2.1.length ≤ 65535 := by
  rw [committedIn, ne_eq, Option.map_eq_none_iff] at h
  rcases Option.ne_none_iff_exists'.mp h with ⟨item, hitem⟩
  rcases findKey_some hitem with ⟨hmem, rfl⟩
  exact hfits item hmem

/-- A list of such records can be saved when it is not too long. -/
theorem offsetsSavable_of_fits {offsets : List ConsumerOffset}
    (h : ∀ item ∈ offsets, item.Fits) :
    offsetsSavable offsets = decide (offsets.length ≤ 100000) := by
  have hall : offsets.all (fun item => item.group.length ≤ 65535 && item.topic.length ≤ 65535)
      = true := by
    rw [List.all_eq_true]
    intro item hitem
    rw [Bool.and_eq_true, decide_eq_true_eq, decide_eq_true_eq]
    exact h item hitem
  rw [offsetsSavable, hall, Bool.and_true]

theorem fits_of_offsetsSavable {offsets : List ConsumerOffset} (h : offsetsSavable offsets = true) :
    ∀ item ∈ offsets, item.Fits := by
  rw [offsetsSavable, Bool.and_eq_true, List.all_eq_true] at h
  intro item hitem
  have hsizes := h.2 item hitem
  rw [Bool.and_eq_true, decide_eq_true_eq, decide_eq_true_eq] at hsizes
  exact hsizes

/-! ## Commits -/

/-- A commit that can be read has a group, and a partition of a topic. -/
theorem readCommitOffset_ok {b : Broker} {topic payload group : Bytes} {partition : UInt32}
    {offset : UInt64}
    (h : (b.readCommitOffset topic payload).result = .ok (group, partition, offset)) :
    group ≠ [] ∧ group.length ≤ 65535 ∧
      ∃ requested, b.resolvePartition topic requested [] = .ok partition := by
  simp only [Broker.readCommitOffset, result_takeBytes_bind, result_read16_bind,
    result_check_bind, result_read32_bind, result_read64_bind] at h
  split at h
  · split at h
    · rename_i hgroup
      split at h
      · split at h
        · split at h
          · split at h
            · rename_i hnamed
              rcases result_bind_eq_ok h with ⟨resolved, hresolved, hrest⟩
              rw [result_copy_bind] at hrest
              have heq := Except.ok.inj hrest
              simp only [Prod.mk.injEq] at heq
              rcases heq with ⟨rfl, rfl, _⟩
              have hlength := length_substr payload (0 + 2) _ hgroup
              refine ⟨fun hempty => ?_, ?_, get32 payload (0 + 2 + (get16 payload 0).toNat), ?_⟩
              · rw [hempty] at hlength
                exact hnamed.1 hlength.symm
              · rw [hlength]
                exact Nat.le_of_lt_succ (UInt16.toNat_lt _)
              · unfold Broker.resolveStep at hresolved
                split at hresolved
                · cases hresolved
                · cases hresolved
                · rename_i hfound
                  rw [hfound, Except.ok.inj hresolved]
            · cases h
          · cases h
        · cases h
      · cases h
    · cases h
  · cases h

/-- The topic of a commit exists. -/
theorem readCommitOffset_topic {b : Broker} (hb : b.Sound) {topic payload group : Bytes}
    {partition : UInt32} {offset : UInt64}
    (h : (b.readCommitOffset topic payload).result = .ok (group, partition, offset)) :
    ∃ count, b.topics.lookup topic = some count ∧ partition < count := by
  rcases readCommitOffset_ok h with ⟨_, _, requested, hresolve⟩
  exact resolvePartition_lt (fun count hcount => (hb.topics topic count hcount).2.1) hresolve

theorem readCommitOffset_error {b : Broker} {topic payload : Bytes} {status : Status}
    (h : (b.readCommitOffset topic payload).result = .error status) : status ≠ .ok := by
  simp only [Broker.readCommitOffset, result_takeBytes_bind, result_read16_bind,
    result_check_bind, result_read32_bind, result_read64_bind] at h
  split at h
  · split at h
    · split at h
      · split at h
        · split at h
          · split at h
            · unfold Broker.resolveStep at h
              split at h
              · cases h
                decide
              · cases h
                decide
              · cases h
            · cases h
              decide
          · cases h
            decide
        · cases h
          decide
      · cases h
        decide
    · cases h
      decide
  · cases h
    decide

/-- A commit is answered with `kOk` when its list has been saved. -/
theorem handleCommitOffset_ok_iff (s : Server) (env : ServerEnv) (request : Request) :
    (s.handleCommitOffset env request).2.status = .ok ↔
      ∃ group partition offset,
        (s.broker.readCommitOffset request.topic request.payload).result
          = .ok (group, partition, offset) ∧ env.offsetsSaved = true ∧
        offsetsSavable (setOffset group request.topic partition offset s.consumerOffsets)
          = true := by
  cases hread : (s.broker.readCommitOffset request.topic request.payload).result with
  | error status =>
      simp only [Server.handleCommitOffset, hread]
      exact iff_of_false (error_status (readCommitOffset_error hread))
        (by rintro ⟨_, _, _, ⟨⟩, _⟩)
  | ok read =>
      rcases read with ⟨group, partition, offset⟩
      simp only [Server.handleCommitOffset, hread, Except.ok.injEq, Prod.mk.injEq]
      by_cases hsaved : (env.offsetsSaved && offsetsSavable
          (setOffset group request.topic partition offset s.consumerOffsets)) = true
      · rw [if_pos hsaved]
        rw [Bool.and_eq_true] at hsaved
        exact iff_of_true rfl ⟨group, partition, offset, ⟨rfl, rfl, rfl⟩, hsaved⟩
      · rw [if_neg hsaved]
        refine iff_of_false (error_status (by decide)) ?_
        rintro ⟨_, _, _, ⟨rfl, rfl, rfl⟩, hsaved'⟩
        exact hsaved (Bool.and_eq_true_iff.mpr hsaved')

/-! ## Names that fit -/

/-- The names in the list of a broker have sizes of 16 bits. -/
def Server.OffsetsFit (s : Server) : Prop := ∀ item ∈ s.consumerOffsets, item.Fits

section Fit

variable {s : Server}

theorem handleCreateTopic_consumerOffsets (env : ServerEnv) (request : Request) :
    (s.handleCreateTopic env request).1.consumerOffsets = s.consumerOffsets ∧
      (s.handleCreateTopic env request).1.offsetsFile = s.offsetsFile := by
  simp only [Server.handleCreateTopic]
  split <;> exact ⟨rfl, rfl⟩

theorem handleDeleteTopic_consumerOffsets (env : ServerEnv) (request : Request) :
    (s.handleDeleteTopic env request).1.consumerOffsets = s.consumerOffsets ∨
      (s.handleDeleteTopic env request).1.consumerOffsets
        = s.consumerOffsets.filter (fun item => item.topic ≠ request.topic) := by
  simp only [Server.handleDeleteTopic]
  split
  · exact Or.inl rfl
  · split
    · exact Or.inl rfl
    · exact Or.inr rfl

/-- A commit leaves the list alone or sets one offset, of a topic that exists. -/
theorem handleCommitOffset_consumerOffsets (env : ServerEnv) (request : Request) :
    (s.handleCommitOffset env request).1.consumerOffsets = s.consumerOffsets ∨
      ∃ group partition offset,
        (s.broker.readCommitOffset request.topic request.payload).result
          = .ok (group, partition, offset) ∧
        (s.handleCommitOffset env request).1.consumerOffsets
          = setOffset group request.topic partition offset s.consumerOffsets := by
  cases hread : (s.broker.readCommitOffset request.topic request.payload).result with
  | error status =>
      simp only [Server.handleCommitOffset, hread]
      exact Or.inl trivial
  | ok read =>
      rcases read with ⟨group, partition, offset⟩
      refine Or.inr ⟨group, partition, offset, rfl, ?_⟩
      simp only [Server.handleCommitOffset, hread]
      split <;> rfl

/-- A commit has names that fit. -/
theorem readCommitOffset_fits {b : Broker} (hb : b.Sound) {topic payload group : Bytes}
    {partition : UInt32} {offset : UInt64}
    (h : (b.readCommitOffset topic payload).result = .ok (group, partition, offset)) :
    group.length ≤ 65535 ∧ topic.length ≤ 65535 := by
  rcases readCommitOffset_topic hb h with ⟨count, hcount, _⟩
  have htopic := isValidTopicName_length (hb.topics topic count hcount).1
  exact ⟨(readCommitOffset_ok h).2.1, by omega⟩

theorem Server.OffsetsFit.exec (h : s.OffsetsFit) (hs : s.Listed) (event : ServerEvent) :
    (event.exec s).OffsetsFit := by
  rcases event.exec_cases s with hsame | ⟨config, kept, rfl⟩ |
    ⟨env, r, normalized, d, rfl, _, hcommand, hd, hcounts⟩
  · unfold Server.OffsetsFit
    rw [hsame.consumerOffsets]
    exact h
  · rcases hs.published.restart_eq config kept with ⟨table, _, _, heq⟩
    rw [ServerEvent.exec, heq]
    exact fits_of_offsetsSavable hs.published.offsets
  · have hbroker : d.broker.Sound := by
      rw [hd.broker]
      exact hs.sound.broker
    have hfits : d.OffsetsFit := by
      unfold Server.OffsetsFit
      rw [hd.sameMetadata.consumerOffsets]
      exact h
    unfold Server.OffsetsFit
    rw [hcounts.sameMetadata.consumerOffsets]
    simp only [metadataCommands, List.mem_cons, List.not_mem_nil, or_false] at hcommand
    rcases hcommand with hkind | hkind | hkind
    · simp only [Server.dispatch, hkind, (handleCreateTopic_consumerOffsets env normalized).1]
      exact hfits
    · simp only [Server.dispatch, hkind]
      rcases @handleDeleteTopic_consumerOffsets d env normalized with hsame | hdropped
      · rw [hsame]
        exact hfits
      · rw [hdropped]
        exact fun item hitem => hfits item (List.mem_of_mem_filter hitem)
    · simp only [Server.dispatch, hkind]
      rcases @handleCommitOffset_consumerOffsets d env normalized with
        hsame | ⟨group, partition, offset, hread, hset⟩
      · rw [hsame]
        exact hfits
      · rw [hset]
        rcases readCommitOffset_fits hbroker hread with ⟨hgroup, htopic⟩
        exact setOffset_fits hfits hgroup htopic

end Fit

theorem run_offsetsFit (config : ServerConfig) (events : List ServerEvent) :
    ((Server.fresh config).run events).OffsetsFit := by
  have hboth : ((Server.fresh config).run events).Listed ∧
      ((Server.fresh config).run events).OffsetsFit := by
    refine List.foldlRecOn (motive := fun s : Server => s.Listed ∧ s.OffsetsFit) _ _
      ⟨listed_fresh config, fun _ hitem => absurd hitem List.not_mem_nil⟩ ?_
    intro s hs event _
    exact ⟨hs.1.exec event, hs.2.exec hs.1 event⟩
  exact hboth.2

/-! ## Refused commits -/

/-- Nothing has happened to the committed offsets: `OFFSET_FETCH` answers the
    same, a fetch starts at the same place, and a list that could be saved with
    an offset of somebody who has one can still be saved with it. -/
structure Server.KeepsOffsets (s s' : Server) : Prop where
  fetched : ∀ request, s'.handleOffsetFetch request = s.handleOffsetFetch request
  started : ∀ call topic partition,
    s'.fetchStart call topic partition = s.fetchStart call topic partition
  later : ∀ group topic partition offset, s.committed group topic partition ≠ none →
    offsetsSavable (setOffset group topic partition offset s.consumerOffsets) = true →
    offsetsSavable (setOffset group topic partition offset s'.consumerOffsets) = true

/-- A commit would set the offset that its group is answered already, and not
    bring the list over what can be saved. -/
def Server.Harmless (s : Server) (k : OffsetKey) (offset : UInt64) : Prop :=
  (committedIn s.consumerOffsets k).getD 0 = offset ∧
    (committedIn s.consumerOffsets k = none → s.consumerOffsets.length ≠ 100000)

theorem Server.Counts.keepsOffsets {s d d' s' : Server} (h : s.Counts d) (h' : d'.Counts s') :
    s.KeepsOffsets s' ↔ d.KeepsOffsets d' := by
  rcases h with ⟨_, _, _, _, rfl⟩
  rcases h' with ⟨_, _, _, _, rfl⟩
  exact ⟨fun hkeeps => ⟨hkeeps.fetched, hkeeps.started, hkeeps.later⟩,
    fun hkeeps => ⟨hkeeps.fetched, hkeeps.started, hkeeps.later⟩⟩

theorem Server.KeepsOffsets.refl (s : Server) : s.KeepsOffsets s :=
  ⟨fun _ => rfl, fun _ _ _ => rfl, fun _ _ _ _ _ h => h⟩

/-- A group that has committed nothing is treated like one that has committed
    0. -/
theorem fetchStart_eq (s : Server) {call : FetchCall} (hgroup : call.group ≠ []) (topic : Bytes)
    (partition : UInt32) :
    s.fetchStart call topic partition
      = max call.offset ((s.committed call.group topic partition).getD 0) := by
  rw [Server.fetchStart, if_neg hgroup]
  cases s.committed call.group topic partition with
  | none => exact (max_eq_left UInt64.zero_le).symm
  | some offset => rfl

/-- Setting an offset that is there already does not make the list longer. -/
theorem savable_setOffset {offsets : List ConsumerOffset} (hfits : ∀ item ∈ offsets, item.Fits)
    {group topic : Bytes} {partition : UInt32}
    (hknown : committedIn offsets (group, topic, partition) ≠ none) (offset : UInt64) :
    offsetsSavable (setOffset group topic partition offset offsets)
      = decide (offsets.length ≤ 100000) := by
  rcases committedIn_fits hfits hknown with ⟨hgroup, htopic⟩
  rw [offsetsSavable_of_fits (setOffset_fits hfits hgroup htopic), length_setOffset,
    if_neg hknown]

/-- Setting an offset changes nothing that anybody sees exactly when it is
    harmless. -/
theorem keepsOffsets_iff {s s' : Server} (hfits : s.OffsetsFit) {group topic : Bytes}
    {partition : UInt32} {offset : UInt64} (hgroup : group ≠ [])
    (hsizes : group.length ≤ 65535 ∧ topic.length ≤ 65535) (hbroker : s'.broker = s.broker)
    (hset : s'.consumerOffsets = setOffset group topic partition offset s.consumerOffsets) :
    s.KeepsOffsets s' ↔ s.Harmless (group, topic, partition) offset := by
  have hfits' : ∀ item ∈ s'.consumerOffsets, item.Fits := by
    rw [hset]
    exact setOffset_fits hfits hsizes.1 hsizes.2
  have hget : ∀ k, committedIn s'.consumerOffsets k
      = if (group, topic, partition) = k then some offset
        else committedIn s.consumerOffsets k := by
    intro k
    rw [hset, committedIn_setOffset]
  have hlength := length_setOffset group topic partition offset s.consumerOffsets
  rw [← hset] at hlength
  constructor
  · intro hkeeps
    refine ⟨?_, fun hnone hfull => ?_⟩
    · -- What the group itself is told at its next fetch.
      have hstart := hkeeps.started
        { partition := partition, group := group, offset := 0, maxBytes := 0 } topic partition
      rw [fetchStart_eq s' hgroup, fetchStart_eq s hgroup, committed_eq, committed_eq, hget,
        if_pos rfl, max_eq_right UInt64.zero_le, max_eq_right UInt64.zero_le] at hstart
      exact hstart.symm
    · -- The first record of the full list belongs to somebody.
      rcases List.exists_cons_of_length_pos (show 0 < s.consumerOffsets.length by omega) with
        ⟨item, rest, hcons⟩
      have hfirst : committedIn s.consumerOffsets (item.group, item.topic, item.partition)
          ≠ none := by
        rw [hcons, committedIn, findKey_cons,
          if_pos (show item.key = (item.group, item.topic, item.partition) from rfl)]
        exact Option.some_ne_none _
      have hfirst' : committedIn s'.consumerOffsets (item.group, item.topic, item.partition)
          ≠ none := by
        rw [hget]
        split
        · exact Option.some_ne_none _
        · exact hfirst
      have hlater := hkeeps.later item.group item.topic item.partition 0
        (by rw [committed_eq]; exact hfirst)
        (by rw [savable_setOffset hfits hfirst, decide_eq_true_eq]; omega)
      rw [savable_setOffset hfits' hfirst', decide_eq_true_eq, hlength, if_pos hnone] at hlater
      omega
  · rintro ⟨hsame, hroom⟩
    have hgetD : ∀ g t p, (s'.committed g t p).getD 0 = (s.committed g t p).getD 0 := by
      intro g t p
      rw [committed_eq, committed_eq, hget]
      split
      · rename_i hkey
        rw [← hkey, hsame]
        rfl
      · rfl
    refine ⟨fun request => ?_, fun call t p => ?_, fun g t p o hknown hsavable => ?_⟩
    · simp only [Server.handleOffsetFetch, hbroker, hgetD]
    · by_cases hcall : call.group = []
      · rw [Server.fetchStart, Server.fetchStart, if_pos hcall, if_pos hcall]
      · rw [fetchStart_eq s' hcall, fetchStart_eq s hcall, hgetD]
    · rw [committed_eq] at hknown
      have hknown' : committedIn s'.consumerOffsets (g, t, p) ≠ none := by
        rw [hget]
        split
        · exact Option.some_ne_none _
        · exact hknown
      rw [savable_setOffset hfits hknown, decide_eq_true_eq] at hsavable
      rw [savable_setOffset hfits' hknown', decide_eq_true_eq, hlength]
      split
      · rename_i hnone
        have hfull := hroom hnone
        omega
      · exact hsavable

/-- What a refused commit does is seen by nobody exactly when it is refused
    before the list is touched, or harmless. -/
theorem handleCommitOffset_keeps_iff {s : Server} (hs : s.broker.Sound) (hfits : s.OffsetsFit)
    (env : ServerEnv) (request : Request) :
    s.KeepsOffsets (s.handleCommitOffset env request).1 ↔
      ∀ group partition offset,
        (s.broker.readCommitOffset request.topic request.payload).result
          = .ok (group, partition, offset) →
        s.Harmless (group, request.topic, partition) offset := by
  cases hread : (s.broker.readCommitOffset request.topic request.payload).result with
  | error status =>
      simp only [Server.handleCommitOffset, hread]
      exact iff_of_true (.refl s) (by rintro _ _ _ ⟨⟩)
  | ok read =>
      rcases read with ⟨group, partition, offset⟩
      have hset : (s.handleCommitOffset env request).1.consumerOffsets
          = setOffset group request.topic partition offset s.consumerOffsets := by
        simp only [Server.handleCommitOffset, hread]
        split <;> rfl
      rw [keepsOffsets_iff hfits (readCommitOffset_ok hread).1 (readCommitOffset_fits hs hread)
        (handleCommitOffset_sameTopics env).1 hset]
      constructor
      · rintro hharmless _ _ _ hok
        cases hok
        exact hharmless
      · exact fun h => h group partition offset rfl

/-- In whatever state a broker is: a commit that is not answered with `kOk` leaves
    the committed offsets alone exactly when it was refused before the list of
    offsets was touched, or would have set what its group is answered already
    without making the list too long. -/
theorem rejected_commit_iff (config : ServerConfig) (events : List ServerEvent) (env : ServerEnv)
    (r : RawRequest) (hcommand : r.command = Command.commitOffset.code)
    (_hrejected : (((Server.fresh config).run events).serve env r).2.status ≠ Status.ok.code) :
    ((Server.fresh config).run events).KeepsOffsets
        (((Server.fresh config).run events).serve env r).1 ↔
      ∀ normalized group partition offset,
        ((Server.fresh config).run events).Handles r normalized →
        (((Server.fresh config).run events).broker.readCommitOffset normalized.topic
          normalized.payload).result = .ok (group, partition, offset) →
        ((Server.fresh config).run events).Harmless (group, normalized.topic, partition)
          offset := by
  have hsound := run_sound config events
  have hfits := run_offsetsFit config events
  generalize (Server.fresh config).run events = s at *
  rcases serve_cases s env r with
    ⟨hno, hcounts, _⟩ | ⟨normalized, d, hhandles, hd, hcounts, _⟩
  · refine iff_of_true ?_ fun normalized _ _ _ hhandles => absurd hhandles (hno normalized)
    exact ((Server.Counts.refl s).keepsOffsets hcounts).mpr (.refl s)
  · have hkind : normalized.command = .commitOffset := by
      have hcode := hhandles.command
      rw [hcommand, ofCode_code] at hcode
      exact (Option.some.inj hcode).symm
    have hhandler : d.KeepsOffsets (d.handleCommitOffset env normalized).1 ↔
        ∀ group partition offset,
          (s.broker.readCommitOffset normalized.topic normalized.payload).result
            = .ok (group, partition, offset) →
          s.Harmless (group, normalized.topic, partition) offset := by
      rcases hd with ⟨requests, produces, fetches, errors, rfl⟩
      exact @handleCommitOffset_keeps_iff
        { s with
          requestCount := requests
          produceCount := produces
          fetchCount := fetches
          errorCount := errors } hsound.broker hfits env normalized
    rw [hd.keepsOffsets hcounts]
    simp only [Server.dispatch, hkind]
    rw [hhandler]
    constructor
    · intro h normalized' group partition offset hhandles' hread
      rw [hhandles'.unique hhandles] at hread ⊢
      exact h group partition offset hread
    · exact fun h group partition offset hread => h normalized group partition offset hhandles hread

/-- Group "g" commits 5 for the first partition of topic "t". -/
def commitExample : RawRequest :=
  { command := 0x23
    topic := [116]
    payload := put16 1 ++ [103] ++ put32 0 ++ put64 5 }

/-- The commit gets to its handler in a broker without a token. -/
theorem commitExample_handles {s : Server} (hopened : s.opened = true)
    (htoken : s.clientAuthToken = []) :
    s.Handles commitExample (commitExample.request .commitOffset) := by
  refine ⟨.commitOffset, by decide, hopened, ?_, Or.inr (Or.inl htoken)⟩
  rw [htoken]
  rfl

/-- The topic does not exist, and nothing happens. -/
theorem rejected_commit_unknown :
    (Server.fresh {}).KeepsOffsets ((Server.fresh {}).serve {} commitExample).1 := by
  refine (rejected_commit_iff {} [] {} commitExample rfl (by decide +kernel)).mpr ?_
  intro normalized group partition offset hhandles hread
  rw [hhandles.unique (commitExample_handles rfl rfl)] at hread
  have herror : ((Server.fresh {}).broker.readCommitOffset commitExample.topic
      commitExample.payload).result = .error .unknownTopic := by
    decide +kernel
  exact absurd (hread.symm.trans herror) (fun h => nomatch h)

/-- The topic exists and the offset cannot be saved. The next fetch of the group
    starts at 5 all the same. -/
theorem rejected_commit_moves :
    ¬ ∀ (config : ServerConfig) (events : List ServerEvent) (env : ServerEnv) (r : RawRequest),
      r.command = Command.commitOffset.code →
      (((Server.fresh config).run events).serve env r).2.status ≠ Status.ok.code →
      ((Server.fresh config).run events).KeepsOffsets
        (((Server.fresh config).run events).serve env r).1 := by
  intro h
  have hexec : (Server.fresh {}).run [createExample true] = _ := createExample_exec
  have hkeeps := h {} [createExample true] { offsetsSaved := false } commitExample rfl
  rw [hexec] at hkeeps
  have hstart := (hkeeps (by decide +kernel)).started
    { partition := 0, group := [103], offset := 0, maxBytes := 1 } [116] 0
  exact absurd hstart (by decide +kernel)

end MqBroker
