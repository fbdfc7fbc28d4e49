import MqBroker.Server.Offsets

/-!
# Committed Offsets as a Map

That a broker answers `OFFSET_FETCH` with what was committed last.

What a run means for the committed offsets is written down in a history of
marks, one for each commit and each topic created that was answered with `kOk`.
The history alone says what every key has: the offset of the last commit for it,
back to where its topic was created. The broker does not have the history. It
has a list in memory and a list in a file, drops records when a topic is deleted
and reads the file again when it is started. As long as everything can be saved
it answers what the history says.

## Main definitions

* `OffsetMark`: A commit, or a new topic.
* `lastCommit`: What a history says about a key.
* `Server.history`: The history of a run.
* `Server.Saves`: Everything can be saved.
* `Server.Follows`: A broker goes by a history.

## Theorems

* `Server.Follows.exec`: It still does after an event.
* `committed_last`: It does so in every run, and answers by it.
-/

namespace MqBroker

open Traced Server

/-! ## Histories -/

/-- What has happened to the committed offsets. -/
inductive OffsetMark
  /-- A group has committed an offset. -/
  | commit (group topic : Bytes) (partition : UInt32) (offset : UInt64)
  /-- A topic was created. -/
  | created (topic : Bytes)
deriving DecidableEq, Repr

/-- The offset that was committed last for a key since its topic was created,
    and 0 if there is none. The newest mark is the first. -/
def lastCommit (k : OffsetKey) : List OffsetMark → UInt64
  | [] => 0
  | .commit group topic partition offset :: older =>
      if (group, topic, partition) = k then offset else lastCommit k older
  | .created topic :: older => if topic = k.2.1 then 0 else lastCommit k older

/-- What a request means for the offsets when it is answered with `kOk`. -/
def Broker.offsetMarks (b : Broker) (request : Request) : List OffsetMark :=
  match request.command with
  | .createTopic => [.created request.topic]
  | .commitOffset =>
      match (b.readCommitOffset request.topic request.payload).result with
      | .error _ => []
      | .ok (group, partition, offset) => [.commit group request.topic partition offset]
  | _ => []

/-- What it means when it was decoded from a frame. -/
def Server.marks (s : Server) (env : ServerEnv) (r : RawRequest) : List OffsetMark :=
  if (s.serve env r).2.status ≠ Status.ok.code then []
  else
    match Command.ofCode r.command with
    | none => []
    | some command =>
        match s.broker.acceptRequest s.clientAuthToken (r.request command) with
        | none => []
        | some normalized => s.broker.offsetMarks normalized

/-- What an event means for them. -/
def ServerEvent.marks (s : Server) : ServerEvent → List OffsetMark
  | .request env r => s.marks env r
  | _ => []

/-- The history of a run, added to an older one. -/
def Server.history (s : Server) (older : List OffsetMark) : List ServerEvent → List OffsetMark
  | [] => older
  | event :: events => (event.exec s).history (event.marks s ++ older) events

/-- Whatever a request saves is saved. -/
def ServerEnv.Saves (env : ServerEnv) : Prop :=
  env.topicsSaved = true ∧ env.topicsResaved = true ∧ env.delete.saved = true ∧
    env.offsetsSaved = true

/-- Whatever an event saves is saved. -/
def ServerEvent.Saves : ServerEvent → Prop
  | .request env _ => env.Saves
  | _ => True

/-! ## Brokers that follow a history -/

/-- The offsets of a broker are what a history says, for all topics that exist,
    and there are none for other topics. The file has the same ones. -/
structure Server.Follows (s : Server) (log : List OffsetMark) : Prop where
  inSync : s.InSync
  fits : s.OffsetsFit
  file : s.offsetsFile = s.consumerOffsets
  present : ∀ k, (∃ count, s.broker.topics.lookup k.2.1 = some count) →
    (committedIn s.consumerOffsets k).getD 0 = lastCommit k log
  absent : ∀ k, s.broker.topics.lookup k.2.1 = none → committedIn s.consumerOffsets k = none

/-- The offset of a key that nobody has committed is 0. -/
theorem committedIn_none {offsets : List ConsumerOffset} {k : OffsetKey}
    (h : committedIn offsets k = none) : (committedIn offsets k).getD 0 = 0 := by
  rw [h]
  rfl

section Steps

variable {s : Server} {log : List OffsetMark}

/-- What leaves topics and offsets alone changes nothing. -/
theorem Server.Follows.congr {s' : Server} (h : s.Follows log) (hsame : s.SameMetadata s') :
    s'.Follows log := by
  refine ⟨hsame.inSync.mpr h.inSync, ?_, ?_, ?_, ?_⟩
  · unfold Server.OffsetsFit
    rw [hsame.consumerOffsets]
    exact h.fits
  · rw [hsame.offsetsFile, hsame.consumerOffsets]
    exact h.file
  · rw [hsame.topics, hsame.consumerOffsets]
    exact h.present
  · rw [hsame.topics, hsame.consumerOffsets]
    exact h.absent

/-- The same topics and the same offsets are enough. -/
theorem Server.Follows.of_lookup {s' : Server} (h : s.Follows log) (hsync : s'.InSync)
    (htopics : ∀ name, s'.broker.topics.lookup name = s.broker.topics.lookup name)
    (hoffsets : s'.consumerOffsets = s.consumerOffsets)
    (hfile : s'.offsetsFile = s.consumerOffsets) : s'.Follows log := by
  refine ⟨hsync, ?_, hfile.trans hoffsets.symm, fun k hk => ?_, fun k hk => ?_⟩
  · unfold Server.OffsetsFit
    rw [hoffsets]
    exact h.fits
  · rw [htopics] at hk
    rw [hoffsets]
    exact h.present k hk
  · rw [htopics] at hk
    rw [hoffsets]
    exact h.absent k hk

/-- A restart finds in the files what was in memory. -/
theorem Server.Follows.restart (h : s.Follows log) (hs : s.Published) (config : ServerConfig)
    (kept : Bytes → UInt32 → Nat) : (s.restart config kept).Follows log := by
  have hfiles : (s.restart config kept).consumerOffsets = s.offsetsFile ∧
      (s.restart config kept).offsetsFile = s.offsetsFile := by
    rcases hs.restart_eq config kept with ⟨_, _, _, heq⟩
    rw [heq]
    exact ⟨rfl, rfl⟩
  refine h.of_lookup (hs.restart_inSync config kept) (fun name => ?_)
    (hfiles.1.trans h.file) (hfiles.2.trans h.file)
  refine Option.ext fun count => ?_
  rw [hs.restart_topics]
  exact h.inSync name count

/-- A topic that is created has no offsets. -/
theorem Server.Follows.createTopic (h : s.Follows log) (hs : s.broker.Sound) (env : ServerEnv)
    {request : Request} (hkind : request.command = .createTopic) :
    (s.handleCreateTopic env request).1.Follows
      ((if (s.handleCreateTopic env request).2.status ≠ .ok then []
        else s.broker.offsetMarks request) ++ log) := by
  have hsync := @handleCreateTopic_inSync s request hs h.inSync env
  have hfile := (handleCreateTopic_consumerOffsets (s := s) env request)
  by_cases hcreates : ∃ count, s.Creates request count
  · rcases hcreates with ⟨count, hcreates⟩
    have heq := handleCreateTopic_creates hs hcreates env
    by_cases hsaved : env.topicsSaved = true ∧ s.broker.topics.size < maxTopics
    · rw [if_pos hsaved] at heq
      have hok : (s.handleCreateTopic env request).2.status = .ok := by
        rw [heq]
        rfl
      rw [if_neg (not_not.mpr hok), Broker.offsetMarks, hkind]
      refine ⟨hsync, ?_, hfile.2.trans (h.file.trans hfile.1.symm), fun k hk => ?_,
        fun k hk => ?_⟩
      · unfold Server.OffsetsFit
        rw [hfile.1]
        exact h.fits
      · rw [hfile.1, List.singleton_append, lastCommit]
        by_cases htopic : request.topic = k.2.1
        · -- Nothing was left behind by an older topic with the name.
          rw [if_pos htopic]
          exact committedIn_none (h.absent k (htopic ▸ hcreates.new))
        · rw [if_neg htopic]
          rw [heq] at hk
          simp only [AList.lookup_insert_ne (Ne.symm htopic)] at hk
          exact h.present k hk
      · rw [hfile.1]
        rw [heq] at hk
        exact h.absent k (Table.lookup_insert_eq_none.mp hk).2
    · rw [if_neg hsaved] at heq
      have hfailed : (s.handleCreateTopic env request).2.status ≠ .ok := by
        rw [heq]
        exact error_status (by decide)
      rw [if_pos hfailed]
      refine h.of_lookup hsync (fun name => ?_) hfile.1 (hfile.2.trans h.file)
      rw [heq]
      by_cases hname : name = request.topic
      · subst hname
        rw [AList.lookup_erase, hcreates.new]
      · rw [AList.lookup_erase_ne hname, AList.lookup_insert_ne hname]
  · have hrefused := handleCreateTopic_refuses (not_exists.mp hcreates) env
    rw [if_pos hrefused.2, hrefused.1]
    exact h

/-- Deleting a topic drops its offsets, in memory and in the file. -/
theorem Server.Follows.deleteTopic (h : s.Follows log) (hs : s.broker.Sound) {env : ServerEnv}
    (hsaves : env.Saves) (hfew : s.consumerOffsets.length ≤ 100000) (request : Request) :
    (s.handleDeleteTopic env request).1.Follows log := by
  rcases hsaves with ⟨_, hresaved, hsaved, hoffsets⟩
  have hsync := (@handleDeleteTopic_inSync_iff s request hs h.inSync env).mpr
    fun hno => Bool.false_ne_true (hno.2.2.2.symm.trans hresaved)
  by_cases hdeletes : ∃ count, s.Deletes request count
  · rcases hdeletes with ⟨count, hdeletes⟩
    cases hremoved : env.delete.removed with
    | false =>
        rw [handleDeleteTopic_left hs hdeletes hsaved hremoved] at hsync ⊢
        exact h.of_lookup hsync (putBack_lookup hdeletes.found) rfl h.file
    | true =>
        have hfits : ∀ item ∈ s.consumerOffsets.filter (fun item => item.topic ≠ request.topic),
            item.Fits := fun item hitem => h.fits item (List.mem_of_mem_filter hitem)
        have hsavable : offsetsSavable
            (s.consumerOffsets.filter (fun item => item.topic ≠ request.topic)) = true := by
          rw [offsetsSavable_of_fits hfits, decide_eq_true_eq]
          exact (List.length_filter_le _ _).trans hfew
        rw [handleDeleteTopic_deletes hs hdeletes hsaved hremoved] at hsync ⊢
        refine ⟨hsync, hfits, ?_, ?_, ?_⟩
        · simp only [hoffsets, hsavable, Bool.and_self, if_true]
        · rintro k ⟨count', hcount'⟩
          rcases Table.lookup_erase_eq_some.mp hcount' with ⟨htopic, hold⟩
          simp only [committedIn_filter, if_neg htopic]
          exact h.present k ⟨count', hold⟩
        · intro k hk
          simp only [committedIn_filter]
          split
          · rfl
          · rename_i htopic
            simp only [AList.lookup_erase_ne htopic] at hk
            exact h.absent k hk
  · rw [(handleDeleteTopic_refuses (not_exists.mp hdeletes) env).1]
    exact h

/-- A commit is what its key has from then on. -/
theorem Server.Follows.commitOffset (h : s.Follows log) (hs : s.broker.Sound) {env : ServerEnv}
    (hsaves : env.Saves) {request : Request} (hkind : request.command = .commitOffset)
    (hfew : (s.handleCommitOffset env request).1.consumerOffsets.length ≤ 100000) :
    (s.handleCommitOffset env request).1.Follows
      ((if (s.handleCommitOffset env request).2.status ≠ .ok then []
        else s.broker.offsetMarks request) ++ log) := by
  cases hread : (s.broker.readCommitOffset request.topic request.payload).result with
  | error status =>
      simp only [Server.handleCommitOffset, hread]
      rw [if_pos (error_status (readCommitOffset_error hread))]
      exact h
  | ok read =>
      rcases read with ⟨group, partition, offset⟩
      rcases readCommitOffset_fits hs hread with ⟨hgroup, htopic⟩
      rcases readCommitOffset_topic hs hread with ⟨count, hcount, _⟩
      have hfits := @setOffset_fits group request.topic partition offset _ h.fits hgroup htopic
      have hlength : (setOffset group request.topic partition offset
          s.consumerOffsets).length ≤ 100000 := by
        simp only [Server.handleCommitOffset, hread] at hfew
        split at hfew
        · exact hfew
        · exact hfew
      have hsavable : offsetsSavable
          (setOffset group request.topic partition offset s.consumerOffsets) = true := by
        rw [offsetsSavable_of_fits hfits, decide_eq_true_eq]
        exact hlength
      have heq : s.handleCommitOffset env request
          = ({ s with
              consumerOffsets := setOffset group request.topic partition offset s.consumerOffsets
              offsetsFile := setOffset group request.topic partition offset s.consumerOffsets },
            makeResponse request .ok) := by
        simp only [Server.handleCommitOffset, hread, hsaves.2.2.2, hsavable, Bool.and_self,
          if_true]
      have hok : (s.handleCommitOffset env request).2.status = .ok := by
        rw [heq]
        rfl
      rw [if_neg (not_not.mpr hok), Broker.offsetMarks, hkind, heq]
      simp only [hread, List.singleton_append]
      refine ⟨h.inSync, hfits, rfl, fun k hk => ?_, fun k hk => ?_⟩
      · rw [committedIn_setOffset, lastCommit]
        split
        · rfl
        · exact h.present k hk
      · -- The topic of the commit exists, so this is another key.
        rw [committedIn_setOffset, if_neg]
        · exact h.absent k hk
        · rintro rfl
          rw [hcount] at hk
          cases hk

/-- A broker that follows a history follows it with what an event adds. -/
theorem Server.Follows.exec (h : s.Follows log) (hs : s.Listed) (event : ServerEvent)
    (hsaves : event.Saves) (hfew : s.consumerOffsets.length ≤ 100000)
    (hfew' : (event.exec s).consumerOffsets.length ≤ 100000) :
    (event.exec s).Follows (event.marks s ++ log) := by
  cases event with
  | restart config kept => exact h.restart hs.published config kept
  | operate op =>
      exact h.congr (ServerEvent.exec_sameMetadata s _ (fun _ _ heq => nomatch heq)
        fun _ _ heq => nomatch heq)
  | heartbeatRound env =>
      exact h.congr (ServerEvent.exec_sameMetadata s _ (fun _ _ heq => nomatch heq)
        fun _ _ heq => nomatch heq)
  | pull topic partition payload ios =>
      exact h.congr (ServerEvent.exec_sameMetadata s _ (fun _ _ heq => nomatch heq)
        fun _ _ heq => nomatch heq)
  | cleanup now =>
      exact h.congr (ServerEvent.exec_sameMetadata s _ (fun _ _ heq => nomatch heq)
        fun _ _ heq => nomatch heq)
  | request env r =>
      rcases serve_cases s env r with
        ⟨_, hcounts, hstatus⟩ | ⟨normalized, d, hhandles, hd, hcounts, hresponse⟩
      · have hmarks : s.marks env r = [] := if_pos hstatus
        rw [ServerEvent.marks, hmarks]
        exact h.congr hcounts.sameMetadata
      · have hmarks : s.marks env r = if (d.dispatch env normalized).2.status ≠ .ok then []
            else d.broker.offsetMarks normalized := by
          rcases hhandles with ⟨command, hcommand, hadmits⟩
          have hcode : (d.dispatch env normalized).2.status.code ≠ Status.ok.code ↔
              (d.dispatch env normalized).2.status ≠ .ok :=
            not_congr ⟨status_of_code, fun heq => by rw [heq]⟩
          simp only [Server.marks, hcommand, hadmits.accepted, hresponse, Response.raw, hcode,
            hd.broker]
        have hfollows := h.congr hd.sameMetadata
        have hsound : d.broker.Sound := by
          rw [hd.broker]
          exact hs.sound.broker
        rw [← hd.sameMetadata.consumerOffsets] at hfew
        rw [ServerEvent.exec, hcounts.sameMetadata.consumerOffsets] at hfew'
        rw [ServerEvent.marks, hmarks]
        refine Server.Follows.congr ?_ hcounts.sameMetadata
        by_cases hcommand : normalized.command ∈ metadataCommands
        · simp only [metadataCommands, List.mem_cons, List.not_mem_nil, or_false] at hcommand
          rcases hcommand with hkind | hkind | hkind
          · simp only [Server.dispatch, hkind]
            exact hfollows.createTopic hsound env hkind
          · have hnone : d.broker.offsetMarks normalized = [] := by
              rw [Broker.offsetMarks, hkind]
            rw [hnone, ite_self]
            simp only [Server.dispatch, hkind]
            exact hfollows.deleteTopic hsound hsaves hfew normalized
          · simp only [Server.dispatch, hkind] at hfew' ⊢
            exact hfollows.commitOffset hsound hsaves hkind hfew'
        · have hnone : d.broker.offsetMarks normalized = [] := by
            simp only [metadataCommands, List.mem_cons, List.not_mem_nil, or_false,
              not_or] at hcommand
            unfold Broker.offsetMarks
            split
            · rename_i hkind
              exact absurd hkind hcommand.1
            · rename_i hkind
              exact absurd hkind hcommand.2.2
            · rfl
          rw [hnone, ite_self]
          exact hfollows.congr (dispatch_sameMetadata d env normalized hcommand)

end Steps

/-! ## Runs -/

theorem follows_fresh (config : ServerConfig) : (Server.fresh config).Follows [] := by
  refine ⟨inSync_fresh config, fun _ hitem => absurd hitem List.not_mem_nil, rfl, ?_, ?_⟩
  · exact fun _ _ => rfl
  · exact fun _ _ => rfl

theorem Server.Follows.run {s : Server} {log : List OffsetMark} {events : List ServerEvent}
    (h : s.Follows log) (hs : s.Listed) (hsaves : ∀ event ∈ events, event.Saves)
    (hfew : Always ServerEvent.exec (fun s => s.consumerOffsets.length ≤ 100000) s events) :
    (s.run events).Follows (s.history log events) := by
  induction events generalizing s log with
  | nil => exact h
  | cons event events ih =>
      have hnext := h.exec hs event (hsaves event List.mem_cons_self) hfew.1 hfew.2.start
      exact ih hnext (hs.exec event) (fun e he => hsaves e (List.mem_cons_of_mem event he)) hfew.2

/-- What `OFFSET_FETCH` answers for a partition that exists. -/
theorem handleOffsetFetch_ok {s : Server} {request : Request} {group : Bytes}
    {requested partition : UInt32}
    (hread : (readOffsetFetch request.topic request.payload).result = .ok (group, requested))
    (hresolve : s.broker.resolvePartition request.topic requested [] = .ok partition) :
    s.handleOffsetFetch request
      = makeResponse request .ok
          (put64 ((committedIn s.consumerOffsets (group, request.topic, partition)).getD 0)) := by
  simp only [Server.handleOffsetFetch, hread, hresolve, committed_eq]

/-- In any run in which everything can be saved and the offsets do not become too
    many, `OFFSET_FETCH` answers the offset that was committed last for its group,
    its topic and the partition it finds, since the topic was created. And the
    bytes of the two files are enough to start the broker again. -/
theorem committed_last (config : ServerConfig) (events : List ServerEvent)
    (hsaves : ∀ event ∈ events, event.Saves)
    (hfew : Always ServerEvent.exec (fun s => s.consumerOffsets.length ≤ 100000)
      (Server.fresh config) events) :
    (∀ env r normalized group requested partition,
      ((Server.fresh config).run events).Handles r normalized →
      normalized.command = .offsetFetch →
      (readOffsetFetch normalized.topic normalized.payload).result = .ok (group, requested) →
      ((Server.fresh config).run events).broker.resolvePartition normalized.topic requested []
        = .ok partition →
      (((Server.fresh config).run events).serve env r).2
        = (makeResponse normalized .ok (put64 (lastCommit (group, normalized.topic, partition)
            ((Server.fresh config).history [] events)))).raw) ∧
    ∀ config' kept,
      ((Server.fresh config).run events).openFiles config' kept
          (TopicMetadataStore.save ((Server.fresh config).run events).topicsFile)
          (ConsumerOffsetStore.save ((Server.fresh config).run events).offsetsFile)
        = some (((Server.fresh config).run events).restart config' kept) := by
  have hfollows := (follows_fresh config).run (listed_fresh config) hsaves hfew
  have hsound := run_sound config events
  have hpublished := run_published config events
  generalize (Server.fresh config).run events = s at *
  refine ⟨fun env r normalized group requested partition hhandles hkind hread hresolve => ?_,
    fun config' kept => hpublished.openFiles_restart config' kept⟩
  rcases serve_cases s env r with
    ⟨hno, _⟩ | ⟨normalized', d, hhandles', hd, _, hresponse⟩
  · exact absurd hhandles (hno normalized)
  · cases hhandles.unique hhandles'
    rcases resolvePartition_lt (fun count hcount =>
      (hsound.broker.topics _ count hcount).2.1) hresolve with ⟨count, hcount, _⟩
    have hpresent := hfollows.present (group, normalized.topic, partition) ⟨count, hcount⟩
    rw [← hd.broker] at hresolve
    rw [← hd.sameMetadata.consumerOffsets] at hpresent
    rw [hresponse]
    simp only [Server.dispatch, hkind]
    rw [handleOffsetFetch_ok hread hresolve, hpresent]

/-- Group "g" asks what it has committed for the first partition of topic "t". -/
def offsetFetchExample : RawRequest :=
  { command := 0x21, topic := [116], payload := put16 1 ++ [103] ++ put32 0 }

/-- A topic is created, a group commits 5, the broker is started again, and the
    group is answered 5. -/
theorem committed_last_example :
    (((Server.fresh {}).run [createExample true, .request {} commitExample,
      .restart {} (fun _ _ => 0)]).serve {} offsetFetchExample).2
      = (makeResponse (offsetFetchExample.request .offsetFetch) .ok (put64 5)).raw := by
  have hexec : (createExample true).exec (Server.fresh {}) = _ := createExample_exec
  have hsaves : ∀ event ∈ [createExample true, .request {} commitExample,
      .restart {} (fun _ _ => 0)], event.Saves := by
    intro event hevent
    simp only [List.mem_cons, List.not_mem_nil, or_false] at hevent
    rcases hevent with rfl | rfl | rfl
    · exact ⟨rfl, rfl, rfl, rfl⟩
    · exact ⟨rfl, rfl, rfl, rfl⟩
    · trivial
  have hfew : Always ServerEvent.exec (fun s => s.consumerOffsets.length ≤ 100000)
      (Server.fresh {}) [createExample true, .request {} commitExample,
        .restart {} (fun _ _ => 0)] := by
    refine ⟨by decide, ?_⟩
    rw [hexec]
    decide +kernel
  -- The mark of the new topic is older than that of the commit.
  have hcreated : (createExample true).marks (Server.fresh {}) = [.created [116]] := by
    have hok : ((Server.fresh {}).serve { topicsSaved := true }
        { command := 0x01, topic := [116], payload := put32 1 }).2.status = Status.ok.code :=
      congrArg (fun result => result.2.status) createExample_serve
    rw [createExample, ServerEvent.marks, Server.marks, if_neg (not_not.mpr hok)]
    decide +kernel
  have hhistory : (Server.fresh {}).history [] [createExample true, .request {} commitExample,
      .restart {} (fun _ _ => 0)] = [.commit [103] [116] 0 5, .created [116]] := by
    rw [Server.history, hcreated, hexec]
    decide +kernel
  have hrun : (Server.fresh {}).run [createExample true, .request {} commitExample,
      .restart {} (fun _ _ => 0)] = ((createExample true).exec (Server.fresh {})).run
        [.request {} commitExample, .restart {} (fun _ _ => 0)] := rfl
  have hlast := (committed_last {} _ hsaves hfew).1 {} offsetFetchExample
    (offsetFetchExample.request .offsetFetch) [103] 0 0
    (by
      rw [hrun, hexec]
      exact ⟨.offsetFetch, by decide, by decide +kernel, by decide +kernel,
        Or.inr (Or.inl (by decide +kernel))⟩)
    rfl (by decide)
    (by
      rw [hrun, hexec]
      decide +kernel)
  rw [hhistory] at hlast
  exact hlast

end MqBroker
