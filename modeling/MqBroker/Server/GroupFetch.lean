import MqBroker.Server.OffsetLog
import MqBroker.Server.PullCursor

/-!
# Fetches of a Group

When a fetch with a group works where one without a group does.

A fetch with a group starts at the position that the group has committed, if
that is behind the offset it asks for. The handler of commits takes any offset:
where the log ends is known to the storage alone, and nobody asks it. A fetch
from behind the end of the log is refused, so a group with such a position gets
nothing until the log has grown to it, whatever it asks for.

What is left is a question about positions. Commits are one way to put them
behind the end. The others are logs that lose their last messages in a restart,
and positions of a deleted topic that could not be taken out of the file.
Without these the positions stay inside the logs in the whole run.

## Main definitions

* `Server.PositionInside`: Where a group has come is not behind the end.
* `Server.FetchPair`: A fetch without a group, and the same with one.
* `ServerEvent.CommitsInside`: A commit is not behind the end either.
* `ServerEvent.KeepsEnds`: No log ends before where it did.

## Theorems

* `Server.FetchPair.grouped_status`: What the group is answered.
* `Server.Inside.exec`: The positions stay inside the logs.
* `group_fetch_iff`: When the group is answered like everybody.
-/

namespace MqBroker

open Traced Server

/-- The position of a group, if it has one, is not behind the end of the log. -/
def Server.PositionInside (s : Server) (group topic : Bytes) (partition : UInt32) : Prop :=
  ∀ offset, s.committed group topic partition = some offset →
    offset ≤ s.broker.logEnd topic partition

instance (s : Server) (group topic : Bytes) (partition : UInt32) :
    Decidable (s.PositionInside group topic partition) :=
  match h : s.committed group topic partition with
  | none => isTrue fun _ hsome => nomatch h.symm.trans hsome
  | some offset =>
      decidable_of_iff (offset ≤ s.broker.logEnd topic partition)
        ⟨fun hle _ hsome => Option.some.inj (h.symm.trans hsome) ▸ hle, fun hall => hall offset h⟩

/-- Two fetches get to their handler. They ask for the same, one for a group and
    one for nobody. -/
structure Server.FetchPair (s : Server) (r r' : RawRequest) (topic : Bytes)
    (call : FetchCall) : Prop where
  plain : ∃ normalized, s.Handles r normalized ∧ normalized.command = .fetch ∧
    normalized.topic = topic ∧
    (readFetch normalized.payload).result = .ok { call with group := [] }
  grouped : ∃ normalized, s.Handles r' normalized ∧ normalized.command = .fetch ∧
    normalized.topic = topic ∧ (readFetch normalized.payload).result = .ok call
  group : call.group ≠ []

/-- If an event is a commit, its offset is not behind the end of the log. -/
def ServerEvent.CommitsInside (s : Server) : ServerEvent → Prop
  | .request _ r => ∀ normalized group partition offset, s.Handles r normalized →
      normalized.command = .commitOffset →
      (s.broker.readCommitOffset normalized.topic normalized.payload).result
        = .ok (group, partition, offset) →
      offset ≤ s.broker.logEnd normalized.topic partition
  | _ => True

/-- A log that is there before and after an event does not end before where it
    did. -/
def ServerEvent.KeepsEnds (s : Server) (event : ServerEvent) : Prop :=
  ∀ topic partition, s.broker.Exists topic partition →
    (event.exec s).broker.Exists topic partition →
    s.broker.logEnd topic partition ≤ (event.exec s).broker.logEnd topic partition

/-! ## Answers -/

section Answers

variable {s : Server} {request : Request} {call : FetchCall} {partition : UInt32}

/-- A fetch from a log is refused behind its end. -/
theorem handleFetch_status
    (hread : (readFetch request.payload).result = .ok call)
    (hresolve : s.broker.resolvePartition request.topic call.partition [] = .ok partition)
    (hvalid : isValidTopicName request.topic = true) (hmax : call.maxBytes ≠ 0) :
    (s.handleFetch true request).status
      = if s.fetchStart call request.topic partition ≤ s.broker.logEnd request.topic partition
        then .ok else .invalidOffset := by
  simp only [Server.handleFetch, hread, hresolve, StorageEngine.read]
  rw [if_neg (not_or.mpr ⟨not_not.mpr hvalid, hmax⟩), if_neg (not_not.mpr trivial)]
  by_cases hstart : s.fetchStart call request.topic partition
      ≤ s.broker.logEnd request.topic partition
  · have hlog : (s.broker.storage.partition request.topic partition).read
        (s.fetchStart call request.topic partition) call.maxBytes.toNat = some _ :=
      if_neg (not_lt.mpr hstart)
    rw [if_pos hstart, hlog]
    rfl
  · have hlog : (s.broker.storage.partition request.topic partition).read
        (s.fetchStart call request.topic partition) call.maxBytes.toNat = none :=
      if_pos (not_le.mp hstart)
    rw [if_neg hstart, hlog]
    rfl

/-- What a fetch has found that is answered with `kOk`. -/
theorem handleFetch_reached {partitionOk : Bool}
    (hread : (readFetch request.payload).result = .ok call)
    (hok : (s.handleFetch partitionOk request).status = .ok) :
    partitionOk = true ∧ isValidTopicName request.topic = true ∧ call.maxBytes ≠ 0 ∧
      ∃ partition, s.broker.resolvePartition request.topic call.partition [] = .ok partition ∧
        s.fetchStart call request.topic partition ≤ s.broker.logEnd request.topic partition := by
  cases hresolve : s.broker.resolvePartition request.topic call.partition [] with
  | error e =>
      simp only [Server.handleFetch, hread, hresolve] at hok
      cases e <;> cases hok
  | ok partition =>
      by_cases hrequest : ¬ isValidTopicName request.topic = true ∨ call.maxBytes = 0
      · simp only [Server.handleFetch, hread, hresolve, StorageEngine.read, if_pos hrequest] at hok
        cases hok
      · rcases not_or.mp hrequest with ⟨hvalid, hmax⟩
        cases partitionOk with
        | false =>
            simp only [Server.handleFetch, hread, hresolve, StorageEngine.read, if_neg hrequest]
              at hok
            cases hok
        | true =>
            rw [handleFetch_status hread hresolve (not_not.mp hvalid) hmax] at hok
            refine ⟨rfl, not_not.mp hvalid, hmax, partition, rfl, ?_⟩
            by_contra hbehind
            rw [if_neg hbehind] at hok
            cases hok

/-- A group that asks for what is there is answered with `kOk` when its position
    is there too. -/
theorem start_inside_iff (hgroup : call.group ≠ []) {topic : Bytes}
    (hasked : call.offset ≤ s.broker.logEnd topic partition) :
    s.fetchStart call topic partition ≤ s.broker.logEnd topic partition ↔
      s.PositionInside call.group topic partition := by
  rw [fetchStart_eq s hgroup, Server.PositionInside]
  cases s.committed call.group topic partition with
  | none =>
      rw [Option.getD_none, max_eq_left UInt64.zero_le]
      exact iff_of_true hasked fun _ hsome => nomatch hsome
  | some position =>
      rw [Option.getD_some, max_le_iff, and_iff_right hasked]
      constructor
      · intro hle offset hoffset
        cases hoffset
        exact hle
      · exact fun hall => hall position rfl

end Answers

/-- A request that gets to its handler is answered as the handler answers, in a
    broker with the same logs and the same positions. -/
theorem Server.Handles.fetch_status {s : Server} {r : RawRequest} {normalized : Request}
    (hhandles : s.Handles r normalized) (hkind : normalized.command = .fetch) (env : ServerEnv) :
    (s.serve env r).2.status = (s.handleFetch env.partitionOk normalized).status.code := by
  rcases serve_handles hhandles env with ⟨d, ⟨_, _, _, _, rfl⟩, _, hresponse⟩
  rw [hresponse]
  simp only [Server.dispatch, hkind]
  rfl

/-- What a group is answered where everybody is answered with `kOk`. -/
theorem Server.FetchPair.grouped_status {s : Server} {r r' : RawRequest} {topic : Bytes}
    {call : FetchCall} (h : s.FetchPair r r' topic call) (env : ServerEnv)
    (hok : (s.serve env r).2.status = Status.ok.code) :
    ∃ partition, s.broker.resolvePartition topic call.partition [] = .ok partition ∧
      (s.serve env r').2.status = if s.PositionInside call.group topic partition
        then Status.ok.code else Status.invalidOffset.code := by
  rcases h.plain with ⟨plain, hplain, hkind, rfl, hread⟩
  rcases h.grouped with ⟨grouped, hgrouped, hkind', htopic, hread'⟩
  rw [hplain.fetch_status hkind] at hok
  rcases handleFetch_reached hread (status_of_code hok) with
    ⟨hopened, hvalid, hmax, partition, hresolve, hasked⟩
  refine ⟨partition, hresolve, ?_⟩
  rw [← htopic] at hresolve hvalid hasked ⊢
  have hstatus := handleFetch_status hread' hresolve hvalid hmax
  rw [hgrouped.fetch_status hkind', hopened, hstatus]
  -- Without a group the start is the offset that is asked for.
  rw [Server.fetchStart, if_pos rfl] at hasked
  simp only [start_inside_iff h.group hasked]
  exact apply_ite Status.code _ _ _

/-! ## Positions -/

/-- All positions in partitions that exist are inside the logs. -/
def Server.Inside (s : Server) : Prop :=
  ∀ group topic partition, s.broker.Exists topic partition →
    s.PositionInside group topic partition

section Positions

variable {s s' : Server}

/-- The same logs and the same positions. -/
theorem Server.Inside.congr (h : s.Inside) (hbroker : s'.broker = s.broker)
    (hoffsets : s'.consumerOffsets = s.consumerOffsets) : s'.Inside := by
  intro group topic partition hexists offset hposition
  rw [committed_eq, hoffsets, ← committed_eq] at hposition
  rw [hbroker] at hexists ⊢
  exact h group topic partition hexists offset hposition

/-- Positions that were there already stay inside logs that were there already
    and have not become shorter. -/
theorem Server.Inside.mono (h : s.Inside)
    (hends : ∀ topic partition, s.broker.Exists topic partition →
      s'.broker.Exists topic partition →
      s.broker.logEnd topic partition ≤ s'.broker.logEnd topic partition)
    (hold : ∀ k offset, s'.broker.Exists k.2.1 k.2.2 →
      committedIn s'.consumerOffsets k = some offset →
      s.broker.Exists k.2.1 k.2.2 ∧ committedIn s.consumerOffsets k = some offset) :
    s'.Inside := by
  intro group topic partition hexists offset hcommitted
  rw [committed_eq] at hcommitted
  rcases hold (group, topic, partition) offset hexists hcommitted with ⟨hbefore, hposition⟩
  rw [← committed_eq] at hposition
  exact le_trans (h group topic partition hbefore offset hposition)
    (hends topic partition hbefore hexists)

/-- The same topics have the same partitions. -/
theorem exists_of_lookup {b b' : Broker} {topic : Bytes} {partition : UInt32}
    (hlookup : b'.topics.lookup topic = b.topics.lookup topic) (h : b'.Exists topic partition) :
    b.Exists topic partition := by
  rcases h with ⟨count, hcount, hlt⟩
  exact ⟨count, hlookup ▸ hcount, hlt⟩

/-- A topic that is created has no positions. -/
theorem handleCreateTopic_positions (hs : s.broker.Sound)
    (habsent : ∀ k, s.broker.topics.lookup k.2.1 = none → committedIn s.consumerOffsets k = none)
    (env : ServerEnv) (request : Request) {k : OffsetKey} {offset : UInt64}
    (hexists : (s.handleCreateTopic env request).1.broker.Exists k.2.1 k.2.2)
    (hposition : committedIn (s.handleCreateTopic env request).1.consumerOffsets k
      = some offset) :
    s.broker.Exists k.2.1 k.2.2 ∧ committedIn s.consumerOffsets k = some offset := by
  rw [(handleCreateTopic_consumerOffsets env request).1] at hposition
  refine ⟨?_, hposition⟩
  by_cases hcreates : ∃ count, s.Creates request count
  · rcases hcreates with ⟨count, hcreates⟩
    -- Nobody has a position in a topic that does not exist yet.
    have hne : k.2.1 ≠ request.topic := by
      intro htopic
      rw [habsent k (htopic ▸ hcreates.new)] at hposition
      cases hposition
    refine exists_of_lookup ?_ hexists
    rw [handleCreateTopic_creates hs hcreates env]
    split
    · exact AList.lookup_insert_ne hne
    · rw [AList.lookup_erase_ne hne, AList.lookup_insert_ne hne]
  · rw [(handleCreateTopic_refuses (not_exists.mp hcreates) env).1] at hexists
    exact hexists

/-- A topic that is deleted has none left. -/
theorem handleDeleteTopic_positions (hs : s.broker.Sound) {env : ServerEnv} (hsaves : env.Saves)
    (request : Request) {k : OffsetKey} {offset : UInt64}
    (hexists : (s.handleDeleteTopic env request).1.broker.Exists k.2.1 k.2.2)
    (hposition : committedIn (s.handleDeleteTopic env request).1.consumerOffsets k
      = some offset) :
    s.broker.Exists k.2.1 k.2.2 ∧ committedIn s.consumerOffsets k = some offset := by
  by_cases hdeletes : ∃ count, s.Deletes request count
  · rcases hdeletes with ⟨count, hdeletes⟩
    cases hremoved : env.delete.removed with
    | false =>
        -- The log files are still there, and the topic is put back.
        rw [handleDeleteTopic_left hs hdeletes hsaves.2.2.1 hremoved] at hexists hposition
        exact ⟨exists_of_lookup (putBack_lookup hdeletes.found k.2.1) hexists, hposition⟩
    | true =>
        -- A topic that exists afterwards is another one.
        rw [handleDeleteTopic_deletes hs hdeletes hsaves.2.2.1 hremoved] at hexists hposition
        rcases hexists with ⟨count', hcount', hlt⟩
        rcases Table.lookup_erase_eq_some.mp hcount' with ⟨htopic, hcount⟩
        simp only [committedIn_filter, if_neg htopic] at hposition
        exact ⟨⟨count', hcount, hlt⟩, hposition⟩
  · rw [(handleDeleteTopic_refuses (not_exists.mp hdeletes) env).1] at hexists hposition
    exact ⟨hexists, hposition⟩

/-- A commit inside the log keeps the positions inside. -/
theorem handleCommitOffset_inside (h : s.Inside) (env : ServerEnv) {request : Request}
    (hinside : ∀ group partition offset,
      (s.broker.readCommitOffset request.topic request.payload).result
        = .ok (group, partition, offset) →
      offset ≤ s.broker.logEnd request.topic partition) :
    (s.handleCommitOffset env request).1.Inside := by
  have hbroker := (@handleCommitOffset_sameTopics s request env).1
  intro group topic partition hexists offset hposition
  rw [hbroker] at hexists ⊢
  rw [committed_eq] at hposition
  rcases handleCommitOffset_consumerOffsets (s := s) env request with
    hsame | ⟨group', partition', offset', hread, hset⟩
  · rw [hsame, ← committed_eq] at hposition
    exact h group topic partition hexists offset hposition
  · rw [hset, committedIn_setOffset] at hposition
    split at hposition
    · rename_i hkey
      cases hkey
      cases hposition
      exact hinside _ _ _ hread
    · rw [← committed_eq] at hposition
      exact h group topic partition hexists offset hposition

/-- What a request that is about topics or offsets does to the positions. -/
theorem dispatch_inside {log : List OffsetMark} (h : s.Inside) (hs : s.broker.Sound)
    (hfollows : s.Follows log) {env : ServerEnv} (hsaves : env.Saves) {request : Request}
    (hcommand : request.command ∈ metadataCommands)
    (hcommits : request.command = .commitOffset → ∀ group partition offset,
      (s.broker.readCommitOffset request.topic request.payload).result
        = .ok (group, partition, offset) →
      offset ≤ s.broker.logEnd request.topic partition)
    (hends : ∀ topic partition, s.broker.Exists topic partition →
      (s.dispatch env request).1.broker.Exists topic partition →
      s.broker.logEnd topic partition ≤ (s.dispatch env request).1.broker.logEnd topic partition) :
    (s.dispatch env request).1.Inside := by
  simp only [metadataCommands, List.mem_cons, List.not_mem_nil, or_false] at hcommand
  rcases hcommand with hkind | hkind | hkind
  all_goals simp only [Server.dispatch, hkind] at hends ⊢
  · exact h.mono hends fun k offset hexists hposition =>
      handleCreateTopic_positions hs hfollows.absent env request hexists hposition
  · exact h.mono hends fun k offset hexists hposition =>
      handleDeleteTopic_positions hs hsaves request hexists hposition
  · exact handleCommitOffset_inside h env (hcommits hkind)

/-- When everything is saved, no commit is behind the end of its log and no log
    becomes shorter, the positions stay inside the logs. -/
theorem Server.Inside.exec {log : List OffsetMark} (h : s.Inside) (hs : s.Listed)
    (hfollows : s.Follows log) {event : ServerEvent} (hsaves : event.Saves)
    (hcommits : event.CommitsInside s) (hends : event.KeepsEnds s) : (event.exec s).Inside := by
  rcases event.exec_cases s with hsame | ⟨config, kept, rfl⟩ |
    ⟨env, r, normalized, d, rfl, hhandles, hcommand, hd, hcounts⟩
  · refine h.mono hends fun k offset hexists hposition => ?_
    rw [hsame.consumerOffsets] at hposition
    exact ⟨exists_of_lookup (by rw [hsame.topics]) hexists, hposition⟩
  · -- A start finds in the files what was in memory.
    refine h.mono hends fun k offset hexists hposition => ⟨?_, ?_⟩
    · refine exists_of_lookup (Option.ext fun count => ?_) hexists
      exact (hs.published.restart_topics config kept k.2.1 count).trans
        (hfollows.inSync k.2.1 count)
    · have hfile : ((ServerEvent.restart config kept).exec s).consumerOffsets
          = s.consumerOffsets := by
        rcases hs.published.restart_eq config kept with ⟨_, _, _, heq⟩
        rw [ServerEvent.exec, heq]
        exact hfollows.file
      rw [hfile] at hposition
      exact hposition
  · -- The counters do not matter, before the handler and after it.
    refine Server.Inside.congr (dispatch_inside
      (h.congr hd.broker hd.sameMetadata.consumerOffsets) ?_ (hfollows.congr hd.sameMetadata)
      hsaves hcommand ?_ ?_) hcounts.broker hcounts.sameMetadata.consumerOffsets
    · rw [hd.broker]
      exact hs.sound.broker
    · intro hkind group partition offset hread
      rw [hd.broker] at hread ⊢
      exact hcommits normalized group partition offset hhandles hkind hread
    · rw [hd.broker, ← hcounts.broker]
      exact hends

end Positions

theorem Server.Inside.run {s : Server} {log : List OffsetMark} {events : List ServerEvent}
    (h : s.Inside) (hs : s.Listed) (hfollows : s.Follows log)
    (hsaves : ∀ event ∈ events, event.Saves)
    (hfew : Always ServerEvent.exec (fun s => s.consumerOffsets.length ≤ 100000) s events)
    (hcommits : Along ServerEvent.exec (fun s event => event.CommitsInside s) s events)
    (hends : Along ServerEvent.exec (fun s event => event.KeepsEnds s) s events) :
    (s.run events).Inside := by
  induction events generalizing s log with
  | nil => exact h
  | cons event events ih =>
      have hsaved := hsaves event List.mem_cons_self
      exact ih (h.exec hs hfollows hsaved hcommits.1 hends.1) (hs.exec event)
        (hfollows.exec hs event hsaved hfew.1 hfew.2.start)
        (fun e he => hsaves e (List.mem_cons_of_mem event he)) hfew.2 hcommits.2 hends.2

/-- In whatever state a broker is: where a fetch without a group is answered with
    `kOk`, the same fetch with a group is answered so exactly when the group has
    not committed an offset behind the end of the log, and with
    `kInvalidOffset` otherwise. In a run in which everything can be saved, the
    offsets do not become too many, no log becomes shorter and no commit is
    behind the end of its log, it is always answered with `kOk`. -/
theorem group_fetch_iff (config : ServerConfig) (events : List ServerEvent) :
    (∀ env r r' topic call,
      ((Server.fresh config).run events).FetchPair r r' topic call →
      (((Server.fresh config).run events).serve env r).2.status = Status.ok.code →
      ∃ partition,
        ((Server.fresh config).run events).broker.resolvePartition topic call.partition []
          = .ok partition ∧
        (((Server.fresh config).run events).serve env r').2.status
          = if ((Server.fresh config).run events).PositionInside call.group topic partition
            then Status.ok.code else Status.invalidOffset.code) ∧
    ((∀ event ∈ events, event.Saves) →
      Always ServerEvent.exec (fun s => s.consumerOffsets.length ≤ 100000)
        (Server.fresh config) events →
      Along ServerEvent.exec (fun s event => event.CommitsInside s) (Server.fresh config) events →
      Along ServerEvent.exec (fun s event => event.KeepsEnds s) (Server.fresh config) events →
      ∀ env r r' topic call,
        ((Server.fresh config).run events).FetchPair r r' topic call →
        (((Server.fresh config).run events).serve env r).2.status = Status.ok.code →
        (((Server.fresh config).run events).serve env r').2.status = Status.ok.code) := by
  refine ⟨fun env r r' topic call hpair hok => hpair.grouped_status env hok,
    fun hsaves hfew hcommits hends env r r' topic call hpair hok => ?_⟩
  have hempty : (Server.fresh config).Inside := fun _ _ _ _ _ hposition => nomatch hposition
  have hinside := hempty.run (listed_fresh config) (follows_fresh config) hsaves hfew hcommits
    hends
  have hsound := run_sound config events
  rcases hpair.grouped_status env hok with ⟨partition, hresolve, hstatus⟩
  have hexists := resolvePartition_lt (fun count hcount =>
    (hsound.broker.topics topic count hcount).2.1) hresolve
  rw [hstatus, if_pos (hinside call.group topic partition hexists)]

/-! ## A commit behind the end -/

/-- A commit leaves the logs alone. -/
theorem Server.Handles.commit_keepsEnds {s : Server} {r : RawRequest} {normalized : Request}
    (hhandles : s.Handles r normalized) (hkind : normalized.command = .commitOffset)
    (env : ServerEnv) : (ServerEvent.request env r).KeepsEnds s := by
  intro topic partition _ _
  rcases serve_handles hhandles env with ⟨d, hd, hcounts, _⟩
  have hbroker : ((ServerEvent.request env r).exec s).broker = s.broker := by
    rw [ServerEvent.exec, hcounts.broker]
    simp only [Server.dispatch, hkind]
    rw [(handleCommitOffset_sameTopics env).1, hd.broker]
  rw [hbroker]

/-- Somebody asks for the first message of topic "t". -/
def fetchExample : RawRequest :=
  { command := 0x22, topic := [116], payload := put32 0 ++ put64 0 ++ put32 1 }

/-- Group "g" asks for it. -/
def groupFetchExample : RawRequest :=
  { command := 0x22
    topic := [116]
    payload := put32 0 ++ put16 1 ++ [103] ++ put64 0 ++ put32 1 }

/-- A fetch for the group. -/
def groupCall : FetchCall := { partition := 0, group := [103], offset := 0, maxBytes := 1 }

/-- The two get to the handler of a broker without a token. -/
theorem fetchExample_pair {s : Server} (hopened : s.opened = true)
    (htoken : s.clientAuthToken = []) :
    s.FetchPair fetchExample groupFetchExample [116] groupCall := by
  have haccepts : ∀ r : RawRequest, r = fetchExample ∨ r = groupFetchExample →
      s.Handles r (r.request .fetch) := by
    rintro r (rfl | rfl)
    all_goals
      refine ⟨.fetch, by decide, hopened, ?_, Or.inr (Or.inl htoken)⟩
      rw [htoken]
      rfl
  exact ⟨⟨_, haccepts fetchExample (Or.inl rfl), rfl, rfl, by decide⟩,
    ⟨_, haccepts groupFetchExample (Or.inr rfl), rfl, rfl, by decide⟩, by decide⟩

/-- Group "g" commits 0. -/
def commitFirst : RawRequest :=
  { commitExample with payload := put16 1 ++ [103] ++ put32 0 ++ put64 0 }

/-- A topic is created, a group commits the start of its log, and fetches from
    there. -/
theorem group_fetch_iff_first :
    (((Server.fresh {}).run [createExample true, .request {} commitFirst]).serve {}
      groupFetchExample).2.status = Status.ok.code := by
  have hexec : (createExample true).exec (Server.fresh {}) = _ := createExample_exec
  have hrun : (Server.fresh {}).run [createExample true, .request {} commitFirst]
      = ((createExample true).exec (Server.fresh {})).run [.request {} commitFirst] := rfl
  have hsaves : ∀ event ∈ [createExample true, .request {} commitFirst], event.Saves := by
    intro event hevent
    simp only [List.mem_cons, List.not_mem_nil, or_false] at hevent
    rcases hevent with rfl | rfl
    · exact ⟨rfl, rfl, rfl, rfl⟩
    · exact ⟨rfl, rfl, rfl, rfl⟩
  have hhandles : ((createExample true).exec (Server.fresh {})).Handles commitFirst
      (commitFirst.request .commitOffset) := by
    rw [hexec]
    exact ⟨.commitOffset, by decide, rfl, rfl, Or.inr (Or.inl rfl)⟩
  have hread : (((createExample true).exec (Server.fresh {})).broker.readCommitOffset
      commitFirst.topic commitFirst.payload).result = .ok ([103], 0, 0) := by
    rw [hexec]
    decide +kernel
  refine (group_fetch_iff {} [createExample true, .request {} commitFirst]).2 hsaves ?_ ?_ ?_ {}
    fetchExample groupFetchExample [116] groupCall ?_ ?_
  · refine ⟨by decide, ?_⟩
    rw [hexec]
    decide +kernel
  · refine ⟨fun normalized _ _ _ hcreate hkind => ?_, fun normalized _ _ offset hcommit _ hok => ?_,
      trivial⟩
    · exact absurd hkind (hcreate.command_ne (by decide))
    · cases hcommit.unique hhandles
      cases hread.symm.trans hok
      exact UInt64.zero_le
  · exact ⟨fun _ _ ⟨_, hcount, _⟩ => (nomatch hcount), hhandles.commit_keepsEnds rfl {}, trivial⟩
  · rw [hrun, hexec]
    exact fetchExample_pair (by decide +kernel) (by decide +kernel)
  · rw [hrun, hexec]
    decide +kernel

/-- The group commits 5 instead, and is refused whatever it asks for. -/
theorem group_fetch_behind :
    ¬ ∀ (config : ServerConfig) (events : List ServerEvent) (env : ServerEnv) (r r' : RawRequest)
      (topic : Bytes) (call : FetchCall),
      ((Server.fresh config).run events).FetchPair r r' topic call →
      (((Server.fresh config).run events).serve env r).2.status = Status.ok.code →
      (((Server.fresh config).run events).serve env r').2.status = Status.ok.code := by
  intro h
  have hexec : (createExample true).exec (Server.fresh {}) = _ := createExample_exec
  have hrun : (Server.fresh {}).run [createExample true, .request {} commitExample]
      = ((createExample true).exec (Server.fresh {})).run [.request {} commitExample] := rfl
  have hfetch := h {} [createExample true, .request {} commitExample] {} fetchExample
    groupFetchExample [116] groupCall
  rw [hrun, hexec] at hfetch
  have hok := hfetch (fetchExample_pair (by decide +kernel) (by decide +kernel))
    (by decide +kernel)
  exact absurd hok (by decide +kernel)

end MqBroker
