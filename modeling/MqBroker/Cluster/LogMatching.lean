import MqBroker.Cluster.Wire
import MqBroker.Lib.Chain

/-!
# Log Matching

When a follower answers `kOk` to the messages up to offset j, does it have the
messages 0 to j of the leader? The check of the code is on the last entry of
the follower alone, it is skipped for the first two offsets, and a leader never
takes anything back. So it all depends on who writes.

As long as every message is stored by a node with the longest log of the
partition, all copies of a partition are beginnings of one another, and a push
that fits is a piece of the longest. The first write by a node that has missed
a message breaks this for good. `logs_diverge` is such a run.

## Main definitions

* `LogsMatch`: A follower has the log of the leader up to a push.
* `ClusterEvent.Complete`: Only the longest log is written to.
* `Matched`: Copies of a log are beginnings of one another.

## Theorems

* `Matched.exec`: One event.
* `matched_run`: A run.
* `log_matching`: The answer `kOk` means that the logs match.
-/

namespace MqBroker

open ReplicationCoordinator

/-! ## Statement -/

/-- A follower has the same messages as the leader, up to the last one of a
    push. -/
def LogsMatch (s : BrokerCluster) (p : Push) (follower : Bytes) : Prop :=
  let last := (lastOffset p.call.messages).toNat
  last < (s.wal follower p.call.topic p.call.partition).length ∧
    last < (s.wal p.leader p.call.topic p.call.partition).length ∧
    (s.wal follower p.call.topic p.call.partition).take (last + 1)
      = (s.wal p.leader p.call.topic p.call.partition).take (last + 1)

instance (s : BrokerCluster) (p : Push) (follower : Bytes) : Decidable (LogsMatch s p follower) :=
  inferInstanceAs (Decidable (_ ∧ _ ∧ _))

/-- A message is stored by a node that has missed none, and there is an offset
    left for it. -/
def AdmittedProduce.Complete (config : BrokersConfig) (s : BrokerCluster) (a : AdmittedProduce) :
    Prop :=
  (∀ m ∈ config.members, (s.wal m a.request.topic a.partition).length
      ≤ (s.wal a.node a.request.topic a.partition).length) ∧
    (s.wal a.node a.request.topic a.partition).length + 1 < 2 ^ 64

instance (config : BrokersConfig) (s : BrokerCluster) (a : AdmittedProduce) :
    Decidable (a.Complete config s) :=
  inferInstanceAs (Decidable (_ ∧ _))

/-- What is asked of an event. The replication loop has to push no more
    messages at once than a follower reads. -/
def ClusterEvent.Complete (config : BrokersConfig) (s : BrokerCluster) : ClusterEvent → Prop
  | .store index => ∀ a ∈ s.admitted[index]?, a.Complete config s
  | .pushPending n topic partition start partitionOk =>
      ((s.nodes n).pendingMessages partitionOk topic partition start).length ≤ 10000
  | .restart _ => False
  | _ => True

instance (config : BrokersConfig) (s : BrokerCluster) (e : ClusterEvent) :
    Decidable (e.Complete config s) :=
  match e with
  | .store index => inferInstanceAs (Decidable (∀ a ∈ s.admitted[index]?, _))
  | .pushPending _ _ _ _ _ => inferInstanceAs (Decidable (_ ≤ 10000))
  | .restart _ => inferInstanceAs (Decidable False)
  | .createTopic _ _ _ | .operate _ _ | .askVotes _ _ | .vote _ _ | .receive _ _ _ _ _ | .push _
  | .deliver _ _ _ | .answer _ _ | .giveUp _ | .finish _ _ | .fetch _ _ _ _ _ _ _ _ =>
      inferInstanceAs (Decidable True)

/-- All events of a run are complete. -/
def RunsComplete (config : BrokersConfig) : BrokerCluster → List ClusterEvent → Prop
  | _, [] => True
  | s, e :: rest => e.Complete config s ∧ RunsComplete config (e.exec config s) rest

instance decidableRunsComplete (config : BrokersConfig) :
    (s : BrokerCluster) → (events : List ClusterEvent) → Decidable (RunsComplete config s events)
  | _, [] => inferInstanceAs (Decidable True)
  | s, e :: rest =>
      haveI := decidableRunsComplete config (e.exec config s) rest
      inferInstanceAs (Decidable (_ ∧ _))

/-! ## The invariant -/

/-- The copies of a log are beginnings of one another, and so short that
    offsets are positions. -/
structure Chained (config : BrokersConfig) (s : BrokerCluster) : Prop where
  chain : ∀ t p, PrefixChain {n | n ∈ config.members} (fun n => s.wal n t p)
  short : ∀ n ∈ config.members, ∀ t p, (s.wal n t p).length < 2 ^ 64

/-- The invariant: logs are chained, and what is on the wire is a piece of the
    log of its sender. -/
structure Matched (config : BrokersConfig) (s : BrokerCluster) : Prop where
  logged : Logged config s
  pushable : Pushable s
  logs : Chained config s
  pieces : ∀ q ∈ s.pushes, q.call.messages.length ≤ 10000 ∧
    ∃ front, front ++ q.call.messages <+: s.wal q.leader q.call.topic q.call.partition

section Steps

variable {config : BrokersConfig} {s s' : BrokerCluster}

theorem Chained.of_same (h : Chained config s) (hwal : ∀ m t p, s'.wal m t p = s.wal m t p) :
    Chained config s' := by
  refine ⟨?_, ?_⟩
  · intro t p
    simp only [hwal]
    exact h.chain t p
  · intro n hn t p
    rw [hwal]
    exact h.short n hn t p

/-- It is enough to look at the log that has grown. -/
theorem Chained.of_moved {n : Bytes} {ops : List Op} {t : Bytes} {p : UInt32} {ms : List Message}
    (h : Chained config s) (hmoved : Moved s s' n ops t p ms)
    (hchain : PrefixChain {n | n ∈ config.members} (fun n => s'.wal n t p))
    (hshort : (s.wal n t p ++ ms).length < 2 ^ 64) : Chained config s' := by
  rcases hmoved.wal with ⟨hgrown, hothers, helse⟩
  refine ⟨?_, ?_⟩
  · intro t' p'
    by_cases hplace : (t', p') = (t, p)
    · rcases Prod.mk.inj hplace with ⟨rfl, rfl⟩
      exact hchain
    · simp only [helse _ t' p' hplace]
      exact h.chain t' p'
  · intro m hm t' p'
    by_cases hplace : (t', p') = (t, p)
    · rcases Prod.mk.inj hplace with ⟨rfl, rfl⟩
      by_cases hmn : m = n
      · rw [hmn, hgrown]
        exact hshort
      · rw [hothers m hmn]
        exact h.short m hm t' p'
    · rw [helse m t' p' hplace]
      exact h.short m hm t' p'

/-- A log that takes on messages from a piece of another log is a beginning of
    that one, because their first offset says where the piece stands. -/
theorem Chained.fits (hlogged : Logged config s) (h : Chained config s) {n l : Bytes} {t : Bytes}
    {p : UInt32} {ms : List Message} (hn : n ∈ config.members) (hl : l ∈ config.members)
    (hnumbered : Numbered ((s.nodes n).storage.partition t p).nextOffset ms) (hne : ms ≠ [])
    (hpiece : ∃ front, front ++ ms <+: s.wal l t p) : s.wal n t p ++ ms <+: s.wal l t p := by
  rcases hpiece with ⟨front, hpre⟩
  rcases List.exists_cons_of_ne_nil hne with ⟨first, rest, rfl⟩
  have hlen := hpre.length_le
  rw [List.length_append, List.length_cons] at hlen
  have hshort := h.short l hl t p
  have hshortn := h.short n hn t p
  -- The first message has the same offset in both logs, so as much stands in front of it.
  have hsource : first.offset = UInt64.ofNat front.length := (hlogged.counted l t p).offset hpre
  have htarget : first.offset = UInt64.ofNat (s.wal n t p).length :=
    hnumbered.1.trans (hlogged.counted n t p).next
  have hfront : front.length = (s.wal n t p).length := by
    have hsame := congrArg UInt64.toNat (hsource.symm.trans htarget)
    rw [UInt64.toNat_ofNat', UInt64.toNat_ofNat', Nat.mod_eq_of_lt (by omega),
      Nat.mod_eq_of_lt hshortn] at hsame
    exact hsame
  have hbegin : s.wal n t p <+: s.wal l t p :=
    (h.chain t p).prefix_of_le hn hl (show (s.wal n t p).length ≤ (s.wal l t p).length by omega)
  have heq : front = s.wal n t p := by
    have hboth := List.prefix_of_prefix_length_le ((List.prefix_append front _).trans hpre) hbegin
      (le_of_eq hfront)
    exact hboth.eq_of_length hfront
  rw [← heq]
  exact hpre

/-- A log that takes on a piece of another one. -/
theorem Chained.copied (hlogged : Logged config s) (h : Chained config s) {n l : Bytes}
    {ops : List Op} {t : Bytes} {p : UInt32} {ms : List Message}
    (hmoved : Moved s s' n ops t p ms) (hn : n ∈ config.members) (hl : l ∈ config.members)
    (hpiece : ∃ front, front ++ ms <+: s.wal l t p) : Chained config s' := by
  rcases hmoved.wal with ⟨hgrown, hothers, _⟩
  by_cases hms : ms = []
  · rw [hms] at hmoved
    exact h.of_same hmoved.same_wal
  · have hfits := h.fits hlogged hn hl hmoved.step.numbered hms hpiece
    refine h.of_moved hmoved ((h.chain t p).copy hl ms hfits hgrown hothers) ?_
    exact lt_of_le_of_lt hfits.length_le (h.short l hl t p)

/-- A log that is written to by its leader. -/
theorem Chained.written (h : Chained config s) {ops : List Op} {ms : List Message}
    {a : AdmittedProduce} (hmoved : Moved s s' a.node ops a.request.topic a.partition ms)
    (hn : a.node ∈ config.members) (hms : ms = [] ∨ ∃ m, ms = [m])
    (hcomplete : a.Complete config s) : Chained config s' := by
  rcases hmoved.wal with ⟨hgrown, hothers, _⟩
  refine h.of_moved hmoved ((h.chain _ _).grow hn hcomplete.1 ms hgrown hothers) ?_
  have hone : ms.length ≤ 1 := by
    rcases hms with rfl | ⟨m, rfl⟩
    · exact Nat.zero_le 1
    · exact le_rfl
  have hroom := hcomplete.2
  rw [List.length_append]
  omega

theorem pushed_piece (h : Matched config s) {q : Push} (hq : q ∈ s.pushes) (ms : List Message)
    (hms : ms <+: q.call.messages) :
    ∃ front, front ++ ms <+: s.wal q.leader q.call.topic q.call.partition := by
  rcases (h.pieces q hq).2 with ⟨front, hpre⟩
  exact ⟨front, ((List.prefix_append_right_inj front).mpr hms).trans hpre⟩

/-- The logs after an event. -/
theorem Matched.chained (h : Matched config s) (e : ClusterEvent) (he : e.Complete config s) :
    Chained config (e.exec config s) := by
  by_cases hstep : e.isStep = true
  · rcases exec_effect h.logged e hstep with ⟨n, ops, t, p, ms, heffect, hmoved⟩
    cases heffect with
    | quiet => exact h.logs.of_same hmoved.same_wal
    | operate => exact h.logs.of_same hmoved.same_wal
    | vote => exact h.logs.of_same hmoved.same_wal
    | commit => exact h.logs.of_same hmoved.same_wal
    | answer => exact h.logs.of_same hmoved.same_wal
    | store index hindex a ha hnode ops hops ms hms =>
        rw [hindex] at he
        rw [← hnode] at hmoved
        exact h.logs.written hmoved (h.logged.admitted a (List.mem_of_getElem? ha)).1 hms
          (he a ha)
    | deliver q hq hn hne ops hops t p ms hms =>
        rcases hms ⟨(h.pieces q hq).1, h.pushable.pushes q hq⟩ with ⟨rfl, rfl, hpre⟩
        exact h.logs.copied h.logged hmoved hn (h.logged.pushes q hq).leader.1
          (pushed_piece h hq ms hpre)
    | fetch source hn hsource t p partitionOk start ms hms =>
        rcases pendingMessages_piece (s.nodes source) (h.logged.counted source) partitionOk t p
          start (h.logs.short source hsource t p) with ⟨front, hpre⟩
        exact h.logs.copied h.logged hmoved hn hsource
          ⟨front, ((List.prefix_append_right_inj front).mpr hms).trans hpre⟩
  · cases e with
    | createTopic n name count => exact h.logs.of_same (createTopic_wal n name count)
    | restart n => exact absurd he id
    | _ => exact absurd rfl hstep

/-- A complete event is not a restart. -/
theorem ClusterEvent.Complete.restartsWhole {e : ClusterEvent} (he : e.Complete config s) :
    e.RestartsWhole s := by
  cases e with
  | restart n => exact absurd he id
  | _ => trivial

/-- A push that was just sent is a piece of the log it was sent from. -/
theorem NewPush.piece (h : Matched config s) {e : ClusterEvent} (he : e.Complete config s)
    {q : Push} (hq : NewPush config s e q) : q.call.messages.length ≤ 10000 ∧
      ∃ front, front ++ q.call.messages <+: s.wal q.leader q.call.topic q.call.partition := by
  rcases hq.messages with ⟨c, hc, hnode, htopic, hpartition, hmessages⟩ |
    ⟨partitionOk, start, hevent, hmessages⟩
  · rw [hmessages, ← hnode, ← htopic, ← hpartition]
    rcases List.append_of_mem (h.logged.calls c hc).2.2 with ⟨front, back, heq⟩
    refine ⟨by rw [List.length_singleton]; omega, front, back, ?_⟩
    rw [heq, List.append_assoc, List.singleton_append]
  · rw [hevent] at he
    rw [hmessages]
    exact ⟨he, pendingMessages_piece (s.nodes q.leader) (h.logged.counted q.leader) partitionOk _ _
      start (h.logs.short q.leader hq.leader _ _)⟩

/-- The invariant survives a complete event. -/
theorem Matched.exec (h : Matched config s) (e : ClusterEvent) (he : e.Complete config s) :
    Matched config (e.exec config s) := by
  refine ⟨h.logged.exec e, h.pushable.exec h.logged e he.restartsWhole, h.chained e he, ?_⟩
  intro q hq
  have hold : q.call.messages.length ≤ 10000 ∧
      ∃ front, front ++ q.call.messages <+: s.wal q.leader q.call.topic q.call.partition := by
    rcases exec_pushes h.logged e q hq with hold | hnew
    · exact h.pieces q hold
    · exact hnew.piece h he
  -- Logs only grow, so a piece stays a piece.
  rcases hold with ⟨hcount, front, hpre⟩
  exact ⟨hcount, front, hpre.trans (exec_wal h.logged e _ (he.restartsWhole.recovers _) _ _)⟩

theorem matched_boot (config : BrokersConfig) : Matched config (bootBrokers config) := by
  have hempty : ∀ n t p, (bootBrokers config).wal n t p = [] := fun _ _ _ => rfl
  refine ⟨logged_boot config, pushable_boot config, ⟨?_, ?_⟩, fun q hq => absurd hq List.not_mem_nil⟩
  · intro t p i _ j _
    simp only [hempty]
    exact Or.inl List.prefix_rfl
  · intro n _ t p
    rw [hempty, List.length_nil]
    omega

/-- The invariant holds after a run of complete events. -/
theorem matched_run (events : List ClusterEvent) (h : Matched config s)
    (hcomplete : RunsComplete config s events) : Matched config (s.run config events) := by
  induction events generalizing s with
  | nil => exact h
  | cons e rest ih => exact ih (h.exec e hcomplete.1) hcomplete.2

/-- A node that answers `kOk` has the log of the leader up to the push. -/
theorem Matched.logsMatch (h : Matched config s) {index : Nat} {q : Push}
    (hq : s.pushes[index]? = some q) {f : Bytes} (hf : f ∈ config.members) (hne : f ≠ q.leader)
    (env : ReplicaEnv) (hok : ((s.nodes f).receiveAppend env q.request).2.status = .ok) :
    LogsMatch ((ClusterEvent.deliver index f env).exec config s) q f := by
  have hmem := List.mem_of_getElem? hq
  have hvalid := h.logged.pushes q hmem
  have hnext := h.exec (.deliver index f env) trivial
  have hexec : (ClusterEvent.deliver index f env).exec config s = s.deliver index f env q := by
    simp only [ClusterEvent.exec, hq, if_pos (And.intro hf hne)]
  rcases deliver_follow h.logged index f env q hmem
    ⟨(h.pieces q hmem).1, h.pushable.pushes q hmem⟩ with
    ⟨ops, ms, hmoved, _, hwhole, _⟩
  rw [(hwhole hok).1, ← hexec] at hmoved
  rcases hmoved.wal with ⟨hgrown, hothers, _⟩
  have hmessages : q.call.messages ≠ [] := by
    intro hnone
    have hbuilt := hvalid.built
    rw [appendRequest, if_pos (Or.inl hnone)] at hbuilt
    cases hbuilt
  have hfits := h.logs.fits h.logged hf hvalid.leader.1 hmoved.step.numbered hmessages
    (pushed_piece h hmem q.call.messages List.prefix_rfl)
  rw [← hgrown, ← hothers q.leader (Ne.symm hne)] at hfits
  -- The last message of the push is the last one of the follower.
  have hlast : (lastOffset q.call.messages).toNat + 1
      = (((ClusterEvent.deliver index f env).exec config s).wal f q.call.topic
          q.call.partition).length := by
    have hshort := hnext.logs.short f hf q.call.topic q.call.partition
    rcases List.eq_nil_or_concat q.call.messages with hnone | ⟨front, last, hconcat⟩
    · exact absurd hnone hmessages
    · rw [List.concat_eq_append] at hconcat
      have hpre : (s.wal f q.call.topic q.call.partition ++ front) ++ [last]
          <+: ((ClusterEvent.deliver index f env).exec config s).wal f q.call.topic
            q.call.partition := by
        rw [List.append_assoc, ← hconcat, ← hgrown]
      have hoffset := (hnext.logged.counted f q.call.topic q.call.partition).offset hpre
      rw [hgrown, hconcat, List.length_append, List.length_append, List.length_singleton] at hshort
      rw [lastOffset, hgrown, hconcat, List.getLast?_append_of_ne_nil _ (List.cons_ne_nil last []),
        List.getLast?_singleton, Option.map_some, Option.getD_some, hoffset, UInt64.toNat_ofNat',
        List.length_append, List.length_append, List.length_append, List.length_singleton,
        Nat.mod_eq_of_lt (by omega)]
      omega
  refine ⟨by omega, by have hle := hfits.length_le; omega, ?_⟩
  rw [hlast, List.take_length]
  exact List.prefix_iff_eq_take.mp hfits

end Steps

/-! ## Log matching -/

/-- Log matching, in every run in which messages are only stored by a node
    with the longest log: a `kOk` means that the follower has the log of the
    leader, up to the last message of the push. -/
theorem log_matching (config : BrokersConfig) (events : List ClusterEvent)
    (hcomplete : RunsComplete config (bootBrokers config) events) (index : Nat) (q : Push)
    (hq : ((bootBrokers config).run config events).pushes[index]? = some q) (f : Bytes)
    (hf : f ∈ config.members) (hne : f ≠ q.leader) (env : ReplicaEnv)
    (hok : ((((bootBrokers config).run config events).nodes f).receiveAppend env
      q.request).2.status = .ok) :
    LogsMatch ((ClusterEvent.deliver index f env).exec config
      ((bootBrokers config).run config events)) q f :=
  (matched_run events (matched_boot config) hcomplete).logsMatch hq hf hne env hok

/-- Three brokers with a quorum of two. -/
def threeBrokers : BrokersConfig where
  members := [[65], [66], [67]]
  first := [65]
  token := [1]
  quorum := 2

/-- A produce request for one byte, to the first partition of a topic. -/
def produceByte (value : UInt8) (flags : UInt16) : Request where
  command := .produce
  flags := flags
  topic := [101]
  payload := put32 0 ++ (put16 0 ++ (put32 1 ++ [value]))

/-- The topic is created everywhere, and the first node has heard from the
    second. -/
def started : List ClusterEvent :=
  [.createTopic [65] [101] 1, .createTopic [66] [101] 1, .createTopic [67] [101] 1,
    .operate [65] (.observeHeartbeat (partitionKey [101] 0) [66] 0 0)]

/-- The third node is elected with the vote of the second, in the term after
    the first. -/
def thirdElected : List ClusterEvent :=
  [.operate [67] .beginElection, .askVotes [67] 1, .vote [66] 0,
    .operate [67] (.observeVote 1 [66] true),
    .operate [67] (.observeHeartbeat (partitionKey [101] 0) [66] 0 0)]

/-- A message is replicated to all nodes before the leader changes, and the
    next leader writes behind it. -/
def matchingRun : List ClusterEvent :=
  started ++
    [.receive [65] {} (produceByte 42 2) true true, .store 0, .push 0, .deliver 0 [66] {},
      .answer 0 0, .push 0, .deliver 1 [67] {}] ++ thirdElected ++
    [.receive [67] {} (produceByte 43 2) true true, .store 0, .push 1]

theorem log_matching_after_election :
    RunsComplete threeBrokers (bootBrokers threeBrokers) matchingRun ∧
      ∃ q, ((bootBrokers threeBrokers).run threeBrokers matchingRun).pushes[2]? = some q ∧
        LogsMatch ((ClusterEvent.deliver 2 [66] {}).exec threeBrokers
          ((bootBrokers threeBrokers).run threeBrokers matchingRun)) q [66] := by
  have hcomplete : RunsComplete threeBrokers (bootBrokers threeBrokers) matchingRun := by
    decide +kernel
  have hanswer : ∃ q ∈ ((bootBrokers threeBrokers).run threeBrokers matchingRun).pushes,
      ((bootBrokers threeBrokers).run threeBrokers matchingRun).pushes[2]? = some q ∧
        [66] ≠ q.leader ∧
        ((((bootBrokers threeBrokers).run threeBrokers matchingRun).nodes [66]).receiveAppend {}
          q.request).2.status = .ok := by
    decide +kernel
  rcases hanswer with ⟨q, _, hq, hne, hok⟩
  exact ⟨hcomplete, q, hq,
    log_matching threeBrokers matchingRun hcomplete 2 q hq [66] (by decide) hne {} hok⟩

/-- The first node stores a message that it does not get to push. The next
    leader has not seen it and stores two others. -/
def divergingRun : List ClusterEvent :=
  started ++ [.receive [65] {} (produceByte 42 0) true true, .store 0] ++ thirdElected ++
    [.receive [67] {} (produceByte 43 0) true true, .store 0,
      .receive [67] {} (produceByte 44 2) true true, .store 0, .push 0]

/-- Without the condition logs do not match. The first node answers `kOk` to
    the second message of the new leader, because it has one message, and keeps
    its own first message. -/
theorem logs_diverge :
    ∃ q ∈ ((bootBrokers threeBrokers).run threeBrokers divergingRun).pushes,
      ((bootBrokers threeBrokers).run threeBrokers divergingRun).pushes[0]? = some q ∧
        q.leader = [67] ∧ ((((bootBrokers threeBrokers).run threeBrokers divergingRun).nodes
          [67]).coordinator.role = .leader) ∧
        ((((bootBrokers threeBrokers).run threeBrokers divergingRun).nodes [65]).receiveAppend {}
          q.request).2.status = .ok ∧
        ¬ LogsMatch ((ClusterEvent.deliver 0 [65] {}).exec threeBrokers
          ((bootBrokers threeBrokers).run threeBrokers divergingRun)) q [65] := by
  decide +kernel

end MqBroker
