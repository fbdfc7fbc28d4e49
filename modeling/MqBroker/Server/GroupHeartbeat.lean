import MqBroker.Client.Call
import MqBroker.Server.Runs

/-!
# Heartbeats of Consumers

What becomes of a member of a group that sends heartbeats.

The payload of a heartbeat names the group and the member. `HandleHeartbeat`
first wants it to end behind the group and later behind the member, and since a
member id is not empty no payload does both. No heartbeat reaches the
coordinator, so that the time of a member stays the time of its last
`JOIN_GROUP`, and the first expiry that is too long after it removes the
member, however many heartbeats there were in between.

That is shown on the calls that a run makes to the coordinator. They are listed
beside the run, and replaying them gives the groups.

## Main definitions

* `groupHeartbeat`: The payload of a heartbeat.
* `Server.Beats`: A request is the heartbeat of a member.
* `Server.Refreshes`: A request sets the time of a member.
* `Server.groupLog`: The calls to the coordinator in a run.
* `Server.expiries`: The times at which members were removed.

## Theorems

* `readGroupHeartbeat_refuses`: No payload of four bytes or more is read.
* `run_groups`: The calls of a run make its groups.
* `heartbeats_ignored`: What heartbeats do to a member.
-/

namespace MqBroker

open Traced ConsumerGroupCoordinator

/-! ## Requests -/

/-- The payload of the heartbeat of a member. -/
def groupHeartbeat (group id : Bytes) : Bytes :=
  put16 (UInt16.ofNat group.length) ++ (group ++ (put16 (UInt16.ofNat id.length) ++ id))

/-- A request is the heartbeat of a member of a group, with the token that the
    broker wants. -/
structure Server.Beats (s : Server) (request : Request) (group id : Bytes) : Prop where
  command : request.command = .heartbeat
  consumer : request.hasFlag flagReplication = false
  payload : request.payload = clientPayload s.clientAuthToken (groupHeartbeat group id)

/-- A request is answered with `kOk`, and the last heartbeat of a member is now
    the time it was handled at. -/
def Server.Refreshes (s : Server) (env : ServerEnv) (request : Request) (group id : Bytes) : Prop :=
  (s.handle env request).2.status = .ok ∧
    ∃ m, (s.handle env request).1.groups.member group id = some m ∧ m.lastHeartbeat = env.now

/-- The two checks on the length of a heartbeat exclude each other. -/
theorem readGroupHeartbeat_refuses (payload : Bytes) (h : 4 ≤ payload.length) :
    (readGroupHeartbeat payload).result = .error .badRequest := by
  rw [readGroupHeartbeat, if_pos h]
  simp only [result_read16_bind, result_check_bind]
  split
  · rename_i hgroup
    rw [if_neg]
    rintro ⟨_, hmember, hboth⟩
    omega
  · rfl

theorem readGroupHeartbeat_some (payload : Bytes) (found : Bytes × Bytes) :
    (readGroupHeartbeat payload).result ≠ .ok (some found) := by
  by_cases h : 4 ≤ payload.length
  · rw [readGroupHeartbeat_refuses payload h]
    rintro ⟨⟩
  · rw [readGroupHeartbeat, if_neg h, result_check_bind]
    split <;> rintro ⟨⟩

theorem length_groupHeartbeat (group id : Bytes) :
    4 ≤ (groupHeartbeat group id).length := by
  simp only [groupHeartbeat, List.length_append, length_put16]
  omega

/-- No heartbeat of a member is answered with `kOk`. -/
theorem handle_beats {s : Server} {request : Request} {group id : Bytes}
    (h : s.Beats request group id) (env : ServerEnv) : (s.handle env request).2.status ≠ .ok := by
  rcases handle_cases s env request with
    ⟨_, _, hstatus, _⟩ | ⟨normalized, d, haccept, _, _, _, heq⟩
  · exact hstatus
  · rcases acceptRequest_cases haccept with hbroker | ⟨_, hclient⟩
    · have hflag := (validateReplicationRequest_some hbroker).1
      rw [h.consumer] at hflag
      exact absurd hflag Bool.false_ne_true
    · rcases validateClientAuth_payload h.payload hclient with ⟨hpayload, hflag⟩
      have hread := readGroupHeartbeat_refuses normalized.payload
        (by rw [hpayload]; exact length_groupHeartbeat group id)
      have hcommand := (acceptRequest_command haccept).trans h.command
      rw [heq]
      simp only [Server.dispatch, hcommand, Server.handleHeartbeat, hflag, Bool.false_eq_true,
        if_false, hread]
      exact error_status (by decide)

/-! ## The calls of a run -/

/-- The calls to the group coordinator that the handling of a request leads
    to. -/
def Server.handleOps (s : Server) (env : ServerEnv) (request : Request) : List GroupOp :=
  match s.broker.acceptRequest s.clientAuthToken request with
  | none => []
  | some normalized =>
      if ¬ s.opened ∨ (¬ request.isReplication ∧ s.clientAuthToken ≠ [] ∧
          ¬ s.authorizeClientRequest normalized) then []
      else s.groupOps env normalized

/-- The calls that an event leads to. -/
def ServerEvent.groupOps (s : Server) : ServerEvent → List GroupOp
  | .request env r =>
      match Command.ofCode r.command with
      | some command => s.handleOps env (r.request command)
      | none => []
  | _ => []

/-- The calls in a run. -/
def Server.groupLog (s : Server) : List ServerEvent → List GroupOp
  | [] => []
  | event :: rest => event.groupOps s ++ (event.exec s).groupLog rest

/-- The time of a call that removes late members. -/
def GroupOp.expiry : GroupOp → Option Int
  | .expire now => some now
  | _ => none

/-- The times at which late members are removed in a run. -/
def Server.expiries (s : Server) (events : List ServerEvent) : List Int :=
  (s.groupLog events).filterMap GroupOp.expiry

/-- An event that does not start the broker again. -/
def ServerEvent.keepsRunning : ServerEvent → Bool
  | .restart _ _ => false
  | _ => true

/-- The topics decide which calls a request leads to, and the counters do
    not. -/
theorem groupOps_congr {s s' : Server} (h : s'.broker = s.broker) (env : ServerEnv)
    (request : Request) : s'.groupOps env request = s.groupOps env request := by
  unfold Server.groupOps
  rw [h]

/-- A request that does not get to its handler leads to no call. -/
theorem handleOps_admitted {s : Server} {request normalized : Request}
    (h : s.Admits request normalized) (env : ServerEnv) :
    s.handleOps env request = s.groupOps env normalized := by
  rw [Server.handleOps, h.accepted]
  refine if_neg ?_
  rw [not_or, not_not, not_and_or, not_and_or, not_not, not_not, not_not]
  exact ⟨h.opened, h.allowed⟩

theorem handle_groups (s : Server) (env : ServerEnv) (request : Request) :
    (s.handle env request).1.groups
      = (s.handleOps env request).foldl (GroupOp.exec memberTimeout) s.groups := by
  by_cases hadmitted : ∃ normalized, s.Admits request normalized
  · rcases hadmitted with ⟨normalized, h⟩
    rcases counted_frame s request.command with ⟨hbroker, hgroups⟩
    rw [h.handle_eq, (countError_frame _ _).2, dispatch_groups, hgroups, groupOps_congr hbroker,
      handleOps_admitted h]
  · rcases handle_cases s env request with
      ⟨_, hgroups, _⟩ | ⟨normalized, _, haccept, hallowed, hopened, _⟩
    · have hops : s.handleOps env request = [] := by
        unfold Server.handleOps
        split
        · rfl
        · rename_i normalized haccept
          refine if_pos ?_
          by_contra hdenied
          rw [not_or, not_not, not_and_or, not_and_or, not_not, not_not, not_not] at hdenied
          exact hadmitted ⟨normalized, hdenied.1, haccept, hdenied.2⟩
      rw [hgroups, hops, List.foldl_nil]
    · exact absurd ⟨normalized, hopened, haccept, hallowed⟩ hadmitted

theorem handleUnknown_groups (s : Server) (request : Request) :
    (s.handleUnknown request).1.groups = s.groups := by
  simp only [Server.handleUnknown]
  split
  · rfl
  · split
    · rfl
    · split <;> rfl

/-- The groups hear of nothing but requests. -/
theorem ServerEvent.exec_groups (s : Server) (event : ServerEvent)
    (hevent : event.keepsRunning = true) :
    (event.exec s).groups = (event.groupOps s).foldl (GroupOp.exec memberTimeout) s.groups := by
  cases event with
  | request env r =>
      simp only [ServerEvent.exec, ServerEvent.groupOps, Server.serve]
      cases Command.ofCode r.command with
      | none => exact handleUnknown_groups s _
      | some command => exact handle_groups s env _
  | operate op => rfl
  | heartbeatRound env => rfl
  | pull topic partition payload ios =>
      simp only [ServerEvent.exec, Server.pull, ServerEvent.groupOps, List.foldl_nil]
      split
      · split <;> rfl
      · rfl
  | cleanup now => rfl
  | restart config kept => exact absurd hevent Bool.false_ne_true

/-- The calls of a run, one after the other, make the groups it ends with. -/
theorem run_groups (s : Server) (events : List ServerEvent)
    (hevents : ∀ event ∈ events, event.keepsRunning = true) :
    (s.run events).groups = (s.groupLog events).foldl (GroupOp.exec memberTimeout) s.groups := by
  induction events generalizing s with
  | nil => rfl
  | cons event rest ih =>
      rw [run_cons, Server.groupLog, List.foldl_append,
        ← ServerEvent.exec_groups s event (hevents event List.mem_cons_self)]
      exact ih (event.exec s) fun e he => hevents e (List.mem_cons_of_mem event he)

/-! ## One member -/

/-- A request leads to a call about a topic or a member that joins, or to an
    expiry. -/
theorem groupOps_kinds (s : Server) (env : ServerEnv) (request : Request) :
    ∀ op ∈ s.groupOps env request,
      (∃ topic count, op = .setPartitions topic count) ∨
      (∃ group id topics now, op = .join group id topics now) ∨ ∃ now, op = .expire now := by
  intro op hop
  unfold Server.groupOps at hop
  split at hop
  · split at hop
    · exact absurd hop List.not_mem_nil
    · split at hop
      · exact Or.inl ⟨_, _, List.mem_singleton.mp hop⟩
      · exact absurd hop List.not_mem_nil
  · split at hop
    · exact absurd hop List.not_mem_nil
    · exact Or.inr (Or.inl ⟨_, _, _, _, List.mem_singleton.mp hop⟩)
  · split at hop
    · exact Or.inr (Or.inr ⟨_, List.mem_singleton.mp hop⟩)
    · split at hop
      · rename_i hread
        exact absurd hread (readGroupHeartbeat_some _ _)
      · exact Or.inr (Or.inr ⟨_, List.mem_singleton.mp hop⟩)
  · exact absurd hop List.not_mem_nil

theorem groupLog_kinds (s : Server) (events : List ServerEvent) :
    ∀ op ∈ s.groupLog events,
      (∃ topic count, op = .setPartitions topic count) ∨
      (∃ group id topics now, op = .join group id topics now) ∨ ∃ now, op = .expire now := by
  induction events generalizing s with
  | nil => exact fun op hop => absurd hop List.not_mem_nil
  | cons event rest ih =>
      intro op hop
      rcases List.mem_append.mp hop with hop | hop
      · unfold ServerEvent.groupOps at hop
        split at hop
        · split at hop
          · unfold Server.handleOps at hop
            split at hop
            · exact absurd hop List.not_mem_nil
            · split at hop
              · exact absurd hop List.not_mem_nil
              · exact groupOps_kinds s _ _ op hop
          · exact absurd hop List.not_mem_nil
        · exact absurd hop List.not_mem_nil
      · exact ih (event.exec s) op hop

/-- A member that does not join again is there until an expiry finds it late. -/
theorem foldl_exec_member {group id : Bytes} {ops : List GroupOp}
    (hkinds : ∀ op ∈ ops, (∃ topic count, op = .setPartitions topic count) ∨
      (∃ group id topics now, op = .join group id topics now) ∨ ∃ now, op = .expire now)
    (hjoin : ∀ topics now, .join group id topics now ∉ ops) (c : ConsumerGroupCoordinator) :
    (ops.foldl (GroupOp.exec memberTimeout) c).member group id
      = (c.member group id).filter (fun m =>
          (ops.filterMap GroupOp.expiry).all (fun now => !late memberTimeout now m)) := by
  induction ops generalizing c with
  | nil =>
      simp only [List.foldl_nil, List.filterMap_nil, List.all_nil]
      cases c.member group id <;> rfl
  | cons op rest ih =>
      have hrest := ih (fun op hop => hkinds op (List.mem_cons_of_mem _ hop))
        (fun topics now hmem => hjoin topics now (List.mem_cons_of_mem _ hmem))
        (op.exec memberTimeout c)
      rw [List.foldl_cons, hrest, GroupOp.exec_member]
      rcases hkinds op List.mem_cons_self with ⟨topic, count, rfl⟩ |
        ⟨group', id', topics, now, rfl⟩ | ⟨now, rfl⟩
      · rfl
      · -- Somebody else joins.
        simp only [GroupOp.memberAfter]
        rw [if_neg]
        · rfl
        · rintro ⟨_, _, rfl, rfl⟩
          exact hjoin topics now List.mem_cons_self
      · rw [GroupOp.memberAfter, Option.filter_filter]
        rfl

/-- All that the heartbeat of a member can lead to is an expiry. -/
theorem handleOps_beats {s : Server} {request : Request} {group id : Bytes}
    (h : s.Beats request group id) (env : ServerEnv) :
    ∀ op ∈ s.handleOps env request, op = .expire env.now := by
  intro op hop
  unfold Server.handleOps at hop
  split at hop
  · exact absurd hop List.not_mem_nil
  · rename_i normalized haccept
    split at hop
    · exact absurd hop List.not_mem_nil
    · have hcommand := (acceptRequest_command haccept).trans h.command
      simp only [Server.groupOps, hcommand] at hop
      split at hop
      · exact List.mem_singleton.mp hop
      · split at hop
        · rename_i hread
          exact absurd hread (readGroupHeartbeat_some _ _)
        · exact List.mem_singleton.mp hop

/-- The heartbeat of a member leaves it as it is, or finds it late. -/
theorem beats_member {s : Server} {request : Request} {group id : Bytes}
    (h : s.Beats request group id) (env : ServerEnv) :
    (s.handle env request).1.groups.member group id = s.groups.member group id ∨
      (s.handle env request).1.groups.member group id = none := by
  have hops := handleOps_beats h env
  rw [handle_groups, foldl_exec_member
    (fun op hop => Or.inr (Or.inr ⟨env.now, hops op hop⟩))
    (fun topics now hjoin => nomatch hops _ hjoin)]
  cases s.groups.member group id with
  | none => exact Or.inl rfl
  | some m =>
      rw [Option.filter_some]
      split
      · exact Or.inl rfl
      · exact Or.inr rfl

/-- Whatever heartbeats a member of a group sends to a broker, none is answered
    with `kOk` and none sets its time. As long as it does not join again, it is
    there until late members are removed at a time that is too long after its
    last `JOIN_GROUP`, and then it is gone. -/
theorem heartbeats_ignored (config : ServerConfig) (before after : List ServerEvent)
    (group id : Bytes) (m : GroupMember)
    (hactive : ((Server.fresh config).run before).groups.member group id = some m)
    (hafter : ∀ event ∈ after, event.keepsRunning = true)
    (hjoin : ∀ topics now,
      .join group id topics now ∉ ((Server.fresh config).run before).groupLog after) :
    (∀ env request, ((Server.fresh config).run before).Beats request group id →
      ¬ ((Server.fresh config).run before).Refreshes env request group id ∧
      ((((Server.fresh config).run before).handle env request).1.groups.member group id = some m ∨
        (((Server.fresh config).run before).handle env request).1.groups.member group id
          = none)) ∧
    ((Server.fresh config).run (before ++ after)).groups.member group id
      = if ∀ now ∈ ((Server.fresh config).run before).expiries after,
          now - m.lastHeartbeat ≤ memberTimeout then some m else none := by
  generalize hs : (Server.fresh config).run before = s at hactive hjoin ⊢
  refine ⟨fun env request hbeats =>
    ⟨fun hrefreshes => handle_beats hbeats env hrefreshes.1, ?_⟩, ?_⟩
  · rw [← hactive]
    exact beats_member hbeats env
  · rw [run_append, hs, run_groups s after hafter,
      foldl_exec_member (groupLog_kinds s after) hjoin, hactive, Option.filter_some]
    refine if_congr ?_ rfl rfl
    simp only [List.all_eq_true, late, Bool.not_eq_true', decide_eq_false_iff_not, gt_iff_lt,
      not_lt, Server.expiries]

/-- The payload with which a member called "0 1", two bytes that are also the
    number of topics, joins group "g" for topic "t". -/
def joinExample : Bytes := [0, 1, 103, 0, 2, 0, 1, 0, 1, 0, 1, 116]

/-- The member sends a heartbeat. -/
def beatExample (now : Int) : ServerEvent :=
  .request { now := now } { command := 0x30, payload := groupHeartbeat [103] [0, 1] }

/-- The member joins at 0, and sends heartbeats after 20 and 40 seconds. -/
theorem heartbeats_ignored_example :
    ((Server.fresh {}).run ([.request { now := 0 } { command := 0x24, payload := joinExample }] ++
        [beatExample 20000000000, beatExample 40000000000])).groups.member [103] [0, 1]
      = if ∀ now ∈ ([20000000000, 40000000000] : List Int), now - 0 ≤ memberTimeout then
          some ⟨0, [[116]]⟩
        else none :=
  (heartbeats_ignored {} [.request { now := 0 } { command := 0x24, payload := joinExample }]
    [beatExample 20000000000, beatExample 40000000000] [103] [0, 1] ⟨0, [[116]]⟩ (by decide +kernel)
    (by decide) (by
      intro topics now hmem
      rcases List.mem_cons.mp hmem with h | hmem
      · cases h
      · cases List.mem_singleton.mp hmem)).2

/-- A member joins and sends a heartbeat at once: the answer is
    `kBadRequest`. It sends heartbeats after 20 and 40 seconds, and is
    removed. -/
theorem heartbeat_refused_example :
    ¬ (∀ env request,
        ((Server.fresh {}).run
          [.request { now := 0 } { command := 0x24, payload := joinExample }]).Beats request [103]
          [0, 1] →
        ((Server.fresh {}).run
          [.request { now := 0 } { command := 0x24, payload := joinExample }]).Refreshes env request
          [103] [0, 1]) ∧
      ((Server.fresh {}).run [.request { now := 0 } { command := 0x24, payload := joinExample },
        beatExample 20000000000, beatExample 40000000000]).groups.member [103] [0, 1] = none := by
  refine ⟨fun h => ?_, by decide +kernel⟩
  have hbeats := h { now := 0 } { command := .heartbeat, payload := groupHeartbeat [103] [0, 1] }
    ⟨rfl, by decide, rfl⟩
  exact absurd hbeats.1 (by decide +kernel)

end MqBroker
