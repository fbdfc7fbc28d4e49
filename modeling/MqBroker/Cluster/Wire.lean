import MqBroker.Cluster.Steps

/-!
# What Is Under Way

What becomes of the lists of a cluster: the requests on the wire, the calls
that wait for their replicas, the votes and the acknowledgements. An event
writes to its own lists and to no other, and where a new entry comes from is
said once here, for each of the lists.

`Logged` holds in every run, also in one with restarts that find half a record
in a log file. That logs only grow, and that everything in them can be pushed
as it is, takes restarts that find their log files whole.

## Main definitions

* `ClusterEvent.lists`, `ListsKept`: What an event writes to.
* `NewPush`, `CallFrom`: Where pushes and calls come from.
* `Broker.Recovers`: A restart finds the logs as they were.
* `Pushable`: Everything can be pushed as it is.

## Theorems

* `exec_kept`: An event only writes to its own lists.
* `exec_pushes`, `exec_calls`, `exec_accepted`, `exec_acked`: Where entries
  come from.
* `Logged.exec`: The invariant survives an event.
* `exec_wal`: Logs only grow.
-/

namespace MqBroker

open ReplicationCoordinator

section Wire

variable {config : BrokersConfig} {s : BrokerCluster}

/-! ## What is left alone -/

/-- The lists of a cluster. -/
inductive ListName
  | grants
  | ballots
  | pushes
  | accepted
  | admitted
  | calls
  | acked
deriving DecidableEq

/-- The lists an event can write to. -/
def ClusterEvent.lists : ClusterEvent → List ListName
  | .createTopic _ _ _ => []
  | .operate _ _ => [.grants]
  | .askVotes _ _ => [.ballots]
  | .vote _ _ => [.grants]
  | .receive _ _ _ _ _ => [.admitted, .acked]
  | .store _ => [.admitted, .calls]
  | .push _ => [.pushes, .calls]
  | .pushPending _ _ _ _ _ => [.pushes]
  | .deliver _ _ _ => [.accepted]
  | .answer _ _ => [.calls]
  | .giveUp _ => [.calls]
  | .finish _ _ => [.calls, .acked]
  | .fetch _ _ _ _ _ _ _ _ => []
  | .restart _ => [.admitted, .calls]

/-- The lists that are the same in two clusters. -/
structure ListsKept (lists : List ListName) (s s' : BrokerCluster) : Prop where
  grants : .grants ∉ lists → s'.grants = s.grants
  ballots : .ballots ∉ lists → s'.ballots = s.ballots
  pushes : .pushes ∉ lists → s'.pushes = s.pushes
  accepted : .accepted ∉ lists → s'.accepted = s.accepted
  admitted : .admitted ∉ lists → s'.admitted = s.admitted
  calls : .calls ∉ lists → s'.calls = s.calls
  acked : .acked ∉ lists → s'.acked = s.acked

theorem ListsKept.refl (lists : List ListName) (s : BrokerCluster) : ListsKept lists s s :=
  ⟨fun _ => rfl, fun _ => rfl, fun _ => rfl, fun _ => rfl, fun _ => rfl, fun _ => rfl,
    fun _ => rfl⟩

theorem admit_frame (n : Bytes) (env : ProduceEnv) (request : Request) (rate quota : Bool) :
    ∃ b admitted acked, s.receive n env request rate quota = { s.set n b with admitted, acked } := by
  simp only [BrokerCluster.receive]
  split
  · refine ⟨s.nodes n, s.admitted, s.acked, ?_⟩
    simp only [BrokerCluster.set, Function.update_eq_self]
  · split <;> exact ⟨_, _, _, rfl⟩

theorem store_frame (a : AdmittedProduce) :
    ∃ b calls, s.store a = { s.set a.node b with calls := calls } := by
  simp only [BrokerCluster.store]
  split
  · exact ⟨_, _, rfl⟩
  · split
    · exact ⟨_, _, rfl⟩
    · split <;> exact ⟨_, _, rfl⟩

theorem send_frame (n : Bytes) (a : AppendCall) : ∃ pushes, s.send n a = { s with pushes } := by
  simp only [BrokerCluster.send]
  split <;> exact ⟨_, rfl⟩

theorem pushNext_frame (index : Nat) (call : ReplicateCall) :
    ∃ pushes calls, s.pushNext index call = { s with pushes, calls } := by
  unfold BrokerCluster.pushNext
  split
  · rcases send_frame (s := s) call.node ((s.nodes call.node).appendCall call.request.topic
      call.partition [call.message]) with ⟨pushes, h⟩
    simp only [h]
    exact ⟨_, _, rfl⟩
  · exact ⟨_, _, rfl⟩

/-- Noting an answer casts no vote. -/
theorem noteAnswer_frame (index : Nat) (now : Int) (call : ReplicateCall) :
    ∃ b calls, s.noteAnswer index now call = { s.set call.node b with calls } := by
  have hstill : ∃ b calls, s = { s.set call.node b with calls } := by
    refine ⟨s.nodes call.node, s.calls, ?_⟩
    simp only [BrokerCluster.set, Function.update_eq_self]
  simp only [BrokerCluster.noteAnswer]
  split
  · exact hstill
  · split
    · exact hstill
    · rename_i peer push _ _
      refine ⟨{ s.nodes call.node with
        coordinator := (s.nodes call.node).coordinator.observeHeartbeat (partitionKey
          call.request.topic call.partition) peer call.message.offset now },
        s.calls.set index
          { call with pending := none, acknowledged := call.acknowledged ++ [peer] }, ?_⟩
      simp only [BrokerCluster.operate, Op.vote, Op.exec, Option.toList_none, List.map_nil,
        List.append_nil, BrokerCluster.set]

theorem finishCall_frame (index : Nat) (now : Int) (call : ReplicateCall) :
    ∃ b calls acked, s.finishCall index now call = { s.set call.node b with calls, acked } := by
  simp only [BrokerCluster.finishCall]
  split
  · refine ⟨s.nodes call.node, s.calls, s.acked, ?_⟩
    simp only [BrokerCluster.set, Function.update_eq_self]
  · split
    · refine ⟨s.nodes call.node, s.calls.eraseIdx index, s.acked, ?_⟩
      simp only [BrokerCluster.set, Function.update_eq_self]
    · split <;> exact ⟨_, _, _, rfl⟩

/-- An event only writes to its own lists. -/
theorem exec_kept (config : BrokersConfig) (s : BrokerCluster) (e : ClusterEvent) :
    ListsKept e.lists s (e.exec config s) := by
  cases e with
  | createTopic n name count =>
      simp only [ClusterEvent.exec]
      split
      · exact ⟨fun _ => rfl, fun _ => rfl, fun _ => rfl, fun _ => rfl, fun _ => rfl, fun _ => rfl,
          fun _ => rfl⟩
      · exact .refl _ s
  | operate n op =>
      simp only [ClusterEvent.exec]
      split
      · exact ⟨fun h => absurd List.mem_cons_self h, fun _ => rfl, fun _ => rfl, fun _ => rfl,
          fun _ => rfl, fun _ => rfl, fun _ => rfl⟩
      · exact .refl _ s
  | askVotes n t =>
      simp only [ClusterEvent.exec]
      split
      · exact ⟨fun _ => rfl, fun h => absurd List.mem_cons_self h, fun _ => rfl, fun _ => rfl,
          fun _ => rfl, fun _ => rfl, fun _ => rfl⟩
      · exact .refl _ s
  | vote n index =>
      simp only [ClusterEvent.exec]
      split
      · exact .refl _ s
      · split
        · exact ⟨fun h => absurd List.mem_cons_self h, fun _ => rfl, fun _ => rfl, fun _ => rfl,
            fun _ => rfl, fun _ => rfl, fun _ => rfl⟩
        · exact .refl _ s
  | receive n env request rate quota =>
      simp only [ClusterEvent.exec]
      split
      · rcases admit_frame (s := s) n env request rate quota with ⟨b, l, l', heq⟩
        rw [heq]
        exact ⟨fun _ => rfl, fun _ => rfl, fun _ => rfl, fun _ => rfl,
          fun h => absurd List.mem_cons_self h, fun _ => rfl,
          fun h => absurd (List.mem_cons_of_mem _ List.mem_cons_self) h⟩
      · exact .refl _ s
  | store index =>
      simp only [ClusterEvent.exec]
      split
      · exact .refl _ s
      · rename_i a _
        rcases store_frame (s := { s with admitted := s.admitted.eraseIdx index }) a with
          ⟨b, l, heq⟩
        rw [heq]
        exact ⟨fun _ => rfl, fun _ => rfl, fun _ => rfl, fun _ => rfl,
          fun h => absurd List.mem_cons_self h,
          fun h => absurd (List.mem_cons_of_mem _ List.mem_cons_self) h, fun _ => rfl⟩
  | push index =>
      simp only [ClusterEvent.exec]
      split
      · exact .refl _ s
      · rename_i call _
        rcases pushNext_frame (s := s) index call with ⟨l, l', heq⟩
        rw [heq]
        exact ⟨fun _ => rfl, fun _ => rfl, fun h => absurd List.mem_cons_self h, fun _ => rfl,
          fun _ => rfl, fun h => absurd (List.mem_cons_of_mem _ List.mem_cons_self) h,
          fun _ => rfl⟩
  | pushPending n topic partition start partitionOk =>
      simp only [ClusterEvent.exec]
      split
      · rcases send_frame (s := s) n ((s.nodes n).appendCall topic partition
          ((s.nodes n).pendingMessages partitionOk topic partition start)) with ⟨l, heq⟩
        rw [heq]
        exact ⟨fun _ => rfl, fun _ => rfl, fun h => absurd List.mem_cons_self h, fun _ => rfl,
          fun _ => rfl, fun _ => rfl, fun _ => rfl⟩
      · exact .refl _ s
  | deliver index n env =>
      simp only [ClusterEvent.exec]
      split
      · exact .refl _ s
      · split
        · exact ⟨fun _ => rfl, fun _ => rfl, fun _ => rfl, fun h => absurd List.mem_cons_self h,
            fun _ => rfl, fun _ => rfl, fun _ => rfl⟩
        · exact .refl _ s
  | answer index now =>
      simp only [ClusterEvent.exec]
      split
      · exact .refl _ s
      · rename_i call _
        rcases noteAnswer_frame (s := s) index now call with ⟨b, l, heq⟩
        rw [heq]
        exact ⟨fun _ => rfl, fun _ => rfl, fun _ => rfl, fun _ => rfl, fun _ => rfl,
          fun h => absurd List.mem_cons_self h, fun _ => rfl⟩
  | giveUp index =>
      simp only [ClusterEvent.exec]
      split
      · exact .refl _ s
      · exact ⟨fun _ => rfl, fun _ => rfl, fun _ => rfl, fun _ => rfl, fun _ => rfl,
          fun h => absurd List.mem_cons_self h, fun _ => rfl⟩
  | finish index now =>
      simp only [ClusterEvent.exec]
      split
      · exact .refl _ s
      · rename_i call _
        rcases finishCall_frame (s := s) index now call with ⟨b, l, l', heq⟩
        rw [heq]
        exact ⟨fun _ => rfl, fun _ => rfl, fun _ => rfl, fun _ => rfl, fun _ => rfl,
          fun h => absurd List.mem_cons_self h,
          fun h => absurd (List.mem_cons_of_mem _ List.mem_cons_self) h⟩
  | fetch n source topic partition start count partitionOk ios =>
      simp only [ClusterEvent.exec]
      split
      · exact ⟨fun _ => rfl, fun _ => rfl, fun _ => rfl, fun _ => rfl, fun _ => rfl, fun _ => rfl,
          fun _ => rfl⟩
      · exact .refl _ s
  | restart n =>
      simp only [ClusterEvent.exec]
      split
      · exact ⟨fun _ => rfl, fun _ => rfl, fun _ => rfl, fun _ => rfl,
          fun h => absurd List.mem_cons_self h,
          fun h => absurd (List.mem_cons_of_mem _ List.mem_cons_self) h, fun _ => rfl⟩
      · exact .refl _ s

/-! ## What is on the wire -/

/-- A push that was just sent: the call of its sender, for a message that
    waits for its replicas or for what the sender has read from its log. -/
structure NewPush (config : BrokersConfig) (s : BrokerCluster) (e : ClusterEvent) (p : Push) :
    Prop where
  built : appendRequest config.token 1 p.call = some p.request
  leader : p.leader ∈ config.members
  call : p.call = (s.nodes p.leader).appendCall p.call.topic p.call.partition p.call.messages
  partition : p.call.partition ≠ autoPartition
  messages : (∃ c ∈ s.calls, c.node = p.leader ∧ c.request.topic = p.call.topic ∧
      c.partition = p.call.partition ∧ p.call.messages = [c.message]) ∨
    ∃ partitionOk start,
      e = .pushPending p.leader p.call.topic p.call.partition start partitionOk ∧
      p.call.messages
        = (s.nodes p.leader).pendingMessages partitionOk p.call.topic p.call.partition start

theorem send_pushes (h : Logged config s) (n : Bytes) (a : AppendCall) :
    (s.send n a).pushes = s.pushes ∨ ∃ request, appendRequest config.token 1 a = some request ∧
      (s.send n a).pushes = s.pushes ++ [⟨n, a, request⟩] := by
  unfold BrokerCluster.send
  rw [h.token n]
  cases hrequest : appendRequest config.token 1 a with
  | none => exact Or.inl rfl
  | some request => exact Or.inr ⟨request, rfl, rfl⟩

/-- Where the pushes after an event come from. -/
theorem exec_pushes (h : Logged config s) (e : ClusterEvent) :
    ∀ p ∈ (e.exec config s).pushes, p ∈ s.pushes ∨ NewPush config s e p := by
  have hsend : ∀ (n t : Bytes) (q : UInt32) (ms : List Message), n ∈ config.members →
      q ≠ autoPartition →
      ((∃ c ∈ s.calls, c.node = n ∧ c.request.topic = t ∧ c.partition = q ∧ ms = [c.message]) ∨
        ∃ partitionOk start, e = .pushPending n t q start partitionOk ∧
          ms = (s.nodes n).pendingMessages partitionOk t q start) →
      ∀ p ∈ (s.send n ((s.nodes n).appendCall t q ms)).pushes,
        p ∈ s.pushes ∨ NewPush config s e p := by
    intro n t q ms hn hq hms p hp
    rcases send_pushes h n ((s.nodes n).appendCall t q ms) with heq | ⟨request, hrequest, heq⟩
    · rw [heq] at hp
      exact Or.inl hp
    · rw [heq] at hp
      rcases List.mem_append.mp hp with hp | hp
      · exact Or.inl hp
      · rw [List.mem_singleton.mp hp]
        exact Or.inr ⟨hrequest, hn, rfl, hq, hms⟩
  intro p hp
  cases e with
  | push index =>
      simp only [ClusterEvent.exec] at hp
      split at hp
      · exact Or.inl hp
      · rename_i call hcall
        have hmem := List.mem_of_getElem? hcall
        simp only [BrokerCluster.pushNext] at hp
        split at hp
        · exact hsend call.node call.request.topic call.partition [call.message]
            (h.calls call hmem).1 (h.calls call hmem).2.1 (Or.inl ⟨call, hmem, rfl, rfl, rfl, rfl⟩)
            p hp
        · exact Or.inl hp
  | pushPending n topic partition start partitionOk =>
      simp only [ClusterEvent.exec] at hp
      split at hp
      · rename_i hn
        refine hsend n topic partition _ hn.1 ?_ (Or.inr ⟨partitionOk, start, rfl, rfl⟩) p hp
        -- The loop runs below the partition count.
        intro hauto
        have hlt := UInt32.lt_iff_toNat_lt.mp hn.2
        have hmax : autoPartition.toNat = 2 ^ 32 - 1 := by decide
        have hbound : (((s.nodes n).topics.lookup topic).getD 0).toNat < 2 ^ 32 :=
          UInt32.toNat_lt _
        rw [hauto] at hlt
        omega
      · exact Or.inl hp
  | _ =>
      left
      rw [← (exec_kept config s _).pushes]
      · exact hp
      · simp only [ClusterEvent.lists]
        decide

/-- Where a call after an event comes from: it was there, it has just been
    stored, or one step of `Replicate` was made. -/
inductive CallFrom (config : BrokersConfig) (s s' : BrokerCluster) (c : ReplicateCall) : Prop
  | kept (h : c ∈ s.calls)
  | stored (hnode : c.node ∈ config.members) (hpartition : c.partition ≠ autoPartition)
      (hwaiting : c.waiting = (s.nodes c.node).replicationPeers) (hpending : c.pending = none)
      (hacknowledged : c.acknowledged = [])
      (hmessage : c.message ∈ s'.wal c.node c.request.topic c.partition)
  | pushed (c₀ : ReplicateCall) (h : c₀ ∈ s.calls) (peer : ReplicationPeer)
      (rest : List ReplicationPeer) (hidle : c₀.pending = none)
      (hwaiting : c₀.waiting = peer :: rest) (pending : Option (Bytes × Nat))
      (hc : c = { c₀ with waiting := rest, pending := pending })
      (hpending : pending = none ∨ (pending = some (peer.nodeId, s.pushes.length) ∧
        ∃ request, s'.pushes = s.pushes ++ [⟨c₀.node, (s.nodes c₀.node).appendCall
          c₀.request.topic c₀.partition [c₀.message], request⟩]))
  | answered (c₀ : ReplicateCall) (h : c₀ ∈ s.calls) (peer : Bytes) (push : Nat)
      (hpending : c₀.pending = some (peer, push)) (haccepted : (push, peer) ∈ s.accepted)
      (hc : c = { c₀ with pending := none, acknowledged := c₀.acknowledged ++ [peer] })
  | gaveUp (c₀ : ReplicateCall) (h : c₀ ∈ s.calls) (hc : c = { c₀ with pending := none })

/-- Where the calls after an event come from. -/
theorem exec_calls (h : Logged config s) (e : ClusterEvent) :
    ∀ c ∈ (e.exec config s).calls, CallFrom config s (e.exec config s) c := by
  intro c hc
  cases e with
  | store index =>
      cases ha : s.admitted[index]? with
      | none =>
          simp only [ClusterEvent.exec, ha] at hc
          exact .kept hc
      | some a =>
          simp only [ClusterEvent.exec, ha] at hc ⊢
          have hmem := List.mem_of_getElem? ha
          rcases store_moved config index a ha (s.admitted.eraseIdx index) with
            ⟨ops, ms, _, hmoved, hcalls | ⟨m, hms, hcalls⟩⟩
          · rw [hcalls] at hc
            exact .kept hc
          · rw [hcalls] at hc
            rcases List.mem_append.mp hc with hc | hc
            · exact .kept hc
            · rw [List.mem_singleton.mp hc]
              refine .stored (h.admitted a hmem).1 (h.admitted a hmem).2 rfl rfl rfl ?_
              rw [BrokerCluster.wal, hmoved.step.storage.messages, hms]
              exact List.mem_append_right _ List.mem_cons_self
  | push index =>
      cases hcall : s.calls[index]? with
      | none =>
          simp only [ClusterEvent.exec, hcall] at hc
          exact .kept hc
      | some call =>
          simp only [ClusterEvent.exec, hcall] at hc ⊢
          have hmem := List.mem_of_getElem? hcall
          unfold BrokerCluster.pushNext at hc ⊢
          split at hc
          · rename_i peer rest hidle hwaiting
            rcases List.mem_or_eq_of_mem_set hc with hold | hnew
            · exact .kept hold
            · refine .pushed call hmem peer rest hidle hwaiting _ hnew ?_
              rcases send_pushes h call.node ((s.nodes call.node).appendCall call.request.topic
                call.partition [call.message]) with heq | ⟨request, _, heq⟩
              · rw [heq, if_neg (lt_irrefl _)]
                exact Or.inl rfl
              · rw [heq, if_pos (by rw [List.length_append, List.length_singleton]; omega)]
                exact Or.inr ⟨rfl, request, rfl⟩
          · exact .kept hc
  | answer index now =>
      cases hcall : s.calls[index]? with
      | none =>
          simp only [ClusterEvent.exec, hcall] at hc
          exact .kept hc
      | some call =>
          simp only [ClusterEvent.exec, hcall] at hc
          unfold BrokerCluster.noteAnswer at hc
          split at hc
          · exact .kept hc
          · rename_i peer push hpending
            split at hc
            · exact .kept hc
            · rename_i haccepted
              rcases List.mem_or_eq_of_mem_set hc with hold | hnew
              · exact .kept hold
              · exact .answered call (List.mem_of_getElem? hcall) peer push hpending
                  (not_not.mp haccepted) hnew
  | giveUp index =>
      cases hcall : s.calls[index]? with
      | none =>
          simp only [ClusterEvent.exec, hcall] at hc
          exact .kept hc
      | some call =>
          simp only [ClusterEvent.exec, hcall] at hc
          rcases List.mem_or_eq_of_mem_set hc with hold | hnew
          · exact .kept hold
          · exact .gaveUp call (List.mem_of_getElem? hcall) hnew
  | finish index now =>
      simp only [ClusterEvent.exec, BrokerCluster.finishCall] at hc
      split at hc
      · exact .kept hc
      · split at hc
        · exact .kept hc
        · split at hc
          · exact .kept (List.mem_of_mem_eraseIdx hc)
          · split at hc <;> exact .kept (List.mem_of_mem_eraseIdx hc)
  | restart n =>
      simp only [ClusterEvent.exec] at hc
      split at hc
      · exact .kept (List.mem_filter.mp hc).1
      · exact .kept hc
  | _ =>
      refine .kept ?_
      rw [← (exec_kept config s _).calls]
      · exact hc
      · simp only [ClusterEvent.lists]
        decide

/-- Where the admitted requests after an event come from. -/
theorem exec_admitted (h : Logged config s) (e : ClusterEvent) :
    ∀ a ∈ (e.exec config s).admitted,
      a.node ∈ config.members ∧ a.partition ≠ autoPartition := by
  intro a ha
  have hold : a ∈ s.admitted → a.node ∈ config.members ∧ a.partition ≠ autoPartition :=
    h.admitted a
  cases e with
  | receive n env request rate quota =>
      simp only [ClusterEvent.exec, BrokerCluster.receive] at ha
      split at ha
      · rename_i hn
        split at ha
        · exact hold ha
        · split at ha
          · exact hold ha
          · rename_i b partition body hadmits
            rcases List.mem_append.mp ha with ha | ha
            · exact hold ha
            · rw [List.mem_singleton.mp ha]
              exact ⟨hn, admitProduce_partition (h.topics n) hadmits⟩
      · exact hold ha
  | store index =>
      simp only [ClusterEvent.exec, BrokerCluster.store] at ha
      split at ha
      · exact hold ha
      · split at ha
        · exact hold (List.mem_of_mem_eraseIdx ha)
        · split at ha
          · exact hold (List.mem_of_mem_eraseIdx ha)
          · split at ha <;> exact hold (List.mem_of_mem_eraseIdx ha)
  | restart n =>
      simp only [ClusterEvent.exec] at ha
      split at ha
      · exact hold (List.mem_filter.mp ha).1
      · exact hold ha
  | _ =>
      refine hold ?_
      rw [← (exec_kept config s _).admitted]
      · exact ha
      · simp only [ClusterEvent.lists]
        decide

/-- Pushes stay where they are. -/
theorem push_kept (h : Logged config s) (e : ClusterEvent) {i : Nat} {p : Push}
    (hp : s.pushes[i]? = some p) : (e.exec config s).pushes[i]? = some p := by
  have hpre : s.pushes <+: (e.exec config s).pushes := by
    have hsend : ∀ n a, s.pushes <+: (s.send n a).pushes := by
      intro n a
      rcases send_pushes h n a with heq | ⟨request, _, heq⟩
      · rw [heq]
      · rw [heq]
        exact List.prefix_append _ _
    cases e with
    | push index =>
        simp only [ClusterEvent.exec]
        split
        · exact List.prefix_rfl
        · unfold BrokerCluster.pushNext
          split
          · exact hsend _ _
          · exact List.prefix_rfl
    | pushPending n topic partition start partitionOk =>
        simp only [ClusterEvent.exec]
        split
        · exact hsend _ _
        · exact List.prefix_rfl
    | _ =>
        rw [(exec_kept config s _).pushes]
        simp only [ClusterEvent.lists]
        decide
  rcases hpre with ⟨rest, heq⟩
  rw [← heq, List.getElem?_append_left (List.getElem?_eq_some_iff.mp hp).1]
  exact hp

/-- Where an accepted push comes from. -/
theorem exec_accepted (e : ClusterEvent) (i : Nat) (v : Bytes)
    (hmem : (i, v) ∈ (e.exec config s).accepted) :
    (i, v) ∈ s.accepted ∨ ∃ env p, e = .deliver i v env ∧ s.pushes[i]? = some p ∧
      v ∈ config.members ∧ v ≠ p.leader ∧
      ((s.nodes v).receiveAppend env p.request).2.status = .ok := by
  cases e with
  | deliver index n env =>
      simp only [ClusterEvent.exec] at hmem
      split at hmem
      · exact Or.inl hmem
      · rename_i p hp
        split at hmem
        · rename_i hn
          simp only [BrokerCluster.deliver] at hmem
          split at hmem
          · rename_i hok
            rcases List.mem_append.mp hmem with hold | hnew
            · exact Or.inl hold
            · rcases Prod.mk.inj (List.mem_singleton.mp hnew) with ⟨rfl, rfl⟩
              exact Or.inr ⟨env, p, rfl, hp, hn.1, hn.2, hok⟩
          · exact Or.inl hmem
        · exact Or.inl hmem
  | _ =>
      left
      rw [← (exec_kept config s _).accepted]
      · exact hmem
      · simp only [ClusterEvent.lists]
        decide

/-- Where an acknowledgement comes from: a call has returned with enough
    answers, or a response was in the cache. -/
theorem exec_acked (e : ClusterEvent) (a : Acknowledgement)
    (hmem : a ∈ (e.exec config s).acked) :
    a ∈ s.acked ∨
      (∃ c ∈ s.calls, c.waiting = [] ∧ c.pending = none ∧
        (s.nodes c.node).replicationQuorum ≤ 1 + c.acknowledged.length ∧
        a = ⟨(s.nodes c.node).coordinator.currentTerm, c.node, c.request.topic, c.partition,
          c.message⟩) ∨
      ∃ n env request rate quota response, e = .receive n env request rate quota ∧
        ((s.nodes n).admitProduce env request rate quota).2 = .error response ∧
        a ∈ s.replayed n request response := by
  cases e with
  | receive n env request rate quota =>
      simp only [ClusterEvent.exec, BrokerCluster.receive] at hmem
      split at hmem
      · split at hmem
        · exact Or.inl hmem
        · split at hmem
          · rename_i b response hadmits
            rcases List.mem_append.mp hmem with hold | hnew
            · exact Or.inl hold
            · exact Or.inr (Or.inr ⟨n, env, request, rate, quota, response, rfl,
                congrArg Prod.snd hadmits, hnew⟩)
          · exact Or.inl hmem
      · exact Or.inl hmem
  | finish index now =>
      simp only [ClusterEvent.exec, BrokerCluster.finishCall] at hmem
      split at hmem
      · exact Or.inl hmem
      · rename_i call hcall
        split at hmem
        · exact Or.inl hmem
        · rename_i hidle
          rw [not_or, not_not, not_not] at hidle
          split at hmem
          · exact Or.inl hmem
          · rename_i hquorum
            split at hmem
            · exact Or.inl hmem
            · rcases List.mem_append.mp hmem with hold | hnew
              · exact Or.inl hold
              · have hterm : ((s.nodes call.node).coordinator.advanceCommit (partitionKey
                    call.request.topic call.partition) call.message.offset now).1.currentTerm
                    = (s.nodes call.node).coordinator.currentTerm :=
                  congrArg Election.Ballot.term (advanceCommit_ballot _ _ _)
                rw [List.mem_singleton.mp hnew, hterm]
                exact Or.inr (Or.inl ⟨call, List.mem_of_getElem? hcall, hidle.1, hidle.2,
                  not_lt.mp hquorum, rfl⟩)
  | _ =>
      left
      rw [← (exec_kept config s _).acked]
      · exact hmem
      · simp only [ClusterEvent.lists]
        decide

/-! ## Logs -/

/-- The logs after the step of a broker. -/
theorem Moved.wal {s' : BrokerCluster} {n : Bytes} {ops : List Op} {t : Bytes} {p : UInt32}
    {ms : List Message} (h : Moved s s' n ops t p ms) :
    s'.wal n t p = s.wal n t p ++ ms ∧
      (∀ m, m ≠ n → s'.wal m t p = s.wal m t p) ∧
      ∀ m t' p', (t', p') ≠ (t, p) → s'.wal m t' p' = s.wal m t' p' := by
  refine ⟨h.step.storage.messages, ?_, ?_⟩
  · intro m hm
    rw [BrokerCluster.wal, BrokerCluster.wal, h.others m hm]
  · intro m t' p' hne
    by_cases hm : m = n
    · rw [hm]
      exact (h.step.storage.others t' p' hne).1
    · rw [BrokerCluster.wal, BrokerCluster.wal, h.others m hm]

/-- A step that brings no messages. -/
theorem Moved.same_wal {s' : BrokerCluster} {n : Bytes} {ops : List Op} {t : Bytes} {p : UInt32}
    (h : Moved s s' n ops t p []) (m t' : Bytes) (p' : UInt32) : s'.wal m t' p' = s.wal m t' p' := by
  rcases h.wal with ⟨hgrown, hothers, helse⟩
  by_cases hplace : (t', p') = (t, p)
  · rcases Prod.mk.inj hplace with ⟨rfl, rfl⟩
    by_cases hm : m = n
    · rw [hm, hgrown, List.append_nil]
    · exact hothers m hm
  · exact helse m t' p' hplace

theorem createTopic_cases (b : Broker) (name : Bytes) (count : UInt32) :
    (b.createTopic name count).1 = b ∨
      (count ≠ 0 ∧ (b.createTopic name count).1
        = { b with topics := b.topics.insert name count }) := by
  unfold Broker.createTopic
  split
  · exact Or.inl rfl
  · rename_i hvalid
    rw [not_or, not_or] at hvalid
    split
    · exact Or.inl rfl
    · exact Or.inr ⟨hvalid.2.1, rfl⟩

theorem createTopic_wal (n name : Bytes) (count : UInt32) (m t : Bytes) (p : UInt32) :
    ((ClusterEvent.createTopic n name count).exec config s).wal m t p = s.wal m t p := by
  simp only [ClusterEvent.exec]
  split
  · by_cases hm : m = n
    · rw [hm, BrokerCluster.wal, BrokerCluster.wal, set_nodes_self]
      rcases createTopic_cases (s.nodes n) name count with heq | ⟨_, heq⟩ <;> rw [heq]
    · rw [BrokerCluster.wal, BrokerCluster.wal, set_nodes_ne s _ hm]
  · rfl

/-- Recovering the log files of a broker gives back its logs: no failed write
    has left half a record in them. -/
def Broker.Recovers (b : Broker) : Prop :=
  ∀ p ∈ b.storage.partitions.values, (recover b.storage.config p.files).messages = p.messages ∧
    (recover b.storage.config p.files).nextOffset = p.nextOffset

instance (b : Broker) : Decidable b.Recovers :=
  inferInstanceAs (Decidable (∀ p ∈ b.storage.partitions.values, _ ∧ _))

/-- A restart finds the log files of its node whole. -/
def ClusterEvent.RestartsWhole (s : BrokerCluster) : ClusterEvent → Prop
  | .restart n => (s.nodes n).Recovers
  | _ => True

theorem ClusterEvent.RestartsWhole.recovers {e : ClusterEvent} (he : e.RestartsWhole s) (n : Bytes)
    (hrestart : e = .restart n) : (s.nodes n).Recovers := by
  rw [hrestart] at he
  exact he

theorem restarted_partition (b : Broker) (follower : Bool) (t : Bytes) (n : UInt32) :
    (b.restarted follower).storage.partition t n
      = ((b.storage.partitions.lookup (t, n)).map
          (fun p => recover b.storage.config p.files)).getD (freshPartition b.storage.config) := by
  simp only [Broker.restarted, Broker.configureReplication, StorageEngine.partition,
    Table.lookup_mapValues]

theorem restarted_counted {b : Broker} (h : b.storage.Counted) (follower : Bool) :
    (b.restarted follower).storage.Counted := by
  intro t n
  rw [restarted_partition]
  cases hp : b.storage.partitions.lookup (t, n) with
  | none => exact counted_fresh _
  | some p =>
      have hopened := (h t n).opened
      rw [StorageEngine.partition, hp] at hopened
      exact counted_recover _ _ (fun hfiles => hopened (List.map_eq_nil_iff.mp hfiles))

theorem restarted_messages {b : Broker} (h : b.Recovers) (follower : Bool) (t : Bytes)
    (n : UInt32) : ((b.restarted follower).storage.partition t n).messages
      = (b.storage.partition t n).messages := by
  rw [restarted_partition, StorageEngine.partition]
  cases hp : b.storage.partitions.lookup (t, n) with
  | none => rfl
  | some p => exact (h p (Table.mem_values_of_lookup _ _ _ hp)).1

/-- Logs only grow, if a restart finds them whole. -/
theorem exec_wal (h : Logged config s) (e : ClusterEvent) (n : Bytes)
    (he : e = .restart n → (s.nodes n).Recovers) (t : Bytes) (p : UInt32) :
    s.wal n t p <+: (e.exec config s).wal n t p := by
  by_cases hstep : e.isStep = true
  · rcases exec_effect h e hstep with ⟨m, ops, t', p', ms, _, hmoved⟩
    by_cases hn : n = m
    · rw [hn]
      exact hmoved.step.storage.isPrefix t p
    · rw [BrokerCluster.wal, BrokerCluster.wal, hmoved.others n hn]
  · -- The other events replace a broker as a whole.
    cases e with
    | createTopic m name count => rw [createTopic_wal]
    | restart m =>
        simp only [ClusterEvent.exec]
        split
        · by_cases hn : n = m
          · subst hn
            rw [BrokerCluster.wal, BrokerCluster.wal, BrokerCluster.restart,
              show (s.set n _).nodes n = _ from set_nodes_self s n _,
              restarted_messages (he rfl)]
          · rw [BrokerCluster.wal, BrokerCluster.wal, BrokerCluster.restart,
              show (s.set m _).nodes n = _ from set_nodes_ne s _ hn]
        · exact List.prefix_rfl
    | _ => exact absurd rfl hstep

/-! ## The invariant survives -/

theorem set_self (s : BrokerCluster) (n : Bytes) : s.set n (s.nodes n) = s := by
  simp only [BrokerCluster.set, Function.update_eq_self]

theorem Logged.quorum_ne (h : Logged config s) (n : Bytes) : (s.nodes n).replicationQuorum ≠ 0 := by
  have hquorum : (s.nodes n).replicationQuorum = (bootBroker config n).replicationQuorum :=
    congrArg (fun x => x.2.2.2.2) (h.settings n)
  rw [hquorum]
  simp only [bootBroker, Broker.configureReplication]
  split
  · omega
  · assumption

/-- What an event leaves of the settings, the logs and the topics of every
    node. -/
structure NodesKept (s s' : BrokerCluster) : Prop where
  settings : ∀ n, (s'.nodes n).settings = (s.nodes n).settings
  counted : ∀ n, (s'.nodes n).storage.Counted
  topics : ∀ n t count, (s'.nodes n).topics.lookup t = some count → count ≠ 0

/-- It is enough to look at the broker that has changed. -/
theorem Logged.nodesKept (h : Logged config s) {s' : BrokerCluster} {n : Bytes}
    (hothers : ∀ m, m ≠ n → s'.nodes m = s.nodes m)
    (hsettings : (s'.nodes n).settings = (s.nodes n).settings)
    (hcounted : (s'.nodes n).storage.Counted)
    (htopics : ∀ t count, (s'.nodes n).topics.lookup t = some count → count ≠ 0) :
    NodesKept s s' := by
  refine ⟨?_, ?_, ?_⟩
  · intro m
    by_cases hm : m = n
    · rw [hm, hsettings]
    · rw [hothers m hm]
  · intro m
    by_cases hm : m = n
    · rw [hm]
      exact hcounted
    · rw [hothers m hm]
      exact h.counted m
  · intro m
    by_cases hm : m = n
    · rw [hm]
      exact htopics
    · rw [hothers m hm]
      exact h.topics m

/-- What every event leaves of the nodes. -/
theorem exec_nodesKept (h : Logged config s) (e : ClusterEvent) :
    NodesKept s (e.exec config s) := by
  have hstill : NodesKept s s := ⟨fun _ => rfl, h.counted, h.topics⟩
  by_cases hstep : e.isStep = true
  · rcases exec_effect h e hstep with ⟨n, ops, t, p, ms, _, hmoved⟩
    refine h.nodesKept hmoved.others hmoved.step.settings
      (hmoved.step.storage.counted (h.counted n) hmoved.step.numbered) ?_
    rw [hmoved.step.topics]
    exact h.topics n
  · cases e with
    | createTopic n name count =>
        simp only [ClusterEvent.exec]
        split
        · rcases createTopic_cases (s.nodes n) name count with heq | ⟨hcount, heq⟩
          · rw [heq, set_self]
            exact hstill
          · rw [heq]
            have hself := set_nodes_self s n { s.nodes n with
              topics := (s.nodes n).topics.insert name count }
            refine h.nodesKept (fun m hm => set_nodes_ne s _ hm) (by rw [hself]; rfl)
              (by rw [hself]; exact h.counted n) ?_
            intro t c hlookup
            rw [hself] at hlookup
            by_cases ht : t = name
            · rw [ht, AList.lookup_insert] at hlookup
              rw [← Option.some.inj hlookup]
              exact hcount
            · rw [AList.lookup_insert_ne ht] at hlookup
              exact h.topics n t c hlookup
        · exact hstill
    | restart n =>
        simp only [ClusterEvent.exec]
        split
        · have hself : (s.restart config n).nodes n = (s.nodes n).restarted (n ≠ config.first) :=
            set_nodes_self s n _
          refine h.nodesKept (n := n) (fun m hm => set_nodes_ne s _ hm) ?_ ?_ ?_
          · rw [hself]
            simp only [Broker.settings, Broker.restarted, Broker.configureReplication,
              if_neg (h.quorum_ne n)]
            rw [h.configured n]
          · rw [hself]
            exact restarted_counted (h.counted n) _
          · rw [hself]
            exact h.topics n
        · exact hstill
    | _ => exact absurd rfl hstep

/-- What a node pushes it has in its log. -/
theorem NewPush.mem {e : ClusterEvent} {p : Push} (h : Logged config s)
    (hp : NewPush config s e p) :
    ∀ m ∈ p.call.messages, m ∈ s.wal p.leader p.call.topic p.call.partition := by
  intro m hm
  rcases hp.messages with ⟨c, hc, hnode, htopic, hpartition, hmessages⟩ |
    ⟨ok, start, _, hmessages⟩
  · rw [hmessages] at hm
    rw [List.mem_singleton.mp hm, ← hnode, ← htopic, ← hpartition]
    exact (h.calls c hc).2.2
  · rw [hmessages] at hm
    exact pendingMessages_mem (s.nodes p.leader) ok _ _ start m hm

/-- The invariant survives an event. -/
theorem Logged.exec (h : Logged config s) (e : ClusterEvent) : Logged config (e.exec config s) := by
  have hkept := exec_nodesKept h e
  refine ⟨?_, hkept.counted, hkept.topics, exec_admitted h e, ?_, ?_⟩
  · intro n
    rw [hkept.settings n, h.settings n]
  · intro p hp
    rcases exec_pushes h e p hp with hold | hnew
    · exact h.pushes p hold
    · refine ⟨hnew.built, ⟨hnew.leader, ?_⟩, hnew.partition⟩
      rw [hnew.call]
      exact h.nodeId p.leader
  · intro c hc
    -- A step of `Replicate` changes neither the node nor the message of its call.
    have hsame : ∀ c₀ ∈ s.calls, c.node = c₀.node → c.request = c₀.request →
        c.partition = c₀.partition → c.message = c₀.message → c.node ∈ config.members ∧
        c.partition ≠ autoPartition ∧
        c.message ∈ (e.exec config s).wal c.node c.request.topic c.partition := by
      intro c₀ hc₀ hnode hrequest hpartition hmessage
      rcases h.calls c₀ hc₀ with ⟨hmember, hauto, hmem⟩
      -- The calls of a node end with it.
      have hrestart : e ≠ .restart c₀.node := by
        rintro rfl
        simp only [ClusterEvent.exec, if_pos hmember, BrokerCluster.restart] at hc
        exact of_decide_eq_true (List.mem_filter.mp hc).2 hnode
      rw [hnode, hrequest, hpartition, hmessage]
      exact ⟨hmember, hauto, (exec_wal h e c₀.node (fun heq => absurd heq hrestart) _ _).subset
        hmem⟩
    cases exec_calls h e c hc with
    | kept hold => exact hsame c hold rfl rfl rfl rfl
    | stored hnode hpartition _ _ _ hmessage => exact ⟨hnode, hpartition, hmessage⟩
    | pushed c₀ hold _ _ _ _ _ heq _ =>
        exact hsame c₀ hold (by rw [heq]) (by rw [heq]) (by rw [heq]) (by rw [heq])
    | answered c₀ hold _ _ _ _ heq =>
        exact hsame c₀ hold (by rw [heq]) (by rw [heq]) (by rw [heq]) (by rw [heq])
    | gaveUp c₀ hold heq =>
        exact hsame c₀ hold (by rw [heq]) (by rw [heq]) (by rw [heq]) (by rw [heq])

/-- A cluster that has just been configured. -/
theorem logged_boot (config : BrokersConfig) : Logged config (bootBrokers config) := by
  refine ⟨fun n => rfl, ?_, ?_, ?_, ?_, ?_⟩
  · intro n t p
    exact counted_fresh _
  · intro n t count hlookup
    exact absurd hlookup.symm (Option.some_ne_none count)
  · exact fun a ha => absurd ha List.not_mem_nil
  · exact fun p hp => absurd hp List.not_mem_nil
  · exact fun c hc => absurd hc List.not_mem_nil

/-! ## What can be pushed -/

/-- Everything in the logs and on the wire can be written to a request and read
    back. -/
structure Pushable (s : BrokerCluster) : Prop where
  logs : ∀ n t p, ∀ m ∈ s.wal n t p, m.Storable
  pushes : ∀ q ∈ s.pushes, ∀ m ∈ q.call.messages, m.Storable

theorem Pushable.exec (hlogged : Logged config s) (h : Pushable s) (e : ClusterEvent)
    (he : e.RestartsWhole s) : Pushable (e.exec config s) := by
  refine ⟨?_, ?_⟩
  · by_cases hstep : e.isStep = true
    · rcases exec_effect hlogged e hstep with ⟨n, ops, t, p, ms, _, hmoved⟩
      rcases hmoved.wal with ⟨hgrown, hothers, helse⟩
      intro n' t' p' m hm
      by_cases hplace : (t', p') = (t, p)
      · rcases Prod.mk.inj hplace with ⟨rfl, rfl⟩
        by_cases hn : n' = n
        · rw [hn, hgrown] at hm
          rcases List.mem_append.mp hm with hold | hnew
          · exact h.logs n t' p' m hold
          · exact hmoved.step.storable m hnew
        · rw [hothers n' hn] at hm
          exact h.logs n' t' p' m hm
      · rw [helse n' t' p' hplace] at hm
        exact h.logs n' t' p' m hm
    · intro n t p m hm
      cases e with
      | createTopic n' name count =>
          rw [createTopic_wal] at hm
          exact h.logs n t p m hm
      | restart n' =>
          simp only [ClusterEvent.exec] at hm
          split at hm
          · by_cases hn : n = n'
            · subst hn
              rw [BrokerCluster.wal, BrokerCluster.restart,
                show (s.set n _).nodes n = _ from set_nodes_self s n _,
                restarted_messages he] at hm
              exact h.logs n t p m hm
            · rw [BrokerCluster.wal, BrokerCluster.restart,
                show (s.set n' _).nodes n = _ from set_nodes_ne s _ hn] at hm
              exact h.logs n t p m hm
          · exact h.logs n t p m hm
      | _ => exact absurd rfl hstep
  · intro q hq m hm
    rcases exec_pushes hlogged e q hq with hold | hnew
    · exact h.pushes q hold m hm
    · exact h.logs _ _ _ m (hnew.mem hlogged m hm)

theorem pushable_boot (config : BrokersConfig) : Pushable (bootBrokers config) :=
  ⟨fun _ _ _ _ hm => absurd hm List.not_mem_nil, fun _ hq => absurd hq List.not_mem_nil⟩

end Wire

end MqBroker
