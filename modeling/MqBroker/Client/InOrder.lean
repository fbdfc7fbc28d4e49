import MqBroker.Client.Consumer
import MqBroker.Lib.Runs
import MqBroker.Server.Growth

/-!
# Consuming in Order

What a consumer gets to see of a log, while others produce.

The place of a consumer is kept three times: in its queue, in the offset it
fetches from, and in the offset of its group at the broker, and a fetch starts
at the larger one of the last two. In a session the three agree. What was
returned and what is queued are a piece of the log together, the offset of the
consumer is behind what was returned, and the group is not ahead of it, as long
as the consumer commits nothing ahead of what it has returned.

The piece begins where the group was when the first message came. That is where
it was at the first fetch, unless the consumer has committed in between: a
commit can also take a group back.

## Main definitions

* `Session`: A consumer and the broker, with what the consumer has done.
* `SessionEvent`, `Session.exec`: What can happen.
* `Session.Near`: A commit is not ahead of what was returned.
* `Session.Settled`: A commit is not between the first fetch and its messages.
* `Session.InOrder`: What holds all the time.

## Theorems

* `Session.InOrder.exec`: Every event keeps it.
* `poll_in_order`: What `poll` returns.
-/

namespace MqBroker

open Traced

/-! ## Sessions -/

/-- A consumer and the broker. -/
structure Session where
  server : Server
  consumer : MqConsumer.Impl
  /-- What `poll` has returned since `subscribe`. -/
  returned : List Message := []
  /-- The offset of the last message that `poll` has returned at all. -/
  lastPolled : Option UInt64 := none
  /-- Where the group was at the first fetch since `subscribe`. -/
  asked : Option UInt64 := none
  /-- Where it was at the first fetch since `subscribe` that has brought
      messages. -/
  begun : Option UInt64 := none

/-- What can happen to a consumer and the broker. -/
inductive SessionEvent
  /-- Somebody produces. -/
  | produce (env : ServerEnv) (request : Request)
      (kind : request.command ∈ [.produce, .produceBatch])
  /-- A batch that somebody produces gets to its next message. -/
  | produceTurn (env : ProduceEnv) (single : Request)
  | poll (env : ServerEnv) (requestId : UInt64) (arrives : Bool)
  | commit (env : ServerEnv) (requestId : UInt64) (arrives : Bool) (offset : UInt64)
  | connect
  | close
  /-- `subscribe`, to the same partition once again. -/
  | subscribe

namespace Session

/-- A consumer that has just subscribed to a partition of a broker. -/
def start (config : ServerConfig) (before : List ServerEvent) (token topic group : Bytes)
    (partition : UInt32) : Session where
  server := (Server.fresh config).run before
  consumer := (MqConsumer.Impl.subscribe { authToken := token } topic group partition).1

variable (s : Session)

/-- The partition of the consumer at the broker. -/
def place : Except ResolveError UInt32 :=
  s.server.broker.resolvePartition s.consumer.topic s.consumer.partition []

/-- The log of the partition. -/
def log : List Message :=
  match s.place with
  | .ok number => (s.server.broker.storage.partition s.consumer.topic number).messages
  | .error _ => []

/-- The offset that the group has committed, 0 if it has none. -/
def committed : UInt64 :=
  match s.place with
  | .ok number => (s.server.committed s.consumer.group s.consumer.topic number).getD 0
  | .error _ => 0

/-- The session after a poll that has returned a message. -/
def took (server : Server) (consumer : MqConsumer.Impl) (message : Message) : Session :=
  { s with
    server := server
    consumer := consumer
    returned := s.returned ++ [message]
    lastPolled := some message.offset
    begun := some (s.begun.getD s.committed) }

/-- The session after an event. -/
def exec (s : Session) : SessionEvent → Session
  | .produce env request _ => { s with server := (s.server.handle env request).1 }
  | .produceTurn env single =>
      { s with
        server :=
          { s.server with
            broker := (s.server.broker.handleProduce env single false false).broker } }
  | .poll env requestId arrives =>
      let polled := s.consumer.poll s.server env requestId arrives
      let asked :=
        if s.consumer.pendingMessages = [] then some (s.asked.getD s.committed) else s.asked
      match polled.2.2 with
      | none => { s with server := polled.1, consumer := polled.2.1, asked := asked }
      | some message => { s with asked := asked }.took polled.1 polled.2.1 message
  | .commit env requestId arrives offset =>
      { s with server := (s.consumer.commit s.server env requestId arrives offset).1 }
  | .connect => { s with consumer := s.consumer.connect }
  | .close => { s with consumer := s.consumer.close }
  | .subscribe =>
      { s with
        consumer :=
          (s.consumer.subscribe s.consumer.topic s.consumer.group s.consumer.partition).1
        returned := []
        asked := none
        begun := none }

/-- The session after some events. -/
def run (s : Session) (events : List SessionEvent) : Session := events.foldl exec s

/-- The consumer commits nothing ahead of the last message it has polled. -/
def Near (s : Session) : SessionEvent → Prop
  | .commit _ _ _ offset => ∀ last ∈ s.lastPolled, offset.toNat ≤ last.toNat + 1
  | _ => True

instance (event : SessionEvent) : Decidable (s.Near event) :=
  match event with
  -- Decided at the one offset that there is, and not for each of 64 bits.
  | .commit _ _ _ _ => Option.decidableForallMem s.lastPolled
  | .produce _ _ _ | .produceTurn _ _ | .poll _ _ _ | .connect | .close | .subscribe =>
      isTrue trivial

/-- The consumer does not commit between its first fetch and its first
    message. -/
def Settled (s : Session) : SessionEvent → Prop
  | .commit _ _ _ _ => s.asked = none ∨ s.returned ≠ []
  | _ => True

/-- Nothing was removed from the log of the partition. -/
def Kept (s : Session) : Prop :=
  ∀ number, s.place = .ok number →
    (s.server.broker.storage.partition s.consumer.topic number).Counted

/-- The place of a consumer that has got messages, in a log that has not run
    over. -/
structure Follows (s : Session) (first : UInt64) : Prop where
  returned : s.returned ≠ []
  piece : s.returned ++ s.consumer.pendingMessages <+: s.log.drop first.toNat
  next : s.consumer.nextOffset.toNat = first.toNat + s.returned.length
  behind : s.committed ≤ s.consumer.nextOffset
  last : ∃ last, s.lastPolled = some last ∧ s.consumer.nextOffset.toNat = last.toNat + 1

/-- The place of a consumer that has got none. -/
structure Waits (s : Session) : Prop where
  returned : s.returned = []
  pending : s.consumer.pendingMessages = []
  next : s.consumer.nextOffset = 0

/-- What holds all the time. -/
structure InOrder (s : Session) : Prop where
  sound : s.server.Sound
  kept : s.Kept
  waits : s.log.length < 2 ^ 64 → s.begun = none → s.Waits
  follows : s.log.length < 2 ^ 64 → ∀ first, s.begun = some first → s.Follows first

/-! ## What an event leaves of the view -/

section View

variable {s s' : Session}

/-- The consumer looks at the same partition. -/
structure SameView (s s' : Session) : Prop where
  topic : s'.consumer.topic = s.consumer.topic
  group : s'.consumer.group = s.consumer.group
  partition : s'.consumer.partition = s.consumer.partition
  topics : s'.server.broker.topics = s.server.broker.topics
  logs : s.server.broker.storage.Grows s'.server.broker.storage

theorem SameView.place (h : s.SameView s') : s'.place = s.place := by
  unfold Session.place Broker.resolvePartition
  rw [h.topic, h.partition, h.topics]

theorem SameView.log (h : s.SameView s') : s.log <+: s'.log := by
  unfold Session.log
  rw [h.place, h.topic]
  cases s.place with
  | error e => exact List.prefix_rfl
  | ok number => exact (h.logs s.consumer.topic number).1

theorem SameView.kept (h : s.SameView s') (hkept : s.Kept) : s'.Kept := by
  intro number hplace
  rw [h.place] at hplace
  rw [h.topic]
  exact (h.logs s.consumer.topic number).2 (hkept number hplace)

theorem SameView.committed (h : s.SameView s')
    (hoffsets : s'.server.consumerOffsets = s.server.consumerOffsets) :
    s'.committed = s.committed := by
  simp only [Session.committed, h.place, committed_eq, hoffsets, h.topic, h.group]

theorem Kept.numbered (h : s.Kept) : Numbered 0 s.log := by
  unfold Session.log
  split
  · rename_i number hplace
    exact (h number hplace).numbered
  · trivial

end View

/-- The offset of a message in a piece of a log. -/
theorem numbered_piece {l front rest : List Message} {m : Message} {k : Nat} (h : Numbered 0 l)
    (hwrap : l.length < 2 ^ 64) (hpiece : front ++ m :: rest <+: l.drop k) :
    m.offset.toNat = k + front.length ∧ k + front.length < l.length := by
  have hlength := hpiece.length_le
  rw [List.length_append, List.length_cons, List.length_drop] at hlength
  rcases hpiece with ⟨back, heq⟩
  have hsplit : l = (l.take k ++ front) ++ (m :: rest ++ back) := by
    conv_lhs => rw [← List.take_append_drop k l, ← heq]
    simp only [List.append_assoc]
  rw [hsplit, numbered_append, UInt64.zero_add] at h
  have hfront : (l.take k ++ front).length = k + front.length := by
    rw [List.length_append, List.length_take]
    omega
  rw [h.2.1, hfront, UInt64.toNat_ofNat', Nat.mod_eq_of_lt (by omega)]
  exact ⟨rfl, by omega⟩

/-! ## Producing -/

variable {s s' : Session}

/-- What others do adds to the log, and the consumer keeps its place. -/
theorem InOrder.grow (h : s.InOrder) {server : Server} (hgrows : s.server.Grows server)
    (hsound : server.Sound) : ({ s with server := server } : Session).InOrder := by
  have hview : s.SameView { s with server := server } :=
    ⟨rfl, rfl, rfl, hgrows.topics, hgrows.logs⟩
  have hlog := hview.log
  refine ⟨hsound, hview.kept h.kept, fun hwrap hbegun => ?_, fun hwrap first hbegun => ?_⟩
  · rcases h.waits (hlog.length_le.trans_lt hwrap) hbegun with ⟨hreturned, hpending, hnext⟩
    exact ⟨hreturned, hpending, hnext⟩
  · rcases h.follows (hlog.length_le.trans_lt hwrap) first hbegun with
      ⟨hreturned, hpiece, hnext, hbehind, hlast⟩
    refine ⟨hreturned, hpiece.trans (hlog.drop first.toNat), hnext, ?_, hlast⟩
    rw [hview.committed hgrows.offsets]
    exact hbehind

/-! ## Committing -/

/-- A commit that is not ahead leaves the group where the consumer is, or behind
    it. -/
theorem InOrder.commit (h : s.InOrder) {env : ServerEnv} {requestId : UInt64} {arrives : Bool}
    {offset : UInt64} (hnear : s.Near (.commit env requestId arrives offset)) :
    (s.exec (.commit env requestId arrives offset)).InOrder := by
  rcases call_commit s.consumer h.sound env requestId offset with ⟨hbroker, hset⟩
  have hview : s.SameView (s.exec (.commit env requestId arrives offset)) :=
    ⟨rfl, rfl, rfl, congrArg Broker.topics hbroker, by
      rw [show (s.exec (.commit env requestId arrives offset)).server.broker = _ from hbroker]
      exact .refl _⟩
  have hlog := hview.log
  refine ⟨call_sound s.consumer h.sound env requestId _, hview.kept h.kept,
    fun hwrap hbegun => ?_, fun hwrap first hbegun => ?_⟩
  · rcases h.waits (hlog.length_le.trans_lt hwrap) hbegun with ⟨hreturned, hpending, hnext⟩
    exact ⟨hreturned, hpending, hnext⟩
  · rcases h.follows (hlog.length_le.trans_lt hwrap) first hbegun with
      ⟨hreturned, hpiece, hnext, hbehind, last, hlast, hlastNext⟩
    refine ⟨hreturned, hpiece.trans (hlog.drop first.toNat), hnext, ?_, last, hlast, hlastNext⟩
    have hbound := hnear last hlast
    have hplace := hview.place
    unfold Session.committed at hbehind ⊢
    rw [hplace]
    cases hnumber : s.place with
    | error e => exact UInt64.zero_le
    | ok number =>
        rw [hnumber] at hbehind
        rcases hset number hnumber with hsame | hset
        · exact (congrArg (Option.getD · 0) hsame).le.trans hbehind
        · refine (congrArg (Option.getD · 0) hset).le.trans ?_
          rw [Option.getD_some, UInt64.le_iff_toNat_le]
          exact hbound.trans hlastNext.symm.le

/-! ## Polling -/

/-- A consumer gets a message and queues others, or it is as before but for an
    empty queue. -/
theorem receive_cases (c : MqConsumer.Impl) (answer : Option Response) :
    ((c.receive answer).2 = none ∧
      (c.pendingMessages = [] → (c.receive answer).1 = c)) ∨
    ∃ response message rest, answer = some response ∧ response.status = .ok ∧
      (MqConsumer.pollAnswer response.payload).result = .ok (message :: rest) ∧
      c.receive answer
        = ({ c with nextOffset := message.offset + 1, pendingMessages := rest }, some message) := by
  cases answer with
  | none => exact Or.inl ⟨rfl, fun _ => rfl⟩
  | some response =>
      simp only [MqConsumer.Impl.receive]
      by_cases hok : response.status = .ok
      · rw [if_neg (not_not.mpr hok)]
        cases hread : (MqConsumer.pollAnswer response.payload).result with
        | error text =>
            refine Or.inl ⟨rfl, fun hempty => ?_⟩
            simp only [← hempty]
        | ok messages =>
            cases messages with
            | nil => exact Or.inl ⟨rfl, fun _ => rfl⟩
            | cons message rest => exact Or.inr ⟨response, message, rest, rfl, hok, hread, rfl⟩
      · rw [if_pos hok]
        exact Or.inl ⟨rfl, fun _ => rfl⟩

/-- What a poll leaves behind when a fetch brings something: messages of the log
    from the offset of the consumer on, or from that of its group. -/
theorem fetched_piece (h : s.InOrder) (hwrap : s.log.length < 2 ^ 64) {env : ServerEnv}
    {requestId : UInt64} {response : Response} {messages : List Message}
    (hanswer : (s.consumer.call s.server env requestId (MqConsumer.poll s.consumer.topic
      s.consumer.group s.consumer.partition s.consumer.nextOffset)).2 = some response)
    (hok : response.status = .ok)
    (hread : (MqConsumer.pollAnswer response.payload).result = .ok messages) :
    messages <+: s.log.drop (max s.consumer.nextOffset s.committed).toNat := by
  rcases (call_fetch s.consumer h.sound env requestId).2 response hanswer hok with
    ⟨number, found, hplace, hfound, htold⟩
  have hplace : s.place = .ok number := hplace
  have hlog : s.log = (s.server.broker.storage.partition s.consumer.topic number).messages := by
    rw [Session.log, hplace]
  have hcommitted : s.committed
      = (s.server.committed s.consumer.group s.consumer.topic number).getD 0 := by
    rw [Session.committed, hplace]
  rw [← hcommitted] at hfound
  rw [hlog] at hwrap ⊢
  rw [← Except.ok.inj (htold.symm.trans hread)]
  exact (fetchTaken_isPrefix 4 found).trans ((h.kept number hplace).read_isPrefix hwrap hfound)

/-- A poll returns what is queued, or it asks the broker and has an answer of
    which it returns the first message, or none. -/
theorem InOrder.exec_poll_cases (h : s.InOrder) (env : ServerEnv) (requestId : UInt64)
    (arrives : Bool) :
    (∃ message rest, s.consumer.pendingMessages = message :: rest ∧
      s.exec (.poll env requestId arrives)
        = s.took s.server
            { s.consumer with nextOffset := message.offset + 1, pendingMessages := rest }
            message) ∨
    s.consumer.pendingMessages = [] ∧ ∃ server, s.server.Counts server ∧ server.Sound ∧
      (s.exec (.poll env requestId arrives)
          = { s with server := server, asked := some (s.asked.getD s.committed) } ∨
        ∃ message rest,
          (s.log.length < 2 ^ 64 →
            message :: rest <+: s.log.drop (max s.consumer.nextOffset s.committed).toNat) ∧
          s.exec (.poll env requestId arrives)
            = { s with asked := some (s.asked.getD s.committed) }.took server
                { s.consumer with nextOffset := message.offset + 1, pendingMessages := rest }
                message) := by
  cases hpending : s.consumer.pendingMessages with
  | cons message rest =>
      refine Or.inl ⟨message, rest, rfl, ?_⟩
      simp only [Session.exec, MqConsumer.Impl.poll, hpending, reduceCtorEq, if_false]
  | nil =>
      have hcounts := (call_fetch s.consumer h.sound env requestId).1
      have hsound := call_sound s.consumer h.sound env requestId
        (MqConsumer.poll s.consumer.topic s.consumer.group s.consumer.partition
          s.consumer.nextOffset)
      have hfetch := fun hwrap => @fetched_piece s h hwrap env requestId
      simp only [Session.exec, MqConsumer.Impl.poll, hpending, if_true]
      generalize s.consumer.call s.server env requestId (MqConsumer.poll s.consumer.topic
        s.consumer.group s.consumer.partition s.consumer.nextOffset) = answered at *
      refine Or.inr ⟨trivial, answered.1, hcounts, hsound, ?_⟩
      rcases receive_cases s.consumer (if arrives then answered.2 else none) with
        ⟨hnone, hsame⟩ | ⟨response, message, rest, hanswer, hok, hread, hreceive⟩
      · left
        simp only [hnone, hsame hpending]
      · have hanswer : answered.2 = some response := by
          split at hanswer
          · exact hanswer
          · cases hanswer
        refine Or.inr ⟨message, rest, fun hwrap => hfetch hwrap hanswer hok hread, ?_⟩
        simp only [hreceive]

/-- Two pieces of a log, one behind the other. -/
theorem prefix_append_of_drop {α : Type} {a b l : List α} (h : a <+: l)
    (h' : b <+: l.drop a.length) : a ++ b <+: l := by
  rcases h with ⟨rest, rfl⟩
  rw [List.drop_left] at h'
  exact (List.prefix_append_right_inj a).mpr h'

/-- What a fetch has brought goes on where the consumer is. -/
theorem InOrder.fetched (h : s.InOrder) (hwrap : s.log.length < 2 ^ 64)
    (hpending : s.consumer.pendingMessages = []) {messages : List Message}
    (hmessages : messages <+: s.log.drop (max s.consumer.nextOffset s.committed).toNat) :
    s.returned ++ messages <+: s.log.drop (s.begun.getD s.committed).toNat ∧
      s.committed.toNat ≤ (s.begun.getD s.committed).toNat + s.returned.length := by
  cases hbegun : s.begun with
  | none =>
      rcases h.waits hwrap hbegun with ⟨hreturned, _, hnext⟩
      rw [hnext, max_eq_right UInt64.zero_le] at hmessages
      rw [hreturned, List.nil_append]
      exact ⟨hmessages, le_rfl⟩
  | some first =>
      have hfollows := h.follows hwrap first hbegun
      have hpiece := hfollows.piece
      have hbehind := UInt64.le_iff_toNat_le.mp hfollows.behind
      rw [hpending, List.append_nil] at hpiece
      rw [max_eq_left hfollows.behind, hfollows.next, ← List.drop_drop] at hmessages
      rw [hfollows.next] at hbehind
      exact ⟨prefix_append_of_drop hpiece hmessages, hbehind⟩

/-- A message from the queue comes next in the log. -/
theorem InOrder.queued (h : s.InOrder) (hwrap : s.log.length < 2 ^ 64) {message : Message}
    {rest : List Message} (hpending : s.consumer.pendingMessages = message :: rest) :
    s.returned ++ message :: rest <+: s.log.drop (s.begun.getD s.committed).toNat ∧
      s.committed.toNat ≤ (s.begun.getD s.committed).toNat + s.returned.length := by
  cases hbegun : s.begun with
  | none =>
      have hempty := (h.waits hwrap hbegun).pending
      rw [hpending] at hempty
      cases hempty
  | some first =>
      have hfollows := h.follows hwrap first hbegun
      have hpiece := hfollows.piece
      have hbehind := UInt64.le_iff_toNat_le.mp hfollows.behind
      rw [hpending] at hpiece
      rw [hfollows.next] at hbehind
      exact ⟨hpiece, hbehind⟩

/-- A consumer that returns the next message of its piece stays in its place. -/
theorem InOrder.took (h : s.InOrder) {server : Server} (hgrows : s.server.Grows server)
    (hsound : server.Sound) {message : Message} {rest : List Message}
    (hnext : s.log.length < 2 ^ 64 →
      s.returned ++ message :: rest <+: s.log.drop (s.begun.getD s.committed).toNat ∧
        s.committed.toNat ≤ (s.begun.getD s.committed).toNat + s.returned.length) :
    (s.took server
      { s.consumer with nextOffset := message.offset + 1, pendingMessages := rest }
      message).InOrder := by
  have hview : s.SameView (s.took server
      { s.consumer with nextOffset := message.offset + 1, pendingMessages := rest } message) :=
    ⟨rfl, rfl, rfl, hgrows.topics, hgrows.logs⟩
  refine ⟨hsound, hview.kept h.kept, fun _ hbegun => (nomatch hbegun), fun hwrap first hbegun => ?_⟩
  have hwrap := hview.log.length_le.trans_lt hwrap
  rcases hnext hwrap with ⟨hpiece, hbehind⟩
  rw [Option.some.inj hbegun] at hpiece hbehind
  rcases numbered_piece h.kept.numbered hwrap hpiece with ⟨hoffset, hinside⟩
  have hsucc : (message.offset + 1).toNat = message.offset.toNat + 1 := by
    rw [UInt64.toNat_add, show (1 : UInt64).toNat = 1 from rfl]
    exact Nat.mod_eq_of_lt (by omega)
  refine ⟨?_, ?_, ?_, ?_, message.offset, rfl, hsucc⟩
  · exact List.append_ne_nil_of_right_ne_nil _ (List.cons_ne_nil _ _)
  · rw [Session.took, List.append_assoc, List.singleton_append]
    exact hpiece.trans (hview.log.drop first.toNat)
  · rw [Session.took, hsucc, List.length_append, List.length_singleton]
    omega
  · rw [hview.committed hgrows.offsets, UInt64.le_iff_toNat_le, Session.took, hsucc]
    omega

/-- Where the group was at the first fetch does not matter for the place. -/
theorem InOrder.ask (h : s.InOrder) (asked : Option UInt64) :
    ({ s with asked := asked } : Session).InOrder := by
  refine ⟨h.sound, h.kept, fun hwrap hbegun => ?_, fun hwrap first hbegun => ?_⟩
  · rcases h.waits hwrap hbegun with ⟨hreturned, hpending, hnext⟩
    exact ⟨hreturned, hpending, hnext⟩
  · rcases h.follows hwrap first hbegun with ⟨hreturned, hpiece, hnext, hbehind, hlast⟩
    exact ⟨hreturned, hpiece, hnext, hbehind, hlast⟩

theorem InOrder.poll (h : s.InOrder) (env : ServerEnv) (requestId : UInt64) (arrives : Bool) :
    (s.exec (.poll env requestId arrives)).InOrder := by
  have hasked := h.ask (some (s.asked.getD s.committed))
  rcases h.exec_poll_cases env requestId arrives with ⟨message, rest, hpending, heq⟩ |
    ⟨hpending, server, hcounts, hsound, heq | ⟨message, rest, hpiece, heq⟩⟩
  · rw [heq]
    exact h.took ⟨rfl, rfl, .refl _⟩ h.sound fun hwrap => h.queued hwrap hpending
  · rw [heq]
    exact hasked.grow hcounts.grows hsound
  · rw [heq]
    exact hasked.took hcounts.grows hsound fun hwrap => h.fetched hwrap hpending (hpiece hwrap)

/-! ## Connections and subscriptions -/

/-- A consumer that loses its queue asks for the rest again. -/
theorem InOrder.drop (h : s.InOrder) :
    ({ s with consumer := { s.consumer with pendingMessages := [] } } : Session).InOrder := by
  refine ⟨h.sound, h.kept, fun hwrap hbegun => ?_, fun hwrap first hbegun => ?_⟩
  · rcases h.waits hwrap hbegun with ⟨hreturned, _, hnext⟩
    exact ⟨hreturned, rfl, hnext⟩
  · rcases h.follows hwrap first hbegun with ⟨hreturned, hpiece, hnext, hbehind, hlast⟩
    refine ⟨hreturned, ?_, hnext, hbehind, hlast⟩
    rw [List.append_nil]
    exact (List.prefix_append _ _).trans hpiece

/-- A subscription is a new start. -/
theorem InOrder.subscribe (h : s.InOrder) : (s.exec .subscribe).InOrder :=
  ⟨h.sound, h.kept, fun _ _ => ⟨rfl, rfl, rfl⟩, fun _ _ hbegun => (nomatch hbegun)⟩

/-! ## Runs -/

/-- Every event keeps the consumer in its place, if it commits nothing ahead. -/
theorem InOrder.exec (h : s.InOrder) {event : SessionEvent} (hnear : s.Near event) :
    (s.exec event).InOrder := by
  cases event with
  | produce env request kind =>
      exact h.grow (handle_produce_grows s.server env kind) (h.sound.handle env request)
  | produceTurn env single =>
      exact h.grow (handleProduce_server_grows s.server env single false false)
        ⟨(h.sound.broker.handleProduce env single false false).1, h.sound.groups⟩
  | poll env requestId arrives => exact h.poll env requestId arrives
  | commit env requestId arrives offset => exact h.commit hnear
  | connect => exact h.drop
  | close => exact h.drop
  | subscribe => exact h.subscribe

/-- Where the group was at the first fetch is where the messages begin, or will
    begin. -/
structure Unmoved (s : Session) : Prop where
  waits : s.begun = none → ∀ asked, s.asked = some asked → s.committed = asked
  begun : ∀ first, s.begun = some first → s.asked = some first

theorem Unmoved.grow (h : s.Unmoved) {server : Server} (hgrows : s.server.Grows server) :
    ({ s with server := server } : Session).Unmoved := by
  have hview : s.SameView { s with server := server } :=
    ⟨rfl, rfl, rfl, hgrows.topics, hgrows.logs⟩
  refine ⟨fun hbegun asked hasked => ?_, h.begun⟩
  rw [hview.committed hgrows.offsets]
  exact h.waits hbegun asked hasked

/-- A fetch without messages notes where the group is. -/
theorem Unmoved.ask (h : s.Unmoved) :
    ({ s with asked := some (s.asked.getD s.committed) } : Session).Unmoved := by
  refine ⟨fun hbegun asked hasked => ?_, fun first hbegun => ?_⟩
  · rw [← Option.some.inj hasked]
    cases hold : s.asked with
    | none => rfl
    | some asked => exact h.waits hbegun asked hold
  · simp only [h.begun first hbegun, Option.getD_some]

theorem Unmoved.took (h : s.Unmoved) (hasked : s.begun = none → s.asked ≠ none) (server : Server)
    (consumer : MqConsumer.Impl) (message : Message) :
    (s.took server consumer message).Unmoved := by
  refine ⟨fun hbegun => (nomatch hbegun), fun first hbegun => ?_⟩
  rw [← Option.some.inj hbegun]
  cases hold : s.begun with
  | none =>
      rcases Option.ne_none_iff_exists'.mp (hasked hold) with ⟨asked, hsome⟩
      exact hsome.trans (congrArg some (h.waits hold asked hsome).symm)
  | some first => exact h.begun first hold

/-- A consumer that does not commit in front of its first message keeps its
    first fetch as its start. -/
theorem Unmoved.exec (h : s.Unmoved) (horder : s.InOrder) (hwrap : s.log.length < 2 ^ 64)
    {event : SessionEvent} (hsettled : s.Settled event) : (s.exec event).Unmoved := by
  cases event with
  | produce env request kind => exact h.grow (handle_produce_grows s.server env kind)
  | produceTurn env single =>
      exact h.grow (handleProduce_server_grows s.server env single false false)
  | poll env requestId arrives =>
      rcases horder.exec_poll_cases env requestId arrives with ⟨message, rest, hpending, heq⟩ |
        ⟨_, server, hcounts, _, heq | ⟨message, rest, _, heq⟩⟩
      · rw [heq]
        refine h.took (fun hbegun => ?_) _ _ _
        -- Nothing is queued in front of the first message.
        have hempty := (horder.waits hwrap hbegun).pending
        rw [hpending] at hempty
        cases hempty
      · rw [heq]
        exact h.ask.grow hcounts.grows
      · rw [heq]
        exact h.ask.took (by rintro _ ⟨⟩) _ _ _
  | commit env requestId arrives offset =>
      refine ⟨fun hbegun asked hasked => ?_, h.begun⟩
      rcases hsettled with hnone | hreturned
      · exact absurd (hnone.symm.trans hasked) (Option.some_ne_none asked).symm
      · exact absurd (horder.waits hwrap hbegun).returned hreturned
  | connect => exact ⟨h.waits, h.begun⟩
  | close => exact ⟨h.waits, h.begun⟩
  | subscribe => exact ⟨by rintro _ _ ⟨⟩, by rintro _ ⟨⟩⟩

/-- Every event leaves the consumer at its partition, and adds to the log. -/
theorem InOrder.sameView (h : s.InOrder) (event : SessionEvent) : s.SameView (s.exec event) := by
  have hgrown : ∀ {server : Server}, s.server.Grows server →
      s.SameView { s with server := server } := fun hgrows =>
    ⟨rfl, rfl, rfl, hgrows.topics, hgrows.logs⟩
  cases event with
  | produce env request kind => exact hgrown (handle_produce_grows s.server env kind)
  | produceTurn env single =>
      exact hgrown (handleProduce_server_grows s.server env single false false)
  | poll env requestId arrives =>
      rcases h.exec_poll_cases env requestId arrives with ⟨message, rest, _, heq⟩ |
        ⟨_, server, hcounts, _, heq | ⟨message, rest, _, heq⟩⟩
      · rw [heq]
        exact ⟨rfl, rfl, rfl, rfl, .refl _⟩
      · rw [heq]
        exact ⟨rfl, rfl, rfl, hcounts.grows.topics, hcounts.grows.logs⟩
      · rw [heq]
        exact ⟨rfl, rfl, rfl, hcounts.grows.topics, hcounts.grows.logs⟩
  | commit env requestId arrives offset =>
      have hbroker := (call_commit s.consumer h.sound env requestId offset).1
      refine ⟨rfl, rfl, rfl, congrArg Broker.topics hbroker, ?_⟩
      rw [show (s.exec (.commit env requestId arrives offset)).server.broker = _ from hbroker]
      exact .refl _
  | connect => exact ⟨rfl, rfl, rfl, rfl, .refl _⟩
  | close => exact ⟨rfl, rfl, rfl, rfl, .refl _⟩
  | subscribe => exact ⟨rfl, rfl, rfl, rfl, .refl _⟩

theorem start_inOrder (config : ServerConfig) {before : List ServerEvent}
    (hkeeps : ∀ now, .cleanup now ∉ before) (token topic group : Bytes) (partition : UInt32) :
    (start config before token topic group partition).InOrder :=
  ⟨run_sound config before, fun number _ => run_counted config hkeeps topic number,
    fun _ _ => ⟨rfl, rfl, rfl⟩, fun _ _ hbegun => (nomatch hbegun)⟩

/-- A consumer that commits nothing ahead is in its place after any run. -/
theorem run_inOrder (h : s.InOrder) {events : List SessionEvent}
    (hnear : Along Session.exec Near s events) : (s.run events).InOrder :=
  (Always.of_along (fun _ _ horder hnear => horder.exec hnear) h hnear).last

/-- If it does not commit in front of its first message, its first fetch was at
    the start. -/
theorem run_unmoved (h : s.InOrder) (hunmoved : s.Unmoved) {events : List SessionEvent}
    (hnear : Along Session.exec Near s events) (hsettled : Along Session.exec Settled s events)
    (hwrap : (s.run events).log.length < 2 ^ 64) : (s.run events).Unmoved := by
  have hboth := Always.of_along (P := fun s : Session =>
    s.InOrder ∧ (s.log.length < 2 ^ 64 → s.Unmoved)) (fun s event hs hgood => by
      refine ⟨hs.1.exec hgood.1, fun hwrap => ?_⟩
      have hwrap := (hs.1.sameView event).log.length_le.trans_lt hwrap
      exact (hs.2 hwrap).exec hs.1 hwrap hgood.2) ⟨h, fun _ => hunmoved⟩ (hnear.and hsettled)
  exact hboth.last.2 hwrap

/-- What `poll` has returned is the log from an offset on, without a gap and
    without a repetition. -/
structure ReturnsFrom (s : Session) (first : UInt64) : Prop where
  piece : s.returned <+: s.log.drop first.toNat
  offsets : ∀ (i : Nat) (h : i < s.returned.length), s.returned[i].offset.toNat = first.toNat + i

theorem InOrder.returnsFrom (h : s.InOrder) (hwrap : s.log.length < 2 ^ 64) {first : UInt64}
    (hbegun : s.begun = some first) : s.ReturnsFrom first := by
  have hpiece := (List.prefix_append _ _).trans (h.follows hwrap first hbegun).piece
  refine ⟨hpiece, fun i hi => ?_⟩
  have hsplit : s.returned.take i ++ s.returned[i] :: s.returned.drop (i + 1) = s.returned := by
    rw [List.getElem_cons_drop, List.take_append_drop]
  rw [← hsplit] at hpiece
  rw [(numbered_piece h.kept.numbered hwrap hpiece).1, List.length_take, Nat.min_eq_left hi.le]

end Session

/-- What `poll` returns to a consumer that commits nothing ahead of what it has
    polled, from a log that was never cleaned, while others produce. It is the
    log from where the group was when the first message came, without a gap and
    without a repetition. That is where the group was at the first fetch, if the
    consumer does not commit in between. -/
theorem poll_in_order (config : ServerConfig) (before : List ServerEvent)
    (token topic group : Bytes) (partition : UInt32) (events : List SessionEvent)
    (hkeeps : ∀ now, .cleanup now ∉ before)
    (hnear : Along Session.exec Session.Near
      (Session.start config before token topic group partition) events) :
    let s := (Session.start config before token topic group partition).run events
    s.log.length < 2 ^ 64 →
      (s.begun = none → s.returned = []) ∧
      ∀ first, s.begun = some first → s.ReturnsFrom first ∧
        (Along Session.exec Session.Settled
            (Session.start config before token topic group partition) events →
          s.asked = some first) := by
  intro s hwrap
  have hstart := Session.start_inOrder config hkeeps token topic group partition
  have horder := Session.run_inOrder hstart hnear
  refine ⟨fun hbegun => (horder.waits hwrap hbegun).returned, fun first hbegun =>
    ⟨horder.returnsFrom hwrap hbegun, fun hsettled => ?_⟩⟩
  have hunmoved : (Session.start config before token topic group partition).Unmoved :=
    ⟨fun _ _ hasked => (nomatch hasked), fun _ hbegun => (nomatch hbegun)⟩
  exact (Session.run_unmoved hstart hunmoved hnear hsettled hwrap).begun first hbegun

/-! ## A run -/

/-- A consumer of a topic that was just created. -/
def exampleSession : Session := Session.start {} [createExample true] [] [116] [103] 0

theorem exampleSession_eq : exampleSession
    = { Session.start {} [] [] [116] [103] 0 with
        server := (createExample true).exec (Server.fresh {}) } := rfl

/-- Somebody produces a value of one byte. -/
def othersProduce (value : UInt8) : SessionEvent :=
  .produce {}
    { command := .produce
      topic := [116]
      payload := put32 0 ++ (put16 0 ++ (put32 1 ++ [value])) } List.mem_cons_self

/-- A consumer polls, commits, loses its connection and goes on. -/
def followExample : List SessionEvent :=
  [othersProduce 120, othersProduce 121, .poll {} 1 true, .commit {} 2 true 1, .connect,
    othersProduce 122, .poll {} 3 false, .poll {} 4 true]

theorem poll_in_order_follow :
    let s := exampleSession.run followExample
    s.log.length < 2 ^ 64 ∧
      (s.begun = none → s.returned = []) ∧
      ∀ first, s.begun = some first → s.ReturnsFrom first ∧
        (Along Session.exec Session.Settled exampleSession followExample →
          s.asked = some first) := by
  have hrun : (exampleSession.run followExample).log.length < 2 ^ 64 ∧
      Along Session.exec Session.Near exampleSession followExample := by
    rw [exampleSession_eq, createExample_exec]
    decide +kernel
  refine ⟨hrun.1, poll_in_order {} [createExample true] [] [116] [103] 0 followExample ?_ hrun.2
    hrun.1⟩
  intro now hmem
  rw [List.mem_singleton, createExample] at hmem
  cases hmem

/-- A consumer that has come to the end subscribes again, fetches nothing, and
    only then commits once more. -/
def rewindExample : List SessionEvent :=
  [othersProduce 120, othersProduce 121, .poll {} 1 true, .poll {} 2 true, .commit {} 3 true 2,
    .subscribe, .poll {} 4 true, .commit {} 5 true 1, .poll {} 6 true]

/-- The group was at 2 at the first fetch, and the message at 1 is returned. -/
theorem first_fetch_not_start :
    Along Session.exec Session.Near exampleSession rewindExample ∧
      let s := exampleSession.run rewindExample
      s.log.length < 2 ^ 64 ∧ s.asked = some 2 ∧ ¬ s.ReturnsFrom 2 := by
  have hrun : Along Session.exec Session.Near exampleSession rewindExample ∧
      (exampleSession.run rewindExample).log.length < 2 ^ 64 ∧
      (exampleSession.run rewindExample).asked = some 2 ∧
      (exampleSession.run rewindExample).returned = [⟨1, 0, [], [121]⟩] := by
    rw [exampleSession_eq, createExample_exec]
    decide +kernel
  rcases hrun with ⟨hnear, hwrap, hasked, hreturned⟩
  refine ⟨hnear, hwrap, hasked, fun hfrom => ?_⟩
  have hoffset := hfrom.offsets 0 (by rw [hreturned]; exact Nat.one_pos)
  simp only [hreturned, List.getElem_cons_zero] at hoffset
  exact absurd hoffset (by decide)

end MqBroker
