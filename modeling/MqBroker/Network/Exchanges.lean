import MqBroker.Network.Sessions
import MqBroker.Protocol.Responses

/-!
# What a Client Gets

What the invariants of the server mean for those at the other end of its sockets, in
every state of every run, whatever the order of events and the reuse of
descriptors.

The bytes that were written to a socket are frames of responses, and the last of
them may be incomplete. Each response answers one request that was read from the
same socket, and no request has two. The handler is run for a request at most once,
one request after the other, and a response is what it has said then, unless the
request was refused without running it.

A request that was taken is somewhere: with a worker, in a queue, in the write queue
or written, or given up with a record. So when nothing is under way for a
connection any more and nothing was given up, all its requests are answered, and the
answers are written.

## Main definitions

* `TcpServer.ConnectionOf`: The connection of a socket.
* `TcpServer.Answers`: What a response has to do with a request.
* `TcpServer.AnswerTo`: A response is the answer to a request of a socket.
* `TcpServer.InSequence`: The runs of the handler are one behind the other.
* `TcpServer.Within`: What a ready descriptor leaves alone.
* `TcpServer.AtRest`: Nothing is under way for a connection.

## Theorems

* `TcpServer.received_answers`: What a client decodes.
* `TcpServer.served_once`: The runs of the handler.
* `TcpServer.own_socket`: When something happens to a socket.
* `TcpServer.one_place`: Where a request is.
* `TcpServer.answered_at_rest`: When all is answered.
-/

namespace MqBroker

namespace TcpServer

variable {σ ε : Type}

/-- The connection of a socket, the only one that was made for it. -/
structure ConnectionOf (s : TcpServer σ ε) (k c : Nat) : Prop where
  made : c < s.connectionCount
  socket : (s.connections c).socket = k
  only : ∀ c' < s.connectionCount, (s.connections c').socket = k → c' = c

/-- The one run of the handler for a request. -/
structure RunOf (s : TcpServer σ ε) (t : Ticket) (run : Served ε) : Prop where
  served : run ∈ s.served
  ticket : run.ticket = t
  only : ∀ other ∈ s.served, other.ticket = t → other = run

/-- A request was read from a socket, over which its ticket has its connection, and this
    is what the handler has said in its one run for it, or what the server says if the
    handler is not run. -/
structure Answers (s : TcpServer σ ε) (k : Nat) (t : Ticket) (request : RawRequest)
    (response : RawResponse) : Prop where
  connection : s.ConnectionOf k t.connection
  read : (drain nextFrame (s.sockets k).incoming).1[t.index]? = some request
  said : (∃ run, s.RunOf t run ∧ run.request = request ∧ run.response = response) ∨
    (response = resourceExhausted request ∧ t ∉ s.served.map Served.ticket)

/-- Number `answer.1` of the requests that were read from a socket has this response. -/
def AnswerTo (s : TcpServer σ ε) (c k : Nat) (answer : Nat × RawResponse) : Prop :=
  ∃ request, s.Answers k ⟨c, answer.1⟩ request answer.2

/-- No worker and no queue has anything for a connection, and its descriptor need not
    be written to. -/
structure AtRest (s : TcpServer σ ε) (sub fd c : Nat) : Prop where
  jobs : ∀ job ∈ s.jobs, job.ticket.connection ≠ c
  frames : ∀ t response frame, .appendWrite t response frame ∈ (s.subs sub).tasks →
    t.connection ≠ c
  rearm : ∀ fd', .rearm fd' c ∉ (s.subs sub).tasks
  unwatched : (s.subs sub).interest fd ≠ some true

variable {s : TcpServer σ ε} {sub fd c : Nat}

/-- A request that a connection has counted was read from its socket. -/
theorem Sound.request_read (h : s.Sound none) (hc : c < s.connectionCount) {i : Nat}
    {request : RawRequest} (hget : (s.connections c).requests[i]? = some request) :
    (drain nextFrame (s.sockets (s.connections c).socket).incoming).1[i]? = some request := by
  obtain ⟨rest, hrest⟩ := (h.streaming.sound c hc).decoded
  rw [← hrest, List.getElem?_append_left (List.getElem?_eq_some_iff.mp hget).1]
  exact hget

/-- No two connections are over one socket. -/
theorem Sound.connectionOf (h : s.Sound none) (hc : c < s.connectionCount) :
    s.ConnectionOf (s.connections c).socket c :=
  ⟨hc, rfl, fun _ hc' hsocket => h.wired.injective hc' hc hsocket⟩

/-- No request has two runs of the handler. -/
theorem Sound.runOf (h : s.Sound none) {run : Served ε} (hrun : run ∈ s.served) :
    s.RunOf run.ticket run :=
  ⟨hrun, rfl, fun _ hother hticket =>
    List.inj_on_of_nodup_map h.accounted.once hother hrun hticket⟩

theorem Sound.answerTo (h : s.Sound none) (hc : c < s.connectionCount)
    {answer : Nat × RawResponse} (hanswer : answer ∈ (s.connections c).answers) :
    s.AnswerTo c (s.connections c).socket answer := by
  rcases h.accounted.answered c hc answer hanswer with ⟨run, hrun, hticket, hresponse⟩ |
    ⟨request, hget, hresponse, hnot⟩
  · have hget := (h.accounted.served run hrun).2
    rw [hticket] at hget
    exact ⟨run.request, h.connectionOf hc, h.request_read hc hget,
      Or.inl ⟨run, hticket ▸ h.runOf hrun, rfl, hresponse⟩⟩
  · exact ⟨request, h.connectionOf hc, h.request_read hc hget, Or.inr ⟨hresponse, hnot⟩⟩

/-- No request of a connection has two answers. -/
theorem Sound.nodup_answers (h : s.Sound none) (hc : c < s.connectionCount) :
    ((s.connections c).answers.map Prod.fst).Nodup := by
  rw [List.nodup_iff_count_le_one]
  intro i
  have hheld := h.accounted.held ⟨c, i⟩ hc
  have hcount : ((s.connections c).answers.map Prod.fst).count i =
      (s.connections c).answers.countP (·.1 = i) := by
    rw [List.count, List.countP_map]
    refine List.countP_congr fun answer _ => ?_
    simp only [Function.comp_apply, beq_iff_eq, decide_eq_true_eq]
  simp only [Books.Held, Books.holders, books] at hheld
  omega

/-- What was written to a socket are answers to what was read from it. -/
theorem Sound.received (h : s.Sound none) (k : Nat) :
    ∃ (c : Nat) (answers : List (Nat × RawResponse)) (part : Bytes),
      drain nextResponse (s.sockets k).outgoing = (answers.map Prod.snd, .ok part) ∧
      (answers.map Prod.fst).Nodup ∧ ∀ answer ∈ answers, s.AnswerTo c k answer := by
  by_cases hfresh : s.wiring.Fresh k
  · refine ⟨0, [], [], ?_, List.nodup_nil, fun _ hmem => absurd hmem List.not_mem_nil⟩
    rw [(h.streaming.untouched hfresh).2]
    rfl
  · simp only [Wiring.Fresh, not_forall, not_not] at hfresh
    obtain ⟨c, hc, rfl⟩ := hfresh
    have hstream : StreamSound (s.connections c) (s.sockets (s.wiring.socket c)) :=
      h.streaming.sound c hc
    set answers := (s.connections c).answers with hanswers
    have hframes : ∀ response ∈ answers.map Prod.snd,
        nextResponse (responseFrame response) = .item response [] := by
      intro response hmem
      obtain ⟨answer, hanswer, rfl⟩ := List.mem_map.mp hmem
      exact nextResponse_frame (hstream.legal answer hanswer)
    have hsent : (s.sockets (s.wiring.socket c)).outgoing <+:
        (answers.map Prod.snd).flatMap responseFrame := by
      rw [List.flatMap_map, ← hstream.accepted]
      exact hstream.sent
    -- What was written ends somewhere in the frames of the answers.
    obtain ⟨front, part, hprefix, -, hdrain⟩ :=
      drain_prefix nextResponse_incremental hframes nextResponse_nil hsent
    have hfront : front = (answers.take front.length).map Prod.snd := by
      rw [List.map_take]
      exact List.prefix_iff_eq_take.mp hprefix
    refine ⟨c, answers.take front.length, part, ?_, ?_, fun answer hmem => ?_⟩
    · rw [← hfront]
      exact hdrain
    · rw [List.map_take]
      exact (h.nodup_answers hc).sublist (List.take_sublist _ _)
    · exact h.answerTo hc (List.mem_of_mem_take hmem)

/-- Whoever reads a socket gets answers to what was sent over it. -/
theorem received_answers (handler : σ → ε → RawRequest → σ × RawResponse) (handlerState : σ)
    (tlsEnabled : Bool) (subCount : Nat) (events : List (NetworkEvent ε)) (k : Nat) :
    let s := events.foldl (exec handler) (start handlerState tlsEnabled subCount)
    ∃ (c : Nat) (answers : List (Nat × RawResponse)) (part : Bytes),
      drain nextResponse (s.sockets k).outgoing = (answers.map Prod.snd, .ok part) ∧
      (answers.map Prod.fst).Nodup ∧ ∀ answer ∈ answers, s.AnswerTo c k answer :=
  (sound_run handlerState tlsEnabled subCount events).last.received k

/-! ## Runs of the handler -/

/-- A run of the handler as an input. -/
def input (run : Served ε) : ε × RawRequest := (run.env, run.request)

/-- The handler as a system that takes one request after the other. -/
def act (handler : σ → ε → RawRequest → σ × RawResponse) (handlerState : σ)
    (input : ε × RawRequest) : σ × RawResponse :=
  handler handlerState input.1 input.2

/-- The runs of the handler that were recorded are one sequential run of it. -/
structure InSequence (handler : σ → ε → RawRequest → σ × RawResponse) (first : σ)
    (s : TcpServer σ ε) : Prop where
  state : s.handlerState = (s.served.map input).foldl (fun h i => (act handler h i).1) first
  responses : outputs (act handler) first (s.served.map input) = s.served.map Served.response

/-- What the handler has done is the same. -/
def SameHandler (s s' : TcpServer σ ε) : Prop :=
  s'.handlerState = s.handlerState ∧ s'.served = s.served

theorem InSequence.congr {handler : σ → ε → RawRequest → σ × RawResponse} {first : σ}
    {s' : TcpServer σ ε} (h : s.InSequence handler first) (hsame : s.SameHandler s') :
    s'.InSequence handler first := by
  refine ⟨?_, ?_⟩
  · rw [hsame.1, hsame.2]
    exact h.state
  · rw [hsame.2]
    exact h.responses

/-- What `HandleClient` leaves alone for a descriptor with a socket behind it. -/
structure Within (fd k : Nat) (s s' : TcpServer σ ε) : Prop where
  handler : s.SameHandler s'
  behind : ∀ j, s'.fds fd = some j → j = k
  sockets : ∀ j ≠ k, s'.sockets j = s.sockets j

section Ready

variable {s₀ : TcpServer σ ε} {k : Nat}

theorem Within.closeClient (h : Within fd k s₀ s) (sub : Nat) :
    Within fd k s₀ (s.closeClient sub fd) := by
  unfold TcpServer.closeClient
  split
  · exact h
  · refine ⟨h.handler, fun j hj => ?_, h.sockets⟩
    exact h.behind j (of_update_none hj)

theorem Within.modifySocket (h : Within fd k s₀ s) (f : Socket → Socket) :
    Within fd k s₀ (s.modifySocket fd f) := by
  unfold TcpServer.modifySocket
  cases hfd : s.fds fd with
  | none => exact h
  | some j =>
      obtain rfl := h.behind j hfd
      refine ⟨h.handler, h.behind, fun j' hne => ?_⟩
      exact (Function.update_of_ne hne _ _).trans (h.sockets j' hne)

/-- Nothing changes but connections, reactors and jobs. -/
theorem Within.congr {s' : TcpServer σ ε} (h : Within fd k s₀ s) (hsame : s.SameHandler s')
    (hfds : s'.fds = s.fds) (hsockets : s'.sockets = s.sockets) : Within fd k s₀ s' := by
  refine ⟨⟨hsame.1.trans h.handler.1, hsame.2.trans h.handler.2⟩, ?_, ?_⟩
  · rw [hfds]
    exact h.behind
  · rw [hsockets]
    exact h.sockets

theorem Within.dispatchAll (requests : List RawRequest) (submitted : List Bool)
    (h : Within fd k s₀ s) :
    Early.Holds (Within fd k s₀) (Within fd k s₀) (s.dispatchAll sub fd c requests submitted) := by
  induction requests generalizing s submitted with
  | nil => exact h
  | cons request requests ih =>
      rw [TcpServer.dispatchAll]
      have hdispatch : Early.Holds (Within fd k s₀) (Within fd k s₀)
          (s.dispatch sub fd c request (submitted.headD true)) := by
        unfold TcpServer.dispatch
        simp only
        split_ifs
        · exact h.congr ⟨rfl, rfl⟩ rfl rfl
        · rw [encode_resourceExhausted]
          simp only
          split
          · refine Within.closeClient ?_ sub
            exact h.congr ⟨rfl, rfl⟩ rfl rfl
          · exact h.congr ⟨rfl, rfl⟩ rfl rfl
      exact hdispatch.bind fun s' h' => ih submitted.tail h'

theorem Within.readLoop (reads : List SocketRead) (h : Within fd k s₀ s) :
    Early.Holds (Within fd k s₀) (Within fd k s₀) (s.readLoop sub fd c reads) := by
  induction reads generalizing s with
  | nil => exact h
  | cons outcome reads ih =>
      cases outcome with
      | bytes bytes submitted =>
          rw [TcpServer.readLoop]
          split_ifs
          · exact h.closeClient sub
          · have hreceive : Early.Holds (Within fd k s₀) (Within fd k s₀)
                (s.receive sub fd c bytes submitted) := by
              unfold TcpServer.receive
              simp only
              split
              · refine Within.closeClient ?_ sub
                exact (h.modifySocket _).congr ⟨rfl, rfl⟩ rfl rfl
              · refine Within.dispatchAll _ _ ?_
                exact (h.modifySocket _).congr ⟨rfl, rfl⟩ rfl rfl
            exact hreceive.bind fun s' h' => ih h'
      | wantWrite => exact h.congr ⟨rfl, rfl⟩ rfl rfl
      | failed => exact h.closeClient sub

theorem Within.writeLoop (writes : List SocketWrite) (h : Within fd k s₀ s) :
    Early.Holds (Within fd k s₀) (Within fd k s₀) (s.writeLoop sub fd c writes) := by
  induction writes generalizing s with
  | nil => exact h
  | cons outcome writes ih =>
      unfold TcpServer.writeLoop
      simp only
      split_ifs
      · exact h
      · cases outcome with
        | wrote count =>
            simp only
            split_ifs
            · exact h.closeClient sub
            · split
              · exact (h.modifySocket _).closeClient sub
              · exact ih ((h.modifySocket _).congr ⟨rfl, rfl⟩ rfl rfl)
        | wantRead => exact h.congr ⟨rfl, rfl⟩ rfl rfl
        | wantWrite => exact h.congr ⟨rfl, rfl⟩ rfl rfl
        | failed => exact h.closeClient sub

theorem Within.serveClient (h : Within fd k s₀ s) (client : Client) (events : Readiness) :
    Early.Holds (Within fd k s₀) (Within fd k s₀) (s.serveClient sub fd client events) := by
  unfold TcpServer.serveClient
  split_ifs
  · exact h.closeClient sub
  · have hshake : Early.Holds (Within fd k s₀) (Within fd k s₀)
        (s.handshake sub fd client events.handshake) := by
      unfold TcpServer.handshake
      split_ifs
      · exact h
      · cases events.handshake with
        | ok => exact h.congr ⟨rfl, rfl⟩ rfl rfl
        | wantWrite => exact h.congr ⟨rfl, rfl⟩ rfl rfl
        | wantRead => exact h.congr ⟨rfl, rfl⟩ rfl rfl
        | failed => exact h.closeClient sub
    refine hshake.bind fun s₁ h₁ => ?_
    have hread : Early.Holds (Within fd k s₀) (Within fd k s₀)
        (s₁.reading sub fd client.connection events) := by
      unfold TcpServer.reading
      split_ifs
      · exact h₁.readLoop _
      · exact h₁
    refine hread.bind fun s₂ h₂ => ?_
    have hwrite : Early.Holds (Within fd k s₀) (Within fd k s₀)
        (s₂.writing sub fd client.connection events) := by
      unfold TcpServer.writing
      split_ifs
      · exact h₂.writeLoop _
      · exact h₂
    exact hwrite.bind fun s₃ h₃ => h₃.congr ⟨rfl, rfl⟩ rfl rfl

/-- `HandleClient` touches the socket of its client, and no other. -/
theorem Sound.within (h : s.Sound none) {client : Client}
    (hclient : (s.subs sub).clients fd = some client) (events : Readiness) :
    Within fd (s.connections client.connection).socket s (s.handleClient sub fd events) := by
  have hbehind : s.fds fd = some (s.connections client.connection).socket :=
    (h.wired.client (wiring_client hclient rfl)).2.2.2
  have hstart : Within fd (s.connections client.connection).socket s s :=
    ⟨⟨rfl, rfl⟩, fun j hj => Option.some.inj (hj.symm.trans hbehind), fun _ _ => rfl⟩
  unfold TcpServer.handleClient
  rw [hclient]
  exact (hstart.serveClient client events).result

end Ready

/-! Nothing but `HandleClient` reads or writes, and nothing but a worker runs the
handler. -/

theorem closeClient_same (s : TcpServer σ ε) (sub fd : Nat) :
    s.SameHandler (s.closeClient sub fd) ∧ (s.closeClient sub fd).sockets = s.sockets := by
  unfold TcpServer.closeClient
  split <;> exact ⟨⟨rfl, rfl⟩, rfl⟩

theorem acceptReady_same (s : TcpServer σ ε) (fd : Nat) (nonBlocking queued : Bool) :
    s.SameHandler (s.acceptReady fd nonBlocking queued) ∧
      ∀ k ≠ s.socketCount, (s.acceptReady fd nonBlocking queued).sockets k = s.sockets k := by
  unfold TcpServer.acceptReady
  simp only
  split_ifs
  · exact ⟨⟨rfl, rfl⟩, fun _ _ => rfl⟩
  all_goals exact ⟨⟨rfl, rfl⟩, fun k hne => Function.update_of_ne hne _ _⟩

theorem nextTask_same (s : TcpServer σ ε) (sub : Nat) (session registered : Bool) :
    s.SameHandler (s.nextTask sub session registered) ∧
      (s.nextTask sub session registered).sockets = s.sockets := by
  unfold TcpServer.nextTask
  cases (s.subs sub).tasks with
  | nil => exact ⟨⟨rfl, rfl⟩, rfl⟩
  | cons task rest =>
      cases task with
      | addClient fd =>
          simp only [TcpServer.runTask, TcpServer.addClient]
          split
          · exact ⟨⟨rfl, rfl⟩, rfl⟩
          · split_ifs
            · exact ⟨⟨rfl, rfl⟩, rfl⟩
            · exact ⟨⟨rfl, rfl⟩, rfl⟩
            · exact ⟨⟨rfl, rfl⟩, rfl⟩
            · exact closeClient_same _ sub fd
      | appendWrite t response frame =>
          simp only [TcpServer.runTask, TcpServer.appendTask]
          split_ifs
          · exact ⟨⟨rfl, rfl⟩, rfl⟩
          · split <;> exact ⟨⟨rfl, rfl⟩, rfl⟩
      | rearm fd c =>
          simp only [TcpServer.runTask, TcpServer.rearmTask]
          split
          · exact ⟨⟨rfl, rfl⟩, rfl⟩
          · split_ifs <;> exact ⟨⟨rfl, rfl⟩, rfl⟩

section Runs

variable {handler : σ → ε → RawRequest → σ × RawResponse} {first : σ}

/-- A run of the handler goes on from the state the last one has left. -/
theorem InSequence.runHandler (h : s.InSequence handler first) (job : Job) (env : ε)
    (request : RawRequest) : (s.runHandler handler job env request).InSequence handler first := by
  have hstate := h.state
  have hrun : InSequence handler first
      { s with
        handlerState := (handler s.handlerState env request).1
        served := s.served ++
          [⟨job.ticket, env, request, (handler s.handlerState env request).2⟩] } := by
    refine ⟨?_, ?_⟩
    · rw [List.map_append, List.foldl_append, ← hstate]
      rfl
    · rw [List.map_append, List.map_append, List.map_singleton, outputs_append, h.responses,
        ← hstate]
      rfl
  unfold TcpServer.runHandler
  simp only
  split
  · exact hrun.congr ⟨rfl, rfl⟩
  · exact hrun.congr ⟨rfl, rfl⟩

theorem stepJob_sockets (s : TcpServer σ ε) (job : Job) (env : ε) (queued : Bool) :
    (s.stepJob handler job env queued).sockets = s.sockets := by
  unfold TcpServer.stepJob
  cases job.stage with
  | run request =>
      simp only [TcpServer.runHandler]
      split <;> rfl
  | send response frame =>
      simp only
      split_ifs <;> rfl
  | post response frame =>
      simp only
      split_ifs <;> rfl
  | rearm =>
      simp only
      split_ifs <;> rfl

theorem InSequence.stepJob (h : s.InSequence handler first) (job : Job) (env : ε) (queued : Bool) :
    (s.stepJob handler job env queued).InSequence handler first := by
  unfold TcpServer.stepJob
  cases job.stage with
  | run request => exact h.runHandler job env request
  | send response frame =>
      simp only
      split_ifs <;> exact h.congr ⟨rfl, rfl⟩
  | post response frame =>
      simp only
      split_ifs <;> exact h.congr ⟨rfl, rfl⟩
  | rearm =>
      simp only
      split_ifs <;> exact h.congr ⟨rfl, rfl⟩

/-- An event runs the handler at its end, or leaves it alone. -/
theorem InSequence.exec (h : s.InSequence handler first) (hsound : s.Sound none)
    (event : NetworkEvent ε) : (s.exec handler event).InSequence handler first := by
  cases event with
  | accept fd nonBlocking queued => exact h.congr (acceptReady_same s fd nonBlocking queued).1
  | ready sub fd events =>
      cases hclient : (s.subs sub).clients fd with
      | none =>
          simp only [TcpServer.exec, TcpServer.handleClient, hclient]
          exact h
      | some client => exact h.congr (hsound.within hclient events).handler
  | task sub session registered => exact h.congr (nextTask_same s sub session registered).1
  | work job env queued =>
      change (s.work handler job env queued).InSequence handler first
      unfold TcpServer.work
      cases s.jobs[job]? with
      | none => exact h
      | some j =>
          refine InSequence.stepJob ?_ j env queued
          exact h.congr ⟨rfl, rfl⟩

theorem inSequence_run (handlerState : σ) (tlsEnabled : Bool) (subCount : Nat)
    (events : List (NetworkEvent ε)) :
    Always (TcpServer.exec handler) (InSequence handler handlerState)
      (start handlerState tlsEnabled subCount) events :=
  Always.of_along (fun _ event h hsound => h.exec hsound event) ⟨rfl, rfl⟩
    (sound_run handlerState tlsEnabled subCount events).along

end Runs

/-- The handler is run for a request at most once, and what it did is what one run
    after the other does, each for a request that was read from a socket. -/
theorem served_once (handler : σ → ε → RawRequest → σ × RawResponse) (handlerState : σ)
    (tlsEnabled : Bool) (subCount : Nat) (events : List (NetworkEvent ε)) :
    let s := events.foldl (exec handler) (start handlerState tlsEnabled subCount)
    (s.served.map Served.ticket).Nodup ∧
      s.handlerState = (s.served.map input).foldl (fun h i => (act handler h i).1) handlerState ∧
      s.served.map Served.response = outputs (act handler) handlerState (s.served.map input) ∧
      ∀ run ∈ s.served, run.ticket.connection < s.connectionCount ∧
        (drain nextFrame (s.sockets (s.connections run.ticket.connection).socket).incoming).1[
          run.ticket.index]? = some run.request := by
  intro s
  have h : s.Sound none := (sound_run handlerState tlsEnabled subCount events).last
  have hsequence : s.InSequence handler handlerState :=
    (inSequence_run handlerState tlsEnabled subCount events).last
  refine ⟨h.accounted.once, hsequence.state, hsequence.responses.symm, fun run hrun => ?_⟩
  obtain ⟨hc, hget⟩ := h.accounted.served run hrun
  exact ⟨hc, h.request_read hc hget⟩

/-- Whatever happens to a socket of the server happens when its own descriptor is
    ready, at the reactor that was chosen for it, for the connection it was made for. -/
theorem own_socket (handler : σ → ε → RawRequest → σ × RawResponse) (handlerState : σ)
    (tlsEnabled : Bool) (subCount : Nat) (events : List (NetworkEvent ε)) (event : NetworkEvent ε)
    (k : Nat) :
    let s := events.foldl (exec handler) (start handlerState tlsEnabled subCount)
    (s.exec handler event).sockets k = s.sockets k ∨ k = s.socketCount ∨
      ∃ sub fd readiness client, event = .ready sub fd readiness ∧
        (s.subs sub).clients fd = some client ∧ s.fds fd = some k ∧ (s.sockets k).sub = sub ∧
        (s.connections client.connection).socket = k ∧
        ∀ sub' fd' client', (s.subs sub').clients fd' = some client' →
          (s.connections client'.connection).socket = k → sub' = sub ∧ fd' = fd := by
  intro s
  have h : s.Sound none := (sound_run handlerState tlsEnabled subCount events).last
  cases event with
  | accept fd nonBlocking queued =>
      by_cases hk : k = s.socketCount
      · exact Or.inr (Or.inl hk)
      · exact Or.inl ((acceptReady_same s fd nonBlocking queued).2 k hk)
  | task sub session registered =>
      exact Or.inl (congrFun (nextTask_same s sub session registered).2 k)
  | work job env queued =>
      left
      change (s.work handler job env queued).sockets k = s.sockets k
      unfold TcpServer.work
      cases s.jobs[job]? with
      | none => rfl
      | some j => exact congrFun (stepJob_sockets _ j env queued) k
  | ready sub fd readiness =>
      cases hclient : (s.subs sub).clients fd with
      | none =>
          left
          simp only [TcpServer.exec, TcpServer.handleClient, hclient]
      | some client =>
          have hwclient := wiring_client hclient rfl
          obtain ⟨hc, hloop, -, hfd⟩ := h.wired.client hwclient
          by_cases hk : k = (s.connections client.connection).socket
          · subst hk
            refine Or.inr (Or.inr ⟨sub, fd, readiness, client, rfl, hclient, hfd, ?_, rfl, ?_⟩)
            · exact (h.wired.made hc).2.trans hloop
            · intro sub' fd' client' hclient' hsocket
              have hwclient' := wiring_client hclient' rfl
              have heq : client'.connection = client.connection :=
                h.wired.injective (h.wired.client hwclient').1 hc hsocket
              exact h.wired.unique hwclient (heq ▸ hwclient')
          · exact Or.inl ((h.within hclient readiness).sockets k hk)

/-! ## Nothing is lost -/

/-- A handler that counts the requests and sends back what it gets. -/
def echo (count : Nat) (_ : Unit) (request : RawRequest) : Nat × RawResponse :=
  (count + 1, { status := 0, requestId := request.requestId, payload := request.payload })

/-- A client comes, sends one request and gets the response. -/
def visit : List (NetworkEvent Unit) :=
  [.accept 7 true true, .task 0 true true,
    .ready 0 7
      { readable := true
        reads := [.bytes (requestFrame { command := 0x30, requestId := 1 }) [true]] },
    .work 0 () true, .work 0 () true, .work 0 () true, .work 0 () true,
    .task 0 true true, .task 0 true true, .ready 0 7 { writable := true, writes := [.wrote 18] }]

/-- At rest the requests that were taken are those that are answered. -/
theorem Sound.answered_iff (h : s.Sound none) (hc : c < s.connectionCount)
    (hloop : (s.connections c).loop = sub) (hrest : s.AtRest sub fd c)
    (hdropped : (s.connections c).dropped = []) (i : Nat) :
    i ∈ (s.connections c).answers.map Prod.fst ↔ i < (s.connections c).requests.length := by
  have hjobs : s.jobs.countP (·.holds ⟨c, i⟩) = 0 := by
    rw [List.countP_eq_zero]
    intro job hmem hholds
    refine hrest.jobs job hmem ?_
    unfold Job.holds at hholds
    split at hholds
    · cases hholds
    · rw [of_decide_eq_true hholds]
  have htasks : (s.subs (s.connections c).loop).tasks.countP (·.holds ⟨c, i⟩) = 0 := by
    rw [List.countP_eq_zero, hloop]
    intro task hmem hholds
    cases task with
    | addClient fd => cases hholds
    | rearm fd c => cases hholds
    | appendWrite u response frame =>
        refine hrest.frames u response frame hmem ?_
        rw [of_decide_eq_true hholds]
  have hheld := h.accounted.held ⟨c, i⟩ hc
  simp only [Books.Held, Books.holders, books, reduceCtorEq, if_false, Nat.zero_add, hjobs, htasks,
    hdropped, List.count_nil, Nat.add_zero] at hheld
  have hmem : i ∈ (s.connections c).answers.map Prod.fst ↔
      0 < (s.connections c).answers.countP (·.1 = i) := by
    rw [List.countP_pos_iff, List.mem_map]
    simp only [decide_eq_true_eq]
  rw [hmem]
  omega

/-- A request that a connection has counted is in exactly one place, a number it has not
    counted is in none, and the requests it has counted are the first ones that were
    read from its socket. -/
theorem one_place (handler : σ → ε → RawRequest → σ × RawResponse) (handlerState : σ)
    (tlsEnabled : Bool) (subCount : Nat) (events : List (NetworkEvent ε)) (t : Ticket)
    (ht : t.connection < (events.foldl (exec handler)
      (start handlerState tlsEnabled subCount)).connectionCount) :
    let s := events.foldl (exec handler) (start handlerState tlsEnabled subCount)
    let x := s.connections t.connection
    s.jobs.countP (·.holds t) + (s.subs x.loop).tasks.countP (·.holds t) +
        x.answers.countP (·.1 = t.index) + x.dropped.count t.index =
        (if t.index < x.requests.length then 1 else 0) ∧
      (∀ sub ≠ x.loop, (s.subs sub).tasks.countP (·.holds t) = 0) ∧
      x.requests <+: (drain nextFrame (s.sockets x.socket).incoming).1 := by
  intro s x
  have h : s.Sound none := (sound_run handlerState tlsEnabled subCount events).last
  refine ⟨?_, fun sub hne => ?_, (h.streaming.sound t.connection ht).decoded⟩
  · have hheld := h.accounted.held t ht
    simp only [Books.Held, Books.holders, books, reduceCtorEq, if_false, Nat.zero_add] at hheld
    split_ifs with hlt
    · exact (hheld.resolve_right fun hout => absurd hlt (not_lt.mpr hout.1)).2
    · exact (hheld.resolve_left fun hin => hlt hin.1).2
  · rw [List.countP_eq_zero]
    intro task hmem hholds
    cases task with
    | addClient fd => cases hholds
    | rearm fd c => cases hholds
    | appendWrite u response frame =>
        obtain rfl : u = t := of_decide_eq_true hholds
        exact hne (h.accounted.task sub u response frame hmem).2.symm

/-- In the middle of a `visit` a worker has the request. -/
theorem one_place_visit :
    let s := (visit.take 5).foldl (exec echo) (start 0 false 1)
    s.jobs.countP (·.holds ⟨0, 0⟩) + (s.subs 0).tasks.countP (·.holds ⟨0, 0⟩) +
      (s.connections 0).answers.countP (·.1 = 0) + (s.connections 0).dropped.count 0 = 1 :=
  (one_place echo 0 false 1 (visit.take 5) ⟨0, 0⟩ (by decide)).1

/-- When nothing is under way for a client and nothing was given up, each request that
    was sent has one answer, and the answers are written. -/
theorem answered_at_rest (handler : σ → ε → RawRequest → σ × RawResponse) (handlerState : σ)
    (tlsEnabled : Bool) (subCount : Nat) (events : List (NetworkEvent ε)) (sub fd : Nat)
    (client : Client)
    (hclient : ((events.foldl (exec handler)
      (start handlerState tlsEnabled subCount)).subs sub).clients fd = some client)
    (hrest : (events.foldl (exec handler) (start handlerState tlsEnabled subCount)).AtRest sub fd
      client.connection)
    (hdropped : ((events.foldl (exec handler)
      (start handlerState tlsEnabled subCount)).connections client.connection).dropped = [])
    (hlost : ((events.foldl (exec handler)
      (start handlerState tlsEnabled subCount)).connections client.connection).rearmLost = false) :
    let s := events.foldl (exec handler) (start handlerState tlsEnabled subCount)
    let k := (s.connections client.connection).socket
    ∃ (requests : List RawRequest) (part : Bytes) (answers : List (Nat × RawResponse)),
      drain nextFrame (s.sockets k).incoming = (requests, .ok part) ∧
      drain nextResponse (s.sockets k).outgoing = (answers.map Prod.snd, .ok []) ∧
      (answers.map Prod.fst).Perm (List.range requests.length) ∧
      ∀ answer ∈ answers, s.AnswerTo client.connection k answer := by
  intro s k
  have h : s.Sound none := (sound_run handlerState tlsEnabled subCount events).last
  have hwclient := wiring_client hclient rfl
  obtain ⟨hc, hloop, -, -⟩ := h.wired.client hwclient
  have hstream : StreamSound (s.connections client.connection) (s.sockets k) :=
    h.streaming.sound client.connection hc
  have hlive : LiveStream (s.connections client.connection) (s.sockets k) [] :=
    h.streaming.live hwclient (Option.some_ne_none _).symm
  have hreceived := hlive.received
  rw [List.append_nil] at hreceived
  -- Nobody is to arm the descriptor, and it is not armed: there is nothing to write.
  have hwritable : (s.connections client.connection).write.writable = [] := by
    by_contra hne
    rcases h.awake.armed hclient (Option.some_ne_none _).symm hne with
      harmed | hlost' | hqueued | ⟨job, hjob, -, hconnection⟩
    · exact hrest.unwatched harmed
    · exact absurd hlost' (hlost ▸ Bool.false_ne_true)
    · exact hrest.rearm _ hqueued
    · exact hrest.jobs job hjob hconnection
  have houtgoing : (s.sockets k).outgoing =
      ((s.connections client.connection).answers.map Prod.snd).flatMap responseFrame := by
    have hopen := hstream.opened hdropped
    have hwhole := hstream.write.stream hopen
    rw [hstream.pending_nil hwritable, List.append_nil] at hwhole
    rw [hlive.written, hwhole, hstream.accepted, List.flatMap_map]
  refine ⟨(s.connections client.connection).requests, (s.connections client.connection).decoder,
    (s.connections client.connection).answers, hreceived, ?_, ?_,
    fun answer hanswer => h.answerTo hc hanswer⟩
  · rw [houtgoing, ← List.append_nil (List.flatMap _ _)]
    refine drain_items nextResponse_incremental (fun response hmem => ?_) nextResponse_nil
    obtain ⟨answer, hanswer, rfl⟩ := List.mem_map.mp hmem
    exact nextResponse_frame (hstream.legal answer hanswer)
  · rw [List.perm_ext_iff_of_nodup (h.nodup_answers hc) List.nodup_range]
    intro i
    rw [List.mem_range]
    exact h.answered_iff hc hloop hrest hdropped i

/-- After a `visit` there is nothing left to do. -/
theorem answered_at_rest_visit :
    let s := visit.foldl (exec echo) (start 0 false 1)
    ∃ (requests : List RawRequest) (part : Bytes) (answers : List (Nat × RawResponse)),
      drain nextFrame (s.sockets 0).incoming = (requests, .ok part) ∧
      drain nextResponse (s.sockets 0).outgoing = (answers.map Prod.snd, .ok []) ∧
      (answers.map Prod.fst).Perm (List.range requests.length) ∧
      ∀ answer ∈ answers, s.AnswerTo 0 0 answer := by
  have hjobs : (visit.foldl (exec echo) (start 0 false 1)).jobs = [] := rfl
  have htasks : ((visit.foldl (exec echo) (start 0 false 1)).subs 0).tasks = [] := rfl
  refine answered_at_rest echo 0 false 1 visit 0 7 ⟨0, true, false⟩ rfl
    ⟨?_, ?_, ?_, by decide⟩ rfl rfl
  · rw [hjobs]
    exact fun job hmem => absurd hmem List.not_mem_nil
  · rw [htasks]
    exact fun t response frame hmem => absurd hmem List.not_mem_nil
  · rw [htasks]
    exact fun fd' hmem => absurd hmem List.not_mem_nil

end TcpServer

end MqBroker
