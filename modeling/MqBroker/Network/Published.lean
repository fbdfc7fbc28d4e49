import MqBroker.Network.Remote
import MqBroker.Server.Acknowledged
import MqBroker.Server.RequestIds
import MqBroker.Server.Whitelist

/-!
# Publishing over the Network

A producer of the SDK, the server and the broker behind it, all together.

The handler of the server is `Handle` of the broker. Its runs are not all that happens
there: between two of them come the steps of the replication, which has a thread of its
own. They are part of the surroundings of the run that comes next.

A `Call` with a produce request may take many attempts, on many connections, and the
broker may see the message more than once or answer it from its cache. When one of the
attempts has got the answer that all is well, the message is in the log, at the place
that the answer names, and it is the message that the producer has sent.

## Main definitions

* `brokerHandler`: The broker as a handler.
* `TcpServer.history`: What has happened at the broker.

## Theorems

* `TcpServer.InSequence.before`: The broker before a run of the handler, and after it.
* `TcpServer.call_stored`: What a call was told is in the log.
-/

namespace MqBroker

/-- What happens at a broker around a request: the steps of others before it, and what
    the outside does to its handling. -/
abbrev Surroundings := List ServerEvent × ServerEnv

/-- `Handle`, with what has happened before. -/
def brokerHandler (s : Server) (env : Surroundings) (r : RawRequest) : Server × RawResponse :=
  (s.run env.1).serve env.2 r

/-- What has happened at the broker up to the end of a run of the handler. -/
def Served.events (run : Served Surroundings) : List ServerEvent :=
  run.env.1 ++ [.request run.env.2 run.request]

namespace TcpServer

/-- What has happened at the broker. -/
def history (s : TcpServer Server Surroundings) : List ServerEvent :=
  s.served.flatMap Served.events

/-- The handler runs as the broker does. -/
theorem foldl_served (first : Server) (runs : List (Served Surroundings)) :
    (runs.map input).foldl (fun h i => (act brokerHandler h i).1) first
      = first.run (runs.flatMap Served.events) := by
  induction runs generalizing first with
  | nil => rfl
  | cons run runs ih =>
      rw [List.map_cons, List.foldl_cons, ih, List.flatMap_cons, run_append, Served.events,
        run_append]
      rfl

variable {s : TcpServer Server Surroundings} {first : Server}

theorem InSequence.history (h : s.InSequence brokerHandler first) :
    s.handlerState = first.run s.history :=
  h.state.trans (foldl_served first s.served)

/-- A response was made in the state that the runs before have left. -/
theorem InSequence.before (h : s.InSequence brokerHandler first) {run : Served Surroundings}
    (hrun : run ∈ s.served) :
    ∃ past later, s.history = past ++ .request run.env.2 run.request :: later ∧
      run.response = ((first.run past).serve run.env.2 run.request).2 := by
  obtain ⟨front, back, hsplit⟩ := List.append_of_mem hrun
  refine ⟨front.flatMap Served.events ++ run.env.1, back.flatMap Served.events, ?_, ?_⟩
  · rw [TcpServer.history, hsplit, List.flatMap_append, List.flatMap_cons, Served.events,
      List.append_assoc, List.append_assoc, List.singleton_append]
  · have houtputs := h.responses
    rw [hsplit, List.map_append, List.map_append, outputs_append] at houtputs
    have hlast := (List.append_inj houtputs
      (by rw [outputs_length, List.length_map, List.length_map])).2
    rw [List.map_cons, List.map_cons, outputs, foldl_served] at hlast
    rw [← (List.cons.inj hlast).1, run_append]
    rfl

/-! ## The token -/

/-- The token of the clients is the same as long as the broker runs. -/
theorem serve_token (s : Server) (env : ServerEnv) (r : RawRequest) :
    (s.serve env r).1.clientAuthToken = s.clientAuthToken := by
  have hcounts : ∀ {d d' : Server}, d.Counts d' → d'.clientAuthToken = d.clientAuthToken := by
    rintro d d' ⟨_, _, _, _, rfl⟩
    rfl
  rcases serve_cases s env r with ⟨_, hrefused, _⟩ | ⟨normalized, d, _, hd, hdone, _⟩
  · exact hcounts hrefused
  · rw [hcounts hdone, (dispatch_settings d env normalized).1, hcounts hd]

theorem run_token {s : Server} {events : List ServerEvent} {topic : Bytes}
    (hspares : ∀ event ∈ events, event.Spares topic) :
    (s.run events).clientAuthToken = s.clientAuthToken := by
  refine List.foldlRecOn (motive := fun d : Server => d.clientAuthToken = s.clientAuthToken) _ _
    rfl fun d hd event hmem => ?_
  cases event with
  | request env r => exact (serve_token d env r).trans hd
  | operate op => exact hd
  | heartbeatRound env => exact hd
  | pull topic partition payload ios =>
      simp only [ServerEvent.exec, Server.pull]
      split
      · split <;> exact hd
      · exact hd
  | cleanup now => exact absurd (hspares _ hmem) id
  | restart config kept => exact absurd (hspares _ hmem) id

/-! ## Calls -/

/-- A produce request of a client with the right token gets to its handler as the client
    has made it, if it is answered well. -/
theorem serve_sent {b : Server} {env : ServerEnv} {request sent : Request} {requestId : UInt64}
    (hsent : clientCall b.clientAuthToken requestId request = some sent)
    (hversion : request.version = currentVersion)
    (hcommand : request.command ∉ [.replicaFetch, .replicaAppend, .replicaVote])
    (hflags : request.flags ∈ clientFlags)
    (hok : (b.serve env sent.raw).2.status = Status.ok.code) :
    b.Handles sent.raw { request with requestId := requestId } := by
  rcases serve_cases b env sent.raw with ⟨_, _, hrefused⟩ | ⟨normalized, _, hhandles, _⟩
  · exact absurd hok hrefused
  · have hsame : Command.ofCode sent.raw.command = some sent.command := ofCode_code sent.command
    obtain ⟨command, hread, hadmits⟩ := hhandles
    obtain rfl := Option.some.inj (hread.symm.trans hsame)
    have haccepted := hadmits.accepted
    rw [show sent.raw.request sent.command = sent from rfl,
      acceptRequest_clientCall b.broker hversion hcommand hflags hsent] at haccepted
    rw [Option.some.inj haccepted]
    exact ⟨sent.command, hread, hadmits⟩

/-- Only produce requests have answers. -/
theorem answers_command {request : Request} {payload : Bytes} {a : Answer}
    (ha : a ∈ request.answers payload) :
    request.command ∉ [.replicaFetch, .replicaAppend, .replicaVote] := by
  unfold Request.answers at ha
  split at ha
  · rename_i hcommand
    rw [hcommand]
    decide
  · rename_i hcommand
    rw [hcommand]
    decide
  · exact absurd ha List.not_mem_nil

/-- A client has the token of the broker. When one of its attempts with a produce
    request was answered that all is well, the messages of the request are in the logs, at
    the places that the answer names. -/
theorem call_stored (config : ServerConfig) (past : List ServerEvent)
    (content : ProducerKey → Bytes × Bytes) (tlsEnabled : Bool) (subCount : Nat)
    (events : List (NetworkEvent Surroundings)) (ops : List ClientOp)
    (hids : (ops.map ClientOp.turns).sum < 2 ^ 64 - 1) {server : TcpServer Server Surroundings}
    (hserver : server = events.foldl (exec brokerHandler)
      (start ((Server.fresh config).run past) tlsEnabled subCount))
    {client : MqProducer.Impl} (hclient : client = ops.foldl MqProducer.Impl.exec {})
    (k socket : Nat) (hto : (server.sockets k).incoming <+: client.sentOn socket)
    (hfrom : client.readOn socket <+: (server.sockets k).outgoing)
    (hagrees : Along ServerEvent.exec (ServerEvent.Agrees content) (Server.fresh config)
      (past ++ server.history))
    {x : Exchange} (hx : x ∈ client.on socket) {response : RawResponse}
    (hresponse : x.response = some response) (hok : response.status = Status.ok.code)
    {request sent : Request} (hversion : request.version = currentVersion)
    (hflags : request.flags ∈ clientFlags)
    (hmeta : request.hasFlag flagProducerMetadata = true)
    (hsent : clientCall ((Server.fresh config).run past).clientAuthToken x.request.requestId request
      = some sent) (hraw : x.request = sent.raw)
    {a : Answer} (ha : a ∈ request.answers response.payload)
    (hspares : ∀ event ∈ server.history, event.Spares a.key.topic) :
    ∃ m ∈ (server.handlerState.broker.storage.partition a.key.topic a.partition).messages,
      m.offset = a.offset ∧ ∀ c ∈ request.carried, c.1 = a.key → (m.key, m.value) = c.2 := by
  have hsound : server.Sound none := by
    rw [hserver]
    exact (sound_run _ tlsEnabled subCount events).last
  have hrun : server.InSequence brokerHandler ((Server.fresh config).run past) := by
    rw [hserver]
    exact (inSequence_run _ tlsEnabled subCount events).last
  have hkeeps := hrun.served (P := fun request response => response.requestId = request.requestId)
    fun b env r => serve_requestId (b.run env.1) env.2 r
  have hids' : client.Sound := hclient ▸ MqProducer.Impl.sound_run ops hids
  obtain ⟨t, hanswers⟩ := hsound.exchanges hkeeps hids' hto hfrom hx hresponse
  rcases hanswers.said with ⟨run, hran, hrequest, hanswer⟩ | ⟨hrefused, -⟩
  · obtain ⟨before, later, hhistory, hmade⟩ := hrun.before hran.served
    rw [hrun.history, hhistory]
    rw [hhistory] at hagrees hspares
    rw [hrequest, hraw, hanswer] at hmade
    rw [hraw] at hrequest
    rw [← hrequest] at hmade
    -- The broker before this run of the handler.
    have hbefore := run_append (Server.fresh config) past before
    have hstart : (Server.fresh config).broker.Remembers content [] := start_remembers _ _ _ _ _ _
    rw [← List.append_assoc, along_append, ← Server.run, hbefore] at hagrees
    obtain ⟨stored, hstored⟩ := run_remembers (Server.Sound.fresh config) hstart hagrees.1
    have hstate := run_sound config (past ++ before)
    rw [hbefore] at hstored hstate
    have htoken := run_token (s := (Server.fresh config).run past)
      fun event hmem => hspares event (List.mem_append_left _ hmem)
    rw [run_append, run_cons]
    generalize ((Server.fresh config).run past).run before = b at *
    rw [← htoken] at hsent
    rw [hmade] at hok ha
    rw [hrequest] at hok ha hagrees
    have hhandles := serve_sent hsent hversion (answers_command ha) hflags hok
    have hcarried := (hagrees.2.1 _ hhandles).1
    obtain ⟨m, hm, hoffset, hcontent⟩ := serve_kept hstate hstored hagrees.2.1 hhandles hmeta hok ha
      fun event hmem => hspares event (List.mem_append_right _ (List.mem_cons_of_mem _ hmem))
    rw [ServerEvent.exec, hrequest]
    refine ⟨m, hm, hoffset, fun c hc hkey => ?_⟩
    rw [hcontent, ← hkey]
    exact hcarried c hc
  · rw [hrefused] at hok
    exact absurd (show Status.resourceExhausted.code = Status.ok.code from hok) (by decide)

/-- A client sends a message that was stored before, and gets the answer. -/
def produceVisit : List (NetworkEvent Surroundings) :=
  [.accept 7 true true, .task 0 true true,
    .ready 0 7 { readable := true, reads := [.bytes (requestFrame numberedProduce) [true]] },
    .work 0 ([], {}) true, .work 0 ([], {}) true, .work 0 ([], {}) true, .work 0 ([], {}) true,
    .task 0 true true, .task 0 true true, .ready 0 7 { writable := true, writes := [.wrote 30] }]

/-- The client of a `produceVisit`. -/
def producer : List ClientOp :=
  [.connectHost [97] 1 fun _ => .connected,
    .call (numberedProduce.request .produce)
      [⟨fun _ => .connected, true,
        responseFrame { status := 0, requestId := 1, payload := put32 0 ++ put64 0 }, none⟩]]

theorem produceVisit_history :
    (produceVisit.foldl (exec brokerHandler) (start ((Server.fresh {}).run numberedRun) false
      1)).history = [.request {} numberedProduce] := by
  with_unfolding_all rfl

/-- The client is told that its message is at the start of the log, where it is. -/
theorem call_stored_visit :
    ∃ m ∈ ((produceVisit.foldl (exec brokerHandler) (start ((Server.fresh {}).run numberedRun)
        false 1)).handlerState.broker.storage.partition [116] 0).messages,
      m.offset = 0 ∧ ∀ c ∈ (numberedProduce.request .produce).carried, c.1 = ⟨[116], 7, 0⟩ →
        (m.key, m.value) = c.2 :=
  call_stored {} numberedRun (fun _ => ([], [5])) false 1 produceVisit producer (by decide) rfl rfl
    0 0 ⟨[], by decide +kernel⟩ ⟨[], by decide +kernel⟩
    (by rw [produceVisit_history]; exact numberedRun_agrees) (x := ⟨0, 0, numberedProduce,
      responseFrame { status := 0, requestId := 1, payload := put32 0 ++ put64 0 },
      some { status := 0, requestId := 1, payload := put32 0 ++ put64 0 }⟩)
    (List.mem_singleton.mpr rfl) rfl rfl rfl (by decide) (by decide) (by with_unfolding_all rfl) rfl
    (a := ⟨⟨[116], 7, 0⟩, 0, 0⟩) (by decide)
    (by
      rw [produceVisit_history]
      intro event hmem
      rw [List.mem_singleton.mp hmem]
      exact fun hdelete => absurd hdelete (by decide))

end TcpServer

end MqBroker
