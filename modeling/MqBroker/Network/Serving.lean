import MqBroker.Network.Wakeups

/-!
# A Ready Descriptor

What a server keeps in every event: descriptors have one owner, requests are in one
place, the streams of the sockets are those of their connections, and what is to be
written is watched for. `TcpServer.Sound` is all of them.

The event with the longest code is a ready descriptor. `HandleClient` is a loop over
what the socket has, with a loop over the requests inside. Between two turns its
connection is `Serving`: it is the one that is busy, its client is still there, and
the requests in hand are the next ones of the stream. A turn either leaves it
serving, or closes the client and returns.

## Main definitions

* `TcpServer.Sound`: What holds between two events.
* `TcpServer.Serving`: What holds inside `HandleClient`.

## Theorems

* `TcpServer.Sound.closeClient`: A client is closed.
* `TcpServer.Serving.dispatchAll`: The loop over the requests.
* `TcpServer.Serving.readLoop`, `TcpServer.Serving.writeLoop`: The loops over a
  socket.
* `TcpServer.Sound.handleClient`: A ready descriptor.
-/

namespace MqBroker

namespace TcpServer

variable {σ ε : Type}

/-- What holds between two events, and in an event for all connections but the one
    that is busy. -/
structure Sound (s : TcpServer σ ε) (busy : Option Nat) : Prop where
  wired : Wired s.wiring
  accounted : Accounted s.books none
  streaming : Streaming s busy
  awake : Awake s busy

/-- What holds inside `HandleClient`, with requests that are still to be submitted. -/
structure Serving (sub fd c : Nat) (rest : List RawRequest) (s : TcpServer σ ε) : Prop where
  sound : s.Sound (some c)
  client : ∃ client, (s.subs sub).clients fd = some client ∧ client.connection = c ∧
    client.tlsReady = true
  live : LiveStream (s.connections c) (s.sockets (s.connections c).socket) rest

variable {s s' : TcpServer σ ε} {sub fd c : Nat} {rest : List RawRequest}

theorem Sound.suspend (h : s.Sound none) (c : Nat) : s.Sound (some c) :=
  ⟨h.wired, h.accounted, h.streaming.suspend c, h.awake.suspend c⟩

/-- `CloseClient`. -/
theorem Sound.closeClient (h : s.Sound (some c)) {client : Client}
    (hclient : (s.subs sub).clients fd = some client) (hc : client.connection = c) :
    (s.closeClient sub fd).Sound none := by
  have hwclient := wiring_client hclient hc
  have hwiring := wiring_closeClient hclient
  have hsubs : (s.closeClient sub fd).subs = Function.update s.subs sub
      { s.subs sub with
        clients := Function.update (s.subs sub).clients fd none
        interest := Function.update (s.subs sub).interest fd none } := by
    simp only [TcpServer.closeClient, hclient]
    rfl
  have hrest : (s.closeClient sub fd).connections = s.connections ∧
      (s.closeClient sub fd).sockets = s.sockets ∧ (s.closeClient sub fd).jobs = s.jobs := by
    simp only [TcpServer.closeClient, hclient]
    exact ⟨rfl, rfl, rfl⟩
  refine ⟨?_, ?_, ?_, ?_⟩
  · rw [hwiring]
    exact h.wired.release hwclient
  · rw [books_closeClient]
    exact h.accounted
  · exact h.streaming.release h.wired hwclient hwiring hrest.1 hrest.2.1
  · refine h.awake.entry sub fd hrest.1 hrest.2.2 ?_ ?_ ?_ ?_
    · intro sub'
      rw [hsubs, Function.update_apply]
      split_ifs with heq
      · rw [heq]
      · rfl
    · intro sub' fd' hne
      rw [hsubs, Function.update_apply]
      split_ifs with heq
      · subst heq
        have hfd : fd' ≠ fd := fun heq => hne ⟨rfl, heq⟩
        exact ⟨Function.update_of_ne hfd _ _, Function.update_of_ne hfd _ _⟩
      · exact ⟨rfl, rfl⟩
    · intro sub' fd' client' hne hclient' _ hbusy
      have hwclient' := wiring_client hclient' (Option.some.inj hbusy).symm
      exact hne (h.wired.unique hwclient hwclient')
    · intro client' hclient'
      simp only [hsubs, Function.update_self] at hclient'
      cases hclient'

/-- The busy connection and its socket change. -/
theorem Sound.change (h : s.Sound (some c)) (hc : c < s.connectionCount)
    (hwiring : s'.wiring = s.wiring) (hsubs : s'.subs = s.subs)
    (hother : ∀ c' ≠ c, s'.connections c' = s.connections c')
    (hsockets : ∀ k ≠ (s.connections c).socket, s'.sockets k = s.sockets k)
    (hlost : (s'.connections c).rearmLost = (s.connections c).rearmLost)
    (hjobs : ∀ job ∈ s.jobs, job ∈ s'.jobs)
    (hready : ∀ {sub fd client}, (s.subs sub).clients fd = some client →
      client.tlsReady = false → client.connection = c →
        (s'.connections c).requests = (s.connections c).requests)
    (haccounted : Accounted s'.books none)
    (hstream : StreamSound (s'.connections c) (s'.sockets (s.connections c).socket)) :
    s'.Sound (some c) where
  wired := hwiring ▸ h.wired
  accounted := haccounted
  streaming := h.streaming.modify h.wired hc hwiring hother hsockets hstream
    fun hbusy => absurd rfl hbusy
  awake := by
    refine h.awake.modify h.wired h.accounted hsubs ?_ ?_ ?_
    · intro c' _ tasks hrearmed
      have hfd : (s'.connections c').fd = (s.connections c').fd :=
        congrFun (congrArg Wiring.fd hwiring) c'
      have hlost' : (s'.connections c').rearmLost = (s.connections c').rearmLost := by
        by_cases heq : c' = c
        · rw [heq]
          exact hlost
        · rw [hother c' heq]
      refine hrearmed.imp (fun hl => hlost'.trans hl) fun hcoming => hcoming.imp ?_ ?_
      · exact fun hmem => hfd.symm ▸ hmem
      · rintro ⟨job, hjob, hwaits⟩
        exact ⟨job, hjobs job hjob, hwaits⟩
    · intro sub' fd' client hclient htls
      by_cases heq : client.connection = c
      · have hsame := hready hclient htls heq
        rw [heq]
        exact hsame
      · rw [hother _ heq]
    · intro c' _ hbusy hne
      rw [hother c' fun heq => hbusy (congrArg some heq.symm)] at hne
      exact hne

/-- The connection that is served is one. -/
theorem Serving.lt (h : Serving sub fd c rest s) : c < s.connectionCount := by
  obtain ⟨client, hclient, hc, -⟩ := h.client
  exact (h.sound.wired.client (wiring_client hclient hc)).1

theorem Serving.stream (h : Serving sub fd c rest s) :
    StreamSound (s.connections c) (s.sockets (s.connections c).socket) :=
  h.sound.streaming.sound c h.lt

/-- No client of the connection waits for its handshake. -/
theorem Serving.ready (h : Serving sub fd c rest s) {sub' fd' : Nat} {client : Client}
    (hclient : (s.subs sub').clients fd' = some client) (hc : client.connection = c) :
    client.tlsReady = true := by
  obtain ⟨client', hclient', hc', hready⟩ := h.client
  obtain ⟨rfl, rfl⟩ := h.sound.wired.unique (wiring_client hclient' hc')
    (wiring_client hclient hc)
  rw [Option.some.inj (hclient.symm.trans hclient')]
  exact hready

theorem Serving.closeClient (h : Serving sub fd c rest s) :
    (s.closeClient sub fd).Sound none := by
  obtain ⟨client, hclient, hc, -⟩ := h.client
  exact h.sound.closeClient hclient hc

/-- The connection that is served and its socket change. -/
theorem Serving.change {rest' : List RawRequest} (h : Serving sub fd c rest s)
    (hwiring : s'.wiring = s.wiring) (hsubs : s'.subs = s.subs)
    (hother : ∀ c' ≠ c, s'.connections c' = s.connections c')
    (hsockets : ∀ k ≠ (s.connections c).socket, s'.sockets k = s.sockets k)
    (hlost : (s'.connections c).rearmLost = (s.connections c).rearmLost)
    (hjobs : ∀ job ∈ s.jobs, job ∈ s'.jobs) (haccounted : Accounted s'.books none)
    (hstream : StreamSound (s'.connections c) (s'.sockets (s.connections c).socket))
    (hlive : LiveStream (s'.connections c) (s'.sockets (s.connections c).socket) rest') :
    Serving sub fd c rest' s' where
  sound := h.sound.change h.lt hwiring hsubs hother hsockets hlost hjobs
    (fun hclient htls hc => by
      rw [h.ready hclient hc] at htls
      cases htls) haccounted hstream
  client := by
    rw [hsubs]
    exact h.client
  live := by
    have hsocket : (s'.connections c).socket = (s.connections c).socket :=
      congrFun (congrArg Wiring.socket hwiring) c
    rw [hsocket]
    exact hlive

/-! ## Requests -/

theorem encode_resourceExhausted (request : RawRequest) :
    encodeResponse (resourceExhausted request) =
      .ok (responseFrame (resourceExhausted request)) := by
  unfold encodeResponse
  rw [if_neg (fun hne => hne rfl)]
  exact if_neg (Nat.not_lt_zero _)

/-- The connection that is served has one request more, and the change is in its
    write queue and its answers. -/
theorem Serving.next {request : RawRequest} (h : Serving sub fd c (request :: rest) s)
    (x : ServerConnection) (hwiring : s'.wiring = s.wiring) (hsubs : s'.subs = s.subs)
    (hsockets : s'.sockets = s.sockets)
    (hother : ∀ c' ≠ c, s'.connections c' = s.connections c')
    (hjobs : ∀ job ∈ s.jobs, job ∈ s'.jobs)
    (hconnection : s'.connections c =
      { x with requests := (s.connections c).requests ++ [request] })
    (hlost : x.rearmLost = (s.connections c).rearmLost)
    (hdecoder : x.decoder = (s.connections c).decoder)
    (hconsumed : x.write.consumed = (s.connections c).write.consumed)
    (hstream : StreamSound x (s.sockets (s.connections c).socket))
    (haccounted : Accounted s'.books none) : Serving sub fd c rest s' := by
  have hreceived : drain nextFrame (s.sockets (s.connections c).socket).incoming =
      ((s.connections c).requests ++ [request] ++ rest, .ok (s.connections c).decoder) := by
    rw [h.live.received, List.append_assoc]
    rfl
  refine h.change hwiring hsubs hother (fun _ _ => by rw [hsockets]) ?_ hjobs haccounted ?_ ?_
  · rw [hconnection]
    exact hlost
  · rw [hconnection, hsockets]
    refine { hstream with decoded := ?_ }
    rw [hreceived]
    exact List.prefix_append _ _
  · rw [hconnection, hsockets]
    refine ⟨?_, ?_⟩
    · rw [hreceived, hdecoder]
    · rw [h.live.written, hconsumed]

/-- A turn of the loop over the requests. -/
theorem Serving.dispatch {request : RawRequest} (h : Serving sub fd c (request :: rest) s)
    (submitted : Bool) :
    Early.Holds (·.Sound none) (Serving sub fd c rest) (s.dispatch sub fd c request submitted) := by
  obtain ⟨client, hclient, hc, -⟩ := id h.client
  obtain ⟨hlt, hloop, hfd, -⟩ := h.sound.wired.client (wiring_client hclient hc)
  set ticket : Ticket := ⟨c, (s.connections c).requests.length⟩
  set s₁ : TcpServer σ ε := s.modifyConnection c fun connection =>
    { connection with requests := connection.requests ++ [request] } with hs₁
  have hself : s₁.connections c =
      { s.connections c with requests := (s.connections c).requests ++ [request] } :=
    connections_self s c _
  have hwiring : s₁.wiring = s.wiring := wiring_modifyConnection rfl rfl rfl
  have hother : ∀ c' ≠ c, s₁.connections c' = s.connections c' :=
    fun c' hne => connections_of_ne s hne _
  have hcalled : Accounted s₁.books (some ticket) :=
    books_call (s := s) request ▸ h.sound.accounted.call c request
  have hget : (s₁.books.requests c)[ticket.index]? = some request := by
    change (s₁.connections c).requests[ticket.index]? = some request
    rw [hself]
    exact List.getElem?_concat_length
  have hnot : ticket ∉ s.served.map Served.ticket := by
    intro hmem
    obtain ⟨run, hrun, heq⟩ := List.mem_map.mp hmem
    have hold := (h.sound.accounted.served run hrun).2
    rw [heq] at hold
    exact absurd (List.getElem?_eq_some_iff.mp hold).1 (Nat.lt_irrefl _)
  have hstream := h.stream
  cases submitted with
  | true =>
      have hjob : Accounted (s₁.books.addJob ⟨sub, fd, ticket, .run request⟩) none := by
        refine hcalled.putJob _ (by rintro ⟨⟩) hlt ?_ ?_ ?_ ?_
        · exact (congrArg ServerConnection.loop hself).trans hloop
        · exact (congrArg ServerConnection.fd hself).trans hfd
        · rintro r ⟨⟩
          exact ⟨hget, hnot⟩
        · rintro response frame (hstage | hstage) <;> cases hstage
      exact h.next (s.connections c) hwiring rfl rfl hother
        (fun job hmem => List.mem_append_left _ hmem) hself rfl rfl rfl hstream hjob
  | false =>
      have hdrop : Serving sub fd c rest (s₁.drop ticket) := by
        refine h.next { s.connections c with
            dropped := (s.connections c).dropped ++ [ticket.index] }
          ((wiring_drop ticket).trans hwiring) rfl rfl ?_ (fun _ hmem => hmem)
          ((connections_self s₁ c _).trans (by rw [hself])) rfl rfl rfl
          (hstream.drop ticket.index) ?_
        · exact fun c' hne => (connections_of_ne s₁ hne _).trans (hother c' hne)
        · rw [books_drop]
          exact hcalled.putDropped
      have hwrite : (s₁.connections c).write = (s.connections c).write := by rw [hself]
      simp only [TcpServer.dispatch, ← hs₁, Bool.false_eq_true, if_false,
        encode_resourceExhausted, hwrite]
      by_cases haccepts :
          (s.connections c).write.Accepts (responseFrame (resourceExhausted request))
      · have hrefused : s₁.books.Refused ticket (resourceExhausted request) :=
          ⟨request, hget, rfl, hnot⟩
        have hconsumed : ((s.connections c).write.exec
            (.send (responseFrame (resourceExhausted request)))).consumed =
            (s.connections c).write.consumed := by
          simp only [TcpConnection.exec, hstream.write.send_eq haccepts]
        have hanswer : Serving sub fd c rest (s₁.answer ticket (resourceExhausted request)
            ((s.connections c).write.exec
              (.send (responseFrame (resourceExhausted request))))) := by
          refine h.next { s.connections c with
              write := (s.connections c).write.exec
                (.send (responseFrame (resourceExhausted request)))
              answers := (s.connections c).answers ++
                [(ticket.index, resourceExhausted request)] }
            ((wiring_answer _ _ _).trans hwiring) rfl rfl ?_ (fun _ hmem => hmem)
            ((connections_self s₁ c _).trans (by rw [hself])) rfl rfl hconsumed
            (hstream.answer (encode_resourceExhausted request) haccepts) ?_
          · exact fun c' hne => (connections_of_ne s₁ hne _).trans (hother c' hne)
          · rw [books_answer]
            exact hcalled.putAnswer (Or.inr hrefused)
        simp only [TcpConnection.exec, hstream.write.send_eq haccepts] at hanswer ⊢
        exact hanswer
      · simp only [hstream.write.send_refused haccepts]
        exact hdrop.closeClient

/-- The loop over the requests. -/
theorem Serving.dispatchAll {requests : List RawRequest} (submitted : List Bool)
    (h : Serving sub fd c requests s) :
    Early.Holds (·.Sound none) (Serving sub fd c [])
      (s.dispatchAll sub fd c requests submitted) := by
  induction requests generalizing s submitted with
  | nil => exact h
  | cons request requests ih =>
      rw [TcpServer.dispatchAll]
      exact (h.dispatch _).bind fun s' h' => ih submitted.tail h'

/-! ## Reading -/

/-- What was decoded are the next requests of the stream. -/
theorem decodeRequests_some {x : ServerConnection} {bytes : Bytes} {requests : List RawRequest}
    (h : (decodeRequests x bytes).2 = some requests) :
    drain nextFrame (x.decoder ++ bytes) = (requests, .ok (decodeRequests x bytes).1) := by
  unfold decodeRequests at h ⊢
  split_ifs at h ⊢ with hopen
  simp only at h ⊢
  rcases push_cases x.decoder bytes with ⟨-, hpush⟩ | ⟨-, hpush⟩
  · rw [hpush] at h
    cases h
  · rw [hpush] at h ⊢
    cases hdrain : drain nextFrame (x.decoder ++ bytes) with
    | mk items outcome =>
        rw [hdrain] at h
        cases outcome with
        | error e => cases h
        | ok left =>
            obtain rfl := Option.some.inj h
            rfl

/-- The socket behind an open descriptor changes. -/
theorem modifySocket_eq {k : Nat} (hk : s.fds fd = some k) (f : Socket → Socket) :
    s.modifySocket fd f = { s with sockets := Function.update s.sockets k (f (s.sockets k)) } := by
  simp only [modifySocket, hk]

/-- The descriptor that is served is that of the connection's socket. -/
theorem Serving.fds (h : Serving sub fd c rest s) :
    s.fds fd = some (s.connections c).socket := by
  obtain ⟨client, hclient, hc, -⟩ := h.client
  exact (h.sound.wired.client (wiring_client hclient hc)).2.2.2

/-- Bytes that were read. -/
theorem Serving.receive (h : Serving sub fd c [] s) (bytes : Bytes) (submitted : List Bool) :
    Early.Holds (·.Sound none) (Serving sub fd c []) (s.receive sub fd c bytes submitted) := by
  set k := (s.connections c).socket with hk
  set read : Socket → Socket := fun socket =>
    { socket with incoming := socket.incoming ++ bytes } with hread
  set s₁ := s.modifySocket fd read with hs₁
  have heq : s₁ = { s with sockets := Function.update s.sockets k (read (s.sockets k)) } :=
    modifySocket_eq h.fds _
  have hconnections : s₁.connections = s.connections := by rw [heq]
  set decoded := decodeRequests (s₁.connections c) bytes with hdecoded
  set s₂ := s₁.modifyConnection c fun connection => { connection with decoder := decoded.1 }
  have hself : s₂.connections c = { s.connections c with decoder := decoded.1 } :=
    (connections_self s₁ c _).trans (by rw [hconnections])
  have hsocket : s₂.sockets k = read (s.sockets k) := by
    change s₁.sockets k = _
    rw [heq]
    exact Function.update_self ..
  have hwiring : s₂.wiring = s.wiring :=
    (wiring_modifyConnection rfl rfl rfl).trans (wiring_modifySocket fun _ => rfl)
  have hsubs : s₂.subs = s.subs := by
    change s₁.subs = s.subs
    rw [heq]
  have hother : ∀ c' ≠ c, s₂.connections c' = s.connections c' :=
    fun c' hne => (connections_of_ne s₁ hne _).trans (by rw [hconnections])
  have hsockets : ∀ k' ≠ k, s₂.sockets k' = s.sockets k' := by
    intro k' hne
    change s₁.sockets k' = _
    rw [heq]
    exact Function.update_of_ne hne ..
  have hjobs : ∀ job ∈ s.jobs, job ∈ s₂.jobs := by
    change ∀ job ∈ s.jobs, job ∈ s₁.jobs
    rw [heq]
    exact fun _ hmem => hmem
  have hbooks : s₂.books = s.books :=
    (books_modifyConnection rfl rfl rfl rfl rfl).trans (books_modifySocket _)
  have haccounted : Accounted s₂.books none := hbooks ▸ h.sound.accounted
  have hreceived := h.live.append bytes
  have hstream : StreamSound (s₂.connections c) (s₂.sockets k) := by
    rw [hself, hsocket]
    refine { h.stream with decoded := ?_ }
    rw [hreceived]
    exact List.prefix_append _ _
  obtain ⟨client, hclient, hc, -⟩ := id h.client
  rw [TcpServer.receive, ← hs₁]
  cases hrequests : decoded.2 with
  | none =>
      refine (h.sound.change h.lt hwiring hsubs hother hsockets ?_ hjobs ?_ haccounted
        hstream).closeClient (hsubs ▸ hclient) hc
      · rw [hself]
      · intro sub' fd' client' _ _ _
        rw [hself]
  | some requests =>
      refine Serving.dispatchAll submitted (h.change hwiring hsubs hother hsockets ?_ hjobs
        haccounted hstream ?_)
      · rw [hself]
      · rw [hself, hsocket]
        refine ⟨?_, h.live.written⟩
        rw [hconnections] at hdecoded
        have hdrain := decodeRequests_some (hdecoded ▸ hrequests)
        rw [hreceived, hdrain, hdecoded]

/-! ## Clients -/

theorem clients_modifyClient {f : Client → Client} {client : Client}
    (hclient : (s.subs sub).clients fd = some client) :
    ((s.modifyClient sub fd f).subs sub).clients fd = some (f client) := by
  rw [modifyClient, subs_modifySub, if_pos rfl]
  simp only [Function.update_self, hclient, Option.map_some]

/-- The flags of the client that is served change. -/
theorem Sound.modifyClient {client : Client} {f : Client → Client} (h : s.Sound (some c))
    (hclient : (s.subs sub).clients fd = some client) (hc : client.connection = c)
    (hf : ∀ x, (f x).connection = x.connection)
    (hready : (f client).tlsReady = false → client.tlsReady = false) :
    (s.modifyClient sub fd f).Sound (some c) := by
  have hwiring : (s.modifyClient sub fd f).wiring = s.wiring := wiring_modifyClient hf
  refine ⟨?_, ?_, ?_, ?_⟩
  · rw [hwiring]
    exact h.wired
  · rw [books_modifyClient]
    exact h.accounted
  · exact h.streaming.congr hwiring rfl rfl
  · refine h.awake.entry sub fd rfl rfl ?_ ?_ (fun _ _ _ _ _ hbusy => hbusy) ?_
    · intro sub'
      rw [TcpServer.modifyClient, subs_modifySub]
      split_ifs <;> rfl
    · intro sub' fd' hne
      rw [TcpServer.modifyClient, subs_modifySub]
      split_ifs with heq
      · exact ⟨Function.update_of_ne (fun hfd => hne ⟨heq, hfd⟩) _ _, rfl⟩
      · exact ⟨rfl, rfl⟩
    · intro client' hclient'
      rw [clients_modifyClient hclient] at hclient'
      obtain rfl := Option.some.inj hclient'
      have hinterest : ((s.modifyClient sub fd f).subs sub).interest fd =
          (s.subs sub).interest fd := by
        rw [TcpServer.modifyClient, subs_modifySub, if_pos rfl]
      rw [hinterest, hf, hc]
      refine ⟨h.awake.registered hclient, fun htls => ?_, fun hbusy => absurd rfl hbusy⟩
      exact hc ▸ h.awake.unready hclient (hready htls)

/-- The descriptor of the client that is served is watched for `EPOLLOUT`, if there
    is something to write. -/
theorem Sound.modifyFd {client : Client} {b : Bool} (h : s.Sound (some c))
    (hclient : (s.subs sub).clients fd = some client) (hc : client.connection = c)
    (hlive : LiveStream (s.connections c) (s.sockets (s.connections c).socket) [])
    (hb : (s.connections c).write.writable ≠ [] → b = true) :
    (s.modifyFd sub fd b).Sound none := by
  have hwiring : (s.modifyFd sub fd b).wiring = s.wiring := wiring_modifyFd b
  refine ⟨?_, ?_, ?_, ?_⟩
  · rw [hwiring]
    exact h.wired
  · rw [books_modifyFd]
    exact h.accounted
  · exact (h.streaming.congr hwiring rfl rfl).finish hlive
  · have hinterest : ((s.modifyFd sub fd b).subs sub).interest fd = some b := by
      rw [TcpServer.modifyFd, subs_modifySub, if_pos rfl]
      simp only [Function.update_self]
      cases hregistered : (s.subs sub).interest fd with
      | none => exact absurd hregistered (h.awake.registered hclient)
      | some _ => rfl
    refine h.awake.entry sub fd rfl rfl ?_ ?_ ?_ ?_
    · intro sub'
      rw [TcpServer.modifyFd, subs_modifySub]
      split_ifs <;> rfl
    · intro sub' fd' hne
      rw [TcpServer.modifyFd, subs_modifySub]
      split_ifs with heq
      · exact ⟨rfl, Function.update_of_ne (fun hfd => hne ⟨heq, hfd⟩) _ _⟩
      · exact ⟨rfl, rfl⟩
    · intro sub' fd' client' hne hclient' _ hbusy
      exact hne (h.wired.unique (wiring_client hclient hc)
        (wiring_client hclient' (Option.some.inj hbusy).symm))
    · intro client' hclient'
      have hsame : ((s.modifyFd sub fd b).subs sub).clients fd = (s.subs sub).clients fd := by
        rw [TcpServer.modifyFd, subs_modifySub, if_pos rfl]
      rw [hsame, hclient] at hclient'
      obtain rfl := Option.some.inj hclient'
      rw [hinterest, hc]
      refine ⟨Option.some_ne_none b, fun htls => ?_, fun _ hne => Or.inl ?_⟩
      · exact hc ▸ h.awake.unready hclient htls
      · rw [hb hne]

theorem Serving.setWantWrite (h : Serving sub fd c rest s) (b : Bool) :
    Serving sub fd c rest (s.setWantWrite sub fd b) := by
  obtain ⟨client, hclient, hc, hready⟩ := h.client
  exact ⟨h.sound.modifyClient hclient hc (fun _ => rfl) (fun htls => htls),
    ⟨_, clients_modifyClient hclient, hc, hready⟩, h.live⟩

/-- The loop that reads. -/
theorem Serving.readLoop (h : Serving sub fd c [] s) (reads : List SocketRead) :
    Early.Holds (·.Sound none) (Serving sub fd c []) (s.readLoop sub fd c reads) := by
  induction reads generalizing s with
  | nil => exact h
  | cons outcome reads ih =>
      cases outcome with
      | bytes bytes submitted =>
          rw [TcpServer.readLoop]
          split_ifs
          · exact h.closeClient
          · exact (h.receive bytes submitted).bind fun s' h' => ih h'
      | wantWrite => exact h.setWantWrite true
      | failed => exact h.closeClient

/-! ## Writing -/

/-- Bytes that were written. -/
theorem Serving.wrote (h : Serving sub fd c [] s) (count : UInt64)
    (hne : (s.connections c).write.writable ≠ []) :
    let s₁ := s.modifySocket fd fun socket => { socket with
      outgoing := socket.outgoing ++ (s.connections c).write.writable.take count.toNat }
    (s₁.closeClient sub fd).Sound none ∧
      ∀ write, (s.connections c).write.consumeWritten count = .ok write →
        Serving sub fd c []
          (s₁.modifyConnection c fun connection => { connection with write := write }) := by
  intro s₁
  set k := (s.connections c).socket with hk
  set output := (s.connections c).write.writable.take count.toNat with houtput
  set written : Socket → Socket := fun socket =>
    { socket with outgoing := socket.outgoing ++ output } with hwritten
  have heq : s₁ = { s with sockets := Function.update s.sockets k (written (s.sockets k)) } :=
    modifySocket_eq h.fds _
  have hconnections : s₁.connections = s.connections := by rw [heq]
  have hsubs : s₁.subs = s.subs := by rw [heq]
  have hjobs : s₁.jobs = s.jobs := by rw [heq]
  have hwiring : s₁.wiring = s.wiring := wiring_modifySocket fun _ => rfl
  have hbooks : s₁.books = s.books := books_modifySocket _
  have hsocket : s₁.sockets k = written (s.sockets k) := by
    rw [heq]
    exact Function.update_self ..
  have hsockets : ∀ k' ≠ k, s₁.sockets k' = s.sockets k' := by
    intro k' hne'
    rw [heq]
    exact Function.update_of_ne hne' ..
  constructor
  · obtain ⟨client, hclient, hc, -⟩ := h.client
    refine (h.sound.change h.lt hwiring hsubs (fun _ _ => by rw [hconnections]) hsockets ?_ ?_ ?_ ?_
      ?_).closeClient (hsubs ▸ hclient) hc
    · rw [hconnections]
    · rw [hjobs]
      exact fun _ hmem => hmem
    · intro _ _ _ _ _ _
      rw [hconnections]
    · rw [hbooks]
      exact h.sound.accounted
    · rw [hconnections, hsocket]
      exact { h.stream with sent := h.stream.writable_prefix h.live.written hne _ }
  · intro write hconsume
    obtain ⟨hstream, hconsumed⟩ := h.stream.consume h.live.written hne hconsume
    have hself : (s₁.modifyConnection c fun connection =>
        { connection with write := write }).connections c =
        { s.connections c with write := write } :=
      (connections_self s₁ c _).trans (by rw [hconnections])
    refine h.change ((wiring_modifyConnection rfl rfl rfl).trans hwiring) hsubs ?_ hsockets ?_ ?_ ?_
      ?_ ?_
    · exact fun c' hne' => (connections_of_ne s₁ hne' _).trans (by rw [hconnections])
    · rw [hself]
    · exact fun job hmem => hjobs ▸ hmem
    · rw [books_modifyConnection rfl rfl rfl rfl rfl, hbooks]
      exact h.sound.accounted
    · rw [hself]
      exact hsocket ▸ hstream
    · rw [hself]
      exact hsocket ▸ ⟨h.live.received, hconsumed⟩

/-- The loop that writes. -/
theorem Serving.writeLoop (h : Serving sub fd c [] s) (writes : List SocketWrite) :
    Early.Holds (·.Sound none) (Serving sub fd c []) (s.writeLoop sub fd c writes) := by
  induction writes generalizing s with
  | nil => exact h
  | cons outcome writes ih =>
      unfold TcpServer.writeLoop
      simp only
      split_ifs with hnil
      · exact h
      · cases outcome with
        | wrote count =>
            obtain ⟨hclosed, hserving⟩ := h.wrote count hnil
            simp only
            split_ifs
            · exact h.closeClient
            · have hwrite : ∀ f : Socket → Socket,
                  ((s.modifySocket fd f).connections c).write = (s.connections c).write := by
                intro f
                rw [modifySocket_eq h.fds]
              rw [hwrite]
              cases hconsume : (s.connections c).write.consumeWritten count with
              | error e => exact hclosed
              | ok write => exact ih ((hserving write hconsume).setWantWrite false)
        | wantRead => exact h.setWantWrite false
        | wantWrite => exact h.setWantWrite true
        | failed => exact h.closeClient

theorem Serving.reading (h : Serving sub fd c [] s) (events : Readiness) :
    Early.Holds (·.Sound none) (Serving sub fd c []) (s.reading sub fd c events) := by
  unfold TcpServer.reading
  split_ifs
  · exact h.readLoop _
  · exact h

theorem Serving.writing (h : Serving sub fd c [] s) (events : Readiness) :
    Early.Holds (·.Sound none) (Serving sub fd c []) (s.writing sub fd c events) := by
  unfold TcpServer.writing
  split_ifs
  · exact h.writeLoop _
  · exact h

/-! ## A ready descriptor -/

/-- A connection without requests has nothing to write. -/
theorem Sound.writable_nil {busy : Option Nat} (h : s.Sound busy) (hc : c < s.connectionCount)
    (hrequests : (s.connections c).requests = []) :
    (s.connections c).write.writable = [] := by
  have hstream := h.streaming.sound c hc
  have hanswers : (s.connections c).answers = [] := by
    refine List.eq_nil_iff_forall_not_mem.mpr fun answer hmem => ?_
    have hheld := h.accounted.held ⟨c, answer.1⟩ hc
    have hpos : 0 < (s.connections c).answers.countP (·.1 = answer.1) :=
      List.countP_pos_iff.mpr ⟨answer, hmem, decide_eq_true rfl⟩
    simp only [Books.Held, Books.holders, TcpServer.books, hrequests, List.length_nil] at hheld
    omega
  cases hqueue : (s.connections c).write.writeQueue with
  | nil => simp only [TcpConnection.writable, hqueue]
  | cons front rest =>
      have hopen := TcpConnection.isOpen_of_cons hstream.write hqueue
      have haccepted := hstream.write.stream hopen
      rw [hstream.accepted, hanswers, List.flatMap_nil,
        hstream.write.pending_cons hqueue] at haccepted
      exact (List.append_eq_nil_iff.mp (List.append_eq_nil_iff.mp haccepted).2).1

/-- The handshake. -/
theorem Sound.handshake {client : Client} (h : s.Sound none)
    (hclient : (s.subs sub).clients fd = some client) (outcome : HandshakeOutcome) :
    Early.Holds (·.Sound none) (Serving sub fd client.connection [])
      (s.handshake sub fd client outcome) := by
  set c := client.connection with hc
  obtain ⟨hlt, -⟩ := h.wired.client (wiring_client hclient hc.symm)
  have hbusy := h.suspend c
  have hlive := h.streaming.live (wiring_client hclient hc.symm) (Option.some_ne_none c).symm
  unfold TcpServer.handshake
  split_ifs with hready
  · exact ⟨hbusy, ⟨client, hclient, hc.symm, hready⟩, hlive⟩
  · have hunready : client.tlsReady = false := Bool.eq_false_iff.mpr hready
    have hnil := h.writable_nil hlt (h.awake.unready hclient hunready)
    cases outcome with
    | ok =>
        refine ⟨hbusy.modifyClient hclient hc.symm (fun _ => rfl) (fun _ => hunready), ?_, hlive⟩
        exact ⟨_, clients_modifyClient hclient, hc.symm, rfl⟩
    | wantWrite =>
        have hflagged := hbusy.modifyClient (f := fun x => { x with tlsWantWrite := true }) hclient
          hc.symm (fun _ => rfl) (fun htls => htls)
        exact hflagged.modifyFd (clients_modifyClient hclient) hc.symm hlive fun hne =>
          absurd hnil hne
    | wantRead =>
        have hflagged := hbusy.modifyClient (f := fun x => { x with tlsWantWrite := false }) hclient
          hc.symm (fun _ => rfl) (fun htls => htls)
        exact hflagged.modifyFd (clients_modifyClient hclient) hc.symm hlive fun hne =>
          absurd hnil hne
    | failed => exact hbusy.closeClient hclient hc.symm

/-- The end of `HandleClient`. -/
theorem Serving.watch (h : Serving sub fd c [] s) : (s.watch sub fd c).Sound none := by
  obtain ⟨client, hclient, hc, -⟩ := h.client
  refine h.sound.modifyFd hclient hc h.live fun hne => ?_
  rw [Bool.or_eq_true]
  right
  cases hwritable : (s.connections c).write.writable with
  | nil => exact absurd hwritable hne
  | cons byte bytes => rfl

/-- `HandleClient`, for a client that is there. -/
theorem Sound.serveClient {client : Client} (h : s.Sound none)
    (hclient : (s.subs sub).clients fd = some client) (events : Readiness) :
    Early.Holds (·.Sound none) (·.Sound none) (s.serveClient sub fd client events) := by
  unfold TcpServer.serveClient
  split_ifs
  · exact (h.suspend _).closeClient hclient rfl
  · refine (h.handshake hclient _).bind fun s₁ h₁ => ?_
    refine (h₁.reading events).bind fun s₂ h₂ => ?_
    exact (h₂.writing events).bind fun s₃ h₃ => h₃.watch

/-- `HandleClient`. -/
theorem Sound.handleClient (h : s.Sound none) (sub fd : Nat) (events : Readiness) :
    (s.handleClient sub fd events).Sound none := by
  unfold TcpServer.handleClient
  cases hclient : (s.subs sub).clients fd with
  | none => exact h
  | some client =>
      exact (h.serveClient hclient events).result

end TcpServer

end MqBroker
