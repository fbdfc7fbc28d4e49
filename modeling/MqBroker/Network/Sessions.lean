import MqBroker.Lib.Runs
import MqBroker.Network.Serving

/-!
# Sessions

The other events of the server: a task of a loop, a turn of the acceptor and a step
of a worker. With them every event keeps what `TcpServer.Sound` says, and it holds
in every state of every run.

A client comes to be in two events. The acceptor queues a task for a reactor, and
the reactor makes the connection and the client. If there is no TLS session or the
descriptor cannot be registered, it closes the descriptor after all. A response
needs two tasks as well: one that puts the frame into the write queue, and one that
arms the descriptor.

## Theorems

* `TcpServer.Sound.nextTask`: A task of a loop.
* `TcpServer.Sound.acceptReady`: A turn of the acceptor.
* `TcpServer.Sound.work`: A step of a worker.
* `TcpServer.sound_run`: All of it, in every state of every run.
-/

namespace MqBroker

namespace TcpServer

variable {σ ε : Type} {s s' : TcpServer σ ε} {sub fd c : Nat}

/-! ## Tasks -/

/-- A frame has left the queue, and the write queue of its connection has taken it or
    not. -/
theorem Sound.taskDone {t : Ticket} {response : RawResponse} {frame : Bytes}
    {rest : List LoopTask} (h : s.Sound none) (x : ServerConnection)
    (htasks : (s.subs sub).tasks = .appendWrite t response frame :: rest)
    (hwiring : s'.wiring = s.wiring) (hsockets : s'.sockets = s.sockets) (hjobs : s'.jobs = s.jobs)
    (hsubs : s'.subs = (s.modifySub sub fun r => { r with tasks := rest }).subs)
    (hother : ∀ c ≠ t.connection, s'.connections c = s.connections c)
    (hconnection : s'.connections t.connection = x)
    (hlost : x.rearmLost = (s.connections t.connection).rearmLost)
    (hrequests : x.requests = (s.connections t.connection).requests)
    (hdecoder : x.decoder = (s.connections t.connection).decoder)
    (hconsumed : x.write.consumed = (s.connections t.connection).write.consumed)
    (hstream : StreamSound x (s.sockets (s.connections t.connection).socket))
    (haccounted : Accounted s'.books none) : s'.Sound none := by
  have hmem : .appendWrite t response frame ∈ (s.subs sub).tasks := htasks ▸ List.mem_cons_self
  obtain ⟨hlt, -⟩ := h.accounted.task sub t response frame hmem
  have hfd : ∀ c, (s'.connections c).fd = (s.connections c).fd :=
    congrFun (congrArg Wiring.fd hwiring)
  have hsame : ∀ c, (s'.connections c).fd = (s.connections c).fd ∧
      (s'.connections c).rearmLost = (s.connections c).rearmLost ∧
      (s'.connections c).requests = (s.connections c).requests := by
    intro c
    refine ⟨hfd c, ?_⟩
    by_cases heq : c = t.connection
    · rw [heq, hconnection]
      exact ⟨hlost, hrequests⟩
    · rw [hother c heq]
      exact ⟨rfl, rfl⟩
  refine ⟨hwiring ▸ h.wired, haccounted, ?_, ?_⟩
  · refine h.streaming.modify h.wired hlt hwiring hother (fun _ _ => by rw [hsockets]) ?_ ?_
    · rw [hsockets, hconnection]
      exact hstream
    · intro _ hlive
      rw [hsockets, hconnection]
      refine ⟨?_, ?_⟩
      · rw [hlive.received, hrequests, hdecoder]
      · rw [hlive.written, hconsumed]
  · have hawake : Awake s' (some t.connection) := by
      refine h.awake.dequeue htasks ?_ ?_ ?_ hjobs hsame ?_ ?_
      · intro sub'
        rw [hsubs, subs_modifySub]
        split_ifs <;> rfl
      · intro sub'
        rw [hsubs, subs_modifySub]
        split_ifs <;> rfl
      · intro sub'
        rw [hsubs, subs_modifySub]
        split_ifs <;> rfl
      · intro c hbusy
        rw [hother c fun heq => hbusy (congrArg some heq.symm)]
      · rintro _ _ _ _ ⟨⟩
    refine hawake.finish fun {sub' fd' client} hclient hc _ => Or.inr ?_
    -- The task that arms the descriptor is behind the frame.
    obtain ⟨hrearmed, -⟩ : s.Rearmed rest t.connection ∧ s.Followed rest := by
      have hfollowed := h.awake.followed sub
      rw [htasks] at hfollowed
      exact hfollowed
    have hloop : s'.wiring.loop t.connection = sub' :=
      ((hwiring ▸ h.wired : Wired s'.wiring).client (wiring_client hclient hc)).2.1
    have hsub : sub' = sub := by
      rw [← hloop, hwiring]
      exact (h.accounted.task sub t response frame hmem).2
    rw [hsub, hsubs, subs_modifySub, if_pos rfl]
    refine hrearmed.imp (fun hl => (hsame _).2.1.trans hl) fun hcoming => hcoming.imp ?_ ?_
    · exact fun hin => (hsame t.connection).1.symm ▸ hin
    · rintro ⟨job, hjob, hwaits⟩
      exact ⟨job, hjobs ▸ hjob, hwaits⟩

/-- The task of `Send`. -/
theorem Sound.appendTask {t : Ticket} {response : RawResponse} {frame : Bytes}
    {rest : List LoopTask} (h : s.Sound none)
    (htasks : (s.subs sub).tasks = .appendWrite t response frame :: rest) :
    ((s.modifySub sub fun r => { r with tasks := rest }).appendTask t response frame).Sound
      none := by
  set s₁ := s.modifySub sub fun r => { r with tasks := rest }
  set x := s.connections t.connection with hx
  have hmem : .appendWrite t response frame ∈ (s.subs sub).tasks := htasks ▸ List.mem_cons_self
  obtain ⟨hframe, hreplied⟩ := h.accounted.carried (Or.inr ⟨sub, hmem⟩)
  have hwiring : s₁.wiring = s.wiring := wiring_dequeue htasks rfl
  have htaken : Accounted s₁.books (some t) :=
    books_dequeue htasks ▸ h.accounted.takeTask htasks
  have hstream : StreamSound x (s.sockets x.socket) :=
    h.streaming.sound t.connection (h.accounted.task sub t response frame hmem).1
  have hwrite : (s₁.connections t.connection).write = x.write := rfl
  have hother : ∀ f, ∀ c ≠ t.connection,
      (s₁.modifyConnection t.connection f).connections c = s.connections c :=
    fun f c hne => connections_of_ne s₁ hne f
  have hself : ∀ f, (s₁.modifyConnection t.connection f).connections t.connection = f x :=
    fun f => connections_self s₁ t.connection f
  have hdropped : Accounted (s₁.drop t).books none := by
    rw [books_drop]
    exact htaken.putDropped
  unfold TcpServer.appendTask
  simp only [hwrite]
  split_ifs with hopen
  · exact h.taskDone { x with dropped := x.dropped ++ [t.index] } htasks
      ((wiring_drop t).trans hwiring) rfl rfl rfl (hother _) (hself _) rfl rfl rfl rfl
      (hstream.drop t.index) hdropped
  · have hsend : x.write.appendWrite frame = x.write.send frame := by
      rw [TcpConnection.send, if_neg hopen]
    rw [hsend]
    by_cases haccepts : x.write.Accepts frame
    · have hexec : (x.write.exec (.send frame)).consumed = x.write.consumed := by
        simp only [TcpConnection.exec, hstream.write.send_eq haccepts]
      have hanswered :
          Accounted (s₁.answer t response (x.write.exec (.send frame))).books none := by
        rw [books_answer]
        exact htaken.putAnswer (Or.inl hreplied)
      have hdone := h.taskDone { x with
          write := x.write.exec (.send frame)
          answers := x.answers ++ [(t.index, response)] } htasks
        ((wiring_answer t response _).trans hwiring) rfl rfl rfl (hother _) (hself _) rfl rfl rfl
        hexec (hstream.answer hframe haccepts) hanswered
      simp only [TcpConnection.exec, hstream.write.send_eq haccepts] at hdone ⊢
      exact hdone
    · simp only [hstream.write.send_refused haccepts]
      set s₂ := s₁.drop t with hs₂
      have hself₂ : (s₂.modifyConnection t.connection fun connection =>
          { connection with write := connection.write.close }).connections t.connection =
          { x with write := x.write.close, dropped := x.dropped ++ [t.index] } :=
        (connections_self s₂ t.connection _).trans (by rw [hs₂, drop, hself])
      refine h.taskDone _ htasks ?_ rfl rfl rfl ?_ hself₂ rfl rfl rfl ?_ hstream.close ?_
      · exact (wiring_modifyConnection rfl rfl rfl).trans ((wiring_drop t).trans hwiring)
      · exact fun c hne => (connections_of_ne s₂ hne _).trans (hother _ c hne)
      · simp only [TcpConnection.close, if_neg hopen]
        rfl
      · rw [books_modifyConnection rfl rfl rfl rfl rfl]
        exact hdropped

/-- A task without a frame has left the queue. -/
theorem Sound.taken {task : LoopTask} {rest : List LoopTask} {busy : Option Nat}
    (h : s.Sound none) (htasks : (s.subs sub).tasks = task :: rest)
    (htask : ∀ t, task.holds t = false)
    (hwired : Wired (s.modifySub sub fun r => { r with tasks := rest }).wiring)
    (hclient : (s.modifySub sub fun r => { r with tasks := rest }).wiring.client =
      s.wiring.client)
    (hpopped : ∀ {fd client}, (s.subs sub).clients fd = some client →
      busy ≠ some client.connection →
        task ≠ .rearm (s.connections client.connection).fd client.connection) :
    (s.modifySub sub fun r => { r with tasks := rest }).Sound busy := by
  refine ⟨hwired, ?_, ⟨h.streaming.sound, ?_, h.streaming.untouched⟩, ?_⟩
  · rw [books_dequeue htasks]
    exact h.accounted.takeTask_other htasks htask
  · intro sub' fd c hclient' _
    rw [hclient] at hclient'
    exact h.streaming.live hclient' (Option.some_ne_none c).symm
  · refine h.awake.dequeue htasks ?_ ?_ ?_ rfl (fun _ => ⟨rfl, rfl, rfl⟩) (fun _ _ => rfl) hpopped
    · intro sub'
      rw [subs_modifySub]
      split_ifs <;> rfl
    · intro sub'
      rw [subs_modifySub]
      split_ifs <;> rfl
    · intro sub'
      rw [subs_modifySub]
      split_ifs <;> rfl

/-- The task that arms a descriptor. -/
theorem Sound.rearmTask {rest : List LoopTask} (h : s.Sound none)
    (htasks : (s.subs sub).tasks = .rearm fd c :: rest) :
    ((s.modifySub sub fun r => { r with tasks := rest }).rearmTask sub fd c).Sound none := by
  set s₁ := s.modifySub sub fun r => { r with tasks := rest } with hs₁
  have hwiring : s₁.wiring = s.wiring := wiring_dequeue htasks rfl
  have hwired : Wired s₁.wiring := hwiring ▸ h.wired
  have hclients : ∀ fd', (s₁.subs sub).clients fd' = (s.subs sub).clients fd' := by
    intro fd'
    rw [hs₁, subs_modifySub, if_pos rfl]
  -- If the descriptor is not armed, the task was not for one of the clients.
  have hother : (∀ client, (s.subs sub).clients fd = some client → client.connection ≠ c) →
      s₁.Sound none := by
    intro hne
    refine h.taken htasks (fun _ => rfl) hwired (congrArg Wiring.client hwiring) ?_
    rintro fd' client hclient - htask
    obtain ⟨hfd, hc⟩ := LoopTask.rearm.inj htask
    have hfd' : s.wiring.fd client.connection = fd' :=
      (h.wired.client (wiring_client hclient rfl)).2.2.1
    refine hne client ?_ hc.symm
    rw [hfd, show (s.connections client.connection).fd = fd' from hfd']
    exact hclient
  unfold TcpServer.rearmTask
  rw [hclients]
  cases hclient : (s.subs sub).clients fd with
  | none =>
      refine hother fun client hsome => ?_
      rw [hclient] at hsome
      cases hsome
  | some client =>
      simp only
      split_ifs with hc
      · have hbusy : s₁.Sound (some c) := by
          refine h.taken htasks (fun _ => rfl) hwired (congrArg Wiring.client hwiring) ?_
          rintro fd' client' - hne htask
          exact hne (congrArg some (LoopTask.rearm.inj htask).2)
        refine hbusy.modifyFd ((hclients fd).trans hclient) hc ?_ fun _ => rfl
        exact h.streaming.live (wiring_client hclient hc) (Option.some_ne_none c).symm
      · refine hother fun client' hsome => ?_
        rw [hclient] at hsome
        exact Option.some.inj hsome ▸ hc

/-! ## New clients -/

theorem wiring_takeClient {rest : List LoopTask}
    (htasks : (s.subs sub).tasks = .addClient fd :: rest) :
    (s.modifySub sub fun r => { r with tasks := rest }).wiring = { s.wiring with
      added := Function.update s.wiring.added sub (s.wiring.added sub).tail } := by
  unfold wiring modifySub
  congr 1
  · funext sub'
    simp only [Function.update_apply]
    split_ifs with heq
    · rw [htasks]
      rfl
    · rfl
  · funext sub' fd'
    simp only [Function.update_apply]
    split_ifs with heq
    · rw [heq]
    · rfl

theorem clients_insertClient (s : TcpServer σ ε) (sub fd : Nat) (client : Client) (sub' fd' : Nat) :
    ((s.insertClient sub fd client).subs sub').clients fd' =
      if sub' = sub ∧ fd' = fd then some client else (s.subs sub').clients fd' := by
  rw [insertClient, subs_modifySub]
  split_ifs with hsub hboth hboth
  · exact hboth.2 ▸ Function.update_self ..
  · exact Function.update_of_ne (fun hfd => hboth ⟨hsub, hfd⟩) ..
  · exact absurd hboth.1 hsub
  · rfl

theorem queues_insertClient (s : TcpServer σ ε) (sub fd : Nat) (client : Client) (sub' : Nat) :
    ((s.insertClient sub fd client).subs sub').tasks = (s.subs sub').tasks ∧
      ((s.insertClient sub fd client).subs sub').interest = (s.subs sub').interest := by
  rw [insertClient, subs_modifySub]
  split_ifs
  · exact ⟨rfl, rfl⟩
  · exact ⟨rfl, rfl⟩

theorem books_makeConnection (s : TcpServer σ ε) (sub fd k : Nat) :
    (s.makeConnection sub fd k).books = s.books.connect sub fd := by
  unfold makeConnection books Books.connect
  congr 1 <;> funext c
  all_goals
    simp only [Function.update_apply]
    split_ifs <;> rfl

/-- The new client is the one that waited. -/
theorem wiring_connect {k : Nat} {client : Client}
    (hclient : client.connection = s.connectionCount) :
    ((s.makeConnection sub fd k).insertClient sub fd client).wiring = { s.wiring with
      loop := Function.update s.wiring.loop s.connectionCount sub
      fd := Function.update s.wiring.fd s.connectionCount fd
      socket := Function.update s.wiring.socket s.connectionCount k
      connectionCount := s.connectionCount + 1
      client := Function.update s.wiring.client sub
        (Function.update (s.wiring.client sub) fd (some s.connectionCount)) } := by
  set s₂ := s.makeConnection sub fd k with hs₂
  have hadded : (s₂.insertClient sub fd client).wiring.added = s.wiring.added := by
    funext sub'
    change ((s₂.insertClient sub fd client).subs sub').tasks.filterMap LoopTask.added = _
    rw [(queues_insertClient s₂ sub fd client sub').1]
    rfl
  have hclients : (s₂.insertClient sub fd client).wiring.client =
      Function.update s.wiring.client sub
        (Function.update (s.wiring.client sub) fd (some s.connectionCount)) := by
    funext sub' fd'
    change (((s₂.insertClient sub fd client).subs sub').clients fd').map Client.connection = _
    rw [clients_insertClient, update_update_apply]
    split_ifs
    · exact congrArg some hclient
    · rfl
  unfold wiring at hadded hclients ⊢
  simp only at hadded hclients
  rw [hadded, hclients]
  congr 1
  all_goals
    funext c
    simp only [insertClient, modifySub, hs₂, makeConnection, Function.update_apply]
    split_ifs <;> rfl

/-- A new connection has no client yet. -/
theorem Sound.makeConnection (h : s.Sound none) (sub fd k : Nat) :
    Awake (s.makeConnection sub fd k) none := by
  have hold : ∀ c < s.connectionCount,
      (s.makeConnection sub fd k).connections c = s.connections c :=
    fun c hc => Function.update_of_ne (Nat.ne_of_lt hc) ..
  refine h.awake.modify h.wired h.accounted rfl ?_ ?_ ?_
  · intro c hc tasks hrearmed
    simp only [Rearmed, Coming, hold c hc]
    exact hrearmed
  · intro sub' fd' client hclient _
    rw [hold _ (h.wired.client (wiring_client hclient rfl)).1]
  · intro c hc _
    rw [hold c hc]
    exact id

/-- A client that waited is there, but its descriptor is not registered yet. -/
structure Inserted (s₂ : TcpServer σ ε) (sub fd : Nat) (client : Client) : Prop where
  wired : Wired (s₂.insertClient sub fd client).wiring
  accounted : Accounted (s₂.insertClient sub fd client).books none
  streaming : Streaming (s₂.insertClient sub fd client) none
  awake : Awake s₂ none
  nothing : (s₂.connections client.connection).write.writable = []
  requests : (s₂.connections client.connection).requests = []

/-- The next client is taken from its queue. -/
theorem Sound.takeClient {rest : List LoopTask} {k : Nat} {client : Client} (h : s.Sound none)
    (htasks : (s.subs sub).tasks = .addClient fd :: rest) (hk : s.fds fd = some k)
    (hclient : client.connection = s.connectionCount) :
    Inserted ((s.modifySub sub fun r => { r with tasks := rest }).makeConnection sub fd k) sub fd
      client := by
  have hadded : s.wiring.added sub = fd :: rest.filterMap LoopTask.added := by
    change (s.subs sub).tasks.filterMap LoopTask.added = _
    rw [htasks]
    rfl
  have hmem : fd ∈ s.wiring.added sub := hadded ▸ List.mem_cons_self
  obtain ⟨k', hk', -, hfresh⟩ := h.wired.added hmem
  obtain rfl : k' = k := Option.some.inj (hk'.symm.trans hk)
  set s₁ := s.modifySub sub fun r => { r with tasks := rest } with hs₁
  have htaken := wiring_takeClient htasks
  have h₁ : s₁.Sound none := by
    refine h.taken htasks (fun _ => rfl) ?_ ?_ ?_
    · rw [htaken]
      exact h.wired.forget sub
    · rw [htaken]
    · rintro _ _ - - ⟨⟩
  have hwiring : ((s₁.makeConnection sub fd k').insertClient sub fd client).wiring =
      s.wiring.connect sub fd k' := by
    refine (wiring_connect (s := s₁) hclient).trans ?_
    rw [htaken]
    rfl
  have hself : (s₁.makeConnection sub fd k').connections client.connection =
      newConnection sub fd k' := by
    rw [hclient]
    exact Function.update_self ..
  refine ⟨?_, ?_, ?_, h₁.makeConnection sub fd k', ?_, ?_⟩
  · rw [hwiring]
    exact h.wired.connect hadded hk
  · rw [insertClient, books_modifySub rfl, books_makeConnection]
    exact h₁.accounted.connect sub fd
  · exact h.streaming.connect h.wired hfresh hwiring rfl rfl
  · rw [hself]
    rfl
  · rw [hself]
    rfl

/-- The descriptor is registered. -/
theorem Inserted.registerFd {client : Client} (h : s.Inserted sub fd client) :
    ((s.insertClient sub fd client).registerFd sub fd).Sound none := by
  set s₃ := s.insertClient sub fd client with hs₃
  have hwiring : (s₃.registerFd sub fd).wiring = s₃.wiring := wiring_modifySub rfl fun _ => rfl
  have hsubs : ∀ sub', ((s₃.registerFd sub fd).subs sub').tasks = (s.subs sub').tasks ∧
      ((s₃.registerFd sub fd).subs sub').clients = (s₃.subs sub').clients := by
    intro sub'
    rw [TcpServer.registerFd, subs_modifySub, ← (queues_insertClient s sub fd client sub').1]
    split_ifs
    · exact ⟨rfl, rfl⟩
    · exact ⟨rfl, rfl⟩
  have hinterest : ∀ sub' fd', ((s₃.registerFd sub fd).subs sub').interest fd' =
      if sub' = sub ∧ fd' = fd then some false else (s.subs sub').interest fd' := by
    intro sub' fd'
    rw [TcpServer.registerFd, subs_modifySub, ← (queues_insertClient s sub fd client sub').2]
    split_ifs with hsub hboth hboth
    · exact hboth.2 ▸ Function.update_self ..
    · exact Function.update_of_ne (fun hfd => hboth ⟨hsub, hfd⟩) ..
    · exact absurd hboth.1 hsub
    · rfl
  refine ⟨hwiring ▸ h.wired, ?_, h.streaming.congr hwiring rfl rfl, ?_⟩
  · rw [TcpServer.registerFd, books_modifySub rfl]
    exact h.accounted
  · refine h.awake.entry sub fd rfl rfl (fun sub' => (hsubs sub').1) ?_
      (fun _ _ _ _ _ hbusy => hbusy) ?_
    · intro sub' fd' hne
      rw [(hsubs sub').2, hinterest, clients_insertClient, if_neg hne, if_neg hne]
      exact ⟨rfl, rfl⟩
    · intro client' hclient'
      rw [(hsubs sub).2, clients_insertClient, if_pos ⟨rfl, rfl⟩] at hclient'
      obtain rfl := Option.some.inj hclient'
      rw [hinterest, if_pos ⟨rfl, rfl⟩]
      exact ⟨Option.some_ne_none false, fun _ => h.requests, fun _ hne => absurd h.nothing hne⟩

/-- The descriptor is closed after all. -/
theorem Inserted.closed {client : Client} (h : s.Inserted sub fd client)
    (hwiring : s'.wiring = (s.insertClient sub fd client).wiring.release sub fd)
    (hconnections : s'.connections = s.connections) (hsockets : s'.sockets = s.sockets)
    (hbooks : s'.books = s.books)
    (hclients : ∀ sub' fd', (s'.subs sub').clients fd' =
      if sub' = sub ∧ fd' = fd then none else (s.subs sub').clients fd')
    (hinterest : ∀ sub' fd', ¬ (sub' = sub ∧ fd' = fd) →
      (s'.subs sub').interest fd' = (s.subs sub').interest fd') : s'.Sound none := by
  have hclient : (s.insertClient sub fd client).wiring.client sub fd = some client.connection := by
    refine wiring_client ?_ rfl
    rw [clients_insertClient, if_pos ⟨rfl, rfl⟩]
  refine ⟨hwiring ▸ h.wired.release hclient, ?_, ?_, ?_⟩
  · have hsame : (s.insertClient sub fd client).books = s.books := books_modifySub rfl
    rw [hbooks, ← hsame]
    exact h.accounted
  · exact (h.streaming.suspend _).release h.wired hclient hwiring hconnections hsockets
  · refine h.awake.entry sub fd hconnections (congrArg Books.jobs hbooks)
      (congrFun (congrArg Books.tasks hbooks)) (fun sub' fd' hne => ⟨?_, hinterest sub' fd' hne⟩)
      (fun _ _ _ _ _ hbusy => hbusy) ?_
    · rw [hclients, if_neg hne]
    · intro client' hclient'
      rw [hclients, if_pos ⟨rfl, rfl⟩] at hclient'
      cases hclient'

/-- Where there is no client, there is none after closing it. -/
theorem if_none (hnone : (s.subs sub).clients fd = none) (sub' fd' : Nat) :
    (if sub' = sub ∧ fd' = fd then none else (s.subs sub').clients fd') =
      (s.subs sub').clients fd' := by
  split_ifs with hboth
  · rw [hboth.1, hboth.2, hnone]
  · rfl

/-- A descriptor that did not become a client is closed. -/
theorem wiring_notInserted {client : Client} (hnone : (s.subs sub).clients fd = none) :
    (s.closeFd fd).wiring = (s.insertClient sub fd client).wiring.release sub fd := by
  have hadded : (s.insertClient sub fd client).wiring.added = s.wiring.added := by
    funext sub'
    exact congrArg _ (queues_insertClient s sub fd client sub').1
  have hclients : ((s.insertClient sub fd client).wiring.release sub fd).client =
      s.wiring.client := by
    funext sub' fd'
    rw [Wiring.client_release]
    change (if _ then none else
      (((s.insertClient sub fd client).subs sub').clients fd').map Client.connection) =
      ((s.subs sub').clients fd').map Client.connection
    rw [clients_insertClient]
    split_ifs with hboth
    · rw [hboth.1, hboth.2, hnone]
      rfl
    · rfl
  exact Wiring.ext rfl rfl rfl rfl rfl rfl rfl hadded.symm hclients.symm

/-- `AddClient`. -/
theorem Sound.addClient {rest : List LoopTask} (h : s.Sound none)
    (htasks : (s.subs sub).tasks = .addClient fd :: rest) (session registered : Bool) :
    ((s.modifySub sub fun r => { r with tasks := rest }).addClient sub fd session registered).Sound
      none := by
  have hmem : fd ∈ s.wiring.added sub := by
    change fd ∈ (s.subs sub).tasks.filterMap LoopTask.added
    rw [htasks]
    exact List.mem_cons_self
  obtain ⟨k, hk, -⟩ := h.wired.added hmem
  have hnone : (s.subs sub).clients fd = none :=
    Option.map_eq_none_iff.mp (h.wired.not_client_of_added hmem)
  set s₁ := s.modifySub sub fun r => { r with tasks := rest } with hs₁
  have hnone₁ : (s₁.subs sub).clients fd = none := by
    rw [hs₁, subs_modifySub, if_pos rfl]
    exact hnone
  set client : Client := ⟨s₁.connectionCount, !s₁.tlsEnabled, false⟩
  have hinserted : (s₁.makeConnection sub fd k).Inserted sub fd client :=
    h.takeClient htasks hk rfl
  set s₂ := s₁.makeConnection sub fd k with hs₂
  have hk₁ : s₁.fds fd = some k := hk
  have hnone₂ : (s₂.subs sub).clients fd = none := hnone₁
  unfold TcpServer.addClient
  rw [hk₁]
  simp only [← hs₂, hnone₂, Option.isSome_none, Bool.false_eq_true, if_false]
  split_ifs with hsession hregistered
  · exact hinserted.closed (wiring_notInserted hnone₂) rfl rfl rfl
      (fun sub' fd' => (if_none hnone₂ sub' fd').symm) fun _ _ _ => rfl
  · exact hinserted.registerFd
  · have hclient : ((s₂.insertClient sub fd client).subs sub).clients fd = some client := by
      rw [clients_insertClient, if_pos ⟨rfl, rfl⟩]
    have hclosed : (s₂.insertClient sub fd client).closeClient sub fd =
        ((s₂.insertClient sub fd client).closeFd fd).modifySub sub fun r => { r with
          clients := Function.update r.clients fd none
          interest := Function.update r.interest fd none } := by
      simp only [TcpServer.closeClient, hclient]
    refine hinserted.closed (wiring_closeClient hclient) ?_ ?_ ?_ ?_ ?_
    · rw [hclosed]
      rfl
    · rw [hclosed]
      rfl
    · rw [books_closeClient]
      exact books_modifySub rfl
    · intro sub' fd'
      rw [hclosed, subs_modifySub]
      split_ifs with hsub hboth hboth
      · exact hboth.2 ▸ Function.update_self ..
      · refine (Function.update_of_ne (fun hfd => hboth ⟨hsub, hfd⟩) ..).trans ?_
        exact (clients_insertClient s₂ sub fd client sub' fd').trans (if_neg hboth)
      · exact absurd hboth.1 hsub
      · exact (clients_insertClient s₂ sub fd client sub' fd').trans (if_neg hboth)
    · intro sub' fd' hne
      rw [hclosed, subs_modifySub]
      split_ifs with hsub
      · refine (Function.update_of_ne (fun hfd => hne ⟨hsub, hfd⟩) ..).trans ?_
        exact congrFun (queues_insertClient s₂ sub fd client sub').2 fd'
      · exact congrFun (queues_insertClient s₂ sub fd client sub').2 fd'

/-- The next task of a loop. -/
theorem Sound.nextTask (h : s.Sound none) (sub : Nat) (session registered : Bool) :
    (s.nextTask sub session registered).Sound none := by
  unfold TcpServer.nextTask
  cases htasks : (s.subs sub).tasks with
  | nil => exact h
  | cons task rest =>
      cases task with
      | addClient fd => exact h.addClient htasks session registered
      | appendWrite t response frame => exact h.appendTask htasks
      | rearm fd c => exact h.rearmTask htasks

/-! ## The acceptor -/

/-- Nothing changes that a client notices. -/
theorem Awake.congr (h : s.Sound none) (hsubs : s'.subs = s.subs)
    (hconnections : s'.connections = s.connections) (hjobs : s'.jobs = s.jobs) : Awake s' none := by
  refine h.awake.modify h.wired h.accounted hsubs ?_ ?_ ?_
  · intro c _ tasks hrearmed
    simp only [Rearmed, Coming, Waiting, hconnections, hjobs]
    exact hrearmed
  · intro _ _ _ _ _
    rw [hconnections]
  · intro c _ _
    rw [hconnections]
    exact id

/-- A new socket whose descriptor is closed at once. -/
theorem Sound.reject (h : s.Sound none) (hfd : s.fds fd = none)
    (hfds : s'.fds = Function.update (Function.update s.fds fd (some s.socketCount)) fd none)
    (hsockets : s'.sockets = Function.update s.sockets s.socketCount { sub := sub })
    (hcount : s'.socketCount = s.socketCount + 1) (hsubs : s'.subs = s.subs)
    (hconnections : s'.connections = s.connections)
    (hconnectionCount : s'.connectionCount = s.connectionCount) (hjobs : s'.jobs = s.jobs)
    (hserved : s'.served = s.served) : s'.Sound none := by
  have hsame : s'.fds = s.fds := by
    rw [hfds, Function.update_idem, ← hfd, Function.update_eq_self]
  have hwiring : s'.wiring = s.wiring.reject sub := by
    refine Wiring.ext hsame ?_ hcount ?_ ?_ ?_ hconnectionCount ?_ ?_
    · funext k
      simp only [wiring, Wiring.reject, hsockets, Function.update_apply]
      split_ifs <;> rfl
    all_goals simp only [wiring, Wiring.reject, hconnections, hsubs]
  have hbooks : s'.books = s.books := by
    unfold books
    simp only [hjobs, hserved, hconnectionCount, hconnections, hsubs]
  refine ⟨hwiring ▸ h.wired.reject sub, hbooks ▸ h.accounted, ?_, ?_⟩
  · exact h.streaming.accept h.wired hconnectionCount hconnections hsockets (hwiring ▸ rfl)
  · exact Awake.congr h hsubs hconnections hjobs

/-- A turn of the acceptor. -/
theorem Sound.acceptReady (h : s.Sound none) (fd : Nat) (nonBlocking queued : Bool) :
    (s.acceptReady fd nonBlocking queued).Sound none := by
  unfold TcpServer.acceptReady
  split_ifs with hopen hblocking hqueued
  · exact h
  · exact h.reject (Option.not_isSome_iff_eq_none.mp hopen) rfl rfl rfl rfl rfl rfl rfl rfl
  · set sub := s.nextSub.toNat % s.subCount
    have hfd := Option.not_isSome_iff_eq_none.mp hopen
    set s₁ : TcpServer σ ε := { s.openSocket sub fd with nextSub := s.nextSub + 1 }
    have hsubs : ∀ sub', ((s₁.enqueue sub (.addClient fd)).subs sub').tasks =
          (s.subs sub').tasks ++ (if sub' = sub then [.addClient fd] else []) ∧
        ((s₁.enqueue sub (.addClient fd)).subs sub').clients = (s.subs sub').clients ∧
        ((s₁.enqueue sub (.addClient fd)).subs sub').interest = (s.subs sub').interest := by
      intro sub'
      rw [enqueue, subs_modifySub]
      split_ifs
      · exact ⟨rfl, rfl, rfl⟩
      · exact ⟨(List.append_nil _).symm, rfl, rfl⟩
    have hwiring : (s₁.enqueue sub (.addClient fd)).wiring = s.wiring.accept sub fd := by
      refine Wiring.ext rfl ?_ rfl rfl rfl rfl rfl ?_ ?_
      · funext k
        change (Function.update s.sockets s.socketCount { sub := sub } k).sub = _
        simp only [wiring, Wiring.accept, Function.update_apply]
        split_ifs <;> rfl
      · funext sub'
        change ((s₁.enqueue sub (.addClient fd)).subs sub').tasks.filterMap LoopTask.added = _
        rw [(hsubs sub').1, List.filterMap_append]
        simp only [wiring, Wiring.accept, Function.update_apply]
        split_ifs with heq
        · rw [heq]
          rfl
        · exact List.append_nil _
      · funext sub' fd'
        change (((s₁.enqueue sub (.addClient fd)).subs sub').clients fd').map _ = _
        rw [(hsubs sub').2.1]
        rfl
    refine ⟨hwiring ▸ h.wired.accept hfd, ?_, ?_, ?_⟩
    · rw [books_enqueue]
      exact h.accounted.addTask_other fun _ => rfl
    · exact h.streaming.accept h.wired rfl rfl rfl (hwiring ▸ rfl)
    · refine h.awake.enqueue h.wired h.accounted rfl (fun sub' => (hsubs sub').2.1)
        (fun sub' => (hsubs sub').2.2) (fun sub' => (hsubs sub').1) ?_ trivial
      intro c _ tasks hrearmed
      exact hrearmed.imp_right fun hcoming => hcoming.imp_left fun hmem =>
        List.mem_append_left _ hmem
  · exact h.reject (Option.not_isSome_iff_eq_none.mp hopen) rfl rfl rfl rfl rfl rfl rfl rfl

/-! ## Workers -/

/-- A step of a worker that queues nothing changes the records of one connection. -/
theorem Sound.worker (h : s.Sound none) (x : ServerConnection) (hc : c < s.connectionCount)
    (hwiring : s'.wiring = s.wiring) (hsubs : s'.subs = s.subs) (hsockets : s'.sockets = s.sockets)
    (hother : ∀ c' ≠ c, s'.connections c' = s.connections c') (hconnection : s'.connections c = x)
    (hlost : (s.connections c).rearmLost = true → x.rearmLost = true)
    (hrequests : x.requests = (s.connections c).requests)
    (hdecoder : x.decoder = (s.connections c).decoder)
    (hwrite : x.write = (s.connections c).write)
    (hstream : StreamSound x (s.sockets (s.connections c).socket))
    (hwaiting : ∀ c', s.Waiting c' → s'.Waiting c' ∨ (c' = c ∧ x.rearmLost = true))
    (haccounted : Accounted s'.books none) : s'.Sound none := by
  refine ⟨hwiring ▸ h.wired, haccounted, ?_, ?_⟩
  · refine h.streaming.modify h.wired hc hwiring hother (fun _ _ => by rw [hsockets]) ?_ ?_
    · rw [hsockets, hconnection]
      exact hstream
    · intro _ hlive
      rw [hsockets, hconnection]
      refine ⟨?_, ?_⟩
      · rw [hlive.received, hrequests, hdecoder]
      · rw [hlive.written, hwrite]
  · refine h.awake.modify h.wired h.accounted hsubs ?_ ?_ ?_
    · intro c' _ tasks hrearmed
      have hfd : (s'.connections c').fd = (s.connections c').fd :=
        congrFun (congrArg Wiring.fd hwiring) c'
      rcases hrearmed with hl | hin | hwaits
      · left
        by_cases heq : c' = c
        · rw [heq, hconnection]
          exact hlost (heq ▸ hl)
        · rw [hother c' heq]
          exact hl
      · exact Or.inr (Or.inl (hfd.symm ▸ hin))
      · rcases hwaiting c' hwaits with hstill | ⟨rfl, hl⟩
        · exact Or.inr (Or.inr hstill)
        · exact Or.inl (hconnection ▸ hl)
    · intro sub fd client _ _
      by_cases heq : client.connection = c
      · rw [heq, hconnection, hrequests]
      · rw [hother _ heq]
    · intro c' _ _ hne
      by_cases heq : c' = c
      · rw [heq, hconnection, hwrite] at hne
        exact heq ▸ hne
      · rw [hother c' heq] at hne
        exact hne

/-- A job that is not taken out is still there. -/
theorem mem_eraseIdx {j : Nat} {job job' : Job} (hj : s.jobs[j]? = some job)
    (hmem : job' ∈ s.jobs) : job' = job ∨ job' ∈ s.jobs.eraseIdx j := by
  obtain ⟨hlt, rfl⟩ := List.getElem?_eq_some_iff.mp hj
  exact List.mem_cons.mp ((List.getElem_cons_eraseIdx_perm hlt).mem_iff.mpr hmem)

/-- A job that is taken out is not one that others wait for. -/
theorem waiting_eraseIdx {j : Nat} {job : Job} (hj : s.jobs[j]? = some job)
    (hstage : job.stage ≠ .rearm) {c : Nat} (h : s.Waiting c) :
    ∃ job' ∈ s.jobs.eraseIdx j, job'.stage = .rearm ∧ job'.ticket.connection = c := by
  obtain ⟨job', hmem, hrearm, hc⟩ := h
  rcases mem_eraseIdx hj hmem with rfl | hrest
  · exact absurd hrearm hstage
  · exact ⟨job', hrest, hrearm, hc⟩

variable {handler : σ → ε → RawRequest → σ × RawResponse}

/-- The handler is run. -/
theorem Sound.runHandler {j : Nat} {job : Job} {request : RawRequest} (h : s.Sound none)
    (hj : s.jobs[j]? = some job) (hstage : job.stage = .run request) (env : ε) :
    ({ s with jobs := s.jobs.eraseIdx j }.runHandler handler job env request).Sound none := by
  have hmem : job ∈ s.jobs := List.mem_of_getElem? hj
  have hrearm : job.stage ≠ .rearm := by
    rw [hstage]
    rintro ⟨⟩
  obtain ⟨hlt, hloop, hfd⟩ := h.accounted.job job hmem
  obtain ⟨hget, hnot⟩ := h.accounted.run job hmem request hstage
  have hstream := h.streaming.sound job.ticket.connection hlt
  unfold TcpServer.runHandler
  simp only
  set result := handler s.handlerState env request
  set run : Served ε := ⟨job.ticket, env, request, result.2⟩ with hrun
  set s₁ : TcpServer σ ε := { s with
    jobs := s.jobs.eraseIdx j
    handlerState := result.1
    served := s.served ++ [run] } with hs₁
  have hserved : Accounted s₁.books (some job.ticket) :=
    (h.accounted.takeJob hj hrearm).serve run hlt hget hnot
  have hwaiting := fun c' (hwaits : s.Waiting c') => waiting_eraseIdx hj hrearm hwaits
  cases hencode : encodeResponse result.2 with
  | error e =>
      refine h.worker _ hlt (wiring_drop job.ticket) rfl rfl
        (fun c' hne => connections_of_ne s₁ hne _) (connections_self s₁ _ _) id rfl rfl rfl
        (hstream.drop job.ticket.index) (fun c' hwaits => Or.inl (hwaiting c' hwaits)) ?_
      rw [books_drop]
      exact hserved.putDropped
  | ok frame =>
      refine h.worker _ hlt rfl rfl rfl (fun _ _ => rfl) rfl id rfl rfl rfl hstream ?_ ?_
      · intro c' hwaits
        obtain ⟨job', hin, hrest⟩ := hwaiting c' hwaits
        exact Or.inl ⟨job', List.mem_append_left _ hin, hrest⟩
      · refine hserved.putJob { job with stage := .send result.2 frame } ?_ hlt hloop hfd
          ?_ ?_
        · rintro ⟨⟩
        · rintro _ ⟨⟩
        · rintro response frame' (heq | heq)
          · obtain ⟨rfl, rfl⟩ := Stage.send.inj heq
            exact ⟨hencode, run, List.mem_append_right _ (List.mem_singleton.mpr rfl), rfl, rfl⟩
          · cases heq

/-- The tasks of a loop after one more was queued. -/
theorem queues_enqueue (s : TcpServer σ ε) (sub : Nat) (task : LoopTask) (sub' : Nat) :
    ((s.enqueue sub task).subs sub').tasks =
        (s.subs sub').tasks ++ (if sub' = sub then [task] else []) ∧
      ((s.enqueue sub task).subs sub').clients = (s.subs sub').clients ∧
      ((s.enqueue sub task).subs sub').interest = (s.subs sub').interest := by
  rw [enqueue, subs_modifySub]
  split_ifs
  · exact ⟨rfl, rfl, rfl⟩
  · exact ⟨(List.append_nil _).symm, rfl, rfl⟩

/-- A worker queues a frame, and is left with the task that arms the descriptor. -/
theorem Sound.postFrame {j : Nat} {job : Job} {response : RawResponse} {frame : Bytes}
    (h : s.Sound none) (hj : s.jobs[j]? = some job) (hrearm : job.stage ≠ .rearm)
    (hframe : encodeResponse response = .ok frame)
    (hreplied : s.books.Replied job.ticket response) :
    ({ ({ s with jobs := s.jobs.eraseIdx j } : TcpServer σ ε).enqueue job.sub
          (.appendWrite job.ticket response frame) with
        jobs := s.jobs.eraseIdx j ++ [{ job with stage := .rearm }] } : TcpServer σ ε).Sound
      none := by
  obtain ⟨hlt, hloop, hfd⟩ := h.accounted.job job (List.mem_of_getElem? hj)
  set s₁ : TcpServer σ ε := { s with jobs := s.jobs.eraseIdx j }
  set task : LoopTask := .appendWrite job.ticket response frame
  have hwiring : (s₁.enqueue job.sub task).wiring = s.wiring := wiring_enqueue rfl
  have hqueues := queues_enqueue s₁ job.sub task
  have hput : Accounted (s₁.books.addTask job.sub task) none :=
    (h.accounted.takeJob hj hrearm).putTask hlt hloop hframe hreplied
  refine ⟨hwiring ▸ h.wired, ?_, h.streaming.congr hwiring rfl rfl, ?_⟩
  · rw [← books_enqueue] at hput
    exact hput.addRearm { job with stage := .rearm } rfl hlt hloop hfd
  · refine h.awake.enqueue h.wired h.accounted rfl (fun sub' => (hqueues sub').2.1)
      (fun sub' => (hqueues sub').2.2) (fun sub' => (hqueues sub').1) ?_ ⟨?_, trivial⟩
    · intro c _ tasks hcoming
      refine hcoming.imp_right fun hold => hold.imp (List.mem_append_left _) fun hwaits => ?_
      obtain ⟨job', hin, hrest⟩ := waiting_eraseIdx hj hrearm hwaits
      exact ⟨job', List.mem_append_left _ hin, hrest⟩
    · exact Or.inr (Or.inr ⟨_, List.mem_append_right _ (List.mem_singleton.mpr rfl), rfl, rfl⟩)

/-- A worker queues the task that arms the descriptor. -/
theorem Sound.postRearm {j : Nat} {job : Job} (h : s.Sound none) (hj : s.jobs[j]? = some job)
    (hstage : job.stage = .rearm) :
    (({ s with jobs := s.jobs.eraseIdx j } : TcpServer σ ε).enqueue job.sub
      (.rearm job.fd job.ticket.connection)).Sound none := by
  obtain ⟨hlt, hloop, hfd⟩ := h.accounted.job job (List.mem_of_getElem? hj)
  set s₁ : TcpServer σ ε := { s with jobs := s.jobs.eraseIdx j }
  set task : LoopTask := .rearm job.fd job.ticket.connection
  have hwiring : (s₁.enqueue job.sub task).wiring = s.wiring := wiring_enqueue rfl
  have hqueues := queues_enqueue s₁ job.sub task
  refine ⟨hwiring ▸ h.wired, ?_, h.streaming.congr hwiring rfl rfl, ?_⟩
  · rw [books_enqueue]
    exact (h.accounted.takeRearm hj hstage).addTask_other fun _ => rfl
  · refine h.awake.enqueue h.wired h.accounted rfl (fun sub' => (hqueues sub').2.1)
      (fun sub' => (hqueues sub').2.2) (fun sub' => (hqueues sub').1) ?_ trivial
    intro c _ tasks hcoming
    refine hcoming.imp_right fun hold => ?_
    rcases hold with hin | ⟨job', hmem, hwaits, hc⟩
    · exact Or.inl (List.mem_append_left _ hin)
    · rcases mem_eraseIdx hj hmem with rfl | hrest
      · -- The task takes the place of the job.
        left
        have hsub : (s.connections c).loop = job'.sub := hc ▸ hloop
        have hfd' : (s.connections c).fd = job'.fd := hc ▸ hfd
        rw [if_pos hsub]
        refine List.mem_append_right _ (List.mem_singleton.mpr ?_)
        change LoopTask.rearm (s.connections c).fd c = .rearm job'.fd job'.ticket.connection
        rw [hfd', hc]
      · exact Or.inr ⟨job', hrest, hwaits, hc⟩

/-- A step of a job. -/
theorem Sound.stepJob {j : Nat} {job : Job} (h : s.Sound none) (hj : s.jobs[j]? = some job)
    (env : ε) (queued : Bool) :
    ({ s with jobs := s.jobs.eraseIdx j }.stepJob handler job env queued).Sound none := by
  have hmem : job ∈ s.jobs := List.mem_of_getElem? hj
  obtain ⟨hlt, hloop, hfd⟩ := h.accounted.job job hmem
  have hstream := h.streaming.sound job.ticket.connection hlt
  set s₁ : TcpServer σ ε := { s with jobs := s.jobs.eraseIdx j } with hs₁
  have hloop₁ : (s₁.connections job.ticket.connection).loop = job.sub := hloop
  -- The response is given up.
  have hdrop : job.stage ≠ .rearm → (s₁.drop job.ticket).Sound none := by
    intro hrearm
    refine h.worker _ hlt (wiring_drop job.ticket) rfl rfl
      (fun c' hne => connections_of_ne s₁ hne _) (connections_self s₁ _ _) id rfl rfl rfl
      (hstream.drop job.ticket.index)
      (fun c' hwaits => Or.inl (waiting_eraseIdx hj hrearm hwaits)) ?_
    rw [books_drop]
    exact (h.accounted.takeJob hj hrearm).putDropped
  unfold TcpServer.stepJob
  cases hstage : job.stage with
  | run request => exact h.runHandler hj hstage env
  | send response frame =>
      have hrearm : job.stage ≠ .rearm := by
        rw [hstage]
        rintro ⟨⟩
      obtain ⟨hframe, hreplied⟩ := h.accounted.carried (Or.inl ⟨job, hmem, rfl, Or.inl hstage⟩)
      simp only
      split_ifs
      · exact hdrop hrearm
      · refine h.worker _ hlt rfl rfl rfl (fun _ _ => rfl) rfl id rfl rfl rfl hstream ?_ ?_
        · intro c' hwaits
          obtain ⟨job', hin, hrest⟩ := waiting_eraseIdx hj hrearm hwaits
          exact Or.inl ⟨job', List.mem_append_left _ hin, hrest⟩
        · refine (h.accounted.takeJob hj hrearm).putJob { job with stage := .post response frame }
            ?_ hlt hloop hfd ?_ ?_
          · rintro ⟨⟩
          · rintro _ ⟨⟩
          · rintro response' frame' (heq | heq)
            · cases heq
            · obtain ⟨rfl, rfl⟩ := Stage.post.inj heq
              exact ⟨hframe, hreplied⟩
  | post response frame =>
      have hrearm : job.stage ≠ .rearm := by
        rw [hstage]
        rintro ⟨⟩
      obtain ⟨hframe, hreplied⟩ := h.accounted.carried (Or.inl ⟨job, hmem, rfl, Or.inr hstage⟩)
      simp only
      split_ifs
      · rw [hloop₁]
        exact h.postFrame hj hrearm hframe hreplied
      · exact hdrop hrearm
  | rearm =>
      simp only
      split_ifs
      · exact h.postRearm hj hstage
      · refine h.worker _ hlt (wiring_modifyConnection rfl rfl rfl) rfl rfl
          (fun c' hne => connections_of_ne s₁ hne _) (connections_self s₁ _ _) (fun _ => rfl) rfl
          rfl rfl { hstream with } ?_ ?_
        · rintro c' ⟨job', hin, hwaits, hc⟩
          rcases mem_eraseIdx hj hin with rfl | hrest
          · exact Or.inr ⟨hc.symm, rfl⟩
          · exact Or.inl ⟨job', hrest, hwaits, hc⟩
        · rw [books_modifyConnection rfl rfl rfl rfl rfl]
          exact h.accounted.takeRearm hj hstage

/-- A worker goes on with a job. -/
theorem Sound.work (h : s.Sound none) (job : Nat) (env : ε) (queued : Bool) :
    (s.work handler job env queued).Sound none := by
  unfold TcpServer.work
  cases hj : s.jobs[job]? with
  | none => exact h
  | some j => exact h.stepJob hj env queued

/-- An event. -/
theorem Sound.exec (h : s.Sound none) (event : NetworkEvent ε) :
    (s.exec handler event).Sound none := by
  cases event with
  | accept fd nonBlocking queued => exact h.acceptReady fd nonBlocking queued
  | ready sub fd events => exact h.handleClient sub fd events
  | task sub session registered => exact h.nextTask sub session registered
  | work job env queued => exact h.work job env queued

/-- Before the first event. -/
theorem Sound.start (handlerState : σ) (tlsEnabled : Bool) (subCount : Nat) :
    (start handlerState tlsEnabled subCount : TcpServer σ ε).Sound none := by
  refine ⟨⟨?_, ?_, ?_, fun _ => List.nodup_nil, ?_, ?_, ?_⟩,
    ⟨?_, ?_, ?_, ?_, ?_, ?_, List.nodup_nil, ?_⟩, ⟨?_, ?_, fun _ => ⟨rfl, rfl⟩⟩,
    ⟨?_, ?_, fun _ => trivial, ?_⟩⟩
  · rintro _ _ ⟨⟩
  · rintro _ _ _ ⟨⟩
  · rintro _ _ ⟨⟩
  · rintro c hc
    exact absurd hc (Nat.not_lt_zero c)
  · rintro c _ hc
    exact absurd hc (Nat.not_lt_zero c)
  · rintro _ _ _ ⟨⟩
  · rintro t ht
    exact absurd ht (Nat.not_lt_zero _)
  · rintro _ ⟨⟩
  · rintro _ _ _ _ ⟨⟩
  · rintro _ ⟨⟩
  · rintro _ _ _ (⟨_, ⟨⟩, -⟩ | ⟨_, ⟨⟩⟩)
  · rintro _ ⟨⟩
  · rintro c hc
    exact absurd hc (Nat.not_lt_zero c)
  · rintro c hc
    exact absurd hc (Nat.not_lt_zero c)
  · rintro _ _ _ ⟨⟩
  · rintro _ _ _ ⟨⟩
  · rintro _ _ _ ⟨⟩
  · rintro _ _ _ ⟨⟩

/-- In every state of every run. -/
theorem sound_run (handlerState : σ) (tlsEnabled : Bool) (subCount : Nat)
    (events : List (NetworkEvent ε)) :
    Always (exec handler) (Sound · none) (start handlerState tlsEnabled subCount) events :=
  Always.of_along (fun _ event h _ => h.exec event) (.start handlerState tlsEnabled subCount)
    (Along.of_forall (fun _ _ => True.intro) _ events)

end TcpServer

end MqBroker
