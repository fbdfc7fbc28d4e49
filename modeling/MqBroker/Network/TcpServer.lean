import MqBroker.Lib.Early
import MqBroker.Network.TcpConnection
import MqBroker.Protocol.Stream
import Mathlib.Logic.Function.Basic

/-!
# The Server

`TcpServer` between its sockets and its request handler. The acceptor gives each
new descriptor to one sub reactor, in turn. A sub reactor owns its clients: it
alone reads, decodes and writes. Each decoded request is submitted to the
workers. A worker runs the handler and has two tasks queued for the reactor, one
that appends the response to the write queue and one that arms the descriptor for
writing. A request that the workers do not take is refused by the reactor itself.

What goes on at the same time is a run of events. An event is a turn of the
acceptor, a turn of a sub reactor (a ready descriptor or the next queued task), or
a step of a worker: it runs the handler, looks whether the connection is open, and
queues the two tasks, and anything may happen in between. A turn of a reactor is
one event, since all it shares with other threads is that it submits jobs.

The kernel is part of the state. `fds` says which socket is behind a descriptor,
and a descriptor that was closed may stand for another socket later, while jobs
and tasks that were made for the old one are still under way. What the kernel and
the queues answer comes with the events: how many bytes were read or written, and
whether a task was taken.

The fields of a connection and a socket after the first ones, and `served`, are
not in the source. They record what has been read, written, decided and run.

## Main definitions

* `TcpServer`: The acceptor, the reactors, the jobs and the kernel.
* `TcpServer.handleClient`, `TcpServer.addClient`, `TcpServer.acceptReady`,
  `TcpServer.closeClient`: The functions of the reactors.
* `TcpServer.work`: A step of a worker.
* `TcpServer.exec`: An event.
-/

namespace MqBroker

/-! ## State -/

/-- A socket of the kernel: the bytes the server has read from it and written to
    it, and the reactor that was chosen for it. -/
structure Socket where
  incoming : Bytes := []
  outgoing : Bytes := []
  sub : Nat := 0

/-- A `TcpConnection` object with its decoder. -/
structure ServerConnection where
  /-- `loop_`, by the number of the sub reactor. -/
  loop : Nat
  /-- The bytes in `decoder_`. -/
  decoder : Bytes
  write : TcpConnection
  /-- The descriptor and the socket it was made for. -/
  fd : Nat
  socket : Nat
  /-- The requests that were submitted or refused, in order. -/
  requests : List RawRequest
  /-- The responses in the write queue, with the numbers of their requests. -/
  answers : List (Nat × RawResponse)
  /-- The requests whose response was given up. -/
  dropped : List Nat
  /-- A task that arms the descriptor was not taken. -/
  rearmLost : Bool

/-- An entry of `clients`. A client without TLS is ready at once. -/
structure Client where
  /-- The connection, by its identity. -/
  connection : Nat
  tlsReady : Bool
  tlsWantWrite : Bool

/-- A request: the connection it came on, and its number there. -/
structure Ticket where
  connection : Nat
  index : Nat
deriving DecidableEq, Repr

/-- What is queued for a loop. -/
inductive LoopTask
  /-- `AddClient` of a new descriptor. -/
  | addClient (fd : Nat)
  /-- The task of `Send`. -/
  | appendWrite (ticket : Ticket) (response : RawResponse) (frame : Bytes)
  /-- The task that arms a descriptor for writing, for a certain connection. -/
  | rearm (fd connection : Nat)

/-- A `SubReactor`. -/
structure SubReactor where
  /-- The queue of its loop, oldest first. -/
  tasks : List LoopTask
  clients : Nat → Option Client
  /-- The descriptors in its epoll set, with `EPOLLOUT` or without. -/
  interest : Nat → Option Bool

/-- How far a worker is with a job. -/
inductive Stage
  /-- The handler is to be run. -/
  | run (request : RawRequest)
  /-- The frame is to be sent if the connection is open. -/
  | send (response : RawResponse) (frame : Bytes)
  /-- The connection was open. The frame is to be queued. -/
  | post (response : RawResponse) (frame : Bytes)
  /-- The frame is queued. The descriptor is to be armed. -/
  | rearm

/-- A task of the workers, with what its closure has captured. -/
structure Job where
  sub : Nat
  fd : Nat
  ticket : Ticket
  stage : Stage

/-- A run of the handler. -/
structure Served (ε : Type) where
  ticket : Ticket
  env : ε
  request : RawRequest
  response : RawResponse

/-- The server, with a handler that has state `σ` and is run in a surrounding `ε`. -/
structure TcpServer (σ ε : Type) where
  handlerState : σ
  /-- `tls_options.enabled`. -/
  tlsEnabled : Bool
  /-- `subs.size()`. -/
  subCount : Nat
  nextSub : UInt64
  subs : Nat → SubReactor
  /-- The connection objects that were made. -/
  connections : Nat → ServerConnection
  connectionCount : Nat
  /-- The tasks of the workers. -/
  jobs : List Job
  /-- The open descriptors, with their sockets. -/
  fds : Nat → Option Nat
  sockets : Nat → Socket
  socketCount : Nat
  /-- The runs of the handler, in order. -/
  served : List (Served ε)

/-! ## Events -/

/-- What comes out of `TlsSessionContext::Handshake`. -/
inductive HandshakeOutcome
  | ok
  | wantWrite
  | wantRead
  | failed

/-- What comes out of a read. A list of them ends where the read would block. -/
inductive SocketRead
  /-- Some bytes, or none at the end of the stream, and whether the workers take
      the requests that are complete with them. -/
  | bytes (bytes : Bytes) (submitted : List Bool)
  | wantWrite
  | failed

/-- What comes out of a write. A list of them ends where the write would block. -/
inductive SocketWrite
  | wrote (count : UInt64)
  | wantRead
  | wantWrite
  | failed

/-- A ready descriptor: the flags of epoll and the outcomes of the calls. -/
structure Readiness where
  /-- `EPOLLERR`, `EPOLLHUP` or `EPOLLRDHUP`. -/
  failed : Bool := false
  /-- `EPOLLIN`. -/
  readable : Bool := false
  /-- `EPOLLOUT`. -/
  writable : Bool := false
  handshake : HandshakeOutcome := .ok
  reads : List SocketRead := []
  writes : List SocketWrite := []

/-- What happens. -/
inductive NetworkEvent (ε : Type)
  /-- `accept` returns a descriptor. -/
  | accept (fd : Nat) (nonBlocking queued : Bool)
  /-- A reactor has a ready descriptor. -/
  | ready (sub fd : Nat) (events : Readiness)
  /-- A reactor runs its next task. For a new client, whether it got a TLS session
      and was registered. -/
  | task (sub : Nat) (session registered : Bool)
  /-- A worker goes on with a job, in some surrounding. If it queues a task, whether
      that is taken. -/
  | work (job : Nat) (env : ε) (queued : Bool)

namespace TcpServer

variable {σ ε : Type}

/-! ## Changes -/

def modifySub (s : TcpServer σ ε) (sub : Nat) (f : SubReactor → SubReactor) : TcpServer σ ε :=
  { s with subs := Function.update s.subs sub (f (s.subs sub)) }

def modifyConnection (s : TcpServer σ ε) (c : Nat) (f : ServerConnection → ServerConnection) :
    TcpServer σ ε :=
  { s with connections := Function.update s.connections c (f (s.connections c)) }

/-- What happens to the socket behind a descriptor. -/
def modifySocket (s : TcpServer σ ε) (fd : Nat) (f : Socket → Socket) : TcpServer σ ε :=
  match s.fds fd with
  | none => s
  | some k => { s with sockets := Function.update s.sockets k (f (s.sockets k)) }

def modifyClient (s : TcpServer σ ε) (sub fd : Nat) (f : Client → Client) : TcpServer σ ε :=
  s.modifySub sub fun r =>
    { r with clients := Function.update r.clients fd ((r.clients fd).map f) }

def setWantWrite (s : TcpServer σ ε) (sub fd : Nat) (b : Bool) : TcpServer σ ε :=
  s.modifyClient sub fd fun client => { client with tlsWantWrite := b }

/-- `ModifyFd`: whether a registered descriptor is watched for `EPOLLOUT`. -/
def modifyFd (s : TcpServer σ ε) (sub fd : Nat) (writable : Bool) : TcpServer σ ε :=
  s.modifySub sub fun r =>
    { r with interest := Function.update r.interest fd ((r.interest fd).map fun _ => writable) }

/-- `QueueInLoop`, of a loop that takes the task. -/
def enqueue (s : TcpServer σ ε) (sub : Nat) (task : LoopTask) : TcpServer σ ε :=
  s.modifySub sub fun r => { r with tasks := r.tasks ++ [task] }

/-- `close` of a descriptor. -/
def closeFd (s : TcpServer σ ε) (fd : Nat) : TcpServer σ ε :=
  { s with fds := Function.update s.fds fd none }

/-- The response to a request is given up. -/
def drop (s : TcpServer σ ε) (ticket : Ticket) : TcpServer σ ε :=
  s.modifyConnection ticket.connection fun connection =>
    { connection with dropped := connection.dropped ++ [ticket.index] }

/-- The response to a request has entered the write queue. -/
def answer (s : TcpServer σ ε) (ticket : Ticket) (response : RawResponse)
    (write : TcpConnection) : TcpServer σ ε :=
  s.modifyConnection ticket.connection fun connection =>
    { connection with
      write := write
      answers := connection.answers ++ [(ticket.index, response)] }

/-! ## Reactors -/

/-- `CloseClient`. The connection object is not closed with its descriptor. -/
def closeClient (s : TcpServer σ ε) (sub fd : Nat) : TcpServer σ ε :=
  match (s.subs sub).clients fd with
  | none => s
  | some _ =>
      (s.closeFd fd).modifySub sub fun r =>
        { r with
          clients := Function.update r.clients fd none
          interest := Function.update r.interest fd none }

/-- The response to a request that the workers do not take. -/
def resourceExhausted (request : RawRequest) : RawResponse where
  status := Status.resourceExhausted.code
  requestId := request.requestId

/-- A turn of the loop over the decoded requests. -/
def dispatch (sub fd c : Nat) (s : TcpServer σ ε) (request : RawRequest) (submitted : Bool) :
    Except (TcpServer σ ε) (TcpServer σ ε) :=
  let ticket : Ticket := ⟨c, (s.connections c).requests.length⟩
  let s := s.modifyConnection c fun connection =>
    { connection with requests := connection.requests ++ [request] }
  if submitted then .ok { s with jobs := s.jobs ++ [⟨sub, fd, ticket, .run request⟩] }
  else
    match encodeResponse (resourceExhausted request) with
    | .error _ => .error ((s.drop ticket).closeClient sub fd)
    | .ok frame =>
        match (s.connections c).write.send frame with
        | (_, false) => .error ((s.drop ticket).closeClient sub fd)
        | (write, true) => .ok (s.answer ticket (resourceExhausted request) write)

/-- The loop over the decoded requests. -/
def dispatchAll (sub fd c : Nat) :
    TcpServer σ ε → List RawRequest → List Bool → Except (TcpServer σ ε) (TcpServer σ ε)
  | s, [], _ => .ok s
  | s, request :: requests, submitted => do
      let s ← s.dispatch sub fd c request (submitted.headD true)
      dispatchAll sub fd c s requests submitted.tail

/-- `DecodeRequests`: the decoder after it, and the requests. -/
def decodeRequests (connection : ServerConnection) (bytes : Bytes) :
    Bytes × Option (List RawRequest) :=
  if connection.write.isOpen = false then (connection.decoder, none)
  else
    let result := push connection.decoder bytes
    (result.buffer, if result.error = none then some result.requests else none)

/-- What `HandleClient` does with bytes it has read. -/
def receive (sub fd c : Nat) (s : TcpServer σ ε) (bytes : Bytes) (submitted : List Bool) :
    Except (TcpServer σ ε) (TcpServer σ ε) :=
  let s := s.modifySocket fd fun socket => { socket with incoming := socket.incoming ++ bytes }
  let decoded := decodeRequests (s.connections c) bytes
  let s := s.modifyConnection c fun connection => { connection with decoder := decoded.1 }
  match decoded.2 with
  | none => .error (s.closeClient sub fd)
  | some requests => dispatchAll sub fd c s requests submitted

/-- The loop that reads. -/
def readLoop (sub fd c : Nat) :
    TcpServer σ ε → List SocketRead → Except (TcpServer σ ε) (TcpServer σ ε)
  | s, [] => .ok s
  | s, .bytes bytes submitted :: rest =>
      if bytes = [] then .error (s.closeClient sub fd)
      else do
        let s ← s.receive sub fd c bytes submitted
        readLoop sub fd c s rest
  | s, .wantWrite :: _ => .ok (s.setWantWrite sub fd true)
  | s, .failed :: _ => .error (s.closeClient sub fd)

/-- The loop that writes. If `ConsumeWritten` throws, the client is closed. -/
def writeLoop (sub fd c : Nat) :
    TcpServer σ ε → List SocketWrite → Except (TcpServer σ ε) (TcpServer σ ε)
  | s, [] => .ok s
  | s, outcome :: rest =>
      let output := (s.connections c).write.writable
      if output = [] then .ok s
      else
        match outcome with
        | .wrote count =>
            if count = 0 then .error (s.closeClient sub fd)
            else
              let s := s.modifySocket fd fun socket =>
                { socket with outgoing := socket.outgoing ++ output.take count.toNat }
              match (s.connections c).write.consumeWritten count with
              | .error _ => .error (s.closeClient sub fd)
              | .ok write =>
                  let s := s.modifyConnection c fun connection => { connection with write := write }
                  writeLoop sub fd c (s.setWantWrite sub fd false) rest
        | .wantRead => .ok (s.setWantWrite sub fd false)
        | .wantWrite => .ok (s.setWantWrite sub fd true)
        | .failed => .error (s.closeClient sub fd)

/-- The handshake of a client that is not ready. -/
def handshake (sub fd : Nat) (client : Client) (s : TcpServer σ ε) (outcome : HandshakeOutcome) :
    Except (TcpServer σ ε) (TcpServer σ ε) :=
  if client.tlsReady then .ok s
  else
    match outcome with
    | .ok =>
        .ok (s.modifyClient sub fd fun client =>
          { client with tlsReady := true, tlsWantWrite := false })
    | .wantWrite => .error ((s.setWantWrite sub fd true).modifyFd sub fd true)
    | .wantRead => .error ((s.setWantWrite sub fd false).modifyFd sub fd false)
    | .failed => .error (s.closeClient sub fd)

/-- The client is read from if there is something to read. -/
def reading (sub fd c : Nat) (s : TcpServer σ ε) (events : Readiness) :
    Except (TcpServer σ ε) (TcpServer σ ε) :=
  if events.readable then s.readLoop sub fd c events.reads else .ok s

/-- The client is written to if there is room. -/
def writing (sub fd c : Nat) (s : TcpServer σ ε) (events : Readiness) :
    Except (TcpServer σ ε) (TcpServer σ ε) :=
  if events.writable then s.writeLoop sub fd c events.writes else .ok s

/-- The end of `HandleClient`: `EPOLLOUT` if there is something to write. -/
def watch (sub fd c : Nat) (s : TcpServer σ ε) : TcpServer σ ε :=
  let wantWrite := ((s.subs sub).clients fd).any Client.tlsWantWrite
  s.modifyFd sub fd (wantWrite || !(s.connections c).write.writable.isEmpty)

/-- `HandleClient`, for a client that is there. -/
def serveClient (s : TcpServer σ ε) (sub fd : Nat) (client : Client) (events : Readiness) :
    Except (TcpServer σ ε) (TcpServer σ ε) :=
  if events.failed then .error (s.closeClient sub fd)
  else do
    let s ← s.handshake sub fd client events.handshake
    let s ← s.reading sub fd client.connection events
    let s ← s.writing sub fd client.connection events
    return s.watch sub fd client.connection

/-- `HandleClient`. -/
def handleClient (s : TcpServer σ ε) (sub fd : Nat) (events : Readiness) : TcpServer σ ε :=
  match (s.subs sub).clients fd with
  | none => s
  | some client => Early.result (s.serveClient sub fd client events)

/-- The connection that `AddClient` makes for a socket. -/
def newConnection (sub fd k : Nat) : ServerConnection where
  loop := sub
  decoder := []
  -- `kConnectionWriteBufferBytes`.
  write := TcpConnection.create (UInt64.ofNat (maxPayloadBytes + 18))
  fd := fd
  socket := k
  requests := []
  answers := []
  dropped := []
  rearmLost := false

/-- A connection object is made. -/
def makeConnection (s : TcpServer σ ε) (sub fd k : Nat) : TcpServer σ ε :=
  { s with
    connections := Function.update s.connections s.connectionCount (newConnection sub fd k)
    connectionCount := s.connectionCount + 1 }

/-- A client is put into `clients`. -/
def insertClient (s : TcpServer σ ε) (sub fd : Nat) (client : Client) : TcpServer σ ε :=
  s.modifySub sub fun r => { r with clients := Function.update r.clients fd (some client) }

/-- `RegisterFd`, of an epoll set that takes the descriptor. -/
def registerFd (s : TcpServer σ ε) (sub fd : Nat) : TcpServer σ ε :=
  s.modifySub sub fun r => { r with interest := Function.update r.interest fd (some false) }

/-- `AddClient`, of a descriptor that is open. -/
def addClient (s : TcpServer σ ε) (sub fd : Nat) (session registered : Bool) : TcpServer σ ε :=
  match s.fds fd with
  | none => s
  | some k =>
      let client : Client := ⟨s.connectionCount, !s.tlsEnabled, false⟩
      let s := s.makeConnection sub fd k
      if s.tlsEnabled = true ∧ session = false then s.closeFd fd
      else if ((s.subs sub).clients fd).isSome then s.closeFd fd
      else if registered then (s.insertClient sub fd client).registerFd sub fd
      else (s.insertClient sub fd client).closeClient sub fd

/-- `accept` opens a descriptor for a new socket. -/
def openSocket (s : TcpServer σ ε) (sub fd : Nat) : TcpServer σ ε :=
  { s with
    fds := Function.update s.fds fd (some s.socketCount)
    sockets := Function.update s.sockets s.socketCount { sub := sub }
    socketCount := s.socketCount + 1 }

/-- A turn of the loop of `AcceptReady`. The kernel gives a descriptor that is not
    open. -/
def acceptReady (s : TcpServer σ ε) (fd : Nat) (nonBlocking queued : Bool) : TcpServer σ ε :=
  if (s.fds fd).isSome then s
  else
    let sub := s.nextSub.toNat % s.subCount
    let s := s.openSocket sub fd
    if nonBlocking = false then s.closeFd fd
    else
      let s := { s with nextSub := s.nextSub + 1 }
      if queued then s.enqueue sub (.addClient fd) else s.closeFd fd

/-- The task of `Send`. -/
def appendTask (s : TcpServer σ ε) (ticket : Ticket) (response : RawResponse) (frame : Bytes) :
    TcpServer σ ε :=
  let write := (s.connections ticket.connection).write
  if write.isOpen = false then s.drop ticket
  else
    match write.appendWrite frame with
    | (write, true) => s.answer ticket response write
    | (_, false) =>
        (s.drop ticket).modifyConnection ticket.connection fun connection =>
          { connection with write := connection.write.close }

/-- The task that arms a descriptor for writing. -/
def rearmTask (s : TcpServer σ ε) (sub fd c : Nat) : TcpServer σ ε :=
  match (s.subs sub).clients fd with
  | none => s
  | some client => if client.connection = c then s.modifyFd sub fd true else s

/-- A task of a loop is run. -/
def runTask (s : TcpServer σ ε) (sub : Nat) (session registered : Bool) :
    LoopTask → TcpServer σ ε
  | .addClient fd => s.addClient sub fd session registered
  | .appendWrite ticket response frame => s.appendTask ticket response frame
  | .rearm fd c => s.rearmTask sub fd c

/-- The loop of a reactor takes its next task. -/
def nextTask (s : TcpServer σ ε) (sub : Nat) (session registered : Bool) : TcpServer σ ε :=
  match (s.subs sub).tasks with
  | [] => s
  | task :: rest =>
      (s.modifySub sub fun r => { r with tasks := rest }).runTask sub session registered task

/-! ## Workers -/

variable (handler : σ → ε → RawRequest → σ × RawResponse)

/-- The handler is run, and its response encoded. -/
def runHandler (s : TcpServer σ ε) (job : Job) (env : ε) (request : RawRequest) :
    TcpServer σ ε :=
  let result := handler s.handlerState env request
  let served : Served ε := ⟨job.ticket, env, request, result.2⟩
  let s := { s with handlerState := result.1, served := s.served ++ [served] }
  match encodeResponse result.2 with
  | .error _ => s.drop job.ticket
  | .ok frame => { s with jobs := s.jobs ++ [{ job with stage := .send result.2 frame }] }

/-- A step of a job that was taken out of `jobs`, where it is put back if there is
    more to do. -/
def stepJob (s : TcpServer σ ε) (job : Job) (env : ε) (queued : Bool) : TcpServer σ ε :=
  match job.stage with
  | .run request => s.runHandler handler job env request
  | .send response frame =>
      if (s.connections job.ticket.connection).write.isOpen = false then s.drop job.ticket
      else { s with jobs := s.jobs ++ [{ job with stage := .post response frame }] }
  | .post response frame =>
      if queued then
        { s.enqueue (s.connections job.ticket.connection).loop
            (.appendWrite job.ticket response frame) with
          jobs := s.jobs ++ [{ job with stage := .rearm }] }
      else s.drop job.ticket
  | .rearm =>
      -- Whether this task is taken is not looked at.
      if queued then s.enqueue job.sub (.rearm job.fd job.ticket.connection)
      else
        s.modifyConnection job.ticket.connection fun connection =>
          { connection with rearmLost := true }

/-- A worker goes on with a job. -/
def work (s : TcpServer σ ε) (job : Nat) (env : ε) (queued : Bool) : TcpServer σ ε :=
  match s.jobs[job]? with
  | none => s
  | some j => { s with jobs := s.jobs.eraseIdx job }.stepJob handler j env queued

/-- What an event does. -/
def exec (s : TcpServer σ ε) : NetworkEvent ε → TcpServer σ ε
  | .accept fd nonBlocking queued => s.acceptReady fd nonBlocking queued
  | .ready sub fd events => s.handleClient sub fd events
  | .task sub session registered => s.nextTask sub session registered
  | .work job env queued => s.work handler job env queued

/-- The server after `Start`. -/
def start (handlerState : σ) (tlsEnabled : Bool) (subCount : Nat) : TcpServer σ ε where
  handlerState := handlerState
  tlsEnabled := tlsEnabled
  subCount := subCount
  nextSub := 0
  subs := fun _ => ⟨[], fun _ => none, fun _ => none⟩
  connections := fun _ => newConnection 0 0 0
  connectionCount := 0
  jobs := []
  fds := fun _ => none
  sockets := fun _ => {}
  socketCount := 0
  served := []

end TcpServer

end MqBroker
