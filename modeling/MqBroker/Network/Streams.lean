import MqBroker.Network.Descriptors
import MqBroker.Network.Ledger

/-!
# What Goes over a Socket

The bytes that were read from a socket are the requests of its connection and what
the decoder has kept, and the bytes that were written to it are the first ones of
the frames of the answers, one behind the other.

While `HandleClient` works for a client, this is suspended for the reading side of
its connection: requests were decoded that have not been submitted yet. So it is
stated with the connection that is busy.

## Main definitions

* `StreamSound`: What holds of a connection and its socket, open or not.
* `LiveStream`: What holds in addition as long as there is a client.
* `Streaming`: Both, for all connections.

## Theorems

* `Streaming.modify`: A step of one connection.
* `Streaming.release`, `Streaming.accept`, `Streaming.connect`: Descriptors and
  clients come and go.
* `StreamSound.answer`, `StreamSound.write`: Steps of a write queue.
-/

namespace MqBroker

/-- What holds of a connection and its socket at any time. -/
structure StreamSound (x : ServerConnection) (k : Socket) : Prop where
  write : x.write.Sound
  /-- A frame is not empty, so a write queue does not stall. -/
  chunks : ∀ chunk ∈ x.write.writeQueue, chunk ≠ []
  accepted : x.write.accepted = x.answers.flatMap fun answer => responseFrame answer.2
  legal : ∀ answer ∈ x.answers, encodeResponse answer.2 = .ok (responseFrame answer.2)
  sent : k.outgoing <+: x.write.accepted
  decoded : x.requests <+: (drain nextFrame k.incoming).1
  opened : x.dropped = [] → x.write.isOpen = true

/-- What holds as long as there is a client, with requests that were decoded and are
    still to be submitted. -/
structure LiveStream (x : ServerConnection) (k : Socket) (rest : List RawRequest) : Prop where
  received : drain nextFrame k.incoming = (x.requests ++ rest, .ok x.decoder)
  written : k.outgoing = x.write.consumed

/-- What a live connection has received, with more bytes. -/
theorem LiveStream.append {x : ServerConnection} {k : Socket} (h : LiveStream x k [])
    (bytes : Bytes) : drain nextFrame (k.incoming ++ bytes) =
      (x.requests ++ (drain nextFrame (x.decoder ++ bytes)).1,
        (drain nextFrame (x.decoder ++ bytes)).2) := by
  rw [drain_append nextFrame_incremental, h.received, List.append_nil]

namespace StreamSound

variable {x : ServerConnection} {k : Socket}

theorem newConnection (sub fd n : Nat) (houtgoing : k.outgoing = []) :
    StreamSound (TcpServer.newConnection sub fd n) k where
  write := TcpConnection.Sound.create _
  chunks := by
    intro chunk hchunk
    cases hchunk
  accepted := rfl
  legal := by
    intro answer hanswer
    cases hanswer
  sent := by
    rw [houtgoing]
    exact List.nil_prefix
  decoded := List.nil_prefix
  opened := fun _ => rfl

theorem encodeResponse_eq {r : RawResponse} {frame : Bytes} (h : encodeResponse r = .ok frame) :
    frame = responseFrame r := by
  unfold encodeResponse at h
  split_ifs at h
  exact (Except.ok.inj h).symm

theorem responseFrame_ne_nil (r : RawResponse) : responseFrame r ≠ [] := by
  unfold responseFrame frameStart put16
  simp only [List.append_assoc, List.cons_append, List.nil_append]
  exact List.cons_ne_nil _ _

/-- A response enters the write queue. -/
theorem answer (h : StreamSound x k) {response : RawResponse} {frame : Bytes} {i : Nat}
    (hframe : encodeResponse response = .ok frame) (haccepts : x.write.Accepts frame) :
    StreamSound { x with
      write := (x.write.exec (.send frame))
      answers := x.answers ++ [(i, response)] } k := by
  obtain rfl := encodeResponse_eq hframe
  have hexec : x.write.exec (.send (responseFrame response)) =
      (x.write.send (responseFrame response)).1 := rfl
  rw [h.write.send_eq haccepts] at hexec
  refine ⟨(h.write.send haccepts).1, ?_, ?_, ?_, ?_, h.decoded, ?_⟩
  · intro chunk hchunk
    simp only [hexec] at hchunk
    rcases List.mem_append.mp hchunk with hold | hnew
    · exact h.chunks chunk hold
    · rw [List.mem_singleton.mp hnew]
      exact responseFrame_ne_nil response
  · simp only [hexec, List.flatMap_append, List.flatMap_cons, List.flatMap_nil, List.append_nil,
      h.accepted]
  · intro answer hanswer
    rcases List.mem_append.mp hanswer with hold | hnew
    · exact h.legal answer hold
    · rw [List.mem_singleton.mp hnew]
      exact hframe
  · simp only [hexec]
    exact h.sent.trans (List.prefix_append _ _)
  · intro _
    simp only [hexec]
    exact haccepts.1

/-- A response is given up. -/
theorem drop (h : StreamSound x k) (i : Nat) :
    StreamSound { x with dropped := x.dropped ++ [i] } k where
  write := h.write
  chunks := h.chunks
  accepted := h.accepted
  legal := h.legal
  sent := h.sent
  decoded := h.decoded
  opened := fun hnil => absurd hnil (List.append_ne_nil_of_right_ne_nil _ (List.cons_ne_nil _ _))

/-- The queue is closed when it cannot take a frame. -/
theorem close (h : StreamSound x k) {i : Nat} :
    StreamSound { x with write := x.write.close, dropped := x.dropped ++ [i] } k where
  write := h.write.close
  chunks := by
    intro chunk hchunk
    refine h.chunks chunk ?_
    simp only [TcpConnection.close] at hchunk
    split_ifs at hchunk
    · exact hchunk
    · cases hchunk
  accepted := by
    simp only [TcpConnection.close]
    split_ifs <;> exact h.accepted
  legal := h.legal
  sent := by
    simp only [TcpConnection.close]
    split_ifs <;> exact h.sent
  decoded := h.decoded
  opened := fun hnil => absurd hnil (List.append_ne_nil_of_right_ne_nil _ (List.cons_ne_nil _ _))

/-- Bytes that were given to the socket come from the front of what is pending. -/
theorem writable_prefix (h : StreamSound x k) (hwritten : k.outgoing = x.write.consumed)
    (hne : x.write.writable ≠ []) (n : Nat) :
    k.outgoing ++ x.write.writable.take n <+: x.write.accepted := by
  cases hqueue : x.write.writeQueue with
  | nil =>
      refine absurd ?_ hne
      simp only [TcpConnection.writable, hqueue]
  | cons front rest =>
      have hopen := TcpConnection.isOpen_of_cons h.write hqueue
      rw [hwritten, ← h.write.stream hopen, h.write.pending_cons hqueue]
      refine (List.prefix_append_right_inj _).mpr ?_
      exact (List.take_prefix n _).trans (List.prefix_append _ _)

/-- What is writable is all there is, if it is nothing. -/
theorem pending_nil (h : StreamSound x k) (hwritable : x.write.writable = []) :
    x.write.pending = [] := by
  cases hqueue : x.write.writeQueue with
  | nil => exact (TcpConnection.view_nil hqueue).mp hwritable
  | cons front rest =>
      have hnil := (h.write.writable_nil_iff hqueue).mp hwritable
      exact absurd hnil (h.chunks front (hqueue ▸ List.mem_cons_self))

/-- What `ConsumeWritten` does if it does not throw. -/
theorem consumeWritten_ok {w w' : TcpConnection} {n : UInt64} (h : w.consumeWritten n = .ok w') :
    w'.accepted = w.accepted ∧ w'.consumed = w.consumed ++ w.writable.take n.toNat ∧
      w'.isOpen = w.isOpen ∧ ∀ chunk ∈ w'.writeQueue, chunk ∈ w.writeQueue := by
  unfold TcpConnection.consumeWritten at h
  cases hqueue : w.writeQueue with
  | nil =>
      rw [hqueue] at h
      cases h
  | cons front rest =>
      rw [hqueue] at h
      simp only at h
      split_ifs at h
      · obtain rfl := Except.ok.inj h
        exact ⟨rfl, rfl, rfl, fun chunk hchunk => List.mem_cons_of_mem front hchunk⟩
      · obtain rfl := Except.ok.inj h
        exact ⟨rfl, rfl, rfl, fun chunk hchunk => hqueue ▸ hchunk⟩

/-- Bytes are written, and reported as written. -/
theorem consume (h : StreamSound x k) (hwritten : k.outgoing = x.write.consumed)
    (hne : x.write.writable ≠ []) {n : UInt64} {write : TcpConnection}
    (hconsume : x.write.consumeWritten n = .ok write) :
    StreamSound { x with write := write }
        { k with outgoing := k.outgoing ++ x.write.writable.take n.toNat } ∧
      k.outgoing ++ x.write.writable.take n.toNat = write.consumed := by
  obtain ⟨haccepted, hconsumed, hopen, hchunks⟩ := consumeWritten_ok hconsume
  have hexec : x.write.exec (.consumeWritten n) = write := by
    simp only [TcpConnection.exec, hconsume]
  refine ⟨⟨?_, ?_, ?_, h.legal, ?_, h.decoded, ?_⟩, ?_⟩
  · exact hexec ▸ h.write.exec (.consumeWritten n)
  · exact fun chunk hchunk => h.chunks chunk (hchunks chunk hchunk)
  · exact haccepted.trans h.accepted
  · rw [haccepted]
    exact h.writable_prefix hwritten hne _
  · exact fun hnil => hopen.trans (h.opened hnil)
  · rw [hconsumed, hwritten]

end StreamSound

/-! ## All connections -/

variable {σ ε : Type}

/-- The streams of all connections are right. The connection that is busy need not
    be live. -/
structure Streaming (s : TcpServer σ ε) (busy : Option Nat) : Prop where
  sound : ∀ c < s.connectionCount,
    StreamSound (s.connections c) (s.sockets (s.connections c).socket)
  live : ∀ {sub fd c}, s.wiring.client sub fd = some c → busy ≠ some c →
    LiveStream (s.connections c) (s.sockets (s.connections c).socket) []
  untouched : ∀ {k}, s.wiring.Fresh k → (s.sockets k).incoming = [] ∧ (s.sockets k).outgoing = []

namespace Streaming

variable {s s' : TcpServer σ ε} {busy : Option Nat} {c sub fd k : Nat}

/-- One connection and its socket change. -/
theorem modify (h : Streaming s busy) (hw : Wired s.wiring) (hc : c < s.connectionCount)
    (hwiring : s'.wiring = s.wiring)
    (hother : ∀ c' ≠ c, s'.connections c' = s.connections c')
    (hsockets : ∀ k ≠ (s.connections c).socket, s'.sockets k = s.sockets k)
    (hsound : StreamSound (s'.connections c) (s'.sockets (s.connections c).socket))
    (hlive : busy ≠ some c →
      LiveStream (s.connections c) (s.sockets (s.connections c).socket) [] →
      LiveStream (s'.connections c) (s'.sockets (s.connections c).socket) []) :
    Streaming s' busy := by
  have hcount : s'.connectionCount = s.connectionCount := congrArg Wiring.connectionCount hwiring
  have hsocket : ∀ c', (s'.connections c').socket = (s.connections c').socket :=
    fun c' => congrFun (congrArg Wiring.socket hwiring) c'
  have hsame : ∀ c' < s.connectionCount, c' ≠ c → s'.sockets (s.connections c').socket =
      s.sockets (s.connections c').socket :=
    fun c' hc' hne => hsockets _ fun heq => hne (hw.injective hc' hc heq)
  refine ⟨?_, ?_, ?_⟩
  · intro c' hc'
    rw [hcount] at hc'
    rw [hsocket]
    by_cases heq : c' = c
    · rw [heq]
      exact hsound
    · rw [hother c' heq, hsame c' hc' heq]
      exact h.sound c' hc'
  · intro sub fd c' hclient hbusy
    rw [hwiring] at hclient
    rw [hsocket]
    by_cases heq : c' = c
    · subst heq
      exact hlive hbusy (h.live hclient hbusy)
    · rw [hother c' heq, hsame c' (hw.client hclient).1 heq]
      exact h.live hclient hbusy
  · intro k hfresh
    rw [hwiring] at hfresh
    have hne : k ≠ (s.connections c).socket := fun heq => hfresh c hc heq.symm
    rw [hsockets k hne]
    exact h.untouched hfresh

/-- Nothing changes that matters for the streams. -/
theorem congr (h : Streaming s busy) (hwiring : s'.wiring = s.wiring)
    (hconnections : s'.connections = s.connections) (hsockets : s'.sockets = s.sockets) :
    Streaming s' busy := by
  have hcount : s'.connectionCount = s.connectionCount := congrArg Wiring.connectionCount hwiring
  refine ⟨?_, ?_, ?_⟩
  · intro c hc
    rw [hconnections, hsockets]
    exact h.sound c (hcount ▸ hc)
  · intro sub fd c hclient hbusy
    rw [hconnections, hsockets]
    exact h.live (hwiring ▸ hclient) hbusy
  · intro k hfresh
    rw [hsockets]
    exact h.untouched (hwiring ▸ hfresh)

/-- The client of the busy connection is closed. -/
theorem release (h : Streaming s (some c)) (hw : Wired s.wiring)
    (hclient : s.wiring.client sub fd = some c) (hwiring : s'.wiring = s.wiring.release sub fd)
    (hconnections : s'.connections = s.connections) (hsockets : s'.sockets = s.sockets) :
    Streaming s' none := by
  have hcount : s'.connectionCount = s.connectionCount := congrArg Wiring.connectionCount hwiring
  refine ⟨?_, ?_, ?_⟩
  · intro c' hc'
    rw [hconnections, hsockets]
    exact h.sound c' (hcount ▸ hc')
  · intro sub' fd' c' hclient' _
    rw [hwiring, Wiring.client_release, Option.ite_none_left_eq_some] at hclient'
    rw [hconnections, hsockets]
    refine h.live hclient'.2 fun heq => hclient'.1 ?_
    exact hw.unique hclient (Option.some.inj heq ▸ hclient'.2)
  · intro k hfresh
    rw [hwiring] at hfresh
    rw [hsockets]
    exact h.untouched hfresh

/-- What is done for a connection that stays live. -/
theorem finish (h : Streaming s (some c))
    (hlive : LiveStream (s.connections c) (s.sockets (s.connections c).socket) []) :
    Streaming s none where
  sound := h.sound
  live := by
    intro sub fd c' hclient _
    by_cases heq : c' = c
    · rw [heq]
      exact hlive
    · exact h.live hclient fun hbusy => heq (Option.some.inj hbusy).symm
  untouched := h.untouched

/-- Any connection may be busy. -/
theorem suspend (h : Streaming s none) (c : Nat) : Streaming s (some c) :=
  ⟨h.sound, fun hclient _ => h.live hclient (Option.some_ne_none _).symm, h.untouched⟩

/-- A new socket. -/
theorem accept (h : Streaming s none) (hw : Wired s.wiring)
    (hcount : s'.connectionCount = s.connectionCount)
    (hconnections : s'.connections = s.connections)
    (hsockets : s'.sockets = Function.update s.sockets s.socketCount { sub := sub })
    (hclient : s'.wiring.client = s.wiring.client) : Streaming s' none := by
  have hsame : ∀ c < s.connectionCount, s'.sockets (s.connections c).socket =
      s.sockets (s.connections c).socket := by
    intro c hc
    have hlt : (s.connections c).socket < s.socketCount := (hw.made hc).1
    rw [hsockets, Function.update_of_ne (Nat.ne_of_lt hlt)]
  refine ⟨?_, ?_, ?_⟩
  · intro c hc
    rw [hcount] at hc
    rw [hconnections, hsame c hc]
    exact h.sound c hc
  · intro sub' fd c hclient' hbusy
    rw [hclient] at hclient'
    rw [hconnections, hsame c (hw.client hclient').1]
    exact h.live hclient' hbusy
  · intro k hfresh
    rw [hsockets, Function.update_apply]
    split_ifs
    · exact ⟨rfl, rfl⟩
    · refine h.untouched fun c hc => ?_
      have hc' : c < s.connectionCount := hc
      have hne := hfresh c (show c < s'.connectionCount by omega)
      simp only [TcpServer.wiring, hconnections] at hne
      exact hne

/-- A new connection, for a socket that has none. -/
theorem connect (h : Streaming s none) (hw : Wired s.wiring) (hfresh : s.wiring.Fresh k)
    (hwiring : s'.wiring = s.wiring.connect sub fd k)
    (hconnections : s'.connections =
      Function.update s.connections s.connectionCount (TcpServer.newConnection sub fd k))
    (hsockets : s'.sockets = s.sockets) : Streaming s' none := by
  have hcount : s'.connectionCount = s.connectionCount + 1 :=
    congrArg Wiring.connectionCount hwiring
  have hnew : s'.connections s.connectionCount = TcpServer.newConnection sub fd k := by
    rw [hconnections, Function.update_self]
  have hold : ∀ {c}, c < s.connectionCount → s'.connections c = s.connections c := by
    intro c hc
    rw [hconnections, Function.update_of_ne (Nat.ne_of_lt hc)]
  obtain ⟨hincoming, houtgoing⟩ := h.untouched hfresh
  refine ⟨?_, ?_, ?_⟩
  · intro c hc
    rw [hcount] at hc
    rw [hsockets]
    rcases Nat.lt_succ_iff_lt_or_eq.mp hc with hlt | rfl
    · rw [hold hlt]
      exact h.sound c hlt
    · rw [hnew]
      exact StreamSound.newConnection sub fd k houtgoing
  · intro sub' fd' c hclient _
    rw [hwiring, Wiring.connect] at hclient
    simp only [update_update_apply] at hclient
    rw [hsockets]
    split_ifs at hclient with heq
    · obtain rfl := Option.some.inj hclient
      have hnew' : s'.connections s.wiring.connectionCount = TcpServer.newConnection sub fd k :=
        hnew
      rw [hnew']
      refine ⟨?_, houtgoing⟩
      simp only [TcpServer.newConnection, hincoming]
      rfl
    · rw [hold (hw.client hclient).1]
      exact h.live hclient (Option.some_ne_none c).symm
  · intro k' hfresh'
    rw [hsockets]
    refine h.untouched fun c hc => ?_
    have hc' : c < s.connectionCount := hc
    have hne := hfresh' c (show c < s'.connectionCount by omega)
    simp only [TcpServer.wiring, hold hc'] at hne
    exact hne

end Streaming

end MqBroker
