import MqBroker.Network.TcpServer
import Mathlib.Data.List.Nodup

/-!
# Who Owns a Descriptor

A descriptor is a number, and the kernel gives the number of a closed one to the
next connection. The server must never read from, write to or close a descriptor
for a connection whose socket is no longer behind it.

What decides this is the wiring of the server: which socket is behind which
descriptor, which reactor was chosen for it, which descriptors wait to be added and
which clients there are. `Wired` says that an open descriptor is either waiting in
the queue of its reactor, once, or is a client of its reactor, and that a client's
connection was made for the very socket behind the descriptor. Nothing else of the
state matters for it, so a function that does not touch the wiring keeps it.

## Main definitions

* `Wiring`, `TcpServer.wiring`: The part of the state that matters.
* `Wiring.release`, `Wiring.connect`: The two changes of clients.
* `Wired`: Every descriptor has one owner.

## Theorems

* `Wired.release`, `Wired.accept`, `Wired.connect`: What is done with descriptors.
* `Wired.unique`: A connection has one client.
-/

namespace MqBroker

/-- A function of two arguments is changed at one place. -/
theorem update_update_apply {α β γ : Type} [DecidableEq α] [DecidableEq β] (f : α → β → γ) (a : α)
    (b : β) (v : γ) (a' : α) (b' : β) :
    Function.update f a (Function.update (f a) b v) a' b' =
      if a' = a ∧ b' = b then v else f a' b' := by
  by_cases ha : a' = a
  · rw [ha, Function.update_self, Function.update_apply]
    simp only [true_and]
  · rw [Function.update_of_ne ha, if_neg fun h => ha h.1]

/-- The descriptor that a task is to add. -/
def LoopTask.added : LoopTask → Option Nat
  | .addClient fd => some fd
  | _ => none

/-- Sockets, connections and clients, without what goes over them. -/
@[ext] structure Wiring where
  fds : Nat → Option Nat
  /-- The reactor that was chosen for a socket. -/
  chosen : Nat → Nat
  socketCount : Nat
  /-- The reactor, the descriptor and the socket of a connection. -/
  loop : Nat → Nat
  fd : Nat → Nat
  socket : Nat → Nat
  connectionCount : Nat
  /-- The descriptors that wait to be added by a reactor. -/
  added : Nat → List Nat
  /-- The connections of the clients of a reactor. -/
  client : Nat → Nat → Option Nat

/-- The wiring of a server. -/
def TcpServer.wiring {σ ε : Type} (s : TcpServer σ ε) : Wiring where
  fds := s.fds
  chosen k := (s.sockets k).sub
  socketCount := s.socketCount
  loop c := (s.connections c).loop
  fd c := (s.connections c).fd
  socket c := (s.connections c).socket
  connectionCount := s.connectionCount
  added sub := (s.subs sub).tasks.filterMap LoopTask.added
  client sub fd := ((s.subs sub).clients fd).map Client.connection

namespace Wiring

/-- The descriptor of a client is closed, and the client removed. -/
def release (w : Wiring) (sub fd : Nat) : Wiring :=
  { w with
    fds := Function.update w.fds fd none
    client := Function.update w.client sub (Function.update (w.client sub) fd none) }

theorem client_release (w : Wiring) (sub fd sub' fd' : Nat) :
    (w.release sub fd).client sub' fd' =
      if sub' = sub ∧ fd' = fd then none else w.client sub' fd' :=
  update_update_apply w.client sub fd none sub' fd'

/-- A descriptor is accepted and waits for its reactor. -/
def accept (w : Wiring) (sub fd : Nat) : Wiring :=
  { w with
    fds := Function.update w.fds fd (some w.socketCount)
    chosen := Function.update w.chosen w.socketCount sub
    socketCount := w.socketCount + 1
    added := Function.update w.added sub (w.added sub ++ [fd]) }

/-- A descriptor is accepted and closed at once. -/
def reject (w : Wiring) (sub : Nat) : Wiring :=
  { w with
    chosen := Function.update w.chosen w.socketCount sub
    socketCount := w.socketCount + 1 }

/-- The first descriptor that waits for a reactor becomes a client. -/
def connect (w : Wiring) (sub fd k : Nat) : Wiring :=
  { w with
    loop := Function.update w.loop w.connectionCount sub
    fd := Function.update w.fd w.connectionCount fd
    socket := Function.update w.socket w.connectionCount k
    connectionCount := w.connectionCount + 1
    added := Function.update w.added sub (w.added sub).tail
    client := Function.update w.client sub
      (Function.update (w.client sub) fd (some w.connectionCount)) }

/-- No connection was made for a socket. -/
def Fresh (w : Wiring) (k : Nat) : Prop := ∀ c < w.connectionCount, w.socket c ≠ k

end Wiring

/-- Every open descriptor that is known to a reactor has one owner. -/
structure Wired (w : Wiring) : Prop where
  behind : ∀ {fd k}, w.fds fd = some k → k < w.socketCount
  separate : ∀ {fd fd' k}, w.fds fd = some k → w.fds fd' = some k → fd' = fd
  added : ∀ {sub fd}, fd ∈ w.added sub →
    ∃ k, w.fds fd = some k ∧ w.chosen k = sub ∧ w.Fresh k
  once : ∀ sub, (w.added sub).Nodup
  made : ∀ {c}, c < w.connectionCount →
    w.socket c < w.socketCount ∧ w.chosen (w.socket c) = w.loop c
  injective : ∀ {c c'}, c < w.connectionCount → c' < w.connectionCount →
    w.socket c = w.socket c' → c = c'
  client : ∀ {sub fd c}, w.client sub fd = some c →
    c < w.connectionCount ∧ w.loop c = sub ∧ w.fd c = fd ∧ w.fds fd = some (w.socket c)

/-- What is behind another descriptor than the one that was closed. -/
theorem of_update_none {α : Type} {f : Nat → Option α} {n m : Nat} {a : α}
    (h : Function.update f n none m = some a) : f m = some a := by
  rw [Function.update_apply, Option.ite_none_left_eq_some] at h
  exact h.2

namespace Wired

variable {w : Wiring} {sub sub' fd fd' k c : Nat}

/-- A connection has one client. -/
theorem unique (h : Wired w) (hc : w.client sub fd = some c) (hc' : w.client sub' fd' = some c) :
    sub' = sub ∧ fd' = fd := by
  obtain ⟨-, hloop, hfd, -⟩ := h.client hc
  obtain ⟨-, hloop', hfd', -⟩ := h.client hc'
  exact ⟨hloop'.symm.trans hloop, hfd'.symm.trans hfd⟩

/-- A descriptor has one client. -/
theorem client_unique (h : Wired w) {c' : Nat} (hc : w.client sub fd = some c)
    (hc' : w.client sub' fd = some c') : sub' = sub ∧ c' = c := by
  obtain ⟨hlt, hloop, -, hsocket⟩ := h.client hc
  obtain ⟨hlt', hloop', -, hsocket'⟩ := h.client hc'
  have heq := h.injective hlt' hlt (Option.some.inj (hsocket'.symm.trans hsocket))
  refine ⟨?_, heq⟩
  rw [← hloop', ← hloop, heq]

/-- A descriptor that waits is not a client. -/
theorem not_client_of_added (h : Wired w) (hadded : fd ∈ w.added sub) :
    w.client sub' fd = none := by
  cases hclient : w.client sub' fd with
  | none => rfl
  | some c =>
      obtain ⟨k, hk, -, hfresh⟩ := h.added hadded
      obtain ⟨hlt, -, -, hsocket⟩ := h.client hclient
      exact absurd (Option.some.inj (hsocket.symm.trans hk)) (hfresh c hlt)

/-- A descriptor waits for one reactor. -/
theorem added_unique (h : Wired w) (hadded : fd ∈ w.added sub) (hadded' : fd ∈ w.added sub') :
    sub' = sub := by
  obtain ⟨k, hk, hsub, -⟩ := h.added hadded
  obtain ⟨k', hk', hsub', -⟩ := h.added hadded'
  rw [← hsub, ← hsub', Option.some.inj (hk'.symm.trans hk)]

/-- The descriptor of a client is closed by its reactor. -/
theorem release (h : Wired w) (hc : w.client sub fd = some c) : Wired (w.release sub fd) where
  behind := fun hk => h.behind (of_update_none hk)
  separate := fun hk hk' => h.separate (of_update_none hk) (of_update_none hk')
  added := by
    intro sub' fd' hadded
    have hne : fd' ≠ fd := by
      rintro rfl
      rw [h.not_client_of_added hadded] at hc
      cases hc
    simp only [Wiring.release, Function.update_of_ne hne]
    exact h.added hadded
  once := h.once
  made := h.made
  injective := h.injective
  client := by
    intro sub' fd' c' hc'
    rw [Wiring.client_release, Option.ite_none_left_eq_some] at hc'
    obtain ⟨hother, hold⟩ := hc'
    have hne : fd' ≠ fd := by
      rintro rfl
      exact hother ⟨(h.client_unique hc hold).1, rfl⟩
    simp only [Wiring.release, Function.update_of_ne hne]
    exact h.client hold

/-- A new descriptor waits for the reactor that was chosen for it. -/
theorem accept (h : Wired w) (hfd : w.fds fd = none) : Wired (w.accept sub fd) where
  behind := by
    intro fd' k hk
    simp only [Wiring.accept, Function.update_apply] at hk ⊢
    split_ifs at hk with heq
    · rw [← Option.some.inj hk]
      exact Nat.lt_succ_self _
    · exact Nat.lt_succ_of_lt (h.behind hk)
  separate := by
    intro fd' fd'' k hk hk'
    simp only [Wiring.accept, Function.update_apply] at hk hk'
    split_ifs at hk hk' with h1 h2 h2
    · rw [h1, h2]
    · rw [← Option.some.inj hk] at hk'
      exact absurd (h.behind hk') (Nat.lt_irrefl _)
    · rw [← Option.some.inj hk'] at hk
      exact absurd (h.behind hk) (Nat.lt_irrefl _)
    · exact h.separate hk hk'
  added := by
    intro sub' fd' hadded
    have hold : fd' ∈ w.added sub' → fd' ≠ fd := by
      rintro hmem rfl
      obtain ⟨k, hk, -⟩ := h.added hmem
      rw [hfd] at hk
      cases hk
    simp only [Wiring.accept, Function.update_apply] at hadded ⊢
    by_cases heq : fd' = fd
    · refine ⟨w.socketCount, if_pos heq, ?_, fun c hc => Nat.ne_of_lt (h.made hc).1⟩
      rw [if_pos rfl]
      split_ifs at hadded with hsub
      · exact hsub.symm
      · exact absurd heq (hold hadded)
    · rw [if_neg heq]
      have hmem : fd' ∈ w.added sub' := by
        split_ifs at hadded with hsub
        · rw [hsub]
          exact (List.mem_append.mp hadded).resolve_right fun hnew =>
            heq (List.mem_singleton.mp hnew)
        · exact hadded
      obtain ⟨k, hk, hsub, hfresh⟩ := h.added hmem
      refine ⟨k, hk, ?_, hfresh⟩
      rw [if_neg (Nat.ne_of_lt (h.behind hk)), hsub]
  once := by
    intro sub'
    simp only [Wiring.accept, Function.update_apply]
    split_ifs with hsub
    · refine (h.once sub).append (List.nodup_singleton fd) ?_
      rw [List.disjoint_singleton]
      intro hmem
      obtain ⟨k, hk, -⟩ := h.added hmem
      rw [hfd] at hk
      cases hk
    · exact h.once sub'
  made := by
    intro c hc
    obtain ⟨hlt, hsub⟩ := h.made hc
    refine ⟨Nat.lt_succ_of_lt hlt, ?_⟩
    simp only [Wiring.accept, Function.update_of_ne (Nat.ne_of_lt hlt)]
    exact hsub
  injective := h.injective
  client := by
    intro sub' fd' c hc
    obtain ⟨hlt, hloop, hfd', hsocket⟩ := h.client hc
    refine ⟨hlt, hloop, hfd', ?_⟩
    have hne : fd' ≠ fd := by
      rintro rfl
      rw [hfd] at hsocket
      cases hsocket
    simp only [Wiring.accept, Function.update_of_ne hne]
    exact hsocket

/-- A new descriptor that is closed again changes nothing for the others. -/
theorem reject (h : Wired w) (sub : Nat) : Wired (w.reject sub) where
  behind := fun hk => Nat.lt_succ_of_lt (h.behind hk)
  separate := h.separate
  added := by
    intro sub' fd' hadded
    obtain ⟨k, hk, hsub, hfresh⟩ := h.added hadded
    refine ⟨k, hk, ?_, hfresh⟩
    simp only [Wiring.reject, Function.update_of_ne (Nat.ne_of_lt (h.behind hk))]
    exact hsub
  once := h.once
  made := by
    intro c hc
    obtain ⟨hlt, hsub⟩ := h.made hc
    refine ⟨Nat.lt_succ_of_lt hlt, ?_⟩
    simp only [Wiring.reject, Function.update_of_ne (Nat.ne_of_lt hlt)]
    exact hsub
  injective := h.injective
  client := h.client

/-- The next descriptor that waits for a reactor leaves its queue. -/
theorem forget (h : Wired w) (sub : Nat) :
    Wired { w with added := Function.update w.added sub (w.added sub).tail } where
  behind := h.behind
  separate := h.separate
  added := by
    intro sub' fd' hmem
    simp only [Function.update_apply] at hmem
    split_ifs at hmem with heq
    · subst heq
      exact h.added (List.mem_of_mem_tail hmem)
    · exact h.added hmem
  once := by
    intro sub'
    simp only [Function.update_apply]
    split_ifs
    · exact (h.once sub).tail
    · exact h.once sub'
  made := h.made
  injective := h.injective
  client := h.client

/-- The next descriptor that waits for a reactor becomes its client. -/
theorem connect (h : Wired w) {rest : List Nat} (hadded : w.added sub = fd :: rest)
    (hk : w.fds fd = some k) : Wired (w.connect sub fd k) := by
  have hmem : fd ∈ w.added sub := hadded ▸ List.mem_cons_self
  obtain ⟨k', hk', hsub, hfresh⟩ := h.added hmem
  obtain rfl : k' = k := Option.some.inj (hk'.symm.trans hk)
  have honce := h.once sub
  rw [hadded, List.nodup_cons] at honce
  have htail : ∀ {sub'}, ∀ fd' ∈ Function.update w.added sub (w.added sub).tail sub',
      fd' ≠ fd ∧ fd' ∈ w.added sub' := by
    intro sub' fd' hmem'
    rw [Function.update_apply] at hmem'
    split_ifs at hmem' with heq
    · rw [hadded, List.tail_cons] at hmem'
      rw [heq, hadded]
      exact ⟨fun heq' => honce.1 (heq' ▸ hmem'), List.mem_cons_of_mem fd hmem'⟩
    · refine ⟨?_, hmem'⟩
      rintro rfl
      exact heq (h.added_unique hmem hmem')
  refine ⟨h.behind, h.separate, ?_, ?_, ?_, ?_, ?_⟩
  · intro sub' fd' hmem'
    obtain ⟨hne, hold⟩ := htail fd' hmem'
    obtain ⟨i, hi, hisub, hifresh⟩ := h.added hold
    refine ⟨i, hi, hisub, fun c hc => ?_⟩
    simp only [Wiring.connect, Function.update_apply] at hc ⊢
    split_ifs with heq
    · rintro rfl
      exact hne (h.separate hk hi)
    · exact hifresh c (by omega)
  · intro sub'
    simp only [Wiring.connect, Function.update_apply]
    split_ifs with heq
    · rw [hadded]
      exact honce.2
    · exact h.once sub'
  · intro c hc
    simp only [Wiring.connect, Function.update_apply] at hc ⊢
    split_ifs with heq
    · exact ⟨h.behind hk, hsub⟩
    · exact h.made (by omega)
  · intro c c' hc hc' heq
    simp only [Wiring.connect, Function.update_apply] at hc hc' heq
    split_ifs at heq with h1 h2 h2
    · rw [h1, h2]
    · exact absurd heq.symm (hfresh c' (by omega))
    · exact absurd heq (hfresh c (by omega))
    · exact h.injective (by omega) (by omega) heq
  · intro sub' fd' c hc
    simp only [Wiring.connect, update_update_apply] at hc
    split_ifs at hc with heq
    · obtain ⟨rfl, rfl⟩ := heq
      obtain rfl := Option.some.inj hc
      simp only [Wiring.connect, Function.update_self]
      exact ⟨Nat.lt_succ_self _, trivial, trivial, hk⟩
    · obtain ⟨hclt, hloop, hfd', hsocket⟩ := h.client hc
      have hne : c ≠ w.connectionCount := Nat.ne_of_lt hclt
      simp only [Wiring.connect, Function.update_of_ne hne]
      exact ⟨Nat.lt_succ_of_lt hclt, hloop, hfd', hsocket⟩

end Wired

/-! ## What changes the wiring -/

namespace TcpServer

variable {σ ε : Type} {s : TcpServer σ ε} {c sub fd : Nat}

theorem connections_self (s : TcpServer σ ε) (c : Nat) (f : ServerConnection → ServerConnection) :
    (s.modifyConnection c f).connections c = f (s.connections c) :=
  Function.update_self ..

theorem connections_of_ne (s : TcpServer σ ε) {c c' : Nat} (hne : c' ≠ c)
    (f : ServerConnection → ServerConnection) :
    (s.modifyConnection c f).connections c' = s.connections c' :=
  Function.update_of_ne hne ..

theorem subs_modifySub (s : TcpServer σ ε) (sub sub' : Nat) (f : SubReactor → SubReactor) :
    (s.modifySub sub f).subs sub' = if sub' = sub then f (s.subs sub') else s.subs sub' := by
  simp only [modifySub, Function.update_apply]
  split_ifs with heq
  · rw [heq]
  · rfl

theorem wiring_modifyConnection {f : ServerConnection → ServerConnection}
    (hloop : (f (s.connections c)).loop = (s.connections c).loop)
    (hfd : (f (s.connections c)).fd = (s.connections c).fd)
    (hsocket : (f (s.connections c)).socket = (s.connections c).socket) :
    (s.modifyConnection c f).wiring = s.wiring := by
  unfold modifyConnection wiring
  congr 1 <;> funext c'
  all_goals
    simp only [Function.update_apply]
    split_ifs with heq
    · rw [heq]
      assumption
    · rfl

theorem wiring_modifySocket {f : Socket → Socket} (hf : ∀ x, (f x).sub = x.sub) :
    (s.modifySocket fd f).wiring = s.wiring := by
  unfold modifySocket
  split
  · rfl
  · unfold wiring
    congr 1
    funext k
    simp only [Function.update_apply]
    split_ifs with heq
    · rw [heq, hf]
    · rfl

/-- The tasks and the clients of the reactors are what matters. -/
theorem wiring_modifySub {f : SubReactor → SubReactor}
    (hadded : (f (s.subs sub)).tasks.filterMap LoopTask.added =
      (s.subs sub).tasks.filterMap LoopTask.added)
    (hclient : ∀ fd, ((f (s.subs sub)).clients fd).map Client.connection =
      ((s.subs sub).clients fd).map Client.connection) :
    (s.modifySub sub f).wiring = s.wiring := by
  unfold modifySub wiring
  congr 1
  · funext sub'
    simp only [Function.update_apply]
    split_ifs with heq
    · rw [heq, hadded]
    · rfl
  · funext sub' fd
    simp only [Function.update_apply]
    split_ifs with heq
    · rw [heq, hclient]
    · rfl

theorem wiring_modifyClient {f : Client → Client} (hf : ∀ x, (f x).connection = x.connection) :
    (s.modifyClient sub fd f).wiring = s.wiring := by
  refine wiring_modifySub rfl fun fd' => ?_
  simp only [Function.update_apply]
  split_ifs with heq
  · rw [heq, Option.map_map]
    exact congrArg (Option.map · _) (funext hf)
  · rfl

theorem wiring_modifyFd (b : Bool) : (s.modifyFd sub fd b).wiring = s.wiring :=
  wiring_modifySub rfl fun _ => rfl

theorem wiring_enqueue {task : LoopTask} (htask : task.added = none) :
    (s.enqueue sub task).wiring = s.wiring := by
  refine wiring_modifySub ?_ fun _ => rfl
  simp only [List.filterMap_append, List.filterMap_cons_none htask, List.filterMap_nil,
    List.append_nil]

theorem wiring_dequeue {task : LoopTask} {rest : List LoopTask}
    (htasks : (s.subs sub).tasks = task :: rest) (htask : task.added = none) :
    (s.modifySub sub fun r => { r with tasks := rest }).wiring = s.wiring := by
  refine wiring_modifySub ?_ fun _ => rfl
  rw [htasks, List.filterMap_cons_none htask]

theorem wiring_drop (ticket : Ticket) : (s.drop ticket).wiring = s.wiring :=
  wiring_modifyConnection rfl rfl rfl

theorem wiring_answer (ticket : Ticket) (response : RawResponse) (write : TcpConnection) :
    (s.answer ticket response write).wiring = s.wiring :=
  wiring_modifyConnection rfl rfl rfl

theorem wiring_client {client : Client} (hclient : (s.subs sub).clients fd = some client)
    (hc : client.connection = c) : s.wiring.client sub fd = some c :=
  (congrArg (Option.map Client.connection) hclient).trans (congrArg some hc)

theorem wiring_closeClient {client : Client} (hclient : (s.subs sub).clients fd = some client) :
    (s.closeClient sub fd).wiring = s.wiring.release sub fd := by
  simp only [closeClient, hclient]
  unfold Wiring.release wiring modifySub closeFd
  congr 1
  · funext sub'
    simp only [Function.update_apply]
    split_ifs with heq
    · rw [heq]
    · rfl
  · funext sub' fd'
    by_cases heq : sub' = sub
    · subst heq
      simp only [Function.update_self, Function.update_apply]
      split_ifs <;> rfl
    · simp only [Function.update_of_ne heq]

end TcpServer

end MqBroker
