import MqBroker.Network.Streams

/-!
# Writing Is Woken Up

A response that has entered a write queue is written when the descriptor is
watched for `EPOLLOUT`. `HandleClient` sees to that itself at its end. A response
from a worker enters the queue by a task, and it is a second task of the worker
that arms the descriptor. Between the two anything may happen, so what keeps a
response from being forgotten is that the second task is still to come: it is
behind the first in the same queue, or the worker has not queued it yet.

The loop may have no room for the second task, and nobody looks at that. `rearmLost`
records it, and everything here is about connections it has not happened to.

As in `Streaming`, the connection that `HandleClient` works for is left out.

## Main definitions

* `TcpServer.Coming`: The task that arms the descriptor is still to come.
* `TcpServer.Followed`: Behind every frame in a queue it is to come.
* `Awake`: Whatever is writable is watched for.

## Theorems

* `Awake.modify`: Steps that leave the reactors alone.
* `Awake.entry`: Steps of one client.
* `Awake.enqueue`, `Awake.dequeue`: Steps of a queue.
* `Awake.append`, `Awake.rearmTask`: The two tasks of a worker.
-/

namespace MqBroker

variable {σ ε : Type}

namespace TcpServer

/-- A worker is about to queue the task that arms the descriptor. -/
def Waiting (s : TcpServer σ ε) (c : Nat) : Prop :=
  ∃ job ∈ s.jobs, job.stage = .rearm ∧ job.ticket.connection = c

/-- That task is in a queue, or about to be. -/
def Coming (s : TcpServer σ ε) (tasks : List LoopTask) (c : Nat) : Prop :=
  .rearm (s.connections c).fd c ∈ tasks ∨ s.Waiting c

/-- It was lost, or it is to come. -/
def Rearmed (s : TcpServer σ ε) (tasks : List LoopTask) (c : Nat) : Prop :=
  (s.connections c).rearmLost = true ∨ s.Coming tasks c

/-- Behind every frame in a queue there is the task that arms its descriptor. -/
def Followed (s : TcpServer σ ε) : List LoopTask → Prop
  | [] => True
  | .appendWrite t _ _ :: rest => s.Rearmed rest t.connection ∧ s.Followed rest
  | _ :: rest => s.Followed rest

variable {s s' : TcpServer σ ε} {tasks : List LoopTask}

theorem Followed.tail {task : LoopTask} (h : s.Followed (task :: tasks)) : s.Followed tasks := by
  cases task with
  | appendWrite t response frame => exact h.2
  | addClient fd => exact h
  | rearm fd c => exact h

/-- A queue grows at its end, and what was to come still is. -/
theorem Followed.append {extra : List LoopTask} (h : s.Followed tasks)
    (hkeep : ∀ t response frame, .appendWrite t response frame ∈ tasks →
      ∀ rest, s.Rearmed rest t.connection → s'.Rearmed (rest ++ extra) t.connection)
    (hextra : s'.Followed extra) : s'.Followed (tasks ++ extra) := by
  induction tasks with
  | nil => exact hextra
  | cons task tasks ih =>
      have hrest := ih h.tail fun t response frame hmem =>
        hkeep t response frame (List.mem_cons_of_mem task hmem)
      cases task with
      | appendWrite t response frame =>
          exact ⟨hkeep t response frame List.mem_cons_self tasks h.1, hrest⟩
      | addClient fd => exact hrest
      | rearm fd c => exact hrest

end TcpServer

/-- What a client has to write is watched for, or the task that arms its descriptor
    is still to come. The connection that is busy is left out. -/
structure Awake (s : TcpServer σ ε) (busy : Option Nat) : Prop where
  registered : ∀ {sub fd client}, (s.subs sub).clients fd = some client →
    (s.subs sub).interest fd ≠ none
  unready : ∀ {sub fd client}, (s.subs sub).clients fd = some client → client.tlsReady = false →
    (s.connections client.connection).requests = []
  followed : ∀ sub, s.Followed (s.subs sub).tasks
  armed : ∀ {sub fd client}, (s.subs sub).clients fd = some client →
    busy ≠ some client.connection → (s.connections client.connection).write.writable ≠ [] →
    (s.subs sub).interest fd = some true ∨ s.Rearmed (s.subs sub).tasks client.connection

namespace Awake

variable {s s' : TcpServer σ ε} {busy : Option Nat} {c sub fd : Nat}

/-- Nothing changes in the reactors, and what was to come for the connections that
    exist still is. -/
theorem modify (h : Awake s busy) (hw : Wired s.wiring) (ha : Accounted s.books none)
    (hsubs : s'.subs = s.subs)
    (hkeep : ∀ c < s.connectionCount, ∀ tasks, s.Rearmed tasks c → s'.Rearmed tasks c)
    (hrequests : ∀ {sub fd client}, (s.subs sub).clients fd = some client →
      client.tlsReady = false →
      (s'.connections client.connection).requests = (s.connections client.connection).requests)
    (hwritable : ∀ c < s.connectionCount, busy ≠ some c →
      (s'.connections c).write.writable ≠ [] → (s.connections c).write.writable ≠ []) :
    Awake s' busy where
  registered := by
    intro sub fd client hclient
    rw [hsubs] at hclient ⊢
    exact h.registered hclient
  unready := by
    intro sub fd client hclient hready
    rw [hsubs] at hclient
    rw [hrequests hclient hready]
    exact h.unready hclient hready
  followed := by
    intro sub
    rw [hsubs, ← List.append_nil (s.subs sub).tasks]
    refine (h.followed sub).append (fun t response frame hmem rest hrearmed => ?_) trivial
    rw [List.append_nil]
    exact hkeep _ (ha.task sub t response frame hmem).1 rest hrearmed
  armed := by
    intro sub fd client hclient hbusy hne
    rw [hsubs] at hclient ⊢
    have hlt : client.connection < s.connectionCount :=
      (hw.client (TcpServer.wiring_client hclient rfl)).1
    rcases h.armed hclient hbusy (hwritable _ hlt hbusy hne) with hinterest | hrearmed
    · exact Or.inl hinterest
    · exact Or.inr (hkeep _ hlt _ hrearmed)

/-- One entry of the clients and of the epoll set changes. -/
theorem entry {busy' : Option Nat} (h : Awake s busy) (sub fd : Nat)
    (hconnections : s'.connections = s.connections) (hjobs : s'.jobs = s.jobs)
    (htasks : ∀ sub, (s'.subs sub).tasks = (s.subs sub).tasks)
    (hother : ∀ sub' fd', ¬ (sub' = sub ∧ fd' = fd) →
      (s'.subs sub').clients fd' = (s.subs sub').clients fd' ∧
        (s'.subs sub').interest fd' = (s.subs sub').interest fd')
    (hbusy : ∀ sub' fd' client, ¬ (sub' = sub ∧ fd' = fd) →
      (s.subs sub').clients fd' = some client → busy' ≠ some client.connection →
        busy ≠ some client.connection)
    (hentry : ∀ client, (s'.subs sub).clients fd = some client →
      (s'.subs sub).interest fd ≠ none ∧
      (client.tlsReady = false → (s.connections client.connection).requests = []) ∧
      (busy' ≠ some client.connection →
        (s.connections client.connection).write.writable ≠ [] →
        (s'.subs sub).interest fd = some true ∨
          s.Rearmed (s.subs sub).tasks client.connection)) :
    Awake s' busy' := by
  have hrearmed : ∀ {tasks c}, s.Rearmed tasks c → s'.Rearmed tasks c := by
    intro tasks c hold
    simp only [TcpServer.Rearmed, TcpServer.Coming, TcpServer.Waiting, hconnections, hjobs]
    exact hold
  refine ⟨?_, ?_, ?_, ?_⟩
  · intro sub' fd' client hclient
    by_cases heq : sub' = sub ∧ fd' = fd
    · obtain ⟨rfl, rfl⟩ := heq
      exact (hentry client hclient).1
    · rw [(hother sub' fd' heq).1] at hclient
      rw [(hother sub' fd' heq).2]
      exact h.registered hclient
  · intro sub' fd' client hclient hready
    rw [hconnections]
    by_cases heq : sub' = sub ∧ fd' = fd
    · obtain ⟨rfl, rfl⟩ := heq
      exact (hentry client hclient).2.1 hready
    · rw [(hother sub' fd' heq).1] at hclient
      exact h.unready hclient hready
  · intro sub'
    rw [htasks, ← List.append_nil (s.subs sub').tasks]
    refine (h.followed sub').append (fun t response frame _ rest hold => ?_) trivial
    rw [List.append_nil]
    exact hrearmed hold
  · intro sub' fd' client hclient hbusy' hne
    rw [hconnections] at hne
    rw [htasks]
    by_cases heq : sub' = sub ∧ fd' = fd
    · obtain ⟨rfl, rfl⟩ := heq
      exact ((hentry client hclient).2.2 hbusy' hne).imp_right hrearmed
    · rw [(hother sub' fd' heq).1] at hclient
      rw [(hother sub' fd' heq).2]
      exact (h.armed hclient (hbusy sub' fd' client heq hclient hbusy') hne).imp_right hrearmed

/-- Any connection may be busy. -/
theorem suspend (h : Awake s none) (c : Nat) : Awake s (some c) :=
  ⟨h.registered, h.unready, h.followed, fun hclient _ =>
    h.armed hclient (Option.some_ne_none _).symm⟩

/-- What the busy connection has to write is watched for again. -/
theorem finish (h : Awake s (some c))
    (hc : ∀ {sub fd client}, (s.subs sub).clients fd = some client → client.connection = c →
      (s.connections c).write.writable ≠ [] →
      (s.subs sub).interest fd = some true ∨ s.Rearmed (s.subs sub).tasks c) : Awake s none where
  registered := h.registered
  unready := h.unready
  followed := h.followed
  armed := by
    intro sub fd client hclient _ hne
    by_cases heq : client.connection = c
    · rw [heq] at hne ⊢
      exact hc hclient heq hne
    · exact h.armed hclient (fun hbusy => heq (Option.some.inj hbusy).symm) hne

/-! ## Queues -/

/-- A task is queued. -/
theorem enqueue {task : LoopTask} (h : Awake s none) (hw : Wired s.wiring)
    (ha : Accounted s.books none) (hconnections : s'.connections = s.connections)
    (hclients : ∀ sub', (s'.subs sub').clients = (s.subs sub').clients)
    (hinterest : ∀ sub', (s'.subs sub').interest = (s.subs sub').interest)
    (hqueue : ∀ sub', (s'.subs sub').tasks =
      (s.subs sub').tasks ++ if sub' = sub then [task] else [])
    (hkeep : ∀ c < s.connectionCount, ∀ tasks, s.Rearmed tasks c →
      s'.Rearmed (tasks ++ if (s.connections c).loop = sub then [task] else []) c)
    (hnew : s'.Followed [task]) : Awake s' none where
  registered := by
    intro sub' fd client hclient
    rw [hclients] at hclient
    rw [hinterest]
    exact h.registered hclient
  unready := by
    intro sub' fd client hclient hready
    rw [hclients] at hclient
    rw [hconnections]
    exact h.unready hclient hready
  followed := by
    intro sub'
    rw [hqueue]
    refine (h.followed sub').append (fun t response frame hmem rest hrearmed => ?_) ?_
    · obtain ⟨hlt, hloop⟩ := ha.task sub' t response frame hmem
      have hloop' : (s.connections t.connection).loop = sub' := hloop
      have hnext := hkeep _ hlt rest hrearmed
      rw [hloop'] at hnext
      exact hnext
    · split_ifs
      · exact hnew
      · trivial
  armed := by
    intro sub' fd client hclient hbusy hne
    rw [hclients] at hclient
    rw [hconnections] at hne
    rw [hinterest, hqueue]
    obtain ⟨hlt, hloop, -, -⟩ := hw.client (TcpServer.wiring_client hclient rfl)
    have hloop' : (s.connections client.connection).loop = sub' := hloop
    refine (h.armed hclient hbusy hne).imp_right fun hrearmed => ?_
    have hnext := hkeep _ hlt _ hrearmed
    rw [hloop'] at hnext
    exact hnext

/-- A task is taken from the front. The connection it is for may be busy after
    it. -/
theorem dequeue {task : LoopTask} {rest : List LoopTask} (h : Awake s none)
    (htasks : (s.subs sub).tasks = task :: rest)
    (hqueue : ∀ sub', (s'.subs sub').tasks = if sub' = sub then rest else (s.subs sub').tasks)
    (hclients : ∀ sub', (s'.subs sub').clients = (s.subs sub').clients)
    (hinterest : ∀ sub', (s'.subs sub').interest = (s.subs sub').interest)
    (hjobs : s'.jobs = s.jobs)
    (hconnection : ∀ c, (s'.connections c).fd = (s.connections c).fd ∧
      (s'.connections c).rearmLost = (s.connections c).rearmLost ∧
      (s'.connections c).requests = (s.connections c).requests)
    (hwrite : ∀ c, busy ≠ some c → (s'.connections c).write = (s.connections c).write)
    (hpopped : ∀ {fd client}, (s.subs sub).clients fd = some client →
      busy ≠ some client.connection →
        task ≠ .rearm (s.connections client.connection).fd client.connection) :
    Awake s' busy := by
  have hrearmed : ∀ {tasks c}, s.Rearmed tasks c → s'.Rearmed tasks c := by
    intro tasks c hold
    simp only [TcpServer.Rearmed, TcpServer.Coming, TcpServer.Waiting, (hconnection c).1,
      (hconnection c).2.1, hjobs]
    exact hold
  have hfollowed : ∀ {tasks}, s.Followed tasks → s'.Followed tasks := by
    intro tasks hold
    rw [← List.append_nil tasks]
    refine hold.append (fun t response frame _ rest hold => ?_) trivial
    rw [List.append_nil]
    exact hrearmed hold
  refine ⟨?_, ?_, ?_, ?_⟩
  · intro sub' fd client hclient
    rw [hclients] at hclient
    rw [hinterest]
    exact h.registered hclient
  · intro sub' fd client hclient hready
    rw [hclients] at hclient
    rw [(hconnection _).2.2]
    exact h.unready hclient hready
  · intro sub'
    rw [hqueue]
    split_ifs
    · exact hfollowed (htasks ▸ h.followed sub).tail
    · exact hfollowed (h.followed sub')
  · intro sub' fd client hclient hbusy hne
    rw [hclients] at hclient
    rw [hwrite _ hbusy] at hne
    rw [hinterest, hqueue]
    refine (h.armed hclient (Option.some_ne_none _).symm hne).imp_right fun hold => ?_
    split_ifs with heq
    · subst heq
      refine hrearmed (hold.imp_right fun hcoming => hcoming.imp_left fun hmem => ?_)
      rw [htasks] at hmem
      exact (List.mem_cons.mp hmem).resolve_left (hpopped hclient hbusy).symm
    · exact hrearmed hold

end Awake

end MqBroker
