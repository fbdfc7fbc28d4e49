import MqBroker.Core.MpmcQueue
import Mathlib.Data.Fintype.Basic

/-!
# The Thread Pool

`ThreadPool` runs the tasks that are submitted to it on a fixed number of
workers. A queue holds the tasks, a counter says how many are in it, and a mutex
with a condition variable lets workers sleep while it is empty.

The counter is not part of the queue. `Submit` adds to it after it has put a
task into the queue, and a worker subtracts after it has taken one out, without
the mutex. Between the two steps the counter is wrong, and it can pass below
zero. Every operation on the queue, the counter, the flag and the mutex is a
step of its own here, and steps of any two threads come in any order.

The queue is a list of at most `capacity` tasks. Its operations may also fail for
no visible reason, as they do while another thread is inside one. A worker that
waits may wake up at any time, which covers notifications as well as the
spurious wake-ups a condition variable allows.

A task is numbered when it enters the queue, so that equal tasks can be told
apart. `accepted` and `executed` are not fields of the source: they record which
tasks entered the queue and which have been run.

## Main definitions

* `WorkerPoint`, `ClientPoint`: Where a worker or a caller is.
* `ThreadPool`, `ThreadPool.create`: The pool and its constructor.
* `ThreadPool.runWorker`, `ThreadPool.call`: One step of a worker or a caller.
* `ThreadPool.exec`: One step of the pool.
-/

namespace MqBroker

/-- Where a worker is in `RunWorker`. -/
inductive WorkerPoint (τ : Type)
  /-- About to take a task from the queue. -/
  | dequeue
  /-- About to subtract one from `queued_tasks_`. -/
  | subtract (task : Nat × τ)
  /-- About to run the task. -/
  | run (task : Nat × τ)
  /-- About to lock `wait_mutex_`. -/
  | lock
  /-- In the wait's predicate, about to load `stopping_`. -/
  | waitStopping
  /-- In the wait's predicate, about to load `queued_tasks_`. -/
  | waitQueued
  /-- Asleep with the mutex unlocked. -/
  | asleep
  /-- In the exit test, about to load `stopping_`. -/
  | exitStopping
  /-- In the exit test, about to load `queued_tasks_`. -/
  | exitQueued
  /-- About to unlock and start over. -/
  | unlock
  /-- About to unlock and return. -/
  | unlockReturn
  | returned

/-- Where a caller is in `Submit` or `Shutdown`. -/
inductive ClientPoint (τ : Type)
  /-- In neither function. -/
  | outside
  /-- About to lock `wait_mutex_` in `Submit`. The task may be empty. -/
  | submitLock (task : Option τ)
  /-- About to check the task and load `stopping_`. -/
  | submitCheck (task : Option τ)
  /-- About to put the task into the queue. -/
  | submitEnqueue (task : τ)
  /-- About to add one to `queued_tasks_` and notify a worker. -/
  | submitCount
  /-- About to unlock and return. -/
  | submitUnlock (result : Bool)
  /-- `Submit` has returned. -/
  | submitted (result : Bool)
  /-- About to lock `wait_mutex_` in `Shutdown`. -/
  | shutdownLock
  /-- About to compare and exchange `stopping_`. -/
  | shutdownExchange
  /-- About to unlock, and to return unless this call has set the flag. -/
  | shutdownUnlock (first : Bool)
  /-- About to join the workers. -/
  | shutdownJoin
  /-- `Shutdown` has returned. -/
  | shutDown

/-- `ThreadPool`, its workers `ω` and the threads `κ` that call it. -/
structure ThreadPool (ω κ τ : Type) where
  /-- The most tasks the queue holds. -/
  capacity : Nat
  /-- The queue, oldest task first. -/
  queue : List (Nat × τ)
  queuedTasks : UInt64
  stopping : Bool
  /-- Who has locked `wait_mutex_`. -/
  mutex : Option (ω ⊕ κ)
  worker : ω → WorkerPoint τ
  client : κ → ClientPoint τ
  /-- The tasks that have entered the queue, in order. -/
  accepted : List τ
  /-- The tasks that have been run, with their numbers. -/
  executed : List (Nat × τ)

/-- What happens next. `fails` is whether an operation on the queue fails for no
    visible reason. -/
inductive PoolEvent (ω κ τ : Type)
  | submit (client : κ) (task : Option τ)
  | shutdown (client : κ)
  | client (client : κ) (fails : Bool)
  | worker (worker : ω) (fails : Bool)

/-- No vector has more elements than `PTRDIFF_MAX`. `std::vector::reserve` throws
    `std::length_error` for more. -/
def vectorMaxSize : Nat := 2 ^ 63 - 1

namespace ThreadPool

variable {ω κ τ : Type}

/-- The constructor. It throws if there is to be no worker, or more than the
    vector of workers can hold. -/
def create (κ τ : Type) (workerCount queueCapacity : UInt64) :
    Option (ThreadPool (Fin workerCount.toNat) κ τ) :=
  if workerCount = 0 then none
  else if vectorMaxSize < workerCount.toNat then none
  else some
    { capacity := (normalizeCapacity queueCapacity).toNat
      queue := []
      queuedTasks := 0
      stopping := false
      mutex := none
      worker := fun _ => .dequeue
      client := fun _ => .outside
      accepted := []
      executed := [] }

variable [DecidableEq ω] [DecidableEq κ]

/-- Worker `w` has reached another point. -/
def goWorker (s : ThreadPool ω κ τ) (w : ω) (point : WorkerPoint τ) : ThreadPool ω κ τ :=
  { s with worker := Function.update s.worker w point }

/-- Caller `c` has reached another point. -/
def goClient (s : ThreadPool ω κ τ) (c : κ) (point : ClientPoint τ) : ThreadPool ω κ τ :=
  { s with client := Function.update s.client c point }

/-- The next step of worker `w`, which runs `RunWorker`. -/
def runWorker (s : ThreadPool ω κ τ) (w : ω) (fails : Bool) : ThreadPool ω κ τ :=
  match s.worker w with
  | .dequeue =>
      match s.queue, fails with
      | task :: rest, false => { s with queue := rest }.goWorker w (.subtract task)
      -- `TryDequeue` has found nothing, or has given up.
      | _, _ => s.goWorker w .lock
  | .subtract task => { s with queuedTasks := s.queuedTasks - 1 }.goWorker w (.run task)
  | .run task => { s with executed := s.executed ++ [task] }.goWorker w .dequeue
  -- Whoever wakes up, for whatever reason, takes the mutex before it looks at the
  -- predicate again.
  | .lock | .asleep =>
      if s.mutex.isNone then { s with mutex := some (.inl w) }.goWorker w .waitStopping else s
  | .waitStopping => s.goWorker w (if s.stopping then .exitStopping else .waitQueued)
  | .waitQueued =>
      if s.queuedTasks ≠ 0 then s.goWorker w .exitStopping
      -- `wait` unlocks and sleeps in one step.
      else { s with mutex := none }.goWorker w .asleep
  | .exitStopping => s.goWorker w (if s.stopping then .exitQueued else .unlock)
  | .exitQueued => s.goWorker w (if s.queuedTasks = 0 then .unlockReturn else .unlock)
  | .unlock => { s with mutex := none }.goWorker w .dequeue
  | .unlockReturn => { s with mutex := none }.goWorker w .returned
  | .returned => s

/-- A worker that has returned can be joined. -/
def joinable (point : WorkerPoint τ) : Bool :=
  match point with
  | .returned => true
  | _ => false

variable [Fintype ω]

/-- The next step of caller `c`, which is in `Submit` or `Shutdown`. -/
def call (s : ThreadPool ω κ τ) (c : κ) (fails : Bool) : ThreadPool ω κ τ :=
  match s.client c with
  | .outside | .submitted _ | .shutDown => s
  | .submitLock task =>
      if s.mutex.isNone then { s with mutex := some (.inr c) }.goClient c (.submitCheck task) else s
  | .submitCheck task =>
      match task, s.stopping with
      | some task, false => s.goClient c (.submitEnqueue task)
      -- An empty function is refused like a pool that is stopping.
      | _, _ => s.goClient c (.submitUnlock false)
  | .submitEnqueue task =>
      if s.queue.length < s.capacity ∧ fails = false then
        { s with
          queue := s.queue ++ [(s.accepted.length, task)]
          accepted := s.accepted ++ [task] }.goClient c .submitCount
      else s.goClient c (.submitUnlock false)
  | .submitCount =>
      { s with queuedTasks := s.queuedTasks + 1 }.goClient c (.submitUnlock true)
  | .submitUnlock result => { s with mutex := none }.goClient c (.submitted result)
  | .shutdownLock =>
      if s.mutex.isNone then { s with mutex := some (.inr c) }.goClient c .shutdownExchange else s
  | .shutdownExchange =>
      if s.stopping then s.goClient c (.shutdownUnlock false)
      else { s with stopping := true }.goClient c (.shutdownUnlock true)
  | .shutdownUnlock first =>
      { s with mutex := none }.goClient c (if first then .shutdownJoin else .shutDown)
  | .shutdownJoin =>
      -- The workers are joined one after the other; the last one decides.
      if ∀ w, joinable (s.worker w) = true then s.goClient c .shutDown else s

/-- The caller is in neither function. -/
def Outside (s : ThreadPool ω κ τ) (c : κ) : Bool :=
  match s.client c with
  | .outside | .submitted _ | .shutDown => true
  | _ => false

/-- What one event does. A thread makes one call at a time. -/
def exec (s : ThreadPool ω κ τ) : PoolEvent ω κ τ → ThreadPool ω κ τ
  | .submit c task => if s.Outside c then s.goClient c (.submitLock task) else s
  | .shutdown c => if s.Outside c then s.goClient c .shutdownLock else s
  | .client c fails => s.call c fails
  | .worker w fails => s.runWorker w fails

end ThreadPool

end MqBroker
