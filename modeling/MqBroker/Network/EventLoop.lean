import MqBroker.Core.MpmcQueue
import Mathlib.Logic.Function.Basic

/-!
# The Event Loop

An `EventLoop` owns a thread. The thread takes tasks from a queue and runs them,
and while there are none it waits for its descriptors and calls their callbacks.
Any thread may hand it a task with `QueueInLoop`, and any thread may stop it.

Callers exclude each other by a mutex. The thread of the loop never takes it: it
looks at the queue, at the counter and at the flag as they are. The counter is
not part of the queue. `QueueInLoop` adds to it after it has put a task into the
queue, and the thread subtracts after it has taken one out, so between the two
the counter can pass below zero. Every access is a step of its own here, and the
steps of all threads come in any order.

The tasks and the callbacks may call the loop themselves. Such a caller runs on
the thread of the loop, and `own` says which callers these are. Joining the
thread from the thread itself throws. What else a task does, and what it throws,
is caught by the loop and does not concern it.

The model is of the code for Linux. The queue is a list of at most `capacity`
tasks whose operations may also fail for no visible reason, as they do while
another thread is inside one. A wait for descriptors ends by itself after a few
milliseconds, so the write to the wake-up descriptor does not show.

`spawned`, `accepted` and `executed` are not fields of the source: they record
how many threads were made, which tasks entered the queue and which were run.

## Main definitions

* `LoopPoint`, `LoopCaller`: Where the thread or a caller is.
* `EventLoop`, `EventLoop.create`: The loop and its constructor.
* `EventLoop.run`, `EventLoop.call`: One step of the thread or a caller.
* `EventLoop.exec`: One step of the loop.
-/

namespace MqBroker

/-- Where the thread of a loop is in `Run`. -/
inductive LoopPoint (τ : Type)
  /-- About to take a task from the queue. -/
  | dequeue
  /-- About to subtract one from `queued_tasks_`. -/
  | subtract (task : τ)
  /-- About to run the task. -/
  | run (task : τ)
  /-- About to wait for the descriptors and to call their callbacks. -/
  | poll
  /-- In the exit test, about to load `stopping_`. -/
  | exitStopping
  /-- In the exit test, about to load `queued_tasks_`. -/
  | exitQueued
  | returned

/-- Where a caller is in `Start`, `QueueInLoop` or `Stop`. -/
inductive LoopCaller (τ : Type)
  /-- In none of them. -/
  | outside
  /-- About to compare and exchange `started_`. -/
  | startExchange
  /-- About to open the two descriptors and to watch the one for wake-ups. -/
  | startOpen
  /-- About to make the thread. -/
  | startThread
  /-- About to clear `started_`, as the thread or a descriptor was not to be had. -/
  | startUndo (threw : Bool)
  /-- `Start` has returned. -/
  | started (result : Bool)
  /-- About to lock `wait_mutex_` in `QueueInLoop`. The task may be empty. -/
  | queueLock (task : Option τ)
  /-- About to check the task and load `started_`. -/
  | queueStarted (task : Option τ)
  /-- About to load `stopping_`. -/
  | queueStopping (task : τ)
  /-- About to put the task into the queue. -/
  | queueEnqueue (task : τ)
  /-- About to add one to `queued_tasks_` and wake the thread up. -/
  | queueCount
  /-- About to unlock and return. -/
  | queueUnlock (result : Bool)
  /-- `QueueInLoop` has returned. -/
  | queued (result : Bool)
  /-- About to load `started_` in `Stop`. -/
  | stopStarted
  /-- About to lock `wait_mutex_` in `Stop`. -/
  | stopLock
  /-- About to compare and exchange `stopping_`. -/
  | stopExchange
  /-- About to unlock, and to return unless this call has set the flag. -/
  | stopUnlock (first : Bool)
  /-- About to join the thread. -/
  | stopJoin
  /-- `Stop` has returned, after it has joined the thread or without. -/
  | stopped (joined : Bool)
  /-- `Start` or `Stop` has thrown. -/
  | threw

/-- `EventLoop`, and the threads `κ` that call it. -/
structure EventLoop (κ τ : Type) where
  /-- The most tasks the queue holds. -/
  capacity : Nat
  /-- The queue, oldest task first. -/
  queue : List τ
  queuedTasks : UInt64
  started : Bool
  stopping : Bool
  /-- Who has locked `wait_mutex_`. -/
  mutex : Option κ
  /-- The thread, once there is one. -/
  thread : Option (LoopPoint τ)
  client : κ → LoopCaller τ
  /-- The number of threads that were made. -/
  spawned : Nat
  /-- The tasks that have entered the queue, in order. -/
  accepted : List τ
  /-- The tasks that have been run, in order. -/
  executed : List τ

/-- What happens next. `ok` is whether the operating system does what a caller asks
    for and the queue does not fail for no visible reason, and `fails` is whether it
    does for the thread. -/
inductive LoopEvent (κ τ : Type)
  | start (client : κ)
  | queueInLoop (client : κ) (task : Option τ)
  | stop (client : κ)
  | client (client : κ) (ok : Bool)
  | loop (fails : Bool)

namespace EventLoop

variable {κ τ : Type}

/-- The constructor. -/
def create (κ τ : Type) (queueCapacity : UInt64) : EventLoop κ τ where
  capacity := (normalizeCapacity queueCapacity).toNat
  queue := []
  queuedTasks := 0
  started := false
  stopping := false
  mutex := none
  thread := none
  client := fun _ => .outside
  spawned := 0
  accepted := []
  executed := []

/-- The thread has reached another point. -/
def goThread (s : EventLoop κ τ) (point : LoopPoint τ) : EventLoop κ τ :=
  { s with thread := some point }

/-- The next step of the thread, which runs `Run`. -/
def run (s : EventLoop κ τ) (fails : Bool) : EventLoop κ τ :=
  match s.thread with
  | none => s
  | some .dequeue =>
      match s.queue, fails with
      | task :: rest, false => { s with queue := rest }.goThread (.subtract task)
      -- `TryDequeue` has found nothing, or has given up.
      | _, _ => s.goThread .poll
  | some (.subtract task) => { s with queuedTasks := s.queuedTasks - 1 }.goThread (.run task)
  | some (.run task) => { s with executed := s.executed ++ [task] }.goThread .dequeue
  | some .poll => s.goThread .exitStopping
  | some .exitStopping => s.goThread (if s.stopping then .exitQueued else .dequeue)
  | some .exitQueued => s.goThread (if s.queuedTasks = 0 then .returned else .dequeue)
  | some .returned => s

/-- A thread that has returned can be joined. -/
def hasReturned : Option (LoopPoint τ) → Bool
  | some .returned => true
  | _ => false

variable [DecidableEq κ]

/-- Caller `c` has reached another point. -/
def goCaller (s : EventLoop κ τ) (c : κ) (point : LoopCaller τ) : EventLoop κ τ :=
  { s with client := Function.update s.client c point }

variable (own : κ → Bool)

/-- The next step of caller `c`, which is in `Start`, `QueueInLoop` or `Stop`. -/
def call (s : EventLoop κ τ) (c : κ) (ok : Bool) : EventLoop κ τ :=
  match s.client c with
  | .outside | .started _ | .queued _ | .stopped _ | .threw => s
  | .startExchange =>
      if s.started then s.goCaller c (.started false)
      else { s with started := true }.goCaller c .startOpen
  | .startOpen => s.goCaller c (if ok then .startThread else .startUndo false)
  | .startThread =>
      if ok then
        { s with thread := some .dequeue, spawned := s.spawned + 1 }.goCaller c (.started true)
      else s.goCaller c (.startUndo true)
  | .startUndo threw =>
      { s with started := false }.goCaller c (if threw then .threw else .started false)
  | .queueLock task =>
      if s.mutex.isNone then { s with mutex := some c }.goCaller c (.queueStarted task) else s
  | .queueStarted task =>
      match task, s.started with
      | some task, true => s.goCaller c (.queueStopping task)
      -- An empty function is refused like a loop that was not started.
      | _, _ => s.goCaller c (.queueUnlock false)
  | .queueStopping task =>
      s.goCaller c (if s.stopping then .queueUnlock false else .queueEnqueue task)
  | .queueEnqueue task =>
      if s.queue.length < s.capacity ∧ ok = true then
        { s with queue := s.queue ++ [task], accepted := s.accepted ++ [task] }.goCaller c
          .queueCount
      else s.goCaller c (.queueUnlock false)
  | .queueCount => { s with queuedTasks := s.queuedTasks + 1 }.goCaller c (.queueUnlock true)
  | .queueUnlock result => { s with mutex := none }.goCaller c (.queued result)
  | .stopStarted => s.goCaller c (if s.started then .stopLock else .stopped false)
  | .stopLock =>
      if s.mutex.isNone then { s with mutex := some c }.goCaller c .stopExchange else s
  | .stopExchange =>
      if s.stopping then s.goCaller c (.stopUnlock false)
      else { s with stopping := true }.goCaller c (.stopUnlock true)
  | .stopUnlock first =>
      { s with mutex := none }.goCaller c (if first then .stopJoin else .stopped false)
  | .stopJoin =>
      if s.thread.isNone then s.goCaller c (.stopped false)
      -- A thread that joins itself would wait for ever, and `join` throws.
      else if own c then s.goCaller c .threw
      else if hasReturned s.thread then s.goCaller c (.stopped true)
      else s

/-- The caller is in none of the functions. -/
def Outside (s : EventLoop κ τ) (c : κ) : Bool :=
  match s.client c with
  | .outside | .started _ | .queued _ | .stopped _ | .threw => true
  | _ => false

/-- What one event does. A thread makes one call at a time. -/
def exec (s : EventLoop κ τ) : LoopEvent κ τ → EventLoop κ τ
  | .start c => if s.Outside c then s.goCaller c .startExchange else s
  | .queueInLoop c task => if s.Outside c then s.goCaller c (.queueLock task) else s
  | .stop c => if s.Outside c then s.goCaller c .stopStarted else s
  | .client c ok => s.call own c ok
  | .loop fails => s.run fails

end EventLoop

end MqBroker
