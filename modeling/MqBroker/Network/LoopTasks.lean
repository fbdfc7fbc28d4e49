import MqBroker.Lib.Custody
import MqBroker.Lib.Runs
import MqBroker.Network.EventLoop

/-!
# The Tasks of an Event Loop

An event loop runs its tasks on one thread, in the order in which it has taken
them, each of them once. When it stops it takes no more, and its thread returns
when everything it took has been run.

As in the pool of workers, the counter is what makes this hard: the thread leaves
when it sees the flag set and the counter at zero, and it looks at neither under
the mutex. `Counts` says what the counter is worth. It is the length of the queue
and the task the thread has not subtracted yet, less the task `QueueInLoop` has
not counted yet. With the flag set nobody is in that place, by `Stops`, as the
flag is set under the mutex and `QueueInLoop` looks at it under the same.

That there is one thread rests on `started_`, by `Starts`: one caller at a time is
between setting it and making the thread, and whoever gives up clears it.

Once the flag is set the thread comes to its end whatever the others do. `left` is
the number of steps it has to go. Each step takes one off, but for a step in which
the queue fails, which may add three.

## Main definitions

* `EventLoop.Inv`: The invariant of the loop.
* `EventLoop.Orderly`: What the loop promises.
* `EventLoop.left`: The steps of the thread until it returns.

## Theorems

* `EventLoop.Inv.exec`: Every step keeps the invariant.
* `EventLoop.always_orderly`: Tasks are run in order, once, on one thread.
* `EventLoop.stop_completes`: A loop that is to stop runs what it took and returns.
-/

namespace MqBroker

/-! ## What a point says -/

section Points

variable {τ : Type}

/-- The thread at this point has seen `stopping_` set in the exit test. -/
def LoopPoint.sawStopping : LoopPoint τ → Bool
  | .exitQueued | .returned => true
  | _ => false

/-- The thread at this point has taken a task it has not subtracted yet. -/
def LoopPoint.uncounted : LoopPoint τ → Nat
  | .subtract _ => 1
  | _ => 0

/-- The task the thread at this point has taken and not run yet. -/
def LoopPoint.hand : LoopPoint τ → List τ
  | .subtract task | .run task => [task]
  | _ => []

/-- The steps until the thread returns, with `n` tasks in the queue and the flag
    set. -/
def LoopPoint.left (n : Nat) : LoopPoint τ → Nat
  | .dequeue => 3 * n + 4
  | .subtract _ => 3 * n + 6
  | .run _ => 3 * n + 5
  | .poll => if n = 0 then 3 else 3 * n + 7
  | .exitStopping => if n = 0 then 2 else 3 * n + 6
  | .exitQueued => if n = 0 then 1 else 3 * n + 5
  | .returned => 0

/-- A caller at this point has locked the mutex. -/
def LoopCaller.locked : LoopCaller τ → Bool
  | .queueStarted _ | .queueStopping _ | .queueEnqueue _ | .queueCount | .queueUnlock _ => true
  | .stopExchange | .stopUnlock _ => true
  | _ => false

/-- A caller at this point has passed the checks of `QueueInLoop`. -/
def LoopCaller.succeeding : LoopCaller τ → Bool
  | .queueEnqueue _ | .queueCount | .queueUnlock true => true
  | _ => false

/-- A caller at this point has put a task into the queue and not counted it. -/
def LoopCaller.counting : LoopCaller τ → Bool
  | .queueCount => true
  | _ => false

/-- A caller at this point has set `started_` and not made the thread. -/
def LoopCaller.starting : LoopCaller τ → Bool
  | .startOpen | .startThread | .startUndo _ => true
  | _ => false

/-- A caller at this point has joined the thread. -/
def LoopCaller.joined : LoopCaller τ → Bool
  | .stopped true => true
  | _ => false

/-- The thread takes a step. -/
def LoopEvent.turns {κ : Type} : LoopEvent κ τ → Bool
  | .loop _ => true
  | _ => false

/-- The thread takes a step in which the queue fails. -/
def LoopEvent.misses {κ : Type} : LoopEvent κ τ → Bool
  | .loop true => true
  | _ => false

theorem LoopEvent.misses_of_turns {κ : Type} (e : LoopEvent κ τ) (h : e.turns = false) :
    e.misses = false := by
  cases e with
  | loop fails => exact nomatch h
  | start _ | queueInLoop _ _ | stop _ | client _ _ => rfl

theorem LoopPoint.left_le (n : Nat) (point : LoopPoint τ) : point.left n ≤ 3 * n + 7 := by
  cases point with
  | poll | exitStopping | exitQueued =>
      simp only [LoopPoint.left]
      split_ifs <;> omega
  | dequeue | subtract _ | run _ | returned =>
      simp only [LoopPoint.left]
      omega

theorem LoopPoint.eq_returned {n : Nat} {point : LoopPoint τ} (h : point.left n = 0) :
    point = .returned := by
  cases point with
  | returned => rfl
  | poll | exitStopping | exitQueued =>
      simp only [LoopPoint.left] at h
      split_ifs at h
  | dequeue | subtract _ | run _ =>
      simp only [LoopPoint.left] at h
      omega

theorem LoopCaller.locked_of_succeeding {point : LoopCaller τ} (h : point.succeeding = true) :
    point.locked = true := by
  cases point <;> first | rfl | exact nomatch h

theorem LoopCaller.succeeding_of_counting {point : LoopCaller τ} (h : point.counting = true) :
    point.succeeding = true := by
  cases point <;> first | rfl | exact nomatch h

end Points

namespace EventLoop

variable {κ τ : Type}

/-! ## The invariant -/

/-- Whether a caller has locked the mutex. -/
def locked (s : EventLoop κ τ) : κ → Bool := LoopCaller.locked ∘ s.client

/-- The task that was taken and not run yet. -/
def hand (s : EventLoop κ τ) : List τ := s.thread.elim [] LoopPoint.hand

/-- The tasks the counter should count: those in the queue and one that the thread
    has taken and not subtracted. -/
def pending (s : EventLoop κ τ) : Nat := s.queue.length + s.thread.elim 0 LoopPoint.uncounted

/-- What is known of the flag and the queue at some points. -/
structure Stops (s : EventLoop κ τ) : Prop where
  open_of_succeeding : ∀ c, (s.client c).succeeding = true → s.stopping = false
  stopping_of_saw : ∀ p, s.thread = some p → p.sawStopping = true → s.stopping = true
  empty_of_returned : s.thread = some .returned → s.queue = []

/-- The counter, less a task that is in the queue and not counted yet. -/
structure Counts (s : EventLoop κ τ) : Prop where
  small : s.capacity + 1 < 2 ^ 64
  length_le : s.queue.length ≤ s.capacity
  counted : (∀ c, (s.client c).counting = false) → s.queuedTasks = UInt64.ofNat s.pending
  counting : ∀ c, (s.client c).counting = true → s.queuedTasks + 1 = UInt64.ofNat s.pending

/-- One caller makes the thread, and who has joined it has seen it return. -/
structure Starts (s : EventLoop κ τ) : Prop where
  spawned_eq : s.spawned = s.thread.elim 0 fun _ => 1
  started_of_thread : s.thread.isSome = true → s.started = true
  started_of_starting : ∀ c, (s.client c).starting = true → s.started = true ∧ s.thread = none
  alone : ∀ c d, (s.client c).starting = true → (s.client d).starting = true → c = d
  returned_of_joined : ∀ c, (s.client c).joined = true → s.thread = some .returned

/-- The invariant of the loop. -/
structure Inv (s : EventLoop κ τ) : Prop where
  locks : Exclusive s.locked s.mutex
  order : s.accepted = s.executed ++ s.hand ++ s.queue
  stops : s.Stops
  counts : s.Counts
  starts : s.Starts

theorem eq_returned {thread : Option (LoopPoint τ)} (h : hasReturned thread = true) :
    thread = some .returned := by
  cases thread with
  | none => exact nomatch h
  | some point => cases point <;> first | rfl | exact nomatch h

/-- The thread stays. -/
theorem run_isSome {s : EventLoop κ τ} {fails : Bool} (h : s.thread.isSome = true) :
    (s.run fails).thread.isSome = true := by
  unfold EventLoop.run
  split
  · exact h
  · split <;> rfl
  all_goals first | exact h | rfl

variable {s : EventLoop κ τ}

/-- With the flag set nobody is about to count a task. -/
theorem Inv.idle (h : s.Inv) (hstopping : s.stopping = true) (c : κ) :
    (s.client c).counting = false := by
  by_contra hc
  have hsucceeding := LoopCaller.succeeding_of_counting (Bool.eq_true_of_not_eq_false hc)
  have hopen := h.stops.open_of_succeeding c hsucceeding
  rw [hstopping] at hopen
  exact nomatch hopen

/-- In the exit test the counter is zero only if the queue is empty: nobody is in
    `QueueInLoop`, and the queue is too short for the counter to wrap. -/
theorem Inv.queuedTasks_eq_zero_iff (h : s.Inv) (hpoint : s.thread = some .exitQueued) :
    s.queuedTasks = 0 ↔ s.queue = [] := by
  have hstopping := h.stops.stopping_of_saw _ hpoint rfl
  have hcounted := h.counts.counted (h.idle hstopping)
  have hpending : s.pending = s.queue.length := by
    unfold pending
    rw [hpoint]
    rfl
  have hsmall : s.queue.length < 2 ^ 64 := by
    have hcapacity := h.counts.small
    have hlength := h.counts.length_le
    omega
  rw [hcounted, hpending, ← UInt64.toNat_inj, UInt64.toNat_ofNat', Nat.mod_eq_of_lt hsmall]
  exact List.length_eq_zero_iff

/-! ### Moves of the thread -/

/-- The thread moves on. What was run, what it holds and the queue stay the same
    tasks in the same order, and the counter keeps step with what is pending. -/
theorem Inv.moveThread (h : s.Inv) {p p' : LoopPoint τ} {queue executed : List τ}
    {queuedTasks : UInt64} (hpoint : s.thread = some p) (hstay : p ≠ .returned)
    (horder : executed ++ p'.hand ++ queue = s.executed ++ p.hand ++ s.queue)
    (hlength : queue.length ≤ s.queue.length)
    (hcount : queuedTasks + UInt64.ofNat (s.queue.length + p.uncounted) =
      s.queuedTasks + UInt64.ofNat (queue.length + p'.uncounted))
    (hsaw : p'.sawStopping = true → s.stopping = true)
    (hreturned : p' = .returned → queue = []) :
    ({ s with queue := queue, executed := executed, queuedTasks := queuedTasks }.goThread
      p').Inv := by
  have hpending : s.pending = s.queue.length + p.uncounted := by
    unfold pending
    rw [hpoint]
    rfl
  have hcounted := h.counts.counted
  have hcounting := h.counts.counting
  rw [hpending] at hcounted hcounting
  refine ⟨h.locks, ?_, ⟨h.stops.open_of_succeeding, ?_, ?_⟩,
    ⟨h.counts.small, hlength.trans h.counts.length_le, ?_, ?_⟩, ⟨?_, ?_, ?_, h.starts.alone, ?_⟩⟩
  · have hold := h.order
    unfold hand at hold
    rw [hpoint] at hold
    exact hold.trans horder.symm
  · intro q hq hqsaw
    obtain rfl : p' = q := Option.some.inj hq
    exact hsaw hqsaw
  · exact fun hq => hreturned (Option.some.inj hq)
  · intro hidle
    have hq := hcounted hidle
    change queuedTasks = UInt64.ofNat (queue.length + p'.uncounted)
    grind
  · intro c hc
    have hq := hcounting c hc
    change queuedTasks + 1 = UInt64.ofNat (queue.length + p'.uncounted)
    grind
  · have hold := h.starts.spawned_eq
    rw [hpoint] at hold
    exact hold
  · exact fun _ => h.starts.started_of_thread (by rw [hpoint]; rfl)
  · intro c hc
    have hnone := (h.starts.started_of_starting c hc).2
    rw [hpoint] at hnone
    exact nomatch hnone
  · intro c hc
    -- Nobody joins a thread that goes on.
    have hback := h.starts.returned_of_joined c hc
    rw [hpoint] at hback
    exact absurd (Option.some.inj hback) hstay

/-- The thread moves on and touches nothing. -/
theorem Inv.keepThread (h : s.Inv) {p p' : LoopPoint τ} (hpoint : s.thread = some p)
    (hstay : p ≠ .returned) (hhand : p'.hand = p.hand) (huncounted : p'.uncounted = p.uncounted)
    (hsaw : p'.sawStopping = true → s.stopping = true)
    (hreturned : p' = .returned → s.queue = []) : (s.goThread p').Inv :=
  h.moveThread hpoint hstay (by rw [hhand]) (Nat.le_refl _) (by rw [huncounted]) hsaw hreturned

/-- Every step of the thread keeps the invariant. -/
theorem Inv.run (h : s.Inv) (fails : Bool) : (s.run fails).Inv := by
  cases hthread : s.thread with
  | none =>
      simp only [EventLoop.run, hthread]
      exact h
  | some point =>
      cases point with
      | dequeue =>
          cases hqueue : s.queue with
          | nil =>
              simp only [EventLoop.run, hthread, hqueue]
              exact h.keepThread hthread (by rintro ⟨⟩) rfl rfl (by rintro ⟨⟩) (by rintro ⟨⟩)
          | cons task rest =>
              cases fails with
              | true =>
                  simp only [EventLoop.run, hthread, hqueue]
                  exact h.keepThread hthread (by rintro ⟨⟩) rfl rfl (by rintro ⟨⟩) (by rintro ⟨⟩)
              | false =>
                  simp only [EventLoop.run, hthread, hqueue]
                  refine h.moveThread hthread (by rintro ⟨⟩) ?_ ?_ ?_ (by rintro ⟨⟩) (by rintro ⟨⟩)
                  · rw [hqueue]
                    simp only [LoopPoint.hand, List.append_nil, List.append_assoc,
                      List.singleton_append]
                  · rw [hqueue]
                    exact Nat.le_succ _
                  · rw [hqueue]
                    rfl
      | subtract task =>
          simp only [EventLoop.run, hthread]
          refine h.moveThread hthread (by rintro ⟨⟩) rfl (Nat.le_refl _) ?_ (by rintro ⟨⟩)
            (by rintro ⟨⟩)
          change s.queuedTasks - 1 + UInt64.ofNat (s.queue.length + 1) =
            s.queuedTasks + UInt64.ofNat (s.queue.length + 0)
          rw [UInt64.ofNat_add, Nat.add_zero]
          change s.queuedTasks - 1 + (_ + 1) = _
          grind
      | run task =>
          simp only [EventLoop.run, hthread]
          refine h.moveThread hthread (by rintro ⟨⟩) ?_ (Nat.le_refl _) rfl (by rintro ⟨⟩)
            (by rintro ⟨⟩)
          simp only [LoopPoint.hand, List.append_nil]
      | poll =>
          simp only [EventLoop.run, hthread]
          exact h.keepThread hthread (by rintro ⟨⟩) rfl rfl (by rintro ⟨⟩) (by rintro ⟨⟩)
      | exitStopping =>
          simp only [EventLoop.run, hthread]
          split_ifs with hstopping
          · exact h.keepThread hthread (by rintro ⟨⟩) rfl rfl (fun _ => hstopping) (by rintro ⟨⟩)
          · exact h.keepThread hthread (by rintro ⟨⟩) rfl rfl (by rintro ⟨⟩) (by rintro ⟨⟩)
      | exitQueued =>
          simp only [EventLoop.run, hthread]
          split_ifs with hzero
          · exact h.keepThread hthread (by rintro ⟨⟩) rfl rfl
              (fun _ => h.stops.stopping_of_saw _ hthread rfl)
              (fun _ => (h.queuedTasks_eq_zero_iff hthread).mp hzero)
          · exact h.keepThread hthread (by rintro ⟨⟩) rfl rfl (by rintro ⟨⟩) (by rintro ⟨⟩)
      | returned =>
          simp only [EventLoop.run, hthread]
          exact h

/-! ### Moves of callers -/

variable [DecidableEq κ]

theorem locked_goCaller (s : EventLoop κ τ) (c : κ) (p : LoopCaller τ) :
    (s.goCaller c p).locked = Function.update s.locked c p.locked :=
  Function.comp_update LoopCaller.locked s.client c p

/-- What holds of all callers after one of them has moved. -/
theorem forall_goCaller {Q : κ → LoopCaller τ → Prop} {c : κ} {p : LoopCaller τ} (hp : Q c p)
    (hothers : ∀ d, d ≠ c → Q d (s.client d)) (d : κ) : Q d ((s.goCaller c p).client d) :=
  (Function.forall_update_iff s.client Q).mpr ⟨hp, hothers⟩ d

/-- A caller that moves on keeps the counter right, if it was counting before just
    when it is now. -/
theorem Counts.goCaller {s' : EventLoop κ τ} (h : s.Counts) {c : κ} {p : LoopCaller τ}
    (hclient : s'.client = s.client) (hthread : s'.thread = s.thread)
    (hcapacity : s'.capacity = s.capacity) (hqueue : s'.queue = s.queue)
    (hcount : s'.queuedTasks = s.queuedTasks) (hcounting : p.counting = (s.client c).counting) :
    (s'.goCaller c p).Counts := by
  have hsame : ∀ d, ((s'.goCaller c p).client d).counting = (s.client d).counting := by
    refine forall_goCaller (Q := fun d q => q.counting = (s.client d).counting) hcounting
      fun d _ => ?_
    rw [hclient]
  have hpending : (s'.goCaller c p).pending = s.pending := by
    unfold pending
    change s'.queue.length + s'.thread.elim 0 _ = _
    rw [hqueue, hthread]
  refine ⟨hcapacity ▸ h.small, ?_, fun hidle => ?_, fun d hd => ?_⟩
  · change s'.queue.length ≤ s'.capacity
    rw [hqueue, hcapacity]
    exact h.length_le
  · rw [hpending]
    exact hcount.trans (h.counted fun d => (hsame d).symm.trans (hidle d))
  · rw [hpending]
    exact (congrArg (· + 1) hcount).trans (h.counting d ((hsame d).symm.trans hd))

/-- A caller that moves on and does not begin to start the loop. -/
theorem Starts.goCaller {s' : EventLoop κ τ} (h : s.Starts) {c : κ} {p : LoopCaller τ}
    (hclient : s'.client = s.client) (hthread : s'.thread = s.thread)
    (hstarted : s'.started = s.started) (hspawned : s'.spawned = s.spawned)
    (hstarting : p.starting = true → (s.client c).starting = true)
    (hjoined : p.joined = true → s.thread = some .returned) : (s'.goCaller c p).Starts := by
  have hbefore : ∀ d, ((s'.goCaller c p).client d).starting = true →
      (s.client d).starting = true := by
    refine forall_goCaller (Q := fun d q => q.starting = true → (s.client d).starting = true)
      hstarting fun d _ => ?_
    rw [hclient]
    exact id
  have hafter : ∀ d, ((s'.goCaller c p).client d).joined = true → s.thread = some .returned := by
    refine forall_goCaller (Q := fun _ q => q.joined = true → s.thread = some .returned) hjoined
      fun d _ => ?_
    rw [hclient]
    exact h.returned_of_joined d
  refine ⟨?_, fun hsome => ?_, fun d hd => ?_,
    fun d e hd he => h.alone d e (hbefore d hd) (hbefore e he),
    fun d hd => hthread.trans (hafter d hd)⟩
  · change s'.spawned = s'.thread.elim 0 _
    rw [hspawned, hthread]
    exact h.spawned_eq
  · exact hstarted.trans (h.started_of_thread (hthread ▸ hsome))
  · rcases h.started_of_starting d (hbefore d hd) with ⟨hset, hnone⟩
    exact ⟨hstarted.trans hset, hthread.trans hnone⟩

/-- A caller that moves on with the flag as it is. -/
theorem Stops.goCaller {s' : EventLoop κ τ} (h : s.Stops) {c : κ} {p : LoopCaller τ}
    (hclient : s'.client = s.client) (hthread : s'.thread = s.thread)
    (hstopping : s'.stopping = s.stopping) (hqueue : s.thread = some .returned → s'.queue = [])
    (hsucceeding : p.succeeding = true → s.stopping = false) : (s'.goCaller c p).Stops := by
  refine ⟨?_, fun q hq hsaw => ?_, fun hreturned => hqueue (hthread.symm.trans hreturned)⟩
  · refine forall_goCaller (Q := fun _ q => q.succeeding = true → s'.stopping = false) ?_
      fun d _ => ?_
    · rw [hstopping]
      exact hsucceeding
    · rw [hclient, hstopping]
      exact h.open_of_succeeding d
  · exact hstopping.trans (h.stopping_of_saw q (hthread.symm.trans hq) hsaw)

/-- The mutex changes hands and a caller moves on. -/
theorem Inv.moveCaller (h : s.Inv) {c : κ} {p : LoopCaller τ} {mutex : Option κ}
    (hlocks : Exclusive (Function.update s.locked c p.locked) mutex)
    (hsucceeding : p.succeeding = true → s.stopping = false)
    (hcounting : p.counting = (s.client c).counting)
    (hstarting : p.starting = true → (s.client c).starting = true)
    (hjoined : p.joined = true → s.thread = some .returned) :
    ({ s with mutex := mutex }.goCaller c p).Inv := by
  refine ⟨?_, h.order, h.stops.goCaller rfl rfl rfl h.stops.empty_of_returned hsucceeding,
    h.counts.goCaller rfl rfl rfl rfl rfl hcounting,
    h.starts.goCaller rfl rfl rfl rfl hstarting hjoined⟩
  rw [locked_goCaller]
  exact hlocks

/-- A caller moves on without touching the mutex. -/
theorem Inv.keepCaller (h : s.Inv) {c : κ} {p : LoopCaller τ}
    (hlocked : p.locked = (s.client c).locked)
    (hsucceeding : p.succeeding = true → s.stopping = false)
    (hcounting : p.counting = (s.client c).counting)
    (hstarting : p.starting = true → (s.client c).starting = true)
    (hjoined : p.joined = true → s.thread = some .returned) : (s.goCaller c p).Inv :=
  h.moveCaller (h.locks.keep (t := c) hlocked) hsucceeding hcounting hstarting hjoined

omit [DecidableEq κ] in
/-- Nobody else is in `QueueInLoop` behind its checks. -/
theorem Inv.alone (h : s.Inv) {c d : κ} (hc : (s.client c).locked = true)
    (hd : (s.client d).succeeding = true) : d = c :=
  h.locks.eq (t := c) hc (LoopCaller.locked_of_succeeding hd)

/-- A caller moves on and sets or clears `started_`. -/
theorem Inv.setStarted (h : s.Inv) {c : κ} {p : LoopCaller τ} {b : Bool}
    (hlocked : p.locked = (s.client c).locked) (hsucceeding : p.succeeding = false)
    (hcounting : p.counting = (s.client c).counting)
    (hstarts : ({ s with started := b }.goCaller c p).Starts) :
    ({ s with started := b }.goCaller c p).Inv := by
  refine ⟨?_, h.order, h.stops.goCaller rfl rfl rfl h.stops.empty_of_returned ?_,
    h.counts.goCaller rfl rfl rfl rfl rfl hcounting, hstarts⟩
  · rw [locked_goCaller]
    exact h.locks.keep (t := c) hlocked
  · rw [hsucceeding]
    rintro ⟨⟩

/-- A caller that sets `started_` is the only one, and there is no thread. -/
theorem Inv.startExchange (h : s.Inv) {c : κ} (hpoint : s.client c = .startExchange)
    (hstarted : s.started = false) : ({ s with started := true }.goCaller c .startOpen).Inv := by
  -- Another caller on its way, and a thread, would have set the flag already.
  have hnobody : ∀ d, (s.client d).starting = false := by
    intro d
    by_contra hd
    have hset := (h.starts.started_of_starting d (Bool.eq_true_of_not_eq_false hd)).1
    rw [hstarted] at hset
    exact nomatch hset
  have hthread : s.thread = none := by
    by_contra hsome
    have hset := h.starts.started_of_thread (Option.isSome_iff_ne_none.mpr hsome)
    rw [hstarted] at hset
    exact nomatch hset
  have honly : ∀ d, (({ s with started := true }.goCaller c .startOpen).client d).starting = true →
      d = c := by
    refine forall_goCaller (s := { s with started := true })
      (Q := fun d q => q.starting = true → d = c) (fun _ => rfl) fun d _ hd => ?_
    rw [hnobody d] at hd
    exact nomatch hd
  refine h.setStarted (by rw [hpoint]; rfl) rfl (by rw [hpoint]; rfl) ?_
  refine ⟨h.starts.spawned_eq, fun _ => rfl, fun d _ => ⟨rfl, hthread⟩,
    fun d e hd he => (honly d hd).trans (honly e he).symm, ?_⟩
  exact forall_goCaller (s := { s with started := true })
    (Q := fun _ q => q.joined = true → s.thread = some .returned) (by rintro ⟨⟩)
    fun d _ => h.starts.returned_of_joined d

/-- Behind the one caller that starts the loop nobody does. -/
theorem Inv.not_starting (h : s.Inv) {c : κ} {p : LoopCaller τ}
    (hstarting : (s.client c).starting = true) (hp : p.starting = false) (d : κ) :
    ((s.goCaller c p).client d).starting = false := by
  refine forall_goCaller (Q := fun _ q => q.starting = false) hp (fun e he => ?_) d
  by_contra hstart
  exact he (h.starts.alone e c (Bool.eq_true_of_not_eq_false hstart) hstarting)

/-- A caller that gives up clears `started_`. -/
theorem Inv.startUndo (h : s.Inv) {c : κ} {threw : Bool} {p : LoopCaller τ}
    (hpoint : s.client c = .startUndo threw) (hp : p = .threw ∨ p = .started false) :
    ({ s with started := false }.goCaller c p).Inv := by
  have hstarting : (s.client c).starting = true := by rw [hpoint]; rfl
  have hthread := (h.starts.started_of_starting c hstarting).2
  have hout : p.locked = false ∧ p.succeeding = false ∧ p.counting = false ∧
      p.starting = false ∧ p.joined = false := by
    rcases hp with rfl | rfl <;> exact ⟨rfl, rfl, rfl, rfl, rfl⟩
  rcases hout with ⟨hlocked, hsucceeding, hcounting, hnot, hjoined⟩
  have hnobody := h.not_starting hstarting hnot
  refine h.setStarted (by rw [hpoint]; exact hlocked) hsucceeding (by rw [hpoint]; exact hcounting)
    ?_
  refine ⟨h.starts.spawned_eq, fun hsome => ?_, fun d hd => ?_, fun d _ hd => ?_, ?_⟩
  · change s.thread.isSome = true at hsome
    rw [hthread] at hsome
    exact nomatch hsome
  · exact absurd ((hnobody d).symm.trans hd) (by decide)
  · exact absurd ((hnobody d).symm.trans hd) (by decide)
  · refine forall_goCaller (s := { s with started := false })
      (Q := fun _ q => q.joined = true → s.thread = some .returned) ?_
      fun d _ => h.starts.returned_of_joined d
    rw [hjoined]
    rintro ⟨⟩

/-- A caller makes the thread. -/
theorem Inv.spawn (h : s.Inv) {c : κ} (hpoint : s.client c = .startThread) :
    ({ s with thread := some .dequeue, spawned := s.spawned + 1 }.goCaller c
      (.started true)).Inv := by
  have hstarting : (s.client c).starting = true := by rw [hpoint]; rfl
  rcases h.starts.started_of_starting c hstarting with ⟨hstarted, hthread⟩
  have hnobody := h.not_starting hstarting (p := .started true) rfl
  have hpending : s.pending = s.queue.length := by
    unfold pending
    rw [hthread]
    rfl
  have hcounts : ({ s with thread := some .dequeue, spawned := s.spawned + 1 } :
      EventLoop κ τ).Counts := by
    have hcounted := h.counts.counted
    have hcounting := h.counts.counting
    rw [hpending] at hcounted hcounting
    exact ⟨h.counts.small, h.counts.length_le, hcounted, hcounting⟩
  have hstops : ({ s with thread := some .dequeue, spawned := s.spawned + 1 } :
      EventLoop κ τ).Stops := by
    refine ⟨h.stops.open_of_succeeding, fun p hp hsaw => ?_, by rintro ⟨⟩⟩
    obtain rfl : LoopPoint.dequeue = p := Option.some.inj hp
    exact nomatch hsaw
  refine ⟨?_, ?_, hstops.goCaller rfl rfl rfl hstops.empty_of_returned (by rintro ⟨⟩),
    hcounts.goCaller rfl rfl rfl rfl rfl (congrArg LoopCaller.counting hpoint).symm,
    ⟨?_, fun _ => hstarted, fun d hd => ?_, fun d _ hd => ?_, ?_⟩⟩
  · rw [locked_goCaller]
    exact h.locks.keep (t := c) (congrArg LoopCaller.locked hpoint).symm
  · have hold := h.order
    unfold hand at hold
    rw [hthread] at hold
    exact hold
  · have hold := h.starts.spawned_eq
    rw [hthread] at hold
    exact congrArg (· + 1) hold
  · exact absurd ((hnobody d).symm.trans hd) (by decide)
  · exact absurd ((hnobody d).symm.trans hd) (by decide)
  · refine forall_goCaller (s := { s with thread := some .dequeue, spawned := s.spawned + 1 })
      (Q := fun _ q => q.joined = true → some LoopPoint.dequeue = some .returned) (by rintro ⟨⟩)
      fun d _ hd => ?_
    have hback := h.starts.returned_of_joined d hd
    rw [hthread] at hback
    exact nomatch hback

/-- A caller puts its task into the queue. -/
theorem Inv.enqueue (h : s.Inv) {c : κ} {task : τ} (hpoint : s.client c = .queueEnqueue task)
    (hroom : s.queue.length < s.capacity) :
    ({ s with queue := s.queue ++ [task], accepted := s.accepted ++ [task] }.goCaller c
      .queueCount).Inv := by
  have hopen := h.stops.open_of_succeeding c (by rw [hpoint]; rfl)
  have hlocked : (s.client c).locked = true := by rw [hpoint]; rfl
  -- This caller holds the mutex, so no other task is in the queue and not counted.
  have hidle : ∀ d, (s.client d).counting = false := by
    intro d
    by_contra hd
    have hcount := Bool.eq_true_of_not_eq_false hd
    have heq := h.alone hlocked (LoopCaller.succeeding_of_counting hcount)
    rw [heq, hpoint] at hcount
    exact nomatch hcount
  have hrunning : s.thread ≠ some .returned := by
    intro hreturned
    -- A thread that has returned has seen the flag set.
    have hstopping := h.stops.stopping_of_saw _ hreturned rfl
    rw [hopen] at hstopping
    exact nomatch hstopping
  refine ⟨?_, ?_,
    h.stops.goCaller rfl rfl rfl (fun hreturned => absurd hreturned hrunning) fun _ => hopen,
    ⟨h.counts.small, ?_, fun hnone => ?_, fun d _ => ?_⟩,
    h.starts.goCaller rfl rfl rfl rfl (by rintro ⟨⟩) (by rintro ⟨⟩)⟩
  · rw [locked_goCaller]
    exact h.locks.keep (t := c) (congrArg LoopCaller.locked hpoint).symm
  · change s.accepted ++ [task] = s.executed ++ s.hand ++ (s.queue ++ [task])
    rw [h.order, List.append_assoc]
  · change (s.queue ++ [task]).length ≤ s.capacity
    rw [List.length_append, List.length_singleton]
    exact hroom
  · have hself := hnone c
    change (Function.update s.client c .queueCount c).counting = false at hself
    rw [Function.update_self] at hself
    exact nomatch hself
  · have hcounted := h.counts.counted hidle
    change s.queuedTasks + 1 = UInt64.ofNat ((s.queue ++ [task]).length + _)
    rw [List.length_append, List.length_singleton, Nat.add_right_comm, UInt64.ofNat_add, hcounted]
    rfl

/-- A caller counts its task. -/
theorem Inv.count (h : s.Inv) {c : κ} (hpoint : s.client c = .queueCount) :
    ({ s with queuedTasks := s.queuedTasks + 1 }.goCaller c (.queueUnlock true)).Inv := by
  have hopen := h.stops.open_of_succeeding c (by rw [hpoint]; rfl)
  have hlocked : (s.client c).locked = true := by rw [hpoint]; rfl
  have hcounting := h.counts.counting c (by rw [hpoint]; rfl)
  refine ⟨?_, h.order,
    h.stops.goCaller rfl rfl rfl h.stops.empty_of_returned fun _ => hopen,
    ⟨h.counts.small, h.counts.length_le, fun _ => hcounting, fun d hd => ?_⟩,
    h.starts.goCaller rfl rfl rfl rfl (by rintro ⟨⟩) (by rintro ⟨⟩)⟩
  · rw [locked_goCaller]
    exact h.locks.keep (t := c) (congrArg LoopCaller.locked hpoint).symm
  · change (Function.update s.client c (.queueUnlock true) d).counting = true at hd
    by_cases hdc : d = c
    · rw [hdc, Function.update_self] at hd
      exact nomatch hd
    · rw [Function.update_of_ne hdc] at hd
      exact absurd (h.alone hlocked (LoopCaller.succeeding_of_counting hd)) hdc

/-- A caller sets the flag. Nobody is in `QueueInLoop`, as this caller holds the
    mutex. -/
theorem Inv.stopExchange (h : s.Inv) {c : κ} (hpoint : s.client c = .stopExchange) :
    ({ s with stopping := true }.goCaller c (.stopUnlock true)).Inv := by
  have hlocked : (s.client c).locked = true := by rw [hpoint]; rfl
  refine ⟨?_, h.order, ⟨?_, fun _ _ _ => rfl, h.stops.empty_of_returned⟩,
    h.counts.goCaller rfl rfl rfl rfl rfl (by rw [hpoint]; rfl),
    h.starts.goCaller rfl rfl rfl rfl (by rintro ⟨⟩) (by rintro ⟨⟩)⟩
  · rw [locked_goCaller]
    exact h.locks.keep (t := c) (congrArg LoopCaller.locked hpoint).symm
  · refine forall_goCaller (s := { s with stopping := true })
      (Q := fun _ q => q.succeeding = true → true = false) (by rintro ⟨⟩) fun d hdc hd => ?_
    exact absurd (h.alone hlocked hd) hdc

variable (own : κ → Bool)

/-- Every step of a caller keeps the invariant. -/
theorem Inv.call (h : s.Inv) (c : κ) (ok : Bool) : (s.call own c ok).Inv := by
  -- A step to a point that is in none of the other places.
  have hquiet : ∀ {p : LoopCaller τ}, p.locked = (s.client c).locked →
      (s.client c).counting = false → p.succeeding = false → p.counting = false →
      p.starting = false → p.joined = false → (s.goCaller c p).Inv := by
    intro p hlocked hbefore hsucceeding hcounting hstarting hjoined
    refine h.keepCaller hlocked ?_ (hcounting.trans hbefore.symm) ?_ ?_
    · rw [hsucceeding]
      rintro ⟨⟩
    · rw [hstarting]
      rintro ⟨⟩
    · rw [hjoined]
      rintro ⟨⟩
  have hacquire : ∀ {p : LoopCaller τ}, p.locked = true → s.mutex = none →
      Exclusive (Function.update s.locked c p.locked) (some c) := by
    intro p hp hmutex
    rw [hp]
    exact h.locks.acquire hmutex
  have hrelease : ∀ {p : LoopCaller τ}, p.locked = false → (s.client c).locked = true →
      Exclusive (Function.update s.locked c p.locked) none := by
    intro p hp hc
    rw [hp]
    exact h.locks.release hc
  cases hpoint : s.client c with
  | outside | started _ | queued _ | stopped _ | threw =>
      simp only [EventLoop.call, hpoint]
      exact h
  | startExchange =>
      simp only [EventLoop.call, hpoint]
      split_ifs with hstarted
      · exact hquiet (by rw [hpoint]; rfl) (by rw [hpoint]; rfl) rfl rfl rfl rfl
      · exact h.startExchange hpoint (Bool.eq_false_of_not_eq_true hstarted)
  | startOpen =>
      have hstarting : (s.client c).starting = true := by rw [hpoint]; rfl
      simp only [EventLoop.call, hpoint]
      split_ifs
      · exact h.keepCaller (by rw [hpoint]; rfl) (by rintro ⟨⟩) (by rw [hpoint]; rfl)
          (fun _ => hstarting) (by rintro ⟨⟩)
      · exact h.keepCaller (by rw [hpoint]; rfl) (by rintro ⟨⟩) (by rw [hpoint]; rfl)
          (fun _ => hstarting) (by rintro ⟨⟩)
  | startThread =>
      simp only [EventLoop.call, hpoint]
      split_ifs
      · exact h.spawn hpoint
      · exact h.keepCaller (by rw [hpoint]; rfl) (by rintro ⟨⟩) (by rw [hpoint]; rfl)
          (fun _ => by rw [hpoint]; rfl) (by rintro ⟨⟩)
  | startUndo threw =>
      simp only [EventLoop.call, hpoint]
      split_ifs
      · exact h.startUndo hpoint (.inl rfl)
      · exact h.startUndo hpoint (.inr rfl)
  | queueLock task =>
      simp only [EventLoop.call, hpoint]
      split_ifs with hmutex
      · exact h.moveCaller (hacquire rfl (Option.isNone_iff_eq_none.mp hmutex)) (by rintro ⟨⟩)
          (by rw [hpoint]; rfl) (by rintro ⟨⟩) (by rintro ⟨⟩)
      · exact h
  | queueStarted task =>
      have hrefuse : (s.goCaller c (.queueUnlock false)).Inv :=
        hquiet (by rw [hpoint]; rfl) (by rw [hpoint]; rfl) rfl rfl rfl rfl
      cases task with
      | none =>
          simp only [EventLoop.call, hpoint]
          exact hrefuse
      | some task =>
          cases hstarted : s.started with
          | false =>
              simp only [EventLoop.call, hpoint, hstarted]
              exact hrefuse
          | true =>
              simp only [EventLoop.call, hpoint, hstarted]
              exact hquiet (by rw [hpoint]; rfl) (by rw [hpoint]; rfl) rfl rfl rfl rfl
  | queueStopping task =>
      simp only [EventLoop.call, hpoint]
      split_ifs with hstopping
      · exact hquiet (by rw [hpoint]; rfl) (by rw [hpoint]; rfl) rfl rfl rfl rfl
      · exact h.keepCaller (by rw [hpoint]; rfl) (fun _ => Bool.eq_false_of_not_eq_true hstopping)
          (by rw [hpoint]; rfl) (by rintro ⟨⟩) (by rintro ⟨⟩)
  | queueEnqueue task =>
      simp only [EventLoop.call, hpoint]
      split_ifs with hroom
      · exact h.enqueue hpoint hroom.1
      · exact hquiet (by rw [hpoint]; rfl) (by rw [hpoint]; rfl) rfl rfl rfl rfl
  | queueCount =>
      simp only [EventLoop.call, hpoint]
      exact h.count hpoint
  | queueUnlock result =>
      simp only [EventLoop.call, hpoint]
      exact h.moveCaller (hrelease rfl (by rw [hpoint]; rfl)) (by rintro ⟨⟩) (by rw [hpoint]; rfl)
        (by rintro ⟨⟩) (by rintro ⟨⟩)
  | stopStarted =>
      simp only [EventLoop.call, hpoint]
      split_ifs
      · exact hquiet (by rw [hpoint]; rfl) (by rw [hpoint]; rfl) rfl rfl rfl rfl
      · exact hquiet (by rw [hpoint]; rfl) (by rw [hpoint]; rfl) rfl rfl rfl rfl
  | stopLock =>
      simp only [EventLoop.call, hpoint]
      split_ifs with hmutex
      · exact h.moveCaller (hacquire rfl (Option.isNone_iff_eq_none.mp hmutex)) (by rintro ⟨⟩)
          (by rw [hpoint]; rfl) (by rintro ⟨⟩) (by rintro ⟨⟩)
      · exact h
  | stopExchange =>
      simp only [EventLoop.call, hpoint]
      split_ifs
      · exact hquiet (by rw [hpoint]; rfl) (by rw [hpoint]; rfl) rfl rfl rfl rfl
      · exact h.stopExchange hpoint
  | stopUnlock first =>
      simp only [EventLoop.call, hpoint]
      cases first <;>
        exact h.moveCaller (hrelease rfl (by rw [hpoint]; rfl)) (by rintro ⟨⟩)
          (by rw [hpoint]; rfl) (by rintro ⟨⟩) (by rintro ⟨⟩)
  | stopJoin =>
      simp only [EventLoop.call, hpoint]
      split_ifs with hnone hown hreturned
      · exact hquiet (by rw [hpoint]; rfl) (by rw [hpoint]; rfl) rfl rfl rfl rfl
      · exact hquiet (by rw [hpoint]; rfl) (by rw [hpoint]; rfl) rfl rfl rfl rfl
      · exact h.keepCaller (by rw [hpoint]; rfl) (by rintro ⟨⟩) (by rw [hpoint]; rfl)
          (by rintro ⟨⟩) (fun _ => eq_returned hreturned)
      · exact h

omit [DecidableEq κ] in
theorem outside_quiet {c : κ} (h : s.Outside c = true) :
    (s.client c).locked = false ∧ (s.client c).counting = false := by
  unfold Outside at h
  cases hpoint : s.client c <;> rw [hpoint] at h <;> first | exact ⟨rfl, rfl⟩ | exact nomatch h

/-- Every step keeps the invariant. -/
theorem Inv.exec (h : s.Inv) (e : LoopEvent κ τ) : (s.exec own e).Inv := by
  have hcall : ∀ c (p : LoopCaller τ), s.Outside c = true → p.locked = false →
      p.succeeding = false → p.counting = false → p.starting = false → p.joined = false →
      (s.goCaller c p).Inv := by
    intro c p hout hlocked hsucceeding hcounting hstarting hjoined
    rcases outside_quiet hout with ⟨hlocked', hcounting'⟩
    refine h.keepCaller (hlocked.trans hlocked'.symm) ?_ (hcounting.trans hcounting'.symm) ?_ ?_
    · rw [hsucceeding]
      rintro ⟨⟩
    · rw [hstarting]
      rintro ⟨⟩
    · rw [hjoined]
      rintro ⟨⟩
  cases e with
  | start c =>
      simp only [EventLoop.exec]
      split_ifs with hout
      · exact hcall c _ hout rfl rfl rfl rfl rfl
      · exact h
  | queueInLoop c task =>
      simp only [EventLoop.exec]
      split_ifs with hout
      · exact hcall c _ hout rfl rfl rfl rfl rfl
      · exact h
  | stop c =>
      simp only [EventLoop.exec]
      split_ifs with hout
      · exact hcall c _ hout rfl rfl rfl rfl rfl
      · exact h
  | client c ok => exact h.call own c ok
  | loop fails => exact h.run fails

/-! ## What the loop promises -/

/-- With the flag set, a step of a caller leaves the flag, the queue and what was
    accepted as they are. -/
theorem Inv.call_kept (h : s.Inv) (hs : s.stopping = true) (c : κ) (ok : Bool) :
    (s.call own c ok).stopping = true ∧ (s.call own c ok).queue = s.queue ∧
      (s.call own c ok).accepted = s.accepted := by
  have hclosed : (s.client c).succeeding = false := by
    by_contra hc
    have hopen := h.stops.open_of_succeeding c (Bool.eq_true_of_not_eq_false hc)
    rw [hs] at hopen
    exact nomatch hopen
  cases hpoint : s.client c with
  | queueEnqueue _ | queueCount =>
      rw [hpoint] at hclosed
      exact nomatch hclosed
  | queueStarted task =>
      cases task <;> cases hstarted : s.started <;>
        simp only [EventLoop.call, hpoint, hstarted] <;> exact ⟨hs, rfl, rfl⟩
  | outside | started _ | queued _ | stopped _ | threw =>
      simp only [EventLoop.call, hpoint]
      exact ⟨hs, trivial, trivial⟩
  | startOpen | startUndo _ | queueStopping _ | queueUnlock _ | stopStarted | stopUnlock _ =>
      simp only [EventLoop.call, hpoint]
      exact ⟨hs, rfl, rfl⟩
  | startExchange | startThread | queueLock _ | stopLock | stopExchange | stopJoin =>
      simp only [EventLoop.call, hpoint]
      split_ifs <;> exact ⟨hs, rfl, rfl⟩

/-- Once the flag is set, no task is accepted and the flag stays set. -/
theorem Inv.closed_exec (h : s.Inv) (hs : s.stopping = true) (e : LoopEvent κ τ) :
    (s.exec own e).stopping = true ∧ (s.exec own e).accepted = s.accepted := by
  cases e with
  | start c | queueInLoop c _ | stop c =>
      simp only [EventLoop.exec]
      split_ifs <;> exact ⟨hs, rfl⟩
  | client c ok =>
      have hkept := h.call_kept own hs c ok
      exact ⟨hkept.1, hkept.2.2⟩
  | loop fails =>
      change (s.run fails).stopping = true ∧ (s.run fails).accepted = s.accepted
      unfold EventLoop.run
      split
      · exact ⟨hs, rfl⟩
      · split <;> exact ⟨hs, rfl⟩
      all_goals exact ⟨hs, rfl⟩

theorem Inv.closed_run (h : s.Inv) (hs : s.stopping = true) (later : List (LoopEvent κ τ)) :
    (later.foldl (EventLoop.exec own) s).accepted = s.accepted := by
  induction later generalizing s with
  | nil => rfl
  | cons e later ih =>
      rcases h.closed_exec own hs e with ⟨hstopping, haccepted⟩
      exact (ih (h.exec own e) hstopping).trans haccepted

omit [DecidableEq κ] in
/-- A thread that has returned leaves nothing to do. -/
theorem Inv.drained (h : s.Inv) (hreturned : s.thread = some .returned) :
    s.executed = s.accepted := by
  have horder := h.order
  unfold hand at horder
  rw [hreturned, h.stops.empty_of_returned hreturned] at horder
  simp only [Option.elim, LoopPoint.hand, List.append_nil] at horder
  exact horder.symm

/-- What the loop promises. -/
structure Orderly (s : EventLoop κ τ) : Prop where
  /-- The tasks that were run, the one in hand and those in the queue are the tasks
      that were accepted, in the same order. -/
  in_order : s.accepted = s.executed ++ s.hand ++ s.queue
  /-- No second thread is made. -/
  one_thread : s.spawned ≤ 1
  /-- The thread returns with the flag set, when it has run everything. -/
  drained : s.thread = some .returned → s.stopping = true ∧ s.executed = s.accepted
  /-- When a `Stop` returns that has joined the thread, the thread has returned. -/
  joined : ∀ c, s.client c = .stopped true → s.thread = some .returned
  /-- Once the flag is set, no task is accepted. -/
  closed : s.stopping = true → ∀ later : List (LoopEvent κ τ),
    (later.foldl (exec own) s).accepted = s.accepted

theorem Inv.orderly (h : s.Inv) : s.Orderly own := by
  refine ⟨h.order, ?_, fun hreturned => ?_, fun c hc => ?_, h.closed_run own⟩
  · rw [h.starts.spawned_eq]
    cases s.thread with
    | none => exact Nat.zero_le _
    | some _ => exact Nat.le_refl _
  · exact ⟨h.stops.stopping_of_saw _ hreturned rfl, h.drained hreturned⟩
  · exact h.starts.returned_of_joined c (by rw [hc]; rfl)

omit [DecidableEq κ] in
/-- A new loop has the invariant. -/
theorem Inv.create (queueCapacity : UInt64) : (create κ τ queueCapacity).Inv := by
  have hcapacity := normalizeCapacity_le queueCapacity
  refine ⟨fun c => iff_of_false (by rintro ⟨⟩) (by rintro ⟨⟩), rfl,
    ⟨by rintro c ⟨⟩, by rintro p ⟨⟩, by rintro ⟨⟩⟩,
    ⟨?_, Nat.zero_le _, fun _ => rfl, by rintro c ⟨⟩⟩,
    ⟨rfl, by rintro ⟨⟩, by rintro c ⟨⟩, by rintro c d ⟨⟩, by rintro c ⟨⟩⟩⟩
  change (normalizeCapacity queueCapacity).toNat + 1 < 2 ^ 64
  omega

/-- The loop after some events. -/
def after (queueCapacity : UInt64) (events : List (LoopEvent κ τ)) : EventLoop κ τ :=
  events.foldl (exec own) (create κ τ queueCapacity)

theorem always_inv (queueCapacity : UInt64) (events : List (LoopEvent κ τ)) :
    Always (EventLoop.exec own) Inv (create κ τ queueCapacity) events :=
  Always.of_along (fun _ e h _ => h.exec own e) (Inv.create queueCapacity)
    (Along.of_forall (fun _ _ => trivial) _ events)

/-- In every run, for every number of callers and every order of their steps, the loop
    runs the tasks it has taken on one thread, in the order in which it has taken them
    and each of them once, and the thread returns when there is nothing left. -/
theorem always_orderly (queueCapacity : UInt64) (events : List (LoopEvent κ τ)) :
    Always (exec own) (Orderly own) (create κ τ queueCapacity) events :=
  (always_inv own queueCapacity events).mono fun _ h => h.orderly own

/-! ## The end of the thread -/

/-- The steps of the thread until it returns, once the flag is set. -/
def left (s : EventLoop κ τ) : Nat := s.thread.elim 0 (LoopPoint.left s.queue.length)

omit [DecidableEq κ] in
/-- A step of the thread takes one off, but for one in which the queue fails. -/
theorem Inv.left_run (h : s.Inv) (hs : s.stopping = true) (hleft : 0 < s.left) (fails : Bool) :
    (s.run fails).left + 1 ≤ s.left + if fails then 4 else 0 := by
  unfold left at hleft ⊢
  cases hthread : s.thread with
  | none =>
      rw [hthread] at hleft
      exact absurd hleft (Nat.lt_irrefl 0)
  | some point =>
      rw [hthread] at hleft
      cases point with
      | dequeue =>
          cases hqueue : s.queue with
          | nil =>
              simp only [EventLoop.run, hthread, hqueue, goThread, Option.elim, LoopPoint.left,
                List.length_nil, if_true]
              omega
          | cons task rest =>
              cases fails with
              | true =>
                  -- The thread goes round once more, with the same queue.
                  simp only [EventLoop.run, hthread, hqueue, goThread, Option.elim, LoopPoint.left,
                    List.length_cons, if_true]
                  split_ifs <;> omega
              | false =>
                  simp only [EventLoop.run, hthread, hqueue, goThread, Option.elim, LoopPoint.left,
                    List.length_cons]
                  omega
      | subtract task | run task =>
          simp only [EventLoop.run, hthread, goThread, Option.elim, LoopPoint.left]
          omega
      | poll =>
          simp only [EventLoop.run, hthread, goThread, Option.elim, LoopPoint.left]
          split_ifs <;> omega
      | exitStopping =>
          simp only [EventLoop.run, hthread, hs, goThread, Option.elim, LoopPoint.left, if_true]
          split_ifs <;> omega
      | exitQueued =>
          -- Here the counter is right, so the thread leaves if the queue is empty.
          have hzero := h.queuedTasks_eq_zero_iff hthread
          by_cases hqueue : s.queue = []
          · simp only [EventLoop.run, hthread, hzero.mpr hqueue, goThread, Option.elim,
              LoopPoint.left, hqueue, List.length_nil, if_true]
            omega
          · have hlength : s.queue.length ≠ 0 := mt List.length_eq_zero_iff.mp hqueue
            have hcount : s.queuedTasks ≠ 0 := fun hnil => hqueue (hzero.mp hnil)
            simp only [EventLoop.run, hthread, goThread, Option.elim, if_neg hcount,
              LoopPoint.left, if_neg hlength]
            omega
      | returned => exact absurd hleft (Nat.lt_irrefl 0)

/-- A thread that was made is not touched by the callers. -/
theorem Inv.call_thread (h : s.Inv) (hthread : s.thread.isSome = true) (c : κ) (ok : Bool) :
    (s.call own c ok).thread = s.thread := by
  cases hpoint : s.client c with
  | startThread =>
      have hnone := (h.starts.started_of_starting c (by rw [hpoint]; rfl)).2
      rw [hnone] at hthread
      exact nomatch hthread
  | queueStarted task =>
      cases task <;> cases hstarted : s.started <;>
        simp only [EventLoop.call, hpoint, hstarted] <;> rfl
  | outside | started _ | queued _ | stopped _ | threw =>
      simp only [EventLoop.call, hpoint]
  | startOpen | startUndo _ | queueStopping _ | queueCount | queueUnlock _ | stopStarted
      | stopUnlock _ =>
      simp only [EventLoop.call, hpoint]
      rfl
  | startExchange | queueLock _ | queueEnqueue _ | stopLock | stopExchange | stopJoin =>
      simp only [EventLoop.call, hpoint]
      split_ifs <;> rfl

/-- What is not a step of the thread leaves the thread and the queue as they are. -/
theorem Inv.exec_others (h : s.Inv) (hs : s.stopping = true) (hthread : s.thread.isSome = true)
    {e : LoopEvent κ τ} (he : e.turns = false) :
    (s.exec own e).thread = s.thread ∧ (s.exec own e).left = s.left := by
  cases e with
  | loop fails => exact nomatch he
  | start c | queueInLoop c _ | stop c =>
      simp only [EventLoop.exec]
      split_ifs <;> exact ⟨rfl, rfl⟩
  | client c ok =>
      have hsame := h.call_thread own hthread c ok
      have hqueue := (h.call_kept own hs c ok).2.1
      refine ⟨hsame, ?_⟩
      unfold left
      change Option.elim (s.call own c ok).thread _ _ = _
      change Option.elim _ 0 (LoopPoint.left (s.call own c ok).queue.length) = _
      rw [hsame, hqueue]

/-- A thread that has returned does nothing more. -/
theorem Inv.returned_run (h : s.Inv) (hreturned : s.thread = some .returned)
    (later : List (LoopEvent κ τ)) :
    (later.foldl (EventLoop.exec own) s).thread = some .returned := by
  induction later generalizing s with
  | nil => exact hreturned
  | cons e later ih =>
      refine ih (h.exec own e) ?_
      cases e with
      | loop fails =>
          simp only [EventLoop.exec, EventLoop.run, hreturned]
      | start c | queueInLoop c _ | stop c =>
          simp only [EventLoop.exec]
          split_ifs <;> exact hreturned
      | client c ok =>
          exact (h.call_thread own (by rw [hreturned]; rfl) c ok).trans hreturned

/-- The thread returns once it has taken its steps, whatever the others do between. -/
theorem Inv.returns (h : s.Inv) (hs : s.stopping = true) (hthread : s.thread.isSome = true)
    (later : List (LoopEvent κ τ))
    (hturns : s.left + 4 * later.countP LoopEvent.misses ≤ later.countP LoopEvent.turns) :
    (later.foldl (EventLoop.exec own) s).thread = some .returned := by
  induction later generalizing s with
  | nil =>
      obtain ⟨point, hpoint⟩ := Option.isSome_iff_exists.mp hthread
      unfold left at hturns
      rw [hpoint] at hturns
      have hzero : point.left s.queue.length = 0 :=
        Nat.eq_zero_of_le_zero ((Nat.le_add_right _ _).trans hturns)
      rw [LoopPoint.eq_returned hzero] at hpoint
      exact hpoint
  | cons e later ih =>
      -- A thread at its end stays there, even if the queue should fail later on.
      rcases Nat.eq_zero_or_pos s.left with hzero | hleft
      · obtain ⟨point, hpoint⟩ := Option.isSome_iff_exists.mp hthread
        unfold left at hzero
        rw [hpoint] at hzero
        rw [LoopPoint.eq_returned hzero] at hpoint
        exact h.returned_run own hpoint (e :: later)
      · have hnext := h.exec own e
        have hclosed := (h.closed_exec own hs e).1
        -- A turn takes one off both sides, and nothing else changes either.
        rw [List.countP_cons, List.countP_cons] at hturns
        cases hturn : e.turns with
        | true =>
            cases e with
            | loop fails =>
                have hstep := h.left_run hs hleft fails
                refine ih hnext hclosed (run_isSome hthread) ?_
                change (s.run fails).left + _ ≤ _
                cases fails <;> simp only [LoopEvent.misses, LoopEvent.turns, if_true,
                  Bool.false_eq_true, if_false] at hturns hstep <;> omega
            | start _ | queueInLoop _ _ | stop _ | client _ _ => exact nomatch hturn
        | false =>
            rcases h.exec_others own hs hthread hturn with ⟨hsame, hcount⟩
            refine ih hnext hclosed (by rw [hsame]; exact hthread) ?_
            rw [hcount]
            rw [hturn, e.misses_of_turns hturn] at hturns
            exact hturns

/-- A loop that is to stop comes to its end in every order of the steps, if its thread
    gets three steps for each task in the queue, seven more, and four for each time
    the queue fails. Then it has run all it has taken, and a `Stop` that waits for the
    thread returns. -/
theorem stop_completes (queueCapacity : UInt64) (events later : List (LoopEvent κ τ))
    (hstopping : (after own queueCapacity events).stopping = true)
    (hthread : (after own queueCapacity events).thread.isSome = true)
    (hturns : 3 * (after own queueCapacity events).queue.length + 7 +
      4 * later.countP LoopEvent.misses ≤ later.countP LoopEvent.turns) :
    (after own queueCapacity (events ++ later)).thread = some .returned ∧
      (after own queueCapacity (events ++ later)).executed =
        (after own queueCapacity events).accepted ∧
      ∀ c ok, own c = false →
        (after own queueCapacity (events ++ later)).client c = .stopJoin →
          ((after own queueCapacity (events ++ later)).call own c ok).client c = .stopped true := by
  have h : (after own queueCapacity events).Inv := (always_inv own queueCapacity events).last
  have hend : (after own queueCapacity (events ++ later)).Inv :=
    (always_inv own queueCapacity (events ++ later)).last
  have hafter : after own queueCapacity (events ++ later) =
      later.foldl (exec own) (after own queueCapacity events) := List.foldl_append
  have hleft : (after own queueCapacity events).left ≤
      3 * (after own queueCapacity events).queue.length + 7 := by
    unfold left
    cases (after own queueCapacity events).thread with
    | none => exact Nat.zero_le _
    | some point => exact point.left_le _
  have hreturned : (after own queueCapacity (events ++ later)).thread = some .returned := by
    rw [hafter]
    exact h.returns own hstopping hthread later (by omega)
  refine ⟨hreturned, ?_, fun c ok hown hpoint => ?_⟩
  · rw [hend.drained hreturned, hafter]
    exact h.closed_run own hstopping later
  · simp only [EventLoop.call, hpoint, hreturned, hown, hasReturned, Option.isNone_some,
      Bool.false_eq_true, if_false, if_true, goCaller, Function.update_self]

/-- Someone starts the loop and hands it two tasks, and someone else stops it before
    the thread has looked at them. -/
def hastyStop : List (LoopEvent Bool Nat) :=
  [.start true, .client true true, .client true true, .client true true,
    .queueInLoop true (some 5), .client true true, .client true true, .client true true,
    .client true true, .client true true, .client true true,
    .queueInLoop true (some 6), .client true true, .client true true, .client true true,
    .client true true, .client true true, .client true true,
    .stop false, .client false true, .client false true, .client false true, .client false true]

/-- The thread looks in vain once, and then it runs both tasks. -/
def slowThread : List (LoopEvent Bool Nat) := .loop true :: List.replicate 17 (.loop false)

theorem stop_completes_hasty :
    (after (fun _ => false) 4 (hastyStop ++ slowThread)).executed = [5, 6] :=
  (stop_completes (fun _ => false) 4 hastyStop slowThread (by decide) (by decide) (by decide)).2.1

end EventLoop

end MqBroker
