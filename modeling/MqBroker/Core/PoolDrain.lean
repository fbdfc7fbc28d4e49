import MqBroker.Core.ThreadPool
import MqBroker.Lib.Custody
import MqBroker.Lib.Runs

/-!
# Shutdown of the Thread Pool

No task that `Submit` accepted is lost by `Shutdown`. Four invariants carry
this, one for each thing the threads share.

The mutex has one owner, by `locks`. So from the check of `stopping_` to the end
of a successful `Submit` nobody sets the flag, and nobody is in the exit test
while `Submit` has put a task into the queue and not counted it. That is
`Stops`.

The counter is modular, by `Counts`: it is the length of the queue and the number
of workers that have not subtracted yet, less the task `Submit` has not counted
yet. In the exit test there is no such task, and the sum is too small to wrap. So
a counter of zero says that the queue is empty.

Every number below the number of accepted tasks is in one place, by `Tickets`: in
the queue, with one worker, or among the executed ones.

## Main definitions

* `ThreadPool.Inv`: The invariant of the pool.
* `ThreadPool.Drains`: What `Shutdown` promises.

## Theorems

* `ThreadPool.Inv.exec`: Every step keeps the invariant.
* `ThreadPool.always_drains`: No accepted task is lost or run twice.
-/

namespace MqBroker

/-! ## What a point says -/

section Points

variable {τ : Type}

/-- A worker at this point has locked the mutex. -/
def WorkerPoint.locked : WorkerPoint τ → Bool
  | .waitStopping | .waitQueued | .exitStopping | .exitQueued | .unlock | .unlockReturn => true
  | _ => false

/-- A worker at this point has seen `stopping_` set in the exit test. -/
def WorkerPoint.sawStopping : WorkerPoint τ → Bool
  | .exitQueued | .unlockReturn | .returned => true
  | _ => false

/-- A worker at this point returns or has returned. -/
def WorkerPoint.leaving : WorkerPoint τ → Bool
  | .unlockReturn | .returned => true
  | _ => false

/-- A worker at this point has taken a task it has not subtracted yet. -/
def WorkerPoint.uncounted : WorkerPoint τ → Nat
  | .subtract _ => 1
  | _ => 0

/-- The task a worker at this point has taken and not run yet. -/
def WorkerPoint.task : WorkerPoint τ → Option (Nat × τ)
  | .subtract task | .run task => some task
  | _ => none

/-- Whether a worker at this point has task number `i`. -/
def WorkerPoint.holds (i : Nat) (point : WorkerPoint τ) : Nat :=
  match point.task with
  | some task => if task.1 = i then 1 else 0
  | none => 0

/-- A caller at this point has locked the mutex. -/
def ClientPoint.locked : ClientPoint τ → Bool
  | .submitCheck _ | .submitEnqueue _ | .submitCount | .submitUnlock _ => true
  | .shutdownExchange | .shutdownUnlock _ => true
  | _ => false

/-- A caller at this point has passed the checks of `Submit`. -/
def ClientPoint.succeeding : ClientPoint τ → Bool
  | .submitEnqueue _ | .submitCount | .submitUnlock true => true
  | _ => false

/-- A caller at this point has put a task into the queue and not counted it. -/
def ClientPoint.counting : ClientPoint τ → Bool
  | .submitCount => true
  | _ => false

theorem WorkerPoint.sawStopping_of_leaving {point : WorkerPoint τ} (h : point.leaving = true) :
    point.sawStopping = true := by
  cases point <;> first | rfl | exact nomatch h

theorem WorkerPoint.uncounted_le_one (point : WorkerPoint τ) : point.uncounted ≤ 1 := by
  cases point <;> first | exact Nat.le_refl 1 | exact Nat.zero_le 1

theorem ClientPoint.locked_of_succeeding {point : ClientPoint τ} (h : point.succeeding = true) :
    point.locked = true := by
  cases point <;> first | rfl | exact nomatch h

theorem ClientPoint.succeeding_of_counting {point : ClientPoint τ} (h : point.counting = true) :
    point.succeeding = true := by
  cases point <;> first | rfl | exact nomatch h

end Points

namespace ThreadPool

variable {ω κ τ : Type} [Fintype ω]

/-! ## The invariant -/

/-- Whether a thread has locked the mutex. -/
def locked (s : ThreadPool ω κ τ) : ω ⊕ κ → Bool :=
  Sum.elim (fun w => (s.worker w).locked) fun c => (s.client c).locked

/-- What is known of the flag and the queue at some points. -/
structure Stops (s : ThreadPool ω κ τ) : Prop where
  open_of_succeeding : ∀ c, (s.client c).succeeding = true → s.stopping = false
  stopping_of_saw : ∀ w, (s.worker w).sawStopping = true → s.stopping = true
  empty_of_leaving : ∀ w, (s.worker w).leaving = true → s.queue = []

/-- The tasks the counter should count: those in the queue and those taken by
    workers that have not subtracted yet. -/
def pending (s : ThreadPool ω κ τ) : Nat :=
  s.queue.length + tally WorkerPoint.uncounted s.worker

/-- The counter, less a task that is in the queue and not counted yet. -/
structure Counts (s : ThreadPool ω κ τ) : Prop where
  small : s.capacity + Fintype.card ω < 2 ^ 64
  length_le : s.queue.length ≤ s.capacity
  counted : (∀ c, (s.client c).counting = false) → s.queuedTasks = UInt64.ofNat s.pending
  counting : ∀ c, (s.client c).counting = true → s.queuedTasks + 1 = UInt64.ofNat s.pending

/-- In how many places task number `i` is. -/
def places (s : ThreadPool ω κ τ) (i : Nat) : Nat :=
  (s.queue.map Prod.fst).count i + tally (WorkerPoint.holds i) s.worker +
    (s.executed.map Prod.fst).count i

/-- Every accepted task is in one place, and its number is its own everywhere. -/
structure Tickets (s : ThreadPool ω κ τ) : Prop where
  places_eq : ∀ i, s.places i = if i < s.accepted.length then 1 else 0
  queue_known : ∀ e ∈ s.queue, s.accepted[e.1]? = some e.2
  held_known : ∀ w e, (s.worker w).task = some e → s.accepted[e.1]? = some e.2
  executed_known : ∀ e ∈ s.executed, s.accepted[e.1]? = some e.2

/-- The invariant of the pool. -/
structure Inv (s : ThreadPool ω κ τ) : Prop where
  locks : Exclusive s.locked s.mutex
  stops : s.Stops
  counts : s.Counts
  tickets : s.Tickets

variable {s s' : ThreadPool ω κ τ}

/-- Something that holds at all points holds after one of them has changed. -/
theorem forall_update {θ P : Type} [DecidableEq θ] {point : θ → P} {t : θ} {p : P} {Q : P → Prop}
    (hother : ∀ u, Q (point u)) (hp : Q p) (u : θ) : Q (Function.update point t p u) := by
  by_cases hu : u = t
  · rw [hu, Function.update_self]
    exact hp
  · rw [Function.update_of_ne hu]
    exact hother u

/-! ### Moves of workers -/

variable [DecidableEq ω]

omit [Fintype ω] in
/-- A worker moves on and the queue gets no longer. -/
theorem Stops.goWorker (h : s.Stops) {w : ω} {p : WorkerPoint τ} (hclient : s'.client = s.client)
    (hworker : s'.worker = s.worker) (hstopping : s'.stopping = s.stopping)
    (hqueue : s.queue = [] → s'.queue = []) (hsaw : p.sawStopping = true → s.stopping = true)
    (hleaving : p.leaving = true → s'.queue = []) : (s'.goWorker w p).Stops := by
  constructor
  · intro c hc
    change (s'.client c).succeeding = true at hc
    rw [hclient] at hc
    exact hstopping.trans (h.open_of_succeeding c hc)
  · refine forall_update (Q := fun p => WorkerPoint.sawStopping p = true → s'.stopping = true) ?_ ?_
    · rw [hworker, hstopping]
      exact h.stopping_of_saw
    · rw [hstopping]
      exact hsaw
  · refine forall_update (Q := fun p => WorkerPoint.leaving p = true → s'.queue = []) ?_ hleaving
    rw [hworker]
    exact fun u hu => hqueue (h.empty_of_leaving u hu)

/-- A worker moves on. The counter keeps step with what is pending. -/
theorem Counts.goWorker (h : s.Counts) {w : ω} {p : WorkerPoint τ} (hclient : s'.client = s.client)
    (hcapacity : s'.capacity = s.capacity) (hlength : s'.queue.length ≤ s.queue.length)
    (hcount : s'.queuedTasks + UInt64.ofNat s.pending =
      s.queuedTasks + UInt64.ofNat (s'.goWorker w p).pending) : (s'.goWorker w p).Counts := by
  refine ⟨hcapacity ▸ h.small, ?_, ?_, ?_⟩
  · exact hlength.trans (h.length_le.trans (Nat.le_of_eq hcapacity.symm))
  · intro hidle
    have hq := h.counted (hclient ▸ hidle)
    change s'.queuedTasks = _
    grind
  · intro c hc
    have hq := h.counting c (hclient ▸ hc)
    change s'.queuedTasks + 1 = _
    grind

/-- A worker moves on. What the queue, the worker and the record of executed tasks
    hold together stays the same. -/
theorem Tickets.goWorker (h : s.Tickets) {w : ω} {p : WorkerPoint τ}
    (hworker : s'.worker = s.worker) (haccepted : s'.accepted = s.accepted)
    (hplaces : ∀ i, (s'.queue.map Prod.fst).count i + p.holds i +
        (s'.executed.map Prod.fst).count i =
      (s.queue.map Prod.fst).count i + (s.worker w).holds i + (s.executed.map Prod.fst).count i)
    (hqueue : s'.queue ⊆ s.queue) (htask : ∀ e, p.task = some e → s.accepted[e.1]? = some e.2)
    (hexecuted : ∀ e ∈ s'.executed, s.accepted[e.1]? = some e.2) : (s'.goWorker w p).Tickets := by
  constructor
  · intro i
    have hold := h.places_eq i
    have hupdate := tally_update (WorkerPoint.holds i) s'.worker w p
    have hmove := hplaces i
    unfold places at hold ⊢
    simp only [ThreadPool.goWorker, haccepted] at hold ⊢
    rw [hworker] at hupdate ⊢
    omega
  · intro e he
    exact (congrArg (·[e.1]?) haccepted).trans (h.queue_known e (hqueue he))
  · refine forall_update
      (Q := fun p => ∀ e, WorkerPoint.task p = some e → s'.accepted[e.1]? = some e.2) ?_ ?_
    · rw [hworker, haccepted]
      exact h.held_known
    · rw [haccepted]
      exact htask
  · intro e he
    exact (congrArg (·[e.1]?) haccepted).trans (hexecuted e he)

theorem pending_goWorker (s : ThreadPool ω κ τ) (w : ω) (p : WorkerPoint τ) :
    (s.goWorker w p).pending + (s.worker w).uncounted = s.pending + p.uncounted := by
  have hupdate := tally_update WorkerPoint.uncounted s.worker w p
  unfold pending goWorker
  simp only
  omega

variable [DecidableEq κ]

omit [Fintype ω] in
theorem locked_goWorker (s : ThreadPool ω κ τ) (w : ω) (p : WorkerPoint τ) :
    (s.goWorker w p).locked = Function.update s.locked (.inl w) p.locked := by
  funext t
  cases t with
  | inl u =>
      by_cases hu : u = w
      · rw [hu, Function.update_self]
        simp only [locked, goWorker, Sum.elim_inl, Function.update_self]
      · rw [Function.update_of_ne (by simpa using hu)]
        simp only [locked, goWorker, Sum.elim_inl, Function.update_of_ne hu]
  | inr c =>
      rw [Function.update_of_ne (by nofun)]
      rfl

omit [Fintype ω] in
theorem locked_goClient (s : ThreadPool ω κ τ) (c : κ) (p : ClientPoint τ) :
    (s.goClient c p).locked = Function.update s.locked (.inr c) p.locked := by
  funext t
  cases t with
  | inl w =>
      rw [Function.update_of_ne (by nofun)]
      rfl
  | inr d =>
      by_cases hd : d = c
      · rw [hd, Function.update_self]
        simp only [locked, goClient, Sum.elim_inr, Function.update_self]
      · rw [Function.update_of_ne (by simpa using hd)]
        simp only [locked, goClient, Sum.elim_inr, Function.update_of_ne hd]

/-- The mutex changes hands and a worker moves to a point where it holds the task it
    held before. -/
theorem Inv.moveWorker (h : s.Inv) {w : ω} {p : WorkerPoint τ} {mutex : Option (ω ⊕ κ)}
    (hlocks : Exclusive (Function.update s.locked (.inl w) p.locked) mutex)
    (hsaw : p.sawStopping = true → s.stopping = true) (hleaving : p.leaving = true → s.queue = [])
    (huncounted : p.uncounted = (s.worker w).uncounted) (htask : p.task = (s.worker w).task) :
    ({ s with mutex := mutex }.goWorker w p).Inv := by
  have hpending : ({ s with mutex := mutex }.goWorker w p).pending = s.pending := by
    have hgo := pending_goWorker { s with mutex := mutex } w p
    change _ = s.pending + _ at hgo
    change _ + (s.worker w).uncounted = _ at hgo
    omega
  constructor
  · rw [locked_goWorker]
    exact hlocks
  · exact h.stops.goWorker rfl rfl rfl id hsaw hleaving
  · exact h.counts.goWorker rfl rfl (Nat.le_refl _) (by rw [hpending])
  · refine h.tickets.goWorker rfl rfl (fun i => ?_) (List.Subset.refl _) (fun e he => ?_)
      h.tickets.executed_known
    · unfold WorkerPoint.holds
      rw [htask]
    · exact h.tickets.held_known w e (htask ▸ he)

/-- A worker moves on without touching the mutex. -/
theorem Inv.keepWorker (h : s.Inv) {w : ω} {p : WorkerPoint τ}
    (hlocked : p.locked = (s.worker w).locked)
    (hsaw : p.sawStopping = true → s.stopping = true) (hleaving : p.leaving = true → s.queue = [])
    (huncounted : p.uncounted = (s.worker w).uncounted) (htask : p.task = (s.worker w).task) :
    (s.goWorker w p).Inv :=
  h.moveWorker (h.locks.keep (t := .inl w) hlocked) hsaw hleaving huncounted htask

/-- A worker takes the oldest task. -/
theorem Inv.dequeue (h : s.Inv) {w : ω} {task : Nat × τ} {rest : List (Nat × τ)}
    (hpoint : s.worker w = .dequeue) (hqueue : s.queue = task :: rest) :
    ({ s with queue := rest }.goWorker w (.subtract task) : ThreadPool ω κ τ).Inv := by
  have hpending : ({ s with queue := rest }.goWorker w (.subtract task) :
      ThreadPool ω κ τ).pending = s.pending := by
    have hgo := pending_goWorker { s with queue := rest } w (.subtract task)
    simp only [hpoint, WorkerPoint.uncounted] at hgo
    rw [Nat.add_zero] at hgo
    rw [hgo, pending, pending, hqueue, List.length_cons]
    simp only
    omega
  constructor
  · rw [locked_goWorker]
    exact h.locks.keep (t := .inl w) (congrArg WorkerPoint.locked hpoint).symm
  · refine h.stops.goWorker rfl rfl rfl (fun hnil => ?_) (by nofun) (by nofun)
    rw [hqueue] at hnil
    exact nomatch hnil
  · refine h.counts.goWorker rfl rfl ?_ (by rw [hpending])
    rw [hqueue]
    exact Nat.le_succ _
  · refine h.tickets.goWorker rfl rfl (fun i => ?_) (fun e he => ?_) (fun e he => ?_)
      h.tickets.executed_known
    · simp only [hqueue, hpoint, WorkerPoint.holds, WorkerPoint.task, List.map_cons,
        List.count_cons, beq_iff_eq]
      omega
    · rw [hqueue]
      exact List.mem_cons_of_mem _ he
    · obtain rfl : task = e := Option.some.inj he
      exact h.tickets.queue_known task (hqueue ▸ List.mem_cons_self)

/-- A worker subtracts the task it has taken. -/
theorem Inv.subtract (h : s.Inv) {w : ω} {task : Nat × τ} (hpoint : s.worker w = .subtract task) :
    ({ s with queuedTasks := s.queuedTasks - 1 }.goWorker w (.run task) :
      ThreadPool ω κ τ).Inv := by
  have hpending : ({ s with queuedTasks := s.queuedTasks - 1 }.goWorker w (.run task) :
      ThreadPool ω κ τ).pending + 1 = s.pending := by
    have hgo := pending_goWorker { s with queuedTasks := s.queuedTasks - 1 } w (.run task)
    simp only [hpoint, WorkerPoint.uncounted] at hgo
    exact hgo
  constructor
  · rw [locked_goWorker]
    exact h.locks.keep (t := .inl w) (congrArg WorkerPoint.locked hpoint).symm
  · exact h.stops.goWorker rfl rfl rfl id (by nofun) (by nofun)
  · refine h.counts.goWorker rfl rfl (Nat.le_refl _) ?_
    rw [← hpending, UInt64.ofNat_add]
    change s.queuedTasks - 1 + (_ + 1) = _
    grind
  · refine h.tickets.goWorker rfl rfl (fun i => ?_) (List.Subset.refl _) (fun e he => ?_)
      h.tickets.executed_known
    · rw [hpoint]
      rfl
    · exact h.tickets.held_known w e (hpoint ▸ he)

/-- A worker runs its task. -/
theorem Inv.run (h : s.Inv) {w : ω} {task : Nat × τ} (hpoint : s.worker w = .run task) :
    ({ s with executed := s.executed ++ [task] }.goWorker w .dequeue : ThreadPool ω κ τ).Inv := by
  have hpending : ({ s with executed := s.executed ++ [task] }.goWorker w .dequeue :
      ThreadPool ω κ τ).pending = s.pending := by
    have hgo := pending_goWorker { s with executed := s.executed ++ [task] } w .dequeue
    simp only [hpoint, WorkerPoint.uncounted] at hgo
    exact hgo
  constructor
  · rw [locked_goWorker]
    exact h.locks.keep (t := .inl w) (congrArg WorkerPoint.locked hpoint).symm
  · exact h.stops.goWorker rfl rfl rfl id (by nofun) (by nofun)
  · exact h.counts.goWorker rfl rfl (Nat.le_refl _) (by rw [hpending])
  · refine h.tickets.goWorker rfl rfl (fun i => ?_) (List.Subset.refl _) (by nofun)
      (fun e he => ?_)
    · simp only [hpoint, WorkerPoint.holds, WorkerPoint.task, List.map_append, List.map_cons,
        List.map_nil, List.count_append, List.count_singleton, beq_iff_eq]
      omega
    · rcases List.mem_append.mp he with he | he
      · exact h.tickets.executed_known e he
      · rw [List.mem_singleton.mp he]
        exact h.tickets.held_known w task (by rw [hpoint]; rfl)

omit [DecidableEq ω] [DecidableEq κ] in
/-- In the exit test the counter is zero only if the queue is empty: nobody is in
    `Submit`, and what is pending is too little to wrap. -/
theorem Inv.queue_eq_nil (h : s.Inv) {w : ω} (hpoint : s.worker w = .exitQueued)
    (hzero : s.queuedTasks = 0) : s.queue = [] := by
  have hidle : ∀ c, (s.client c).counting = false := by
    intro c
    by_contra hc
    have hcount := Bool.eq_true_of_not_eq_false hc
    have hsucceeding := ClientPoint.succeeding_of_counting hcount
    -- `Submit` would be going on with the flag set.
    have hopen := h.stops.open_of_succeeding c hsucceeding
    rw [h.stops.stopping_of_saw w (by rw [hpoint]; rfl)] at hopen
    exact nomatch hopen
  -- So the counter is what is pending, up to a wrap.
  have hcounted := (h.counts.counted hidle).symm.trans hzero
  have huncounted : tally WorkerPoint.uncounted s.worker ≤ Fintype.card ω :=
    tally_le_card WorkerPoint.uncounted_le_one s.worker
  have hsmall := h.counts.small
  have hlength := h.counts.length_le
  -- A worker has taken at most one task it has not subtracted.
  have hpending : s.pending < 2 ^ 64 := by
    unfold pending
    omega
  have hnone : s.pending = 0 := by
    have hnat := congrArg UInt64.toNat hcounted
    rw [UInt64.toNat_ofNat', Nat.mod_eq_of_lt hpending] at hnat
    exact hnat
  exact List.length_eq_zero_iff.mp (Nat.eq_zero_of_add_eq_zero_right hnone)

/-- Every step of a worker keeps the invariant. -/
theorem Inv.runWorker (h : s.Inv) (w : ω) (fails : Bool) : (s.runWorker w fails).Inv := by
  -- A worker that locks the mutex, and one that unlocks it.
  have hacquire : ∀ {p : WorkerPoint τ}, p.locked = true → s.mutex = none →
      Exclusive (Function.update s.locked (.inl w) p.locked) (some (.inl w)) := by
    intro p hp hmutex
    rw [hp]
    exact h.locks.acquire hmutex
  have hrelease : ∀ {p : WorkerPoint τ}, p.locked = false → (s.worker w).locked = true →
      Exclusive (Function.update s.locked (.inl w) p.locked) none := by
    intro p hp hw
    rw [hp]
    exact h.locks.release hw
  cases hpoint : s.worker w with
  | dequeue =>
      cases hqueue : s.queue with
      | nil =>
          simp only [ThreadPool.runWorker, hpoint, hqueue]
          refine h.keepWorker ?_ (by nofun) (by nofun) ?_ ?_ <;> rw [hpoint] <;> rfl
      | cons task rest =>
          cases fails with
          | false =>
              simp only [ThreadPool.runWorker, hpoint, hqueue]
              exact h.dequeue hpoint hqueue
          | true =>
              simp only [ThreadPool.runWorker, hpoint, hqueue]
              refine h.keepWorker ?_ (by nofun) (by nofun) ?_ ?_ <;> rw [hpoint] <;> rfl
  | subtract task =>
      simp only [ThreadPool.runWorker, hpoint]
      exact h.subtract hpoint
  | run task =>
      simp only [ThreadPool.runWorker, hpoint]
      exact h.run hpoint
  | lock | asleep =>
      simp only [ThreadPool.runWorker, hpoint]
      split_ifs with hmutex
      · refine h.moveWorker (hacquire rfl (Option.isNone_iff_eq_none.mp hmutex)) (by nofun)
          (by nofun) ?_ ?_ <;> rw [hpoint] <;> rfl
      · exact h
  | waitStopping =>
      simp only [ThreadPool.runWorker, hpoint]
      split_ifs with hstopping
      · refine h.keepWorker ?_ (by nofun) (by nofun) ?_ ?_ <;> rw [hpoint] <;> rfl
      · refine h.keepWorker ?_ (by nofun) (by nofun) ?_ ?_ <;> rw [hpoint] <;> rfl
  | waitQueued =>
      simp only [ThreadPool.runWorker, hpoint]
      split_ifs with hqueued
      · refine h.keepWorker ?_ (by nofun) (by nofun) ?_ ?_ <;> rw [hpoint] <;> rfl
      · refine h.moveWorker (hrelease rfl (by rw [hpoint]; rfl)) (by nofun) (by nofun) ?_ ?_ <;>
          rw [hpoint] <;> rfl
  | exitStopping =>
      simp only [ThreadPool.runWorker, hpoint]
      split_ifs with hstopping
      · refine h.keepWorker ?_ (fun _ => hstopping) (by nofun) ?_ ?_ <;> rw [hpoint] <;> rfl
      · refine h.keepWorker ?_ (by nofun) (by nofun) ?_ ?_ <;> rw [hpoint] <;> rfl
  | exitQueued =>
      simp only [ThreadPool.runWorker, hpoint]
      have hstopping := h.stops.stopping_of_saw w (by rw [hpoint]; rfl)
      split_ifs with hzero
      · refine h.keepWorker ?_ (fun _ => hstopping) (fun _ => h.queue_eq_nil hpoint hzero) ?_ ?_ <;>
          rw [hpoint] <;> rfl
      · refine h.keepWorker ?_ (by nofun) (by nofun) ?_ ?_ <;> rw [hpoint] <;> rfl
  | unlock =>
      simp only [ThreadPool.runWorker, hpoint]
      refine h.moveWorker (hrelease rfl (by rw [hpoint]; rfl)) (by nofun) (by nofun) ?_ ?_ <;>
        rw [hpoint] <;> rfl
  | unlockReturn =>
      simp only [ThreadPool.runWorker, hpoint]
      have hstopping := h.stops.stopping_of_saw w (by rw [hpoint]; rfl)
      have hempty := h.stops.empty_of_leaving w (by rw [hpoint]; rfl)
      refine h.moveWorker (hrelease rfl (by rw [hpoint]; rfl)) (fun _ => hstopping)
        (fun _ => hempty) ?_ ?_ <;> rw [hpoint] <;> rfl
  | returned =>
      simp only [ThreadPool.runWorker, hpoint]
      exact h

/-! ### Moves of callers -/

omit [DecidableEq ω] [Fintype ω] in
/-- A caller moves on. A flag that another caller in `Submit` has seen open is
    not set. -/
theorem Stops.goClient (h : s.Stops) {c : κ} {p : ClientPoint τ} (hworker : s'.worker = s.worker)
    (hclient : s'.client = s.client) (hstopping : s.stopping = true → s'.stopping = true)
    (hother : ∀ d, d ≠ c → (s.client d).succeeding = true → s'.stopping = false)
    (hp : p.succeeding = true → s'.stopping = false)
    (hqueue : ∀ w, (s.worker w).leaving = true → s'.queue = []) : (s'.goClient c p).Stops := by
  constructor
  · intro d hd
    change (Function.update s'.client c p d).succeeding = true at hd
    change s'.stopping = false
    by_cases hdc : d = c
    · rw [hdc, Function.update_self] at hd
      exact hp hd
    · rw [Function.update_of_ne hdc, hclient] at hd
      exact hother d hdc hd
  · intro w hw
    change (s'.worker w).sawStopping = true at hw
    rw [hworker] at hw
    exact hstopping (h.stopping_of_saw w hw)
  · intro w hw
    change (s'.worker w).leaving = true at hw
    rw [hworker] at hw
    exact hqueue w hw

/-- The mutex changes hands or the flag is set, and a caller moves on that counts
    no task. -/
theorem Inv.moveClient (h : s.Inv) {c : κ} {p : ClientPoint τ} {mutex : Option (ω ⊕ κ)}
    {stopping : Bool} (hlocks : Exclusive (Function.update s.locked (.inr c) p.locked) mutex)
    (hstopping : s.stopping = true → stopping = true)
    (hother : ∀ d, d ≠ c → (s.client d).succeeding = true → stopping = false)
    (hp : p.succeeding = true → stopping = false)
    (hcounting : p.counting = (s.client c).counting) :
    ({ s with mutex := mutex, stopping := stopping }.goClient c p).Inv := by
  have hsame : ∀ d, (Function.update s.client c p d).counting = (s.client d).counting := by
    intro d
    by_cases hdc : d = c
    · rw [hdc, Function.update_self, hcounting]
    · rw [Function.update_of_ne hdc]
  constructor
  · rw [locked_goClient]
    exact hlocks
  · exact h.stops.goClient rfl rfl hstopping hother hp h.stops.empty_of_leaving
  · refine ⟨h.counts.small, h.counts.length_le, fun hidle => ?_, fun d hd => ?_⟩
    · exact h.counts.counted fun d => (hsame d).symm.trans (hidle d)
    · exact h.counts.counting d ((hsame d).symm.trans hd)
  · exact ⟨h.tickets.places_eq, h.tickets.queue_known, h.tickets.held_known,
      h.tickets.executed_known⟩

/-- A caller moves on and leaves the flag alone. -/
theorem Inv.stepClient (h : s.Inv) {c : κ} {p : ClientPoint τ} {mutex : Option (ω ⊕ κ)}
    (hlocks : Exclusive (Function.update s.locked (.inr c) p.locked) mutex)
    (hp : p.succeeding = true → s.stopping = false)
    (hcounting : p.counting = (s.client c).counting) :
    ({ s with mutex := mutex }.goClient c p).Inv :=
  h.moveClient hlocks id (fun d _ => h.stops.open_of_succeeding d) hp hcounting

omit [DecidableEq ω] [DecidableEq κ] in
/-- Nobody else is in the locked part of `Submit` while `c` holds the mutex. -/
theorem Inv.alone (h : s.Inv) {c d : κ} (hc : (s.client c).locked = true)
    (hd : (s.client d).succeeding = true) : d = c := by
  have hc' : s.locked (.inr c) = true := hc
  have hd' : s.locked (.inr d) = true := ClientPoint.locked_of_succeeding hd
  exact Sum.inr.inj (h.locks.eq hc' hd')

/-- A caller puts its task into the queue. -/
theorem Inv.enqueue (h : s.Inv) {c : κ} {task : τ} (hpoint : s.client c = .submitEnqueue task)
    (hroom : s.queue.length < s.capacity) :
    ({ s with
      queue := s.queue ++ [(s.accepted.length, task)]
      accepted := s.accepted ++ [task] }.goClient c .submitCount : ThreadPool ω κ τ).Inv := by
  have hopen := h.stops.open_of_succeeding c (by rw [hpoint]; rfl)
  have hlocked : (s.client c).locked = true := by rw [hpoint]; rfl
  have hkeep : ∀ (i : Nat) (x : τ), s.accepted[i]? = some x →
      (s.accepted ++ [task])[i]? = some x := by
    intro i x hx
    rw [List.getElem?_append_left (List.getElem?_eq_some_iff.mp hx).1, hx]
  have hidle : ∀ d, (s.client d).counting = false := by
    intro d
    by_contra hd
    have hcount := Bool.eq_true_of_not_eq_false hd
    have heq := h.alone hlocked (ClientPoint.succeeding_of_counting hcount)
    rw [heq, hpoint] at hcount
    exact nomatch hcount
  constructor
  · rw [locked_goClient]
    exact h.locks.keep (t := .inr c) (congrArg ClientPoint.locked hpoint).symm
  · refine h.stops.goClient rfl rfl id (fun _ _ _ => hopen) (fun _ => hopen) fun w hw => ?_
    -- A worker that leaves has seen the flag set.
    rw [h.stops.stopping_of_saw w (WorkerPoint.sawStopping_of_leaving hw)] at hopen
    exact nomatch hopen
  · refine ⟨h.counts.small, ?_, fun hnone => ?_, fun d _ => ?_⟩
    · change (s.queue ++ _).length ≤ s.capacity
      rw [List.length_append, List.length_singleton]
      exact hroom
    · have hself := hnone c
      change (Function.update s.client c .submitCount c).counting = false at hself
      rw [Function.update_self] at hself
      exact nomatch hself
    · have hcounted := h.counts.counted hidle
      change s.queuedTasks + 1 = UInt64.ofNat ((s.queue ++ _).length + _)
      rw [List.length_append, List.length_singleton, Nat.add_right_comm, UInt64.ofNat_add, hcounted]
      rfl
  · refine ⟨fun i => ?_, fun e he => ?_, fun w e he => ?_, fun e he => ?_⟩
    · have hold := h.tickets.places_eq i
      unfold places at hold ⊢
      simp only [goClient, List.map_append, List.map_cons, List.map_nil, List.count_append,
        List.count_singleton, beq_iff_eq, List.length_append, List.length_singleton]
      split_ifs at hold ⊢ <;> omega
    · rcases List.mem_append.mp he with he | he
      · exact hkeep _ _ (h.tickets.queue_known e he)
      · rw [List.mem_singleton.mp he]
        exact List.getElem?_concat_length
    · exact hkeep _ _ (h.tickets.held_known w e he)
    · exact hkeep _ _ (h.tickets.executed_known e he)

/-- A caller counts its task. -/
theorem Inv.count (h : s.Inv) {c : κ} (hpoint : s.client c = .submitCount) :
    ({ s with queuedTasks := s.queuedTasks + 1 }.goClient c (.submitUnlock true) :
      ThreadPool ω κ τ).Inv := by
  have hopen := h.stops.open_of_succeeding c (by rw [hpoint]; rfl)
  have hlocked : (s.client c).locked = true := by rw [hpoint]; rfl
  have hcounting := h.counts.counting c (by rw [hpoint]; rfl)
  constructor
  · rw [locked_goClient]
    exact h.locks.keep (t := .inr c) (congrArg ClientPoint.locked hpoint).symm
  · exact h.stops.goClient rfl rfl id (fun d _ => h.stops.open_of_succeeding d) (fun _ => hopen)
      h.stops.empty_of_leaving
  · refine ⟨h.counts.small, h.counts.length_le, fun _ => hcounting, fun d hd => ?_⟩
    change (Function.update s.client c (.submitUnlock true) d).counting = true at hd
    by_cases hdc : d = c
    · rw [hdc, Function.update_self] at hd
      exact nomatch hd
    · rw [Function.update_of_ne hdc] at hd
      exact absurd (h.alone hlocked (ClientPoint.succeeding_of_counting hd)) hdc
  · exact ⟨h.tickets.places_eq, h.tickets.queue_known, h.tickets.held_known,
      h.tickets.executed_known⟩

/-- Every step of a caller keeps the invariant. -/
theorem Inv.call (h : s.Inv) (c : κ) (fails : Bool) : (s.call c fails).Inv := by
  have hkeep : ∀ {p : ClientPoint τ}, p.locked = (s.client c).locked →
      Exclusive (Function.update s.locked (.inr c) p.locked) s.mutex :=
    fun hp => h.locks.keep (t := .inr c) hp
  have hacquire : ∀ {p : ClientPoint τ}, p.locked = true → s.mutex = none →
      Exclusive (Function.update s.locked (.inr c) p.locked) (some (.inr c)) := by
    intro p hp hmutex
    rw [hp]
    exact h.locks.acquire hmutex
  have hrelease : ∀ {p : ClientPoint τ}, p.locked = false → (s.client c).locked = true →
      Exclusive (Function.update s.locked (.inr c) p.locked) none := by
    intro p hp hc
    rw [hp]
    exact h.locks.release hc
  cases hpoint : s.client c with
  | outside | submitted _ | shutDown =>
      simp only [ThreadPool.call, hpoint]
      exact h
  | submitLock task =>
      simp only [ThreadPool.call, hpoint]
      split_ifs with hmutex
      · exact h.stepClient (hacquire rfl (Option.isNone_iff_eq_none.mp hmutex)) (by nofun)
          (by rw [hpoint]; rfl)
      · exact h
  | submitCheck task =>
      have hrefuse : (s.goClient c (.submitUnlock false)).Inv :=
        h.stepClient (hkeep (by rw [hpoint]; rfl)) (by nofun) (by rw [hpoint]; rfl)
      cases task with
      | none =>
          simp only [ThreadPool.call, hpoint]
          exact hrefuse
      | some task =>
          cases hstopping : s.stopping with
          | true =>
              simp only [ThreadPool.call, hpoint, hstopping]
              exact hrefuse
          | false =>
              simp only [ThreadPool.call, hpoint, hstopping]
              exact h.stepClient (hkeep (by rw [hpoint]; rfl)) (fun _ => hstopping)
                (by rw [hpoint]; rfl)
  | submitEnqueue task =>
      simp only [ThreadPool.call, hpoint]
      split_ifs with hroom
      · exact h.enqueue hpoint hroom.1
      · exact h.stepClient (hkeep (by rw [hpoint]; rfl)) (by nofun) (by rw [hpoint]; rfl)
  | submitCount =>
      simp only [ThreadPool.call, hpoint]
      exact h.count hpoint
  | submitUnlock result =>
      simp only [ThreadPool.call, hpoint]
      exact h.stepClient (hrelease rfl (by rw [hpoint]; rfl)) (by nofun) (by rw [hpoint]; rfl)
  | shutdownLock =>
      simp only [ThreadPool.call, hpoint]
      split_ifs with hmutex
      · exact h.stepClient (hacquire rfl (Option.isNone_iff_eq_none.mp hmutex)) (by nofun)
          (by rw [hpoint]; rfl)
      · exact h
  | shutdownExchange =>
      simp only [ThreadPool.call, hpoint]
      split_ifs with hstopping
      · exact h.stepClient (hkeep (by rw [hpoint]; rfl)) (by nofun) (by rw [hpoint]; rfl)
      · -- Nobody is in `Submit`, as this caller holds the mutex.
        refine h.moveClient (hkeep (by rw [hpoint]; rfl)) (fun _ => rfl) (fun d hdc hd => ?_)
          (by nofun) (by rw [hpoint]; rfl)
        exact absurd (h.alone (by rw [hpoint]; rfl) hd) hdc
  | shutdownUnlock first =>
      simp only [ThreadPool.call, hpoint]
      cases first <;>
        exact h.stepClient (hrelease rfl (by rw [hpoint]; rfl)) (by nofun) (by rw [hpoint]; rfl)
  | shutdownJoin =>
      simp only [ThreadPool.call, hpoint]
      split_ifs with hjoined
      · exact h.stepClient (hkeep (by rw [hpoint]; rfl)) (by nofun) (by rw [hpoint]; rfl)
      · exact h

omit [DecidableEq ω] [DecidableEq κ] [Fintype ω] in
theorem outside_locked {c : κ} (h : s.Outside c = true) :
    (s.client c).locked = false ∧ (s.client c).counting = false := by
  unfold Outside at h
  cases hpoint : s.client c <;> rw [hpoint] at h <;> first | exact ⟨rfl, rfl⟩ | exact nomatch h

/-- Every step keeps the invariant. -/
theorem Inv.exec (h : s.Inv) (e : PoolEvent ω κ τ) : (s.exec e).Inv := by
  have hcall : ∀ c (p : ClientPoint τ), s.Outside c = true → p.locked = false →
      p.succeeding = false → p.counting = false → (s.goClient c p).Inv := by
    intro c p hout hlocked hsucceeding hcounting
    rcases outside_locked hout with ⟨hlocked', hcounting'⟩
    have hsame : p.locked = s.locked (.inr c) := hlocked.trans hlocked'.symm
    refine h.stepClient (h.locks.keep hsame) ?_
      (hcounting.trans hcounting'.symm)
    rw [hsucceeding]
    exact fun hp => nomatch hp
  cases e with
  | submit c task =>
      simp only [ThreadPool.exec]
      split_ifs with hout
      · exact hcall c _ hout rfl rfl rfl
      · exact h
  | shutdown c =>
      simp only [ThreadPool.exec]
      split_ifs with hout
      · exact hcall c _ hout rfl rfl rfl
      · exact h
  | client c fails => exact h.call c fails
  | worker w fails => exact h.runWorker w fails

/-! ## Shutdown -/

/-- What the pool promises. -/
structure Drains (s : ThreadPool ω κ τ) : Prop where
  /-- No task is run twice. -/
  executed_once : (s.executed.map Prod.fst).Nodup
  /-- What is run was accepted. -/
  executed_accepted : ∀ e ∈ s.executed, s.accepted[e.1]? = some e.2
  /-- A worker that returns leaves an empty queue, with the flag set. -/
  leaves_empty : ∀ w, (s.worker w).leaving = true → s.stopping = true ∧ s.queue = []
  /-- From then on no task is accepted, and no `Submit` gets past its checks. -/
  closed : ∀ w, (s.worker w).leaving = true → ∀ later : List (PoolEvent ω κ τ),
    (later.foldl exec s).accepted = s.accepted ∧
      ∀ c, ((later.foldl exec s).client c).succeeding = false
  /-- When all workers have returned, every accepted task has been run. -/
  drained : (∀ w, joinable (s.worker w) = true) → ∀ i task, s.accepted[i]? = some task →
    (i, task) ∈ s.executed

omit [DecidableEq κ] [Fintype ω] in
/-- A worker neither accepts tasks nor touches the flag. -/
theorem runWorker_kept (s : ThreadPool ω κ τ) (w : ω) (fails : Bool) :
    (s.runWorker w fails).accepted = s.accepted ∧
      (s.runWorker w fails).stopping = s.stopping := by
  unfold ThreadPool.runWorker
  split
  · split <;> exact ⟨rfl, rfl⟩
  · exact ⟨rfl, rfl⟩
  · exact ⟨rfl, rfl⟩
  · split_ifs <;> exact ⟨rfl, rfl⟩
  · split_ifs <;> exact ⟨rfl, rfl⟩
  · exact ⟨rfl, rfl⟩
  · split_ifs <;> exact ⟨rfl, rfl⟩
  all_goals exact ⟨rfl, rfl⟩

omit [DecidableEq ω] in
/-- With the flag set, a caller that has not passed the checks of `Submit` accepts
    nothing. -/
theorem call_kept (s : ThreadPool ω κ τ) (c : κ) (fails : Bool)
    (hc : (s.client c).succeeding = false) (hs : s.stopping = true) :
    (s.call c fails).accepted = s.accepted ∧ (s.call c fails).stopping = true := by
  cases hpoint : s.client c with
  | submitEnqueue _ | submitCount =>
      rw [hpoint] at hc
      exact nomatch hc
  | submitCheck task =>
      cases task <;> simp only [ThreadPool.call, hpoint, hs] <;> exact ⟨rfl, hs⟩
  | submitLock _ | shutdownLock | shutdownExchange | shutdownJoin =>
      simp only [ThreadPool.call, hpoint]
      split_ifs <;> exact ⟨rfl, hs⟩
  | outside | submitted _ | shutDown =>
      simp only [ThreadPool.call, hpoint]
      exact ⟨trivial, hs⟩
  | submitUnlock _ | shutdownUnlock _ =>
      simp only [ThreadPool.call, hpoint]
      exact ⟨rfl, hs⟩

/-- Once the flag is set, no task is accepted and the flag stays set. -/
theorem Inv.closed_exec (h : s.Inv) (hs : s.stopping = true) (e : PoolEvent ω κ τ) :
    (s.exec e).accepted = s.accepted ∧ (s.exec e).stopping = true := by
  cases e with
  | submit c task =>
      simp only [ThreadPool.exec]
      split_ifs <;> exact ⟨rfl, hs⟩
  | shutdown c =>
      simp only [ThreadPool.exec]
      split_ifs <;> exact ⟨rfl, hs⟩
  | client c fails =>
      refine call_kept s c fails ?_ hs
      by_contra hc
      have hopen := h.stops.open_of_succeeding c (Bool.eq_true_of_not_eq_false hc)
      rw [hs] at hopen
      exact nomatch hopen
  | worker w fails =>
      have hkept := runWorker_kept s w fails
      exact ⟨hkept.1, hkept.2.trans hs⟩

theorem Inv.closed_run (h : s.Inv) (hs : s.stopping = true) (later : List (PoolEvent ω κ τ)) :
    (later.foldl ThreadPool.exec s).accepted = s.accepted ∧
      ∀ c, ((later.foldl ThreadPool.exec s).client c).succeeding = false := by
  induction later generalizing s with
  | nil =>
      refine ⟨rfl, fun c => ?_⟩
      by_contra hc
      have hopen := h.stops.open_of_succeeding c (Bool.eq_true_of_not_eq_false hc)
      change s.stopping = false at hopen
      rw [hs] at hopen
      exact nomatch hopen
  | cons e later ih =>
      rcases h.closed_exec hs e with ⟨haccepted, hstopping⟩
      rcases ih (h.exec e) hstopping with ⟨hrun, hclients⟩
      exact ⟨hrun.trans haccepted, hclients⟩

omit [DecidableEq ω] [DecidableEq κ] in
/-- No number is in two places, so nothing is run twice. -/
theorem Tickets.executed_once (h : s.Tickets) : (s.executed.map Prod.fst).Nodup := by
  refine List.nodup_iff_count_le_one.mpr fun i => ?_
  have hplaces := h.places_eq i
  unfold places at hplaces
  split_ifs at hplaces <;> omega

omit [DecidableEq ω] [DecidableEq κ] in
/-- A task that is neither in the queue nor with a worker has been run. -/
theorem Tickets.mem_executed (h : s.Tickets) (hqueue : s.queue = [])
    (hworker : ∀ w, joinable (s.worker w) = true) {i : Nat} {task : τ}
    (hi : s.accepted[i]? = some task) : (i, task) ∈ s.executed := by
  have hlt : i < s.accepted.length := (List.getElem?_eq_some_iff.mp hi).1
  have hnobody : tally (WorkerPoint.holds i) s.worker = 0 := by
    refine Finset.sum_eq_zero fun w _ => ?_
    have hw := hworker w
    cases hpoint : s.worker w <;> rw [hpoint] at hw <;> first | rfl | exact nomatch hw
  have hplaces := h.places_eq i
  rw [if_pos hlt, places, hqueue, hnobody] at hplaces
  have hcount : 0 < (s.executed.map Prod.fst).count i := by
    simp only [List.map_nil, List.count_nil] at hplaces
    omega
  rcases List.mem_map.mp (List.count_pos_iff.mp hcount) with ⟨e, he, rfl⟩
  have hknown := h.executed_known e he
  rw [hi] at hknown
  rw [Option.some.inj hknown]
  exact he

theorem Inv.drains [Nonempty ω] (h : s.Inv) : s.Drains := by
  refine ⟨h.tickets.executed_once, h.tickets.executed_known, fun w hw => ?_, fun w hw later => ?_,
    fun hworker i task hi => ?_⟩
  · exact ⟨h.stops.stopping_of_saw w (WorkerPoint.sawStopping_of_leaving hw),
      h.stops.empty_of_leaving w hw⟩
  · exact h.closed_run (h.stops.stopping_of_saw w (WorkerPoint.sawStopping_of_leaving hw)) later
  · rcases ‹Nonempty ω› with ⟨w⟩
    have hleaving : (s.worker w).leaving = true := by
      have hw := hworker w
      cases hpoint : s.worker w <;> rw [hpoint] at hw <;> first | rfl | exact nomatch hw
    exact h.tickets.mem_executed (h.stops.empty_of_leaving w hleaving) hworker hi

omit [DecidableEq κ] in
/-- A new pool has the invariant. The constructor refuses what would not fit. -/
theorem Inv.create {workerCount queueCapacity : UInt64}
    {s : ThreadPool (Fin workerCount.toNat) κ τ}
    (hs : create κ τ workerCount queueCapacity = some s) : s.Inv := by
  have hcapacity := normalizeCapacity_le queueCapacity
  unfold ThreadPool.create at hs
  split_ifs at hs with hzero hmany
  obtain rfl := Option.some.inj hs
  refine ⟨fun t => ?_, ⟨by nofun, by nofun, by nofun⟩, ⟨?_, Nat.zero_le _, fun _ => ?_, by nofun⟩,
    ⟨fun i => ?_, by nofun, by nofun, by nofun⟩⟩
  · cases t <;> exact iff_of_false (by nofun) (by nofun)
  · rw [Fintype.card_fin]
    unfold vectorMaxSize at hmany
    simp only
    omega
  · unfold pending tally
    simp only [WorkerPoint.uncounted, Finset.sum_const_zero]
    rfl
  · unfold places tally
    simp only [WorkerPoint.holds, WorkerPoint.task, Finset.sum_const_zero]
    rfl

/-- In every run, for every number of workers and callers and every order of their
    steps, no task is run twice, workers return only when the flag is set and the
    queue is empty, and no accepted task is lost. -/
theorem always_drains {workerCount queueCapacity : UInt64}
    {s : ThreadPool (Fin workerCount.toNat) κ τ}
    (hs : create κ τ workerCount queueCapacity = some s)
    (events : List (PoolEvent (Fin workerCount.toNat) κ τ)) :
    Always ThreadPool.exec Drains s events := by
  have hpositive : 0 < workerCount.toNat := by
    unfold ThreadPool.create at hs
    split_ifs at hs with hzero
    exact Nat.pos_of_ne_zero fun h => hzero (UInt64.toNat_inj.mp h)
  have hnonempty : Nonempty (Fin workerCount.toNat) := ⟨⟨0, hpositive⟩⟩
  have hall : Along ThreadPool.exec (fun _ _ => True) s events :=
    Along.of_forall (fun _ _ => trivial) s events
  have hinv : Always ThreadPool.exec Inv s events :=
    Always.of_along (fun _ e h _ => h.exec e) (Inv.create hs) hall
  exact hinv.mono fun _ h => h.drains

/-- The worker of a pool of one. -/
def onlyWorker : Fin (UInt64.toNat 1) := ⟨0, by decide⟩

/-- The worker takes a task before it is counted, so that the counter passes below
    zero, and `Shutdown` comes before the task has been run. -/
def hurriedShutdown : List (PoolEvent (Fin (UInt64.toNat 1)) Bool Nat) :=
  [.submit true (some 5), .client true false, .client true false, .client true false,
    .worker onlyWorker false, .worker onlyWorker false, .client true false, .client true false,
    .shutdown false, .client false false, .client false false, .client false false,
    .worker onlyWorker false, .worker onlyWorker false, .worker onlyWorker false,
    .worker onlyWorker false, .worker onlyWorker false, .worker onlyWorker false,
    .worker onlyWorker false, .client false false]

theorem hurriedShutdown_drains :
    ∃ s, create Bool Nat 1 4 = some s ∧
      (hurriedShutdown.foldl ThreadPool.exec s).executed = [(0, 5)] ∧
      joinable ((hurriedShutdown.foldl ThreadPool.exec s).worker onlyWorker) = true ∧
      Always ThreadPool.exec Drains s hurriedShutdown :=
  ⟨_, rfl, by decide +kernel, by decide +kernel, always_drains rfl hurriedShutdown⟩

end ThreadPool

end MqBroker
