import MqBroker.Network.TcpServer
import Mathlib.Data.List.Nodup
import Mathlib.Data.List.Perm.Basic

/-!
# Where a Request Is

From the moment a request is submitted or refused, it is in one place: with a
worker, in a task of the connection's loop, among the answers in the write queue,
or among those that were given up. No step makes two of it, and no step loses it
without a record.

`Books` is the part of the server that this is about. A step takes a request from
one place and puts it into another. In between it is in the hand of whoever makes
the step, and `Accounted` is stated with that hand, so that a step is a composition
of a few moves.

Along with it go the contents. A job has the request it was made for, a frame on
its way is the frame of what the handler has answered, and the handler is run for a
request at most once.

## Main definitions

* `Books`, `TcpServer.books`: The part of the state that matters.
* `Books.holders`: In how many places a request is.
* `Accounted`: Every request is in one place, with the right content.

## Theorems

* `Accounted.call`: A new request.
* `Accounted.takeJob`, `Accounted.takeTask`: A request is taken from its place.
* `Accounted.putJob`, `Accounted.putTask`, `Accounted.putAnswer`, `Accounted.putDropped`: It is
  put into another.
* `Accounted.serve`: The handler is run.
-/

namespace MqBroker

/-- The request that a job still has to be answered for. -/
def Job.holds (job : Job) (t : Ticket) : Bool :=
  match job.stage with
  | .rearm => false
  | _ => job.ticket = t

/-- The request that a task has the answer of. -/
def LoopTask.holds (task : LoopTask) (t : Ticket) : Bool :=
  match task with
  | .appendWrite ticket _ _ => ticket = t
  | _ => false

theorem LoopTask.holds_appendWrite (u t : Ticket) (response : RawResponse) (frame : Bytes) :
    (LoopTask.appendWrite u response frame).holds t = decide (u = t) := rfl

/-- Requests and what has become of them. -/
structure Books (ε : Type) where
  jobs : List Job
  served : List (Served ε)
  connectionCount : Nat
  loop : Nat → Nat
  fd : Nat → Nat
  tasks : Nat → List LoopTask
  requests : Nat → List RawRequest
  answers : Nat → List (Nat × RawResponse)
  dropped : Nat → List Nat

variable {σ ε : Type}

/-- The books of a server. -/
def TcpServer.books (s : TcpServer σ ε) : Books ε where
  jobs := s.jobs
  served := s.served
  connectionCount := s.connectionCount
  loop c := (s.connections c).loop
  fd c := (s.connections c).fd
  tasks sub := (s.subs sub).tasks
  requests c := (s.connections c).requests
  answers c := (s.connections c).answers
  dropped c := (s.connections c).dropped

namespace Books

/-- In how many places a request is. -/
def holders (b : Books ε) (hand : Option Ticket) (t : Ticket) : Nat :=
  (if hand = some t then 1 else 0) + b.jobs.countP (·.holds t) +
    (b.tasks (b.loop t.connection)).countP (·.holds t) +
    (b.answers t.connection).countP (·.1 = t.index) + (b.dropped t.connection).count t.index

/-- A response with its frame is on its way to the write queue. -/
def Carries (b : Books ε) (t : Ticket) (response : RawResponse) (frame : Bytes) : Prop :=
  (∃ job ∈ b.jobs, job.ticket = t ∧
    (job.stage = .send response frame ∨ job.stage = .post response frame)) ∨
  ∃ sub, .appendWrite t response frame ∈ b.tasks sub

/-- The handler was run for a request and has answered this. -/
def Replied (b : Books ε) (t : Ticket) (response : RawResponse) : Prop :=
  ∃ run ∈ b.served, run.ticket = t ∧ run.response = response

/-- A request was refused, and the handler not run for it. -/
def Refused (b : Books ε) (t : Ticket) (response : RawResponse) : Prop :=
  ∃ request, (b.requests t.connection)[t.index]? = some request ∧
    response = TcpServer.resourceExhausted request ∧ t ∉ b.served.map Served.ticket

/-- A new request on a connection. -/
def call (b : Books ε) (c : Nat) (request : RawRequest) : Books ε :=
  { b with requests := Function.update b.requests c (b.requests c ++ [request]) }

def addJob (b : Books ε) (job : Job) : Books ε := { b with jobs := b.jobs ++ [job] }

def addTask (b : Books ε) (sub : Nat) (task : LoopTask) : Books ε :=
  { b with tasks := Function.update b.tasks sub (b.tasks sub ++ [task]) }

def addAnswer (b : Books ε) (t : Ticket) (response : RawResponse) : Books ε :=
  { b with
    answers := Function.update b.answers t.connection
      (b.answers t.connection ++ [(t.index, response)]) }

def addDropped (b : Books ε) (t : Ticket) : Books ε :=
  { b with
    dropped := Function.update b.dropped t.connection (b.dropped t.connection ++ [t.index]) }

def removeJob (b : Books ε) (j : Nat) : Books ε := { b with jobs := b.jobs.eraseIdx j }

def removeTask (b : Books ε) (sub : Nat) : Books ε :=
  { b with tasks := Function.update b.tasks sub (b.tasks sub).tail }

/-- The handler is run. -/
def serve (b : Books ε) (run : Served ε) : Books ε := { b with served := b.served ++ [run] }

/-- A new connection. -/
def connect (b : Books ε) (sub fd : Nat) : Books ε :=
  { b with
    loop := Function.update b.loop b.connectionCount sub
    fd := Function.update b.fd b.connectionCount fd
    connectionCount := b.connectionCount + 1
    requests := Function.update b.requests b.connectionCount []
    answers := Function.update b.answers b.connectionCount []
    dropped := Function.update b.dropped b.connectionCount [] }

/-- A request keeps its number. -/
theorem get_call {b : Books ε} {c c' i : Nat} {request r : RawRequest}
    (h : (b.requests c')[i]? = some r) : ((b.call c request).requests c')[i]? = some r := by
  simp only [call, Function.update_apply]
  split_ifs with heq
  · rw [List.getElem?_append_left, ← heq]
    · exact h
    · rw [← heq]
      exact (List.getElem?_eq_some_iff.mp h).1
  · exact h

/-- A request that was made has one holder, and no other number has any. -/
def Held (b : Books ε) (hand : Option Ticket) (t : Ticket) : Prop :=
  (t.index < (b.requests t.connection).length ∧ b.holders hand t = 1) ∨
  ((b.requests t.connection).length ≤ t.index ∧ b.holders hand t = 0)

end Books

/-- Every request is in one place, and everything on its way is what it should be. -/
structure Accounted (b : Books ε) (hand : Option Ticket) : Prop where
  held : ∀ t, t.connection < b.connectionCount → b.Held hand t
  job : ∀ job ∈ b.jobs, job.ticket.connection < b.connectionCount ∧
    b.loop job.ticket.connection = job.sub ∧ b.fd job.ticket.connection = job.fd
  task : ∀ sub t response frame, .appendWrite t response frame ∈ b.tasks sub →
    t.connection < b.connectionCount ∧ b.loop t.connection = sub
  run : ∀ job ∈ b.jobs, ∀ request, job.stage = .run request →
    (b.requests job.ticket.connection)[job.ticket.index]? = some request ∧
      job.ticket ∉ b.served.map Served.ticket
  carried : ∀ {t response frame}, b.Carries t response frame →
    encodeResponse response = .ok frame ∧ b.Replied t response
  served : ∀ run ∈ b.served, run.ticket.connection < b.connectionCount ∧
    (b.requests run.ticket.connection)[run.ticket.index]? = some run.request
  once : (b.served.map Served.ticket).Nodup
  answered : ∀ c < b.connectionCount, ∀ answer ∈ b.answers c,
    b.Replied ⟨c, answer.1⟩ answer.2 ∨ b.Refused ⟨c, answer.1⟩ answer.2

/-! ## Moves -/

namespace Books

variable {b : Books ε} {hand : Option Ticket} {t u : Ticket} {j sub : Nat} {job : Job}

theorem holders_addJob (hstage : job.stage ≠ .rearm) :
    (b.addJob job).holders none t = b.holders (some job.ticket) t := by
  have hholds : job.holds t = decide (job.ticket = t) := by
    cases hs : job.stage with
    | rearm => exact absurd hs hstage
    | run request => simp only [Job.holds, hs]
    | send response frame => simp only [Job.holds, hs]
    | post response frame => simp only [Job.holds, hs]
  simp only [holders, addJob, List.countP_append, List.countP_singleton, hholds,
    decide_eq_true_eq, reduceCtorEq, if_false, Option.some.injEq]
  omega

theorem holders_addJob_rearm (hstage : job.stage = .rearm) :
    (b.addJob job).holders hand t = b.holders hand t := by
  have hholds : job.holds t = false := by simp only [Job.holds, hstage]
  simp only [holders, addJob, List.countP_append, List.countP_singleton, hholds, Bool.false_eq_true,
    if_false, Nat.add_zero]

theorem countP_eraseIdx (p : Job → Bool) (hj : b.jobs[j]? = some job) :
    b.jobs.countP p = (b.jobs.eraseIdx j).countP p + if p job then 1 else 0 := by
  obtain ⟨hlt, rfl⟩ := List.getElem?_eq_some_iff.mp hj
  rw [← (List.getElem_cons_eraseIdx_perm hlt).countP_eq p, List.countP_cons]

theorem holders_removeJob (hj : b.jobs[j]? = some job) (hstage : job.stage ≠ .rearm) :
    (b.removeJob j).holders (some job.ticket) t = b.holders none t := by
  rw [← holders_addJob hstage]
  simp only [holders, addJob, removeJob, List.countP_append, List.countP_singleton,
    countP_eraseIdx _ hj]

theorem holders_removeJob_rearm (hj : b.jobs[j]? = some job) (hstage : job.stage = .rearm) :
    (b.removeJob j).holders hand t = b.holders hand t := by
  rw [← holders_addJob_rearm hstage (b := b.removeJob j)]
  simp only [holders, addJob, removeJob, List.countP_append, List.countP_singleton,
    countP_eraseIdx _ hj]

theorem holders_addTask {response : RawResponse} {frame : Bytes}
    (hsub : b.loop u.connection = sub) :
    (b.addTask sub (.appendWrite u response frame)).holders none t = b.holders (some u) t := by
  simp only [holders, addTask, Function.update_apply, reduceCtorEq, if_false, Option.some.injEq]
  by_cases hloop : b.loop t.connection = sub
  · simp only [hloop, if_true, List.countP_append, List.countP_singleton,
      LoopTask.holds_appendWrite, decide_eq_true_eq]
    omega
  · have hne : u ≠ t := fun heq => hloop (heq ▸ hsub)
    simp only [if_neg hloop, if_neg hne]

theorem holders_addTask_other {task : LoopTask} (htask : ∀ t, task.holds t = false) :
    (b.addTask sub task).holders hand t = b.holders hand t := by
  simp only [holders, addTask, Function.update_apply]
  by_cases hloop : b.loop t.connection = sub
  · simp only [hloop, if_true, List.countP_append, List.countP_singleton, htask,
      Bool.false_eq_true, if_false, Nat.add_zero]
  · simp only [if_neg hloop]

theorem holders_removeTask {response : RawResponse} {frame : Bytes} {rest : List LoopTask}
    (htasks : b.tasks sub = .appendWrite u response frame :: rest)
    (hsub : b.loop u.connection = sub) :
    (b.removeTask sub).holders (some u) t = b.holders none t := by
  simp only [holders, removeTask, Function.update_apply, reduceCtorEq, if_false, Option.some.injEq]
  by_cases hloop : b.loop t.connection = sub
  · simp only [hloop, if_true, htasks, List.tail_cons, List.countP_cons,
      LoopTask.holds_appendWrite, decide_eq_true_eq]
    omega
  · have hne : u ≠ t := fun heq => hloop (heq ▸ hsub)
    simp only [if_neg hloop, if_neg hne]

theorem holders_removeTask_other {task : LoopTask} {rest : List LoopTask}
    (htasks : b.tasks sub = task :: rest) (htask : ∀ t, task.holds t = false) :
    (b.removeTask sub).holders hand t = b.holders hand t := by
  simp only [holders, removeTask, Function.update_apply]
  by_cases hloop : b.loop t.connection = sub
  · simp only [hloop, if_true, htasks, List.tail_cons, List.countP_cons, htask,
      Bool.false_eq_true, if_false, Nat.add_zero]
  · simp only [if_neg hloop]

theorem holders_addAnswer {response : RawResponse} :
    (b.addAnswer u response).holders none t = b.holders (some u) t := by
  obtain ⟨c, i⟩ := u
  obtain ⟨c', i'⟩ := t
  simp only [holders, addAnswer, Function.update_apply, Option.some.injEq, Ticket.mk.injEq,
    reduceCtorEq, if_false]
  by_cases heq : c' = c
  · subst heq
    simp only [if_true, true_and, List.countP_append, List.countP_singleton, decide_eq_true_eq]
    omega
  · simp only [if_neg heq, if_neg fun heq' : c = c' ∧ _ => heq heq'.1.symm]

theorem holders_addDropped : (b.addDropped u).holders none t = b.holders (some u) t := by
  obtain ⟨c, i⟩ := u
  obtain ⟨c', i'⟩ := t
  simp only [holders, addDropped, Function.update_apply, Option.some.injEq, Ticket.mk.injEq,
    reduceCtorEq, if_false]
  by_cases heq : c' = c
  · subst heq
    simp only [if_true, true_and, List.count_append, List.count_singleton, beq_iff_eq]
    omega
  · simp only [if_neg heq, if_neg fun heq' : c = c' ∧ _ => heq heq'.1.symm]

end Books

namespace Accounted

variable {b : Books ε} {hand : Option Ticket} {t u : Ticket} {j sub fd : Nat} {job : Job}

/-- A request in the hand is in no other place. -/
theorem only_hand (h : Accounted b (some t)) (ht : t.connection < b.connectionCount) :
    t.index < (b.requests t.connection).length ∧ b.jobs.countP (·.holds t) = 0 ∧
      (b.answers t.connection).countP (·.1 = t.index) = 0 := by
  have hheld := h.held t ht
  simp only [Books.Held, Books.holders, if_true] at hheld
  omega

/-- A new request is in the hand of its reactor. -/
theorem call (h : Accounted b none) (c : Nat) (request : RawRequest) :
    Accounted (b.call c request) (some ⟨c, (b.requests c).length⟩) where
  held := by
    rintro ⟨c', i⟩ hc'
    have hheld := h.held ⟨c', i⟩ hc'
    simp only [Books.Held, Books.holders, Books.call, reduceCtorEq, if_false,
      Function.update_apply, Option.some.injEq, Ticket.mk.injEq] at hheld ⊢
    by_cases heq : c' = c
    · subst heq
      simp only [if_true, true_and, List.length_append, List.length_singleton]
      split_ifs <;> omega
    · simp only [if_neg heq, if_neg fun heq' : c = c' ∧ _ => heq heq'.1.symm]
      exact hheld
  job := h.job
  task := h.task
  run := by
    intro job hjob r hstage
    obtain ⟨hget, hnot⟩ := h.run job hjob r hstage
    exact ⟨Books.get_call hget, hnot⟩
  carried := h.carried
  served := fun run hrun => ⟨(h.served run hrun).1, Books.get_call (h.served run hrun).2⟩
  once := h.once
  answered := by
    intro c' hc' answer hanswer
    rcases h.answered c' hc' answer hanswer with hreplied | ⟨r, hget, hr, hnot⟩
    · exact Or.inl hreplied
    · exact Or.inr ⟨r, Books.get_call hget, hr, hnot⟩

/-- A step of the books that has the same holders. -/
theorem held_of_eq {b' : Books ε} {hand' : Option Ticket}
    (h : Accounted b hand) (hcount : b'.connectionCount = b.connectionCount)
    (hrequests : b'.requests = b.requests)
    (hholders : ∀ t, b'.holders hand' t = b.holders hand t) :
    ∀ t, t.connection < b'.connectionCount → b'.Held hand' t := by
  intro t ht
  unfold Books.Held
  rw [hholders, hrequests]
  exact h.held t (hcount ▸ ht)

/-! ### Jobs -/

/-- A job is taken out. -/
theorem takeJob (h : Accounted b none) (hj : b.jobs[j]? = some job)
    (hstage : job.stage ≠ .rearm) : Accounted (b.removeJob j) (some job.ticket) where
  held := h.held_of_eq rfl rfl fun _ => Books.holders_removeJob hj hstage
  job := fun job' hjob' => h.job job' (List.mem_of_mem_eraseIdx hjob')
  task := h.task
  run := fun job' hjob' => h.run job' (List.mem_of_mem_eraseIdx hjob')
  carried := by
    rintro t response frame (⟨job', hjob', hcarried⟩ | htask)
    · exact h.carried (Or.inl ⟨job', List.mem_of_mem_eraseIdx hjob', hcarried⟩)
    · exact h.carried (Or.inr htask)
  served := h.served
  once := h.once
  answered := h.answered

/-- A job that only has to arm the descriptor is taken out. -/
theorem takeRearm (h : Accounted b none) (hj : b.jobs[j]? = some job)
    (hstage : job.stage = .rearm) : Accounted (b.removeJob j) none where
  held := h.held_of_eq rfl rfl fun _ => Books.holders_removeJob_rearm hj hstage
  job := fun job' hjob' => h.job job' (List.mem_of_mem_eraseIdx hjob')
  task := h.task
  run := fun job' hjob' => h.run job' (List.mem_of_mem_eraseIdx hjob')
  carried := by
    rintro t response frame (⟨job', hjob', hcarried⟩ | htask)
    · exact h.carried (Or.inl ⟨job', List.mem_of_mem_eraseIdx hjob', hcarried⟩)
    · exact h.carried (Or.inr htask)
  served := h.served
  once := h.once
  answered := h.answered

/-- What is known of the jobs and a new one. -/
theorem mem_addJob {job' : Job} (hmem : job' ∈ (b.addJob job).jobs) :
    job' ∈ b.jobs ∨ job' = job := by
  rcases List.mem_append.mp hmem with hold | hnew
  · exact Or.inl hold
  · exact Or.inr (List.mem_singleton.mp hnew)

/-- A request in the hand becomes a job. -/
theorem putJob (job : Job) (h : Accounted b (some job.ticket)) (hstage : job.stage ≠ .rearm)
    (hconnection : job.ticket.connection < b.connectionCount)
    (hloop : b.loop job.ticket.connection = job.sub) (hfd : b.fd job.ticket.connection = job.fd)
    (hrun : ∀ request, job.stage = .run request →
      (b.requests job.ticket.connection)[job.ticket.index]? = some request ∧
        job.ticket ∉ b.served.map Served.ticket)
    (hcarried : ∀ response frame,
      job.stage = .send response frame ∨ job.stage = .post response frame →
        encodeResponse response = .ok frame ∧ b.Replied job.ticket response) :
    Accounted (b.addJob job) none where
  held := h.held_of_eq rfl rfl fun _ => Books.holders_addJob hstage
  job := by
    intro job' hmem
    rcases mem_addJob hmem with hold | rfl
    · exact h.job job' hold
    · exact ⟨hconnection, hloop, hfd⟩
  task := h.task
  run := by
    intro job' hmem request hstage'
    rcases mem_addJob hmem with hold | rfl
    · exact h.run job' hold request hstage'
    · exact hrun request hstage'
  carried := by
    rintro t response frame (⟨job', hmem, ht, hstage'⟩ | htask)
    · rcases mem_addJob hmem with hold | rfl
      · exact h.carried (Or.inl ⟨job', hold, ht, hstage'⟩)
      · exact ht ▸ hcarried response frame hstage'
    · exact h.carried (Or.inr htask)
  served := h.served
  once := h.once
  answered := h.answered

/-- A job that only has to arm the descriptor. -/
theorem addRearm (job : Job) (h : Accounted b none) (hstage : job.stage = .rearm)
    (hconnection : job.ticket.connection < b.connectionCount)
    (hloop : b.loop job.ticket.connection = job.sub) (hfd : b.fd job.ticket.connection = job.fd) :
    Accounted (b.addJob job) none where
  held := h.held_of_eq rfl rfl fun _ => Books.holders_addJob_rearm hstage
  job := by
    intro job' hmem
    rcases mem_addJob hmem with hold | rfl
    · exact h.job job' hold
    · exact ⟨hconnection, hloop, hfd⟩
  task := h.task
  run := by
    intro job' hmem request hstage'
    rcases mem_addJob hmem with hold | rfl
    · exact h.run job' hold request hstage'
    · rw [hstage] at hstage'
      cases hstage'
  carried := by
    rintro t response frame (⟨job', hmem, ht, hstage'⟩ | htask)
    · rcases mem_addJob hmem with hold | rfl
      · exact h.carried (Or.inl ⟨job', hold, ht, hstage'⟩)
      · rw [hstage] at hstage'
        rcases hstage' with hstage' | hstage' <;> cases hstage'
    · exact h.carried (Or.inr htask)
  served := h.served
  once := h.once
  answered := h.answered

/-! ### Tasks -/

theorem mem_addTask {task task' : LoopTask} {sub' : Nat}
    (hmem : task' ∈ (b.addTask sub task).tasks sub') :
    task' ∈ b.tasks sub' ∨ (sub' = sub ∧ task' = task) := by
  simp only [Books.addTask, Function.update_apply] at hmem
  split_ifs at hmem with hsub
  · rw [hsub]
    rcases List.mem_append.mp hmem with hold | hnew
    · exact Or.inl hold
    · exact Or.inr ⟨rfl, List.mem_singleton.mp hnew⟩
  · exact Or.inl hmem

theorem mem_removeTask {task : LoopTask} {sub' : Nat}
    (hmem : task ∈ (b.removeTask sub).tasks sub') : task ∈ b.tasks sub' := by
  simp only [Books.removeTask, Function.update_apply] at hmem
  split_ifs at hmem with hsub
  · rw [hsub]
    exact List.mem_of_mem_tail hmem
  · exact hmem

/-- A frame in the hand is queued for the loop of its connection. -/
theorem putTask {response : RawResponse} {frame : Bytes} (h : Accounted b (some t))
    (hconnection : t.connection < b.connectionCount) (hloop : b.loop t.connection = sub)
    (hframe : encodeResponse response = .ok frame) (hreplied : b.Replied t response) :
    Accounted (b.addTask sub (.appendWrite t response frame)) none where
  held := h.held_of_eq rfl rfl fun _ => Books.holders_addTask hloop
  job := h.job
  task := by
    intro sub' t' response' frame' hmem
    rcases mem_addTask hmem with hold | ⟨rfl, heq⟩
    · exact h.task sub' t' response' frame' hold
    · obtain ⟨rfl, -, -⟩ := LoopTask.appendWrite.inj heq
      exact ⟨hconnection, hloop⟩
  run := h.run
  carried := by
    rintro t' response' frame' (hjob | ⟨sub', hmem⟩)
    · exact h.carried (Or.inl hjob)
    · rcases mem_addTask hmem with hold | ⟨-, heq⟩
      · exact h.carried (Or.inr ⟨sub', hold⟩)
      · obtain ⟨rfl, rfl, rfl⟩ := LoopTask.appendWrite.inj heq
        exact ⟨hframe, hreplied⟩
  served := h.served
  once := h.once
  answered := h.answered

/-- A task without a frame is queued. -/
theorem addTask_other {task : LoopTask} (h : Accounted b none)
    (htask : ∀ t, task.holds t = false) : Accounted (b.addTask sub task) none where
  held := h.held_of_eq rfl rfl fun _ => Books.holders_addTask_other htask
  job := h.job
  task := by
    intro sub' t' response' frame' hmem
    rcases mem_addTask hmem with hold | ⟨-, rfl⟩
    · exact h.task sub' t' response' frame' hold
    · exact absurd (htask t') (by simp only [LoopTask.holds_appendWrite, decide_true,
        Bool.true_eq_false, not_false_eq_true])
  run := h.run
  carried := by
    rintro t' response' frame' (hjob | ⟨sub', hmem⟩)
    · exact h.carried (Or.inl hjob)
    · rcases mem_addTask hmem with hold | ⟨-, rfl⟩
      · exact h.carried (Or.inr ⟨sub', hold⟩)
      · exact absurd (htask t') (by simp only [LoopTask.holds_appendWrite, decide_true,
          Bool.true_eq_false, not_false_eq_true])
  served := h.served
  once := h.once
  answered := h.answered

/-- A frame is taken from the front of a queue. -/
theorem takeTask {response : RawResponse} {frame : Bytes} {rest : List LoopTask}
    (h : Accounted b none) (htasks : b.tasks sub = .appendWrite t response frame :: rest) :
    Accounted (b.removeTask sub) (some t) where
  held := by
    have hmem : .appendWrite t response frame ∈ b.tasks sub := htasks ▸ List.mem_cons_self
    exact h.held_of_eq rfl rfl fun _ => Books.holders_removeTask htasks (h.task _ _ _ _ hmem).2
  job := h.job
  task := fun sub' t' response' frame' hmem => h.task sub' t' response' frame' (mem_removeTask hmem)
  run := h.run
  carried := by
    rintro t' response' frame' (hjob | ⟨sub', hmem⟩)
    · exact h.carried (Or.inl hjob)
    · exact h.carried (Or.inr ⟨sub', mem_removeTask hmem⟩)
  served := h.served
  once := h.once
  answered := h.answered

/-- A task without a frame is taken from the front of a queue. -/
theorem takeTask_other {task : LoopTask} {rest : List LoopTask} (h : Accounted b none)
    (htasks : b.tasks sub = task :: rest) (htask : ∀ t, task.holds t = false) :
    Accounted (b.removeTask sub) none where
  held := h.held_of_eq rfl rfl fun _ => Books.holders_removeTask_other htasks htask
  job := h.job
  task := fun sub' t' response' frame' hmem => h.task sub' t' response' frame' (mem_removeTask hmem)
  run := h.run
  carried := by
    rintro t' response' frame' (hjob | ⟨sub', hmem⟩)
    · exact h.carried (Or.inl hjob)
    · exact h.carried (Or.inr ⟨sub', mem_removeTask hmem⟩)
  served := h.served
  once := h.once
  answered := h.answered

/-! ### The end of a request -/

/-- A request in the hand is answered. -/
theorem putAnswer {response : RawResponse} (h : Accounted b (some t))
    (hanswer : b.Replied t response ∨ b.Refused t response) :
    Accounted (b.addAnswer t response) none where
  held := h.held_of_eq rfl rfl fun _ => Books.holders_addAnswer
  job := h.job
  task := h.task
  run := h.run
  carried := h.carried
  served := h.served
  once := h.once
  answered := by
    intro c hc answer hmem
    simp only [Books.addAnswer, Function.update_apply] at hmem
    split_ifs at hmem with heq
    · subst heq
      rcases List.mem_append.mp hmem with hold | hnew
      · exact h.answered _ hc answer hold
      · rw [List.mem_singleton.mp hnew]
        exact hanswer
    · exact h.answered c hc answer hmem

/-- The response to a request in the hand is given up. -/
theorem putDropped (h : Accounted b (some t)) : Accounted (b.addDropped t) none where
  held := h.held_of_eq rfl rfl fun _ => Books.holders_addDropped
  job := h.job
  task := h.task
  run := h.run
  carried := h.carried
  served := h.served
  once := h.once
  answered := h.answered

/-- The handler is run for a request in the hand. -/
theorem serve (run : Served ε) (h : Accounted b (some run.ticket))
    (hconnection : run.ticket.connection < b.connectionCount)
    (hrequest : (b.requests run.ticket.connection)[run.ticket.index]? = some run.request)
    (hnew : run.ticket ∉ b.served.map Served.ticket) :
    Accounted (b.serve run) (some run.ticket) where
  held := h.held_of_eq rfl rfl fun _ => rfl
  job := h.job
  task := h.task
  run := by
    intro job hjob request hstage
    obtain ⟨hget, hnot⟩ := h.run job hjob request hstage
    refine ⟨hget, fun hmem => ?_⟩
    simp only [Books.serve, List.map_append, List.map_singleton, List.mem_append,
      List.mem_singleton] at hmem
    -- Another job for the same request would be another place for it.
    have hother : job.holds run.ticket = true := by
      simp only [Job.holds, hstage, decide_eq_true_eq]
      exact hmem.resolve_left hnot
    exact List.countP_eq_zero.mp (h.only_hand hconnection).2.1 job hjob hother
  carried := by
    intro t response frame hcarries
    obtain ⟨hframe, old, hold, hreplied⟩ := h.carried hcarries
    exact ⟨hframe, old, List.mem_append_left _ hold, hreplied⟩
  served := by
    intro old hmem
    rcases List.mem_append.mp hmem with hold | hlast
    · exact h.served old hold
    · rw [List.mem_singleton.mp hlast]
      exact ⟨hconnection, hrequest⟩
  once := by
    simp only [Books.serve, List.map_append, List.map_singleton]
    exact h.once.append (List.nodup_singleton _) (List.disjoint_singleton.mpr hnew)
  answered := by
    intro c hc answer hanswer
    rcases h.answered c hc answer hanswer with ⟨old, hold, hreplied⟩ | ⟨r, hget, hr, hnot⟩
    · exact Or.inl ⟨old, List.mem_append_left _ hold, hreplied⟩
    · refine Or.inr ⟨r, hget, hr, fun hmem => ?_⟩
      simp only [Books.serve, List.map_append, List.map_singleton, List.mem_append,
        List.mem_singleton] at hmem
      -- A request that was refused is among the answers, and not in the hand.
      have hticket := hmem.resolve_left hnot
      have hnone := (h.only_hand hconnection).2.2
      rw [← hticket] at hnone
      exact List.countP_eq_zero.mp hnone answer hanswer (decide_eq_true rfl)

/-- A new connection has no requests yet. -/
theorem connect (h : Accounted b none) (sub fd : Nat) : Accounted (b.connect sub fd) none := by
  have hne : ∀ {c}, c < b.connectionCount → c ≠ b.connectionCount := fun hc => Nat.ne_of_lt hc
  have hreplied : ∀ {t response}, b.Replied t response → (b.connect sub fd).Replied t response :=
    fun hreplied => hreplied
  refine ⟨?_, ?_, ?_, ?_, h.carried, ?_, h.once, ?_⟩
  · intro t ht
    by_cases hc : t.connection = b.connectionCount
    · -- Nothing on its way is for a connection that was not there.
      have hjobs : b.jobs.countP (·.holds t) = 0 := by
        refine List.countP_eq_zero.mpr fun job hjob hholds => ?_
        have hticket : job.ticket = t := by
          simp only [Job.holds] at hholds
          split at hholds
          · cases hholds
          · exact of_decide_eq_true hholds
        exact hne (h.job job hjob).1 (hticket ▸ hc)
      have htasks : ∀ sub', (b.tasks sub').countP (·.holds t) = 0 := by
        intro sub'
        refine List.countP_eq_zero.mpr fun task htask hholds => ?_
        cases task with
        | appendWrite u response frame =>
            have hu : u = t := of_decide_eq_true hholds
            exact hne (h.task sub' u response frame htask).1 (hu ▸ hc)
        | addClient fd' => cases hholds
        | rearm fd' c => cases hholds
      right
      simp only [Books.holders, Books.connect, hc, Function.update_self, hjobs, htasks,
        reduceCtorEq, if_false, List.countP_nil, List.count_nil, List.length_nil]
      exact ⟨Nat.zero_le _, trivial⟩
    · have hheld := h.held t (by
        simp only [Books.connect] at ht
        omega)
      simp only [Books.Held, Books.holders, Books.connect, Function.update_of_ne hc] at hheld ⊢
      exact hheld
  · intro job hjob
    obtain ⟨hlt, hloop, hfd⟩ := h.job job hjob
    simp only [Books.connect, Function.update_of_ne (hne hlt)]
    exact ⟨Nat.lt_succ_of_lt hlt, hloop, hfd⟩
  · intro sub' t response frame hmem
    obtain ⟨hlt, hloop⟩ := h.task sub' t response frame hmem
    simp only [Books.connect, Function.update_of_ne (hne hlt)]
    exact ⟨Nat.lt_succ_of_lt hlt, hloop⟩
  · intro job hjob request hstage
    simp only [Books.connect, Function.update_of_ne (hne (h.job job hjob).1)]
    exact h.run job hjob request hstage
  · intro run hrun
    obtain ⟨hlt, hget⟩ := h.served run hrun
    simp only [Books.connect, Function.update_of_ne (hne hlt)]
    exact ⟨Nat.lt_succ_of_lt hlt, hget⟩
  · intro c hc answer hanswer
    simp only [Books.connect, Function.update_apply] at hanswer hc
    split_ifs at hanswer with heq
    · cases hanswer
    · rcases h.answered c (by omega) answer hanswer with hreplied' | ⟨r, hget, hr, hnot⟩
      · exact Or.inl hreplied'
      · refine Or.inr ⟨r, ?_, hr, hnot⟩
        simp only [Books.connect, Function.update_of_ne heq]
        exact hget

end Accounted

/-! ## What changes the books -/

namespace TcpServer

variable {s : TcpServer σ ε} {c sub fd : Nat}

/-- A change of a connection that leaves its requests where they are. -/
theorem books_modifyConnection {f : ServerConnection → ServerConnection}
    (hloop : (f (s.connections c)).loop = (s.connections c).loop)
    (hfd : (f (s.connections c)).fd = (s.connections c).fd)
    (hrequests : (f (s.connections c)).requests = (s.connections c).requests)
    (hanswers : (f (s.connections c)).answers = (s.connections c).answers)
    (hdropped : (f (s.connections c)).dropped = (s.connections c).dropped) :
    (s.modifyConnection c f).books = s.books := by
  unfold modifyConnection books
  congr 1 <;> funext c'
  all_goals
    simp only [Function.update_apply]
    split_ifs with heq
    · rw [heq]
      assumption
    · rfl

theorem books_modifySocket (f : Socket → Socket) : (s.modifySocket fd f).books = s.books := by
  unfold modifySocket
  split <;> rfl

theorem books_modifySub {f : SubReactor → SubReactor}
    (htasks : (f (s.subs sub)).tasks = (s.subs sub).tasks) :
    (s.modifySub sub f).books = s.books := by
  unfold modifySub books
  congr 1
  funext sub'
  simp only [Function.update_apply]
  split_ifs with heq
  · rw [heq, htasks]
  · rfl

theorem books_modifyClient (f : Client → Client) : (s.modifyClient sub fd f).books = s.books :=
  books_modifySub rfl

theorem books_modifyFd (b : Bool) : (s.modifyFd sub fd b).books = s.books :=
  books_modifySub rfl

theorem books_closeClient : (s.closeClient sub fd).books = s.books := by
  unfold closeClient
  split
  · rfl
  · exact books_modifySub rfl

theorem books_enqueue (task : LoopTask) :
    (s.enqueue sub task).books = s.books.addTask sub task := by
  unfold enqueue modifySub books Books.addTask
  congr 1
  funext sub'
  simp only [Function.update_apply]
  split_ifs <;> rfl

theorem books_dequeue {task : LoopTask} {rest : List LoopTask}
    (htasks : (s.subs sub).tasks = task :: rest) :
    (s.modifySub sub fun r => { r with tasks := rest }).books = s.books.removeTask sub := by
  unfold modifySub books Books.removeTask
  congr 1
  funext sub'
  simp only [Function.update_apply, htasks, List.tail_cons]
  split_ifs <;> rfl

/-- A change of what a connection has to do, field by field. -/
theorem books_update {f : ServerConnection → ServerConnection}
    (hloop : (f (s.connections c)).loop = (s.connections c).loop)
    (hfd : (f (s.connections c)).fd = (s.connections c).fd) :
    (s.modifyConnection c f).books = { s.books with
      requests := Function.update s.books.requests c (f (s.connections c)).requests
      answers := Function.update s.books.answers c (f (s.connections c)).answers
      dropped := Function.update s.books.dropped c (f (s.connections c)).dropped } := by
  unfold modifyConnection books
  congr 1 <;> funext c'
  all_goals
    simp only [Function.update_apply]
    split_ifs with heq
    · first | rfl | rw [heq]; assumption
    · rfl

theorem books_drop (ticket : Ticket) : (s.drop ticket).books = s.books.addDropped ticket := by
  unfold drop Books.addDropped
  rw [books_update rfl rfl]
  simp only [books, Function.update_eq_self]

theorem books_answer (ticket : Ticket) (response : RawResponse) (write : TcpConnection) :
    (s.answer ticket response write).books = s.books.addAnswer ticket response := by
  unfold answer Books.addAnswer
  rw [books_update rfl rfl]
  simp only [books, Function.update_eq_self]

theorem books_call (request : RawRequest) :
    (s.modifyConnection c fun connection =>
      { connection with requests := connection.requests ++ [request] }).books =
      s.books.call c request := by
  unfold Books.call
  rw [books_update rfl rfl]
  simp only [books, Function.update_eq_self]

end TcpServer

end MqBroker
