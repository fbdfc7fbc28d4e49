import MqBroker.Broker.State
import MqBroker.Replication.Durability

/-!
# Leaders After a Restart

A broker takes its role from the configuration when it starts, and its term
and its vote from `raft_state.bin`.

The node that is configured as leader therefore leads again after every
restart, also in a term that another node was elected in and that it has
voted for. Where a broker only restarts as leader when it was leading, a
leader has never stood by another node in its term. A life of a broker is a
sequence of calls of its coordinator and of restarts, together with the nodes
it has voted for or accepted appends from on the way. The saves of a call can
fail, and then a restart goes back to an older term.

Three kinds of calls would break this without a restart. They name the broker
itself as the leader of a term it does not lead, ask a leader for its vote in
its own term, or go beyond the largest term. No other broker makes them.

## Main definitions

* `Op.allegiances`: The votes and accepted appends of an operation.
* `Life`, `LifeEvent`, `Life.run`: The life of a broker.
* `LifeEvent.KeepsOffice`: A restart makes no leader of a node that was none.
* `LifeEvent.Orderly`: The condition on the events of a life.

## Theorems

* `Op.office`: What an operation does to term and role.
* `Life.Settled`: What lasts through a life.
* `restarts_keep_office`: Orderly restarts resurrect no leader.
-/

namespace MqBroker

open ReplicationCoordinator

/-! ## Operations -/

/-- Whom an operation makes the node stand by, and in which term: the candidate
    it votes for or the leader whose append it accepts. -/
def Op.allegiances (c : ReplicationCoordinator) : Op → List (UInt64 × Bytes)
  | .observeAppend _ t l _ _ _ => if c.acceptsLeader t l then [(t, l)] else []
  | op => (op.vote c).toList

/-- No call makes a follower the leader of its own term, takes the vote of a
    candidate or leader for another node, or starts an election beyond the
    largest term. -/
def Op.Orderly (c : ReplicationCoordinator) : Op → Prop
  | .setLeader id => id = c.nodeId → c.role ≠ .follower
  | .observeAppend _ t l _ _ _ => l = c.nodeId → t = c.currentTerm → c.role ≠ .follower
  | .requestVote t cand _ _ =>
      cand ≠ c.nodeId → t = c.currentTerm → c.votedFor = [] ∨ c.votedFor = cand →
        c.role = .follower
  | .beginElection => c.currentTerm.toNat < 2 ^ 64 - 1
  | _ => True

instance (c : ReplicationCoordinator) : (op : Op) → Decidable (op.Orderly c)
  | .setLeader id => inferInstanceAs (Decidable (id = c.nodeId → c.role ≠ .follower))
  | .observeAppend _ t l _ _ _ =>
      inferInstanceAs (Decidable (l = c.nodeId → t = c.currentTerm → c.role ≠ .follower))
  | .requestVote t cand _ _ =>
      inferInstanceAs (Decidable (cand ≠ c.nodeId → t = c.currentTerm →
        c.votedFor = [] ∨ c.votedFor = cand → c.role = .follower))
  | .beginElection => inferInstanceAs (Decidable (c.currentTerm.toNat < 2 ^ 64 - 1))
  | .registerReplica _ => isTrue trivial
  | .removeReplica _ => isTrue trivial
  | .observeHeartbeat _ _ _ _ => isTrue trivial
  | .observePreVote _ _ _ => isTrue trivial
  | .observeVote _ _ _ => isTrue trivial
  | .observeHeartbeatRound _ => isTrue trivial
  | .advanceCommit _ _ _ => isTrue trivial
  | .recordLocalOffset _ _ => isTrue trivial
  | .fileSystem _ => isTrue trivial

/-- Between two coordinators the term grew, or a follower stayed one. -/
def Stands (c c' : ReplicationCoordinator) : Prop :=
  (c'.currentTerm = c.currentTerm ∧ (c'.role ≠ .follower → c.role ≠ .follower)) ∨
    c.currentTerm < c'.currentTerm

section Office

variable {c : ReplicationCoordinator}

@[simp] theorem persist_currentTerm : c.persist.currentTerm = c.currentTerm :=
  congrArg RaftState.currentTerm c.persist_raftState

@[simp] theorem persist_role : c.persist.role = c.role := by
  unfold persist
  split <;> rfl

theorem stands_of_eq {d : ReplicationCoordinator} (hterm : d.currentTerm = c.currentTerm)
    (hrole : d.role = c.role) : Stands c d := by
  refine Or.inl ⟨hterm, ?_⟩
  rw [hrole]
  exact id

/-- The allegiances of an operation are in the term it ends in, and a node that
    is not a follower then stands by itself. -/
def Loyal (c c' : ReplicationCoordinator) (marks : List (UInt64 × Bytes)) : Prop :=
  ∀ v ∈ marks, v.1 = c'.currentTerm ∧ (c'.role ≠ .follower → v.2 = c.nodeId)

theorem observeAppend_currentTerm {p l : Bytes} {t off commit : UInt64} {now : Int}
    (h : c.acceptsLeader t l = true) :
    (c.observeAppend p t l off commit now).1.currentTerm = t := by
  have hterm : c.currentTerm ≤ t := (of_decide_eq_true h).1
  have hballot := congrArg Election.Ballot.term
    (show (c.observeAppend p t l off commit now).1.ballot = _ from observeAppend_ballot h)
  rw [adoptTerm_ballot] at hballot
  by_cases hgt : t > c.currentTerm
  · rw [if_pos hgt] at hballot
    exact hballot
  · rw [if_neg hgt] at hballot
    exact hballot.trans (le_antisymm hterm (not_lt.mp hgt))

theorem observeAppend_role {p l : Bytes} {t off commit : UInt64} {now : Int}
    (h : c.acceptsLeader t l = true) :
    (c.observeAppend p t l off commit now).1.role
      = if l = c.nodeId then .leader else .follower := by
  simp only [observeAppend]
  rw [if_neg (not_not.mpr h)]
  split <;> exact persist_role

theorem observeAppend_office (p l : Bytes) (t off commit : UInt64) (now : Int)
    (hop : (Op.observeAppend p t l off commit now).Orderly c) :
    Stands c (c.observeAppend p t l off commit now).1 ∧
      Loyal c (c.observeAppend p t l off commit now).1
        ((Op.observeAppend p t l off commit now).allegiances c) := by
  by_cases h : c.acceptsLeader t l = true
  · have hterm : c.currentTerm ≤ t := (of_decide_eq_true h).1
    rw [Stands, Loyal, observeAppend_currentTerm h, observeAppend_role h]
    constructor
    · rcases hterm.lt_or_eq with hlt | heq
      · exact Or.inr hlt
      · refine Or.inl ⟨heq.symm, ?_⟩
        split
        · exact fun _ => hop ‹l = c.nodeId› heq.symm
        · exact fun hne => absurd rfl hne
    · intro v hv
      rw [Op.allegiances, if_pos h, List.mem_singleton] at hv
      subst hv
      refine ⟨rfl, fun hne => ?_⟩
      by_contra hl
      exact hne (if_neg hl)
  · have hsame : (c.observeAppend p t l off commit now).1 = c := by
      simp only [observeAppend]
      rw [if_pos h]
    rw [hsame]
    refine ⟨stands_of_eq rfl rfl, fun v hv => ?_⟩
    rw [Op.allegiances, if_neg h] at hv
    exact absurd hv List.not_mem_nil

theorem requestVote_office (t : UInt64) (cand : Bytes) (idx lt : UInt64)
    (hop : (Op.requestVote t cand idx lt).Orderly c) :
    Stands c (c.requestVote t cand idx lt).1 ∧
      Loyal c (c.requestVote t cand idx lt).1 ((Op.requestVote t cand idx lt).allegiances c) := by
  by_cases h : (c.requestVote t cand idx lt).2 = true
  · rcases requestVote_granted h with ⟨haccepts, _, hfree, heq⟩
    have hmarks : (Op.requestVote t cand idx lt).allegiances c = [(t, cand)] := by
      simp only [Op.allegiances, Op.vote, h, if_true, Option.toList_some]
    rw [Stands, Loyal, hmarks, heq, persist_currentTerm, persist_role]
    by_cases hgt : t > c.currentTerm
    · -- A higher term makes a follower of the node.
      rw [if_pos hgt]
      refine ⟨Or.inr hgt, fun v hv => ?_⟩
      rw [List.mem_singleton] at hv
      subst hv
      exact ⟨rfl, fun hne => absurd rfl hne⟩
    · have hterm : t = c.currentTerm :=
        le_antisymm (not_lt.mp hgt) (of_decide_eq_true haccepts).2.1
      rw [if_neg hgt]
      refine ⟨Or.inl ⟨rfl, id⟩, fun v hv => ?_⟩
      rw [List.mem_singleton] at hv
      subst hv
      refine ⟨hterm, fun hne => ?_⟩
      by_contra hother
      exact hne (hop hother hterm (hfree hterm))
  · have hmarks : (Op.requestVote t cand idx lt).allegiances c = [] := by
      simp only [Op.allegiances, Op.vote, h, Bool.false_eq_true, if_false, Option.toList_none]
    rw [requestVote_refused h, hmarks]
    exact ⟨stands_of_eq rfl rfl, fun v hv => absurd hv List.not_mem_nil⟩

theorem beginElection_office (h : Op.beginElection.Orderly c) :
    Stands c c.beginElection.1 ∧ Loyal c c.beginElection.1 (Op.beginElection.allegiances c) := by
  have hterm : c.beginElection.1.currentTerm = c.currentTerm + 1 := persist_currentTerm
  rw [Stands, Loyal, hterm]
  refine ⟨Or.inr (lt_add_one_of_toNat_lt c.currentTerm h), fun v hv => ?_⟩
  rw [Op.allegiances, Op.vote, Option.toList_some, List.mem_singleton] at hv
  subst hv
  · exact ⟨rfl, fun _ => rfl⟩
  · intro p t l off commit now heq
    cases heq

theorem observeVote_stands (t : UInt64) (v : Bytes) (g : Bool) :
    Stands c (c.observeVote t v g).1 := by
  simp only [observeVote]
  split
  · exact stands_of_eq rfl rfl
  · rename_i hcounts
    have hrun : c.role = .candidate := (of_decide_eq_true (not_not.mp hcounts)).2.1
    split
    · refine Or.inl ⟨persist_currentTerm, fun _ => ?_⟩
      rw [hrun]
      decide
    · exact stands_of_eq rfl rfl

theorem observeHeartbeatRound_stands (r : Bool) : Stands c (c.observeHeartbeatRound r).1 := by
  simp only [observeHeartbeatRound]
  split
  · exact stands_of_eq rfl rfl
  · split
    · exact stands_of_eq rfl rfl
    · split
      · exact stands_of_eq rfl rfl
      · exact Or.inl ⟨rfl, fun hne => absurd rfl hne⟩

/-- An orderly operation raises the term or leaves followers what they are, and
    whoever comes out of it as candidate or leader stands by itself. -/
theorem Op.office (op : Op) (hop : op.Orderly c) :
    Stands c (op.exec c) ∧ Loyal c (op.exec c) (op.allegiances c) := by
  cases op with
  | observeAppend p t l off commit now => exact observeAppend_office p l t off commit now hop
  | requestVote t cand idx lt => exact requestVote_office t cand idx lt hop
  | beginElection => exact beginElection_office hop
  | setLeader id =>
      refine ⟨Or.inl ⟨persist_currentTerm, ?_⟩, fun v hv => absurd hv List.not_mem_nil⟩
      rw [Op.exec, ReplicationCoordinator.setLeader, persist_role]
      split
      · exact fun _ => hop ‹id = c.nodeId›
      · exact fun hne => absurd rfl hne
  | observeVote t v g => exact ⟨observeVote_stands t v g, fun v hv => absurd hv List.not_mem_nil⟩
  | observeHeartbeatRound r =>
      exact ⟨observeHeartbeatRound_stands r, fun v hv => absurd hv List.not_mem_nil⟩
  | registerReplica id =>
      refine ⟨?_, fun v hv => absurd hv List.not_mem_nil⟩
      simp only [Op.exec, ReplicationCoordinator.registerReplica]
      split <;> exact stands_of_eq rfl rfl
  | removeReplica id => exact ⟨stands_of_eq rfl rfl, fun v hv => absurd hv List.not_mem_nil⟩
  | observeHeartbeat p id off now =>
      refine ⟨?_, fun v hv => absurd hv List.not_mem_nil⟩
      simp only [Op.exec, ReplicationCoordinator.observeHeartbeat]
      split
      · exact stands_of_eq rfl rfl
      · split <;> exact stands_of_eq rfl rfl
  | observePreVote t v g =>
      refine ⟨?_, fun v hv => absurd hv List.not_mem_nil⟩
      simp only [Op.exec, ReplicationCoordinator.observePreVote]
      split <;> exact stands_of_eq rfl rfl
  | advanceCommit p off now =>
      refine ⟨?_, fun v hv => absurd hv List.not_mem_nil⟩
      simp only [Op.exec, ReplicationCoordinator.advanceCommit]
      split
      · exact stands_of_eq rfl rfl
      · split
        · exact stands_of_eq rfl rfl
        · split
          · exact stands_of_eq rfl rfl
          · exact stands_of_eq persist_currentTerm persist_role
  | recordLocalOffset p off => exact ⟨stands_of_eq rfl rfl, fun v hv => absurd hv List.not_mem_nil⟩
  | fileSystem saves => exact ⟨stands_of_eq rfl rfl, fun v hv => absurd hv List.not_mem_nil⟩

end Office

/-! ## The life of a broker -/

/-- A broker, and whom it has stood by so far: the candidates it voted for and
    the leaders whose appends it accepted, with the terms. -/
structure Life where
  broker : Broker
  allegiances : List (UInt64 × Bytes) := []

/-- A call of an operation of the coordinator, or a restart of the process with
    whatever configuration. -/
inductive LifeEvent
  | call (op : Op)
  | restart (peers : List ReplicationPeer) (quorum : Nat) (follower : Bool) (authToken : Bytes)
deriving DecidableEq, Repr

/-- The first start of a broker, on an empty data directory. -/
def Life.start (config : StorageConfig) (nodeId : Bytes) (peers : List ReplicationPeer)
    (quorum : Nat) (follower : Bool) (authToken : Bytes) : Life where
  broker := (Broker.fresh config).configureReplication nodeId peers quorum follower authToken none

/-- The life after an event. -/
def LifeEvent.exec (l : Life) : LifeEvent → Life
  | .call op =>
      { broker := { l.broker with coordinator := op.exec l.broker.coordinator }
        allegiances := l.allegiances ++ op.allegiances l.broker.coordinator }
  | .restart peers quorum follower authToken =>
      { l with
        broker := l.broker.configureReplication l.broker.nodeId peers quorum follower authToken
          l.broker.coordinator.stateFile }

/-- The life after a sequence of events. -/
def Life.run (l : Life) (events : List LifeEvent) : Life := events.foldl LifeEvent.exec l

/-- A restart makes the node leader only if it was leader in the restored term
    before, and never in a term in which it stood by another node. -/
def LifeEvent.KeepsOffice (l : Life) : LifeEvent → Prop
  | .call _ => True
  | .restart peers quorum follower authToken =>
      let before := l.broker.coordinator
      let after := ((LifeEvent.restart peers quorum follower authToken).exec l).broker.coordinator
      after.role = .leader →
        before.role = .leader ∧ before.currentTerm = after.currentTerm ∧
          ∀ other, (after.currentTerm, other) ∈ l.allegiances → other = l.broker.nodeId

/-- A broker restarts as follower, or as the leader it was, on a state file
    that was written in its term. -/
def LifeEvent.Orderly (l : Life) : LifeEvent → Prop
  | .call op => op.Orderly l.broker.coordinator
  | .restart _ _ follower _ =>
      l.broker.coordinator.TermSaved ∧
        (follower = true ∨ l.broker.coordinator.role = .leader)

instance (l : Life) : (e : LifeEvent) → Decidable (e.Orderly l)
  | .call op => inferInstanceAs (Decidable (op.Orderly l.broker.coordinator))
  | .restart _ _ follower _ =>
      inferInstanceAs (Decidable (l.broker.coordinator.TermSaved ∧
        (follower = true ∨ l.broker.coordinator.role = .leader)))

/-- What lasts through an orderly life. Terms only grow, and a candidate or
    leader stands by itself. -/
structure Life.Settled (l : Life) : Prop where
  id : l.broker.coordinator.nodeId = l.broker.nodeId
  path : l.broker.coordinator.hasStatePath = true
  past : ∀ v ∈ l.allegiances, v.1 ≤ l.broker.coordinator.currentTerm
  office : l.broker.coordinator.role ≠ .follower →
    ∀ v ∈ l.allegiances, v.1 = l.broker.coordinator.currentTerm → v.2 = l.broker.nodeId

/-- The coordinator of a configured broker, up to its replicas. -/
theorem configureReplication_coordinator (b : Broker) (nodeId : Bytes)
    (peers : List ReplicationPeer) (quorum : Nat) (follower : Bool) (authToken : Bytes)
    (file : Option Bytes) :
    ∃ replicas,
      (b.configureReplication nodeId peers quorum follower authToken file).coordinator
        = { ReplicationCoordinator.restart nodeId (if follower then .follower else .leader) 10000
              true file with
            replicas := replicas } := by
  have hfold : (b.configureReplication nodeId peers quorum follower authToken file).coordinator
      = (peers.map ReplicationPeer.nodeId).foldl registerReplica
        (ReplicationCoordinator.restart nodeId (if follower then .follower else .leader) 10000
          true file) := by
    rw [List.foldl_map]
    rfl
  rw [hfold]
  exact foldl_registerReplica_eq _ _

section Lives

variable {l : Life}

/-- The coordinator after a restart has the saved term and the configured
    role. -/
theorem restart_coordinator (l : Life) (hsaved : l.broker.coordinator.TermSaved)
    (peers : List ReplicationPeer) (quorum : Nat) (follower : Bool) (authToken : Bytes) :
    ∃ c, ((LifeEvent.restart peers quorum follower authToken).exec l).broker.coordinator = c ∧
      c.nodeId = l.broker.nodeId ∧ c.hasStatePath = true ∧
      c.role = (if follower then .follower else .leader) ∧
      c.currentTerm = l.broker.coordinator.currentTerm := by
  rcases configureReplication_coordinator l.broker l.broker.nodeId peers quorum follower authToken
    l.broker.coordinator.stateFile with ⟨replicas, heq⟩
  rcases hsaved with ⟨saved, hholds, hfits, hterm⟩
  refine ⟨_, heq, rfl, rfl, rfl, ?_⟩
  have hload : l.broker.coordinator.loadable.currentTerm = l.broker.coordinator.currentTerm := by
    rw [hholds.loadable hfits, hterm]
  exact hload

theorem Life.Settled.call (hl : l.Settled) (op : Op) (hop : op.Orderly l.broker.coordinator) :
    ((LifeEvent.call op).exec l).Settled := by
  rcases op.office hop with ⟨hstands, hloyal⟩
  refine ⟨op.exec_nodeId.trans hl.id, op.exec_hasStatePath.trans hl.path, ?_, ?_⟩
  · have hle : l.broker.coordinator.currentTerm ≤ (op.exec l.broker.coordinator).currentTerm :=
      hstands.elim (fun h => h.1.ge) le_of_lt
    intro v hv
    rcases List.mem_append.mp hv with hold | hnew
    · exact (hl.past v hold).trans hle
    · exact (hloyal v hnew).1.le
  · intro hrole v hv hterm
    rcases List.mem_append.mp hv with hold | hnew
    · -- An old allegiance is of this term only if the term did not grow.
      rcases hstands with ⟨hsame, hkeeps⟩ | hlt
      · exact hl.office (hkeeps hrole) v hold (hterm.trans hsame)
      · exact absurd (hl.past v hold) (not_le.mpr (hterm ▸ hlt))
    · exact ((hloyal v hnew).2 hrole).trans hl.id

theorem Life.Settled.restart (hl : l.Settled) (peers : List ReplicationPeer) (quorum : Nat)
    (follower : Bool) (authToken : Bytes)
    (hsaved : l.broker.coordinator.TermSaved)
    (hrole : follower = true ∨ l.broker.coordinator.role = .leader) :
    ((LifeEvent.restart peers quorum follower authToken).exec l).Settled := by
  rcases restart_coordinator l hsaved peers quorum follower authToken with
    ⟨c, hc, hid, hpath, hrole', hterm⟩
  refine ⟨?_, ?_, ?_, ?_⟩ <;> rw [hc]
  · exact hid
  · exact hpath
  · rw [hterm]
    exact hl.past
  · rw [hterm]
    intro hne
    refine hl.office ?_
    rcases hrole with rfl | hlead
    · exact absurd hrole' hne
    · rw [hlead]
      decide

/-- Every orderly event keeps a life settled. -/
theorem Life.Settled.exec (hl : l.Settled) (e : LifeEvent) (he : e.Orderly l) :
    (e.exec l).Settled := by
  cases e with
  | call op => exact hl.call op he
  | restart peers quorum follower authToken =>
      exact hl.restart peers quorum follower authToken he.1 he.2

/-- An orderly restart of a settled life resurrects no leader. -/
theorem Life.Settled.keepsOffice (hl : l.Settled) (e : LifeEvent) (he : e.Orderly l) :
    e.KeepsOffice l := by
  cases e with
  | call op => trivial
  | restart peers quorum follower authToken =>
      rcases restart_coordinator l he.1 peers quorum follower authToken with
        ⟨c, hc, _, _, hrole, hterm⟩
      simp only [LifeEvent.KeepsOffice, hc, hterm]
      intro hlead
      rcases he.2 with rfl | hrole'
      · rw [hrole] at hlead
        cases hlead
      · refine ⟨hrole', trivial, fun other hother => ?_⟩
        refine hl.office ?_ _ hother rfl
        rw [hrole']
        decide

end Lives

/-- The first start is settled. -/
theorem Life.start_settled (config : StorageConfig) (nodeId : Bytes)
    (peers : List ReplicationPeer) (quorum : Nat) (follower : Bool) (authToken : Bytes) :
    (Life.start config nodeId peers quorum follower authToken).Settled := by
  rcases configureReplication_coordinator (Broker.fresh config) nodeId peers quorum follower
    authToken none with ⟨replicas, heq⟩
  refine ⟨?_, ?_, fun v hv => absurd hv List.not_mem_nil,
    fun _ v hv => absurd hv List.not_mem_nil⟩ <;> rw [Life.start, heq]
  · rfl
  · rfl

/-- In a life of calls and restarts that are all orderly, no restart makes a
    leader of a node that was not leader in the restored term, or that has
    stood by another node in it. -/
theorem restarts_keep_office (config : StorageConfig) (nodeId : Bytes)
    (peers : List ReplicationPeer) (quorum : Nat) (follower : Bool) (authToken : Bytes)
    (events : List LifeEvent)
    (h : ∀ n (hn : n < events.length), events[n].Orderly
      ((Life.start config nodeId peers quorum follower authToken).run (events.take n))) :
    ∀ n (hn : n < events.length), events[n].KeepsOffice
      ((Life.start config nodeId peers quorum follower authToken).run (events.take n)) := by
  have hsettled : ∀ n ≤ events.length,
      ((Life.start config nodeId peers quorum follower authToken).run (events.take n)).Settled := by
    intro n
    induction n with
    | zero => exact fun _ => Life.start_settled config nodeId peers quorum follower authToken
    | succ n ih =>
        intro hn
        have hstep := (ih (by omega)).exec events[n] (h n hn)
        simp only [Life.run, List.take_succ_eq_append_getElem hn, List.foldl_append]
        exact hstep
  intro n hn
  exact (hsettled n hn.le).keepsOffice events[n] (h n hn)

/-- The configured leader votes for another node, restarts as follower, wins the
    next election and restarts as the leader it is. -/
theorem restarts_keep_office_elected :
    LifeEvent.KeepsOffice
      ((Life.start {} [97] [⟨[98], false⟩, ⟨[99], false⟩] 2 false [1]).run
        [.call (.requestVote 1 [98] 0 0), .restart [⟨[98], false⟩, ⟨[99], false⟩] 2 true [1],
          .call .beginElection, .call (.observeVote 2 [98] true)])
      (.restart [⟨[98], false⟩, ⟨[99], false⟩] 2 false [1]) :=
  restarts_keep_office {} [97] [⟨[98], false⟩, ⟨[99], false⟩] 2 false [1]
    [.call (.requestVote 1 [98] 0 0), .restart [⟨[98], false⟩, ⟨[99], false⟩] 2 true [1],
      .call .beginElection, .call (.observeVote 2 [98] true),
      .restart [⟨[98], false⟩, ⟨[99], false⟩] 2 false [1]]
    (by decide +kernel) 4 (by decide)

/-- The configured leader votes for another node and restarts: it is leader in
    the term of its vote. -/
theorem restart_resurrects :
    ¬ LifeEvent.KeepsOffice
      ((Life.start {} [97] [⟨[98], false⟩, ⟨[99], false⟩] 2 false [1]).run
        [.call (.requestVote 1 [98] 0 0)])
      (.restart [⟨[98], false⟩, ⟨[99], false⟩] 2 false [1]) := by
  intro h
  exact absurd (h (by decide +kernel)).1 (by decide +kernel)

-- Nor is it safe to restart a leader whose term was not saved.
example :
    ¬ LifeEvent.KeepsOffice
      ((Life.start {} [97] [⟨[98], false⟩, ⟨[99], false⟩] 2 true [1]).run
        [.call (.requestVote 1 [98] 0 0), .call (.fileSystem [.kept, .kept]),
          .call .beginElection, .call (.observeVote 2 [98] true)])
      (.restart [⟨[98], false⟩, ⟨[99], false⟩] 2 false [1]) := by
  intro h
  exact absurd (h (by decide +kernel)).2.1 (by decide +kernel)

end MqBroker
