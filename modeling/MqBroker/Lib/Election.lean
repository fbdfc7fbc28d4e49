import Mathlib.Data.Finset.Card
import Mathlib.Logic.Relation
import Mathlib.Logic.Function.Basic

/-!
# Voters and Elections

Leader election by majority vote, over an arbitrary type of nodes and an
arbitrary linear order of terms.

A `Ballot` is what one node remembers of elections: its term, its vote in that
term, whether it runs or leads, and the votes it has counted for itself.
`Ballot.Step` says what one operation of a node may do to its ballot, and its
label says what the rest of the world can see of it. The relation is loose on
purpose. An operation that steps down, one that adopts a higher term and one
that only touches other state are all `quiet`, so an implementation has to
match few cases.

Two levels are built on it. `Ballot.Honest` is about one node alone: whatever
votes it is told about, it casts at most one in a term. `World` puts the
ballots of all members together with the set of votes ever cast. Nothing is
ever removed from that set, so a vote that is lost, delayed or delivered twice
needs no treatment of its own: a node may count any vote that was ever cast
for it. `World.election_safety` is then the intersection of two majorities.

## Main definitions

* `Ballot`, `Ballot.Step`: One node's election state and its moves.
* `Ballot.Honest`: A ballot agrees with the votes its node has cast.
* `World`, `World.Step`: All ballots and all votes cast.
* `World.Elected`: A node holds a majority of the votes of a term.
* `World.Inv`: The invariant of elections.
* `World.Keeps`: A voter hands on what it has.

## Theorems

* `Ballot.Honest.step`: A node stays honest, and never votes twice in a term.
* `World.Inv.step`, `World.Inv.reachable`: The invariant is kept by runs.
* `World.reachable_mono`: Terms and votes only grow.
* `World.elected_unique`: A term elects at most one node.
* `World.election_safety`: At most one node leads in a term.
* `World.Elected.handed_on`: What a majority keeps, later leaders have.
-/

namespace MqBroker.Election

variable {ι τ : Type} [DecidableEq ι] [LinearOrder τ]

/-- What one node remembers of elections. -/
structure Ballot (ι τ : Type) where
  term : τ
  votedFor : Option ι
  running : Prop
  leading : Prop
  /-- The votes counted since the node began to run. -/
  votes : Finset ι

/-- What the other nodes can see of a step: a vote that is cast in the new
    term, a vote that is counted, or a claim to leadership. -/
inductive Label (ι : Type)
  | quiet
  | cast (candidate : ι)
  | count (voter : ι)
  | lead
deriving DecidableEq

/-- What an operation of node `self` may do to its ballot, when `quorum`
    votes win an election. -/
inductive Ballot.Step (self : ι) (quorum : ℕ) : Ballot ι τ → Label ι → Ballot ι τ → Prop
  /-- Nothing happens, or the node steps down within its term. -/
  | stay {b b' : Ballot ι τ} (hterm : b'.term = b.term) (hvote : b'.votedFor = b.votedFor)
      (hrun : b'.running → b.running ∧ b'.votes = b.votes) (hlead : b'.leading → b.leading) :
      Step self quorum b .quiet b'
  /-- A higher term is adopted, without a vote in it. -/
  | adopt {b b' : Ballot ι τ} (hterm : b.term < b'.term) (hvote : b'.votedFor = none)
      (hrun : ¬ b'.running) (hlead : ¬ b'.leading) : Step self quorum b .quiet b'
  /-- A vote is cast in a term where none was cast, or cast again. -/
  | grant {b b' : Ballot ι τ} (candidate : ι) (hterm : b.term ≤ b'.term)
      (hold : b.term = b'.term → b.votedFor = none ∨ b.votedFor = some candidate)
      (hvote : b'.votedFor = some candidate)
      (hrun : b'.running → b'.term = b.term ∧ b.running ∧ b'.votes = b.votes)
      (hlead : b'.leading → b'.term = b.term ∧ b.leading) : Step self quorum b (.cast candidate) b'
  /-- The node starts to run in a new term and votes for itself. -/
  | campaign {b b' : Ballot ι τ} (hterm : b.term < b'.term) (hvote : b'.votedFor = some self)
      (hvotes : b'.votes = {self}) (hlead : ¬ b'.leading) : Step self quorum b (.cast self) b'
  /-- A vote is counted and does not decide the election. -/
  | tally {b b' : Ballot ι τ} (voter : ι) (hterm : b'.term = b.term)
      (hvote : b'.votedFor = b.votedFor) (hrun : b.running)
      (hvotes : b'.votes = insert voter b.votes) (hlead : ¬ b'.leading) :
      Step self quorum b (.count voter) b'
  /-- A vote is counted and the election is won. -/
  | win {b b' : Ballot ι τ} (voter : ι) (hterm : b'.term = b.term)
      (hvote : b'.votedFor = some self) (hrun : b.running)
      (hquorum : quorum ≤ (insert voter b.votes).card) (hrun' : ¬ b'.running) :
      Step self quorum b (.count voter) b'
  /-- The node takes the leadership of its term, or of a higher one, without
      an election of its own. -/
  | lead {b b' : Ballot ι τ} (hterm : b.term ≤ b'.term)
      (hvote : b'.votedFor = if b'.term = b.term then b.votedFor else none)
      (hrun : ¬ b'.running) : Step self quorum b .lead b'

/-! ## One node -/

/-- A ballot agrees with the votes its node has cast: there is at most one in
    each term, none above the present term, and the present vote is the one
    remembered. -/
structure Ballot.Honest (node : ι) (b : Ballot ι τ) (cast : Set (τ × ι)) : Prop where
  remembered : ∀ t c, (t, c) ∈ cast → t < b.term ∨ (t = b.term ∧ b.votedFor = some c)
  unique : ∀ t c d, (t, c) ∈ cast → (t, d) ∈ cast → c = d
  running : b.running → b.votedFor = some node

omit [DecidableEq ι] in
theorem Ballot.Honest.subset {self : ι} {b : Ballot ι τ} {cast cast' : Set (τ × ι)}
    (h : b.Honest self cast) (hsub : cast' ⊆ cast) : b.Honest self cast' :=
  ⟨fun t c hc => h.remembered t c (hsub hc), fun t c d hc hd => h.unique t c d (hsub hc) (hsub hd),
    h.running⟩

/-- The vote a step with this label casts, in the term it ends in. -/
def Label.vote (t : τ) : Label ι → Set (τ × ι)
  | .cast c => {(t, c)}
  | _ => ∅

/-- A step never goes back to an earlier term. -/
theorem Ballot.Step.term_le {self : ι} {quorum : ℕ} {b b' : Ballot ι τ} {l : Label ι}
    (h : b.Step self quorum l b') : b.term ≤ b'.term := by
  cases h with
  | stay hterm _ _ _ => exact hterm.ge
  | adopt hterm _ _ _ => exact hterm.le
  | grant _ hterm _ _ _ _ => exact hterm
  | campaign hterm _ _ _ => exact hterm.le
  | tally _ hterm _ _ _ _ => exact hterm.ge
  | win _ hterm _ _ _ _ => exact hterm.ge
  | lead hterm _ _ => exact hterm

/-- Votes that were remembered before a step are remembered after it. The
    present vote is only ever given up together with its term, or replaced by
    itself. -/
theorem Ballot.Honest.remembered_step {self : ι} {quorum : ℕ} {b b' : Ballot ι τ} {l : Label ι}
    {cast : Set (τ × ι)} (hb : b.Honest self cast) (h : b.Step self quorum l b') (t : τ) (c : ι)
    (hmem : (t, c) ∈ cast) : t < b'.term ∨ (t = b'.term ∧ b'.votedFor = some c) := by
  have hle := h.term_le
  -- Votes of earlier terms stay behind; only a vote of the present term is at
  -- stake, and only in a step that stays in the term.
  rcases hb.remembered t c hmem with hlt | ⟨rfl, hc⟩
  · exact Or.inl (lt_of_lt_of_le hlt hle)
  · by_cases heq : b.term = b'.term
    · right
      refine ⟨heq, ?_⟩
      cases h with
      | stay _ hvote _ _ => rw [hvote, hc]
      | adopt hterm _ _ _ => exact absurd heq hterm.ne
      | grant d _ hold hvote _ _ =>
          -- A second vote in the term goes to the same candidate.
          rcases hold heq with hnone | hsome
          · rw [hc] at hnone
            exact absurd hnone (Option.some_ne_none c)
          · rw [hvote, ← hsome, hc]
      | campaign hterm _ _ _ => exact absurd heq hterm.ne
      | tally _ _ hvote _ _ _ => rw [hvote, hc]
      | win _ _ hvote hrun _ _ => rw [hvote, ← hb.running hrun, hc]
      | lead _ hvote _ => rw [hvote, if_pos heq.symm, hc]
    · exact Or.inl (lt_of_le_of_ne hle heq)

/-- The vote a step casts is the one the ballot then remembers. -/
theorem Ballot.Step.votedFor_of_cast {self : ι} {quorum : ℕ} {b b' : Ballot ι τ} {c : ι}
    (h : b.Step self quorum (.cast c) b') : b'.votedFor = some c := by
  cases h with
  | grant _ _ _ hvote _ _ => exact hvote
  | campaign _ hvote _ _ => exact hvote

/-- A step keeps the vote, clears it, votes for the node itself or casts the
    vote of its label. -/
theorem Ballot.Step.votedFor_cases {self : ι} {quorum : ℕ} {b b' : Ballot ι τ} {l : Label ι}
    (h : b.Step self quorum l b') :
    b'.votedFor = b.votedFor ∨ b'.votedFor = none ∨ b'.votedFor = some self ∨
      ∃ c, l = .cast c ∧ b'.votedFor = some c := by
  cases h with
  | stay _ hvote _ _ => exact Or.inl hvote
  | adopt _ hvote _ _ => exact Or.inr (Or.inl hvote)
  | grant c _ _ hvote _ _ => exact Or.inr (Or.inr (Or.inr ⟨c, rfl, hvote⟩))
  | campaign _ hvote _ _ => exact Or.inr (Or.inr (Or.inl hvote))
  | tally _ _ hvote _ _ _ => exact Or.inl hvote
  | win _ _ hvote _ _ _ => exact Or.inr (Or.inr (Or.inl hvote))
  | lead _ hvote _ =>
      by_cases heq : b'.term = b.term
      · rw [if_pos heq] at hvote
        exact Or.inl hvote
      · rw [if_neg heq] at hvote
        exact Or.inr (Or.inl hvote)

/-- An honest node stays honest, whatever it is told. -/
theorem Ballot.Honest.step {self : ι} {quorum : ℕ} {b b' : Ballot ι τ} {l : Label ι}
    {cast : Set (τ × ι)} (hb : b.Honest self cast) (h : b.Step self quorum l b') :
    b'.Honest self (cast ∪ l.vote b'.term) := by
  -- The vote of this step, if there is one, is in the new term and remembered.
  have hnew : ∀ t c, (t, c) ∈ l.vote b'.term → t = b'.term ∧ b'.votedFor = some c := by
    intro t c hmem
    cases l with
    | cast d =>
        rcases Prod.mk.inj (Set.mem_singleton_iff.mp hmem) with ⟨rfl, rfl⟩
        exact ⟨rfl, h.votedFor_of_cast⟩
    | quiet => exact absurd hmem (Set.notMem_empty _)
    | count v => exact absurd hmem (Set.notMem_empty _)
    | lead => exact absurd hmem (Set.notMem_empty _)
  -- An old vote in the new term is the one that is remembered now.
  have hmixed : ∀ t c d, (t, c) ∈ cast → (t, d) ∈ l.vote b'.term → c = d := by
    intro t c d hc hd
    rcases hnew t d hd with ⟨rfl, hvote⟩
    rcases hb.remembered_step h _ c hc with hlt | ⟨_, hc'⟩
    · exact absurd hlt (lt_irrefl _)
    · exact Option.some.inj (hc'.symm.trans hvote)
  refine ⟨?_, ?_, ?_⟩
  · rintro t c (hold | hnow)
    · exact hb.remembered_step h t c hold
    · exact Or.inr (hnew t c hnow)
  · rintro t c d (hc | hc) (hd | hd)
    · exact hb.unique t c d hc hd
    · exact hmixed t c d hc hd
    · exact (hmixed t d c hd hc).symm
    · exact Option.some.inj ((hnew t c hc).2.symm.trans (hnew t d hd).2)
  · -- A node that runs has voted for itself, and cannot grant to another.
    intro hrun
    cases h with
    | stay _ hvote hrun' _ => rw [hvote, hb.running (hrun' hrun).1]
    | adopt _ _ hrun' _ => exact absurd hrun hrun'
    | grant c _ hold hvote hrun' _ =>
        rcases hrun' hrun with ⟨hterm, hwas, _⟩
        rcases hold hterm.symm with hnone | hsome
        · rw [hb.running hwas] at hnone
          exact absurd hnone (Option.some_ne_none self)
        · rw [hvote, ← hsome, hb.running hwas]
    | campaign _ hvote _ _ => exact hvote
    | tally _ _ hvote hwas _ _ => rw [hvote, hb.running hwas]
    | win _ _ hvote _ _ _ => exact hvote
    | lead _ _ hrun' => exact absurd hrun hrun'

/-! ## All nodes -/

/-- The ballots of all nodes, with every vote ever cast: its term, its voter
    and its candidate. -/
structure World (ι τ : Type) where
  nodes : ι → Ballot ι τ
  cast : Set (τ × ι × ι)

/-- The votes one node has cast. -/
def World.castBy (w : World ι τ) (voter : ι) : Set (τ × ι) := {v | (v.1, voter, v.2) ∈ w.cast}

/-- The members, how many votes win, the term everything starts in and the
    node that may lead that term without an election. -/
structure Setup (ι τ : Type) where
  members : Finset ι
  quorum : ℕ
  base : τ
  first : ι
  /-- Two sets of that many members meet. -/
  majority : members.card < quorum + quorum

/-- A node may lead a term: it is the first leader, or a majority of the
    members has voted for it. -/
def World.Elected (S : Setup ι τ) (w : World ι τ) (t : τ) (i : ι) : Prop :=
  (t = S.base ∧ i = S.first) ∨
    (S.base < t ∧ ∃ voters ⊆ S.members, S.quorum ≤ voters.card ∧ ∀ v ∈ voters, (t, v, i) ∈ w.cast)

/-- One node takes a step. It counts only votes of members that were cast for
    it in its term, and takes a leadership only where it was elected. -/
inductive World.Step (S : Setup ι τ) : World ι τ → World ι τ → Prop
  | node {w w' : World ι τ} (i : ι) (l : Label ι) (hi : i ∈ S.members)
      (hstep : (w.nodes i).Step i S.quorum l (w'.nodes i))
      (hcount : ∀ v, l = .count v → v ∈ S.members ∧ ((w.nodes i).term, v, i) ∈ w.cast)
      (hlead : l = .lead → w.Elected S (w'.nodes i).term i)
      (hothers : ∀ j, j ≠ i → w'.nodes j = w.nodes j)
      (hcast : w'.cast = w.cast ∪ {v | v.2.1 = i ∧ (v.1, v.2.2) ∈ l.vote (w'.nodes i).term}) :
      Step S w w'

/-- The invariant of elections. -/
structure World.Inv (S : Setup ι τ) (w : World ι τ) : Prop where
  honest : ∀ i, (w.nodes i).Honest i (w.castBy i)
  above : ∀ i, S.base ≤ (w.nodes i).term
  running : ∀ i, (w.nodes i).running → S.base < (w.nodes i).term ∧
    (w.nodes i).votes ⊆ S.members ∧ ∀ v ∈ (w.nodes i).votes, ((w.nodes i).term, v, i) ∈ w.cast
  leading : ∀ i, (w.nodes i).leading → w.Elected S (w.nodes i).term i

omit [DecidableEq ι] in
theorem World.Elected.mono {S : Setup ι τ} {w w' : World ι τ} (h : w.cast ⊆ w'.cast) {t : τ} {i : ι}
    (he : w.Elected S t i) : w'.Elected S t i := by
  rcases he with hfirst | ⟨hbase, voters, hsub, hcard, hall⟩
  · exact Or.inl hfirst
  · exact Or.inr ⟨hbase, voters, hsub, hcard, fun v hv => h (hall v hv)⟩

section Step

variable {S : Setup ι τ} {w w' : World ι τ} {i : ι} {l : Label ι}

omit [DecidableEq ι] [LinearOrder τ] in
/-- The votes of the node that moves grow by the vote it casts. -/
theorem World.castBy_self
    (hcast : w'.cast = w.cast ∪ {v | v.2.1 = i ∧ (v.1, v.2.2) ∈ l.vote (w'.nodes i).term}) :
    w'.castBy i = w.castBy i ∪ l.vote (w'.nodes i).term := by
  ext ⟨t, c⟩
  simp only [World.castBy, hcast, Set.mem_ofPred_eq, Set.mem_union, true_and]

omit [DecidableEq ι] [LinearOrder τ] in
theorem World.castBy_other {j : ι} (hj : j ≠ i)
    (hcast : w'.cast = w.cast ∪ {v | v.2.1 = i ∧ (v.1, v.2.2) ∈ l.vote (w'.nodes i).term}) :
    w'.castBy j = w.castBy j := by
  ext ⟨t, c⟩
  simp only [World.castBy, hcast, Set.mem_ofPred_eq, Set.mem_union, hj, false_and, or_false]

/-- What a running node knows about its votes after its own step. -/
theorem World.Inv.running_self (hw : w.Inv S) (hi : i ∈ S.members)
    (hstep : (w.nodes i).Step i S.quorum l (w'.nodes i))
    (hcount : ∀ v, l = .count v → v ∈ S.members ∧ ((w.nodes i).term, v, i) ∈ w.cast)
    (hcast : w'.cast = w.cast ∪ {v | v.2.1 = i ∧ (v.1, v.2.2) ∈ l.vote (w'.nodes i).term})
    (hrun : (w'.nodes i).running) :
    S.base < (w'.nodes i).term ∧ (w'.nodes i).votes ⊆ S.members ∧
      ∀ v ∈ (w'.nodes i).votes, ((w'.nodes i).term, v, i) ∈ w'.cast := by
  have hmono : w.cast ⊆ w'.cast := by rw [hcast]; exact Set.subset_union_left
  -- A step that keeps term and votes keeps what was known.
  have hkeep : (w'.nodes i).term = (w.nodes i).term → (w.nodes i).running →
      (w'.nodes i).votes = (w.nodes i).votes → S.base < (w'.nodes i).term ∧
      (w'.nodes i).votes ⊆ S.members ∧
        ∀ v ∈ (w'.nodes i).votes, ((w'.nodes i).term, v, i) ∈ w'.cast := by
    intro hterm hwas hvotes
    rcases hw.running i hwas with ⟨hbase, hsub, hall⟩
    rw [hterm, hvotes]
    exact ⟨hbase, hsub, fun v hv => hmono (hall v hv)⟩
  cases hstep with
  | stay hterm _ hrun' _ => exact hkeep hterm (hrun' hrun).1 (hrun' hrun).2
  | adopt _ _ hrun' _ => exact absurd hrun hrun'
  | grant c _ _ _ hrun' _ => exact hkeep (hrun' hrun).1 (hrun' hrun).2.1 (hrun' hrun).2.2
  | campaign hterm hvote hvotes _ =>
      -- The only vote counted so far is the one just cast.
      rw [hvotes]
      refine ⟨lt_of_le_of_lt (hw.above i) hterm, Finset.singleton_subset_iff.mpr hi, ?_⟩
      intro v hv
      rw [Finset.mem_singleton.mp hv, hcast]
      exact Or.inr ⟨rfl, rfl⟩
  | tally v hterm _ hwas hvotes _ =>
      rcases hw.running i hwas with ⟨hbase, hsub, hall⟩
      rcases hcount v rfl with ⟨hmember, hvoted⟩
      rw [hterm, hvotes]
      refine ⟨hbase, Finset.insert_subset hmember hsub, ?_⟩
      intro u hu
      rcases Finset.mem_insert.mp hu with rfl | hu
      · exact hmono hvoted
      · exact hmono (hall u hu)
  | win _ _ _ _ _ hrun' => exact absurd hrun hrun'
  | lead _ _ hrun' => exact absurd hrun hrun'

/-- A node that leads after its own step was elected. -/
theorem World.Inv.leading_self (hw : w.Inv S)
    (hstep : (w.nodes i).Step i S.quorum l (w'.nodes i))
    (hcount : ∀ v, l = .count v → v ∈ S.members ∧ ((w.nodes i).term, v, i) ∈ w.cast)
    (hlead : l = .lead → w.Elected S (w'.nodes i).term i) (hmono : w.cast ⊆ w'.cast)
    (hleads : (w'.nodes i).leading) : w'.Elected S (w'.nodes i).term i := by
  cases hstep with
  | stay hterm _ _ hlead' =>
      rw [hterm]
      exact (hw.leading i (hlead' hleads)).mono hmono
  | adopt _ _ _ hlead' => exact absurd hleads hlead'
  | grant c _ _ _ _ hlead' =>
      rw [(hlead' hleads).1]
      exact (hw.leading i (hlead' hleads).2).mono hmono
  | campaign _ _ _ hlead' => exact absurd hleads hlead'
  | tally _ _ _ _ _ hlead' => exact absurd hleads hlead'
  | win v hterm _ hwas hquorum _ =>
      -- The votes counted so far and the one that decides are all genuine.
      rcases hw.running i hwas with ⟨hbase, hsub, hall⟩
      rcases hcount v rfl with ⟨hmember, hvoted⟩
      rw [hterm]
      refine Or.inr ⟨hbase, _, Finset.insert_subset hmember hsub, hquorum, ?_⟩
      intro u hu
      rcases Finset.mem_insert.mp hu with rfl | hu
      · exact hmono hvoted
      · exact hmono (hall u hu)
  | lead _ _ _ => exact (hlead rfl).mono hmono

theorem World.Step.cast_subset (h : World.Step S w w') : w.cast ⊆ w'.cast := by
  cases h with
  | node i l hi hstep hcount hlead hothers hcast =>
      rw [hcast]
      exact Set.subset_union_left

/-- One step of one node keeps the invariant of all. -/
theorem World.Inv.step (hw : w.Inv S) (h : World.Step S w w') : w'.Inv S := by
  have hmono := h.cast_subset
  cases h with
  | node i l hi hstep hcount hlead hothers hcast =>
      -- In each field the node that moves has its own lemma, and the others
      -- only see the set of votes grow.
      refine ⟨?_, ?_, ?_, ?_⟩
      · intro j
        by_cases hj : j = i
        · subst hj
          rw [World.castBy_self hcast]
          exact (hw.honest j).step hstep
        · rw [hothers j hj, World.castBy_other hj hcast]
          exact hw.honest j
      · intro j
        by_cases hj : j = i
        · subst hj
          exact (hw.above j).trans hstep.term_le
        · rw [hothers j hj]
          exact hw.above j
      · intro j hrun
        by_cases hj : j = i
        · subst hj
          exact hw.running_self hi hstep hcount hcast hrun
        · rw [hothers j hj] at hrun ⊢
          rcases hw.running j hrun with ⟨hbase, hsub, hall⟩
          exact ⟨hbase, hsub, fun v hv => hmono (hall v hv)⟩
      · intro j hleads
        by_cases hj : j = i
        · subst hj
          exact hw.leading_self hstep hcount hlead hmono hleads
        · rw [hothers j hj] at hleads ⊢
          exact (hw.leading j hleads).mono hmono

end Step

theorem World.Inv.reachable {S : Setup ι τ} {w w' : World ι τ} (hw : w.Inv S)
    (h : Relation.ReflTransGen (World.Step S) w w') : w'.Inv S := by
  induction h with
  | refl => exact hw
  | tail _ hstep ih => exact ih.step hstep

/-- In a run terms never go back, and votes are never taken back. -/
theorem World.reachable_mono {S : Setup ι τ} {w w' : World ι τ}
    (h : Relation.ReflTransGen (World.Step S) w w') :
    (∀ i, (w.nodes i).term ≤ (w'.nodes i).term) ∧ w.cast ⊆ w'.cast := by
  induction h with
  | refl => exact ⟨fun i => le_rfl, Set.Subset.rfl⟩
  | tail _ hstep ih =>
      refine ⟨?_, ih.2.trans hstep.cast_subset⟩
      intro i
      cases hstep with
      | node j l hj hmove hcount hlead hothers hcast =>
          by_cases hi : i = j
          · subst hi
            exact (ih.1 i).trans hmove.term_le
          · rw [hothers i hi]
            exact ih.1 i

/-- A node that leads a later term has a vote out of every majority. -/
theorem World.Elected.exists_voter {S : Setup ι τ} {w : World ι τ} {t : τ} {i : ι}
    (h : w.Elected S t i) (hbase : S.base < t) {A : Finset ι} (hA : A ⊆ S.members)
    (hcard : S.members.card < S.quorum + A.card) : ∃ v ∈ A, (t, v, i) ∈ w.cast := by
  rcases h with ⟨ht, _⟩ | ⟨_, B, hB, hcardB, hall⟩
  · exact absurd ht hbase.ne'
  · -- Both sets lie among the members and are too large to be disjoint.
    have hmeet : (B ∩ A).Nonempty :=
      Finset.inter_nonempty_of_card_lt_card_add_card hB hA
        (lt_of_lt_of_le hcard (Nat.add_le_add_right hcardB A.card))
    rcases hmeet with ⟨v, hv⟩
    rcases Finset.mem_inter.mp hv with ⟨hvB, hvA⟩
    exact ⟨v, hvA, hall v hvB⟩

/-- Two majorities share a voter, and that voter has voted once. -/
theorem World.elected_unique {S : Setup ι τ} {w : World ι τ} (hw : w.Inv S) {t : τ} {i j : ι}
    (hi : w.Elected S t i) (hj : w.Elected S t j) : i = j := by
  rcases hi with ⟨ht, rfl⟩ | ⟨hbase, A, hA, hcardA, hallA⟩
  · rcases hj with ⟨_, rfl⟩ | ⟨hbase, _⟩
    · rfl
    · exact absurd ht hbase.ne'
  · rcases hj with ⟨ht, _⟩ | ⟨_, B, hB, hcardB, hallB⟩
    · exact absurd ht hbase.ne'
    · rcases World.Elected.exists_voter (Or.inr ⟨hbase, B, hB, hcardB, hallB⟩) hbase hA
        (lt_of_lt_of_le S.majority (Nat.add_le_add_left hcardA S.quorum)) with ⟨v, hvA, hvj⟩
      exact (hw.honest v).unique t i j (hallA v hvA) hvj

/-- At most one node leads in a term. -/
theorem World.election_safety {S : Setup ι τ} {w : World ι τ} (hw : w.Inv S) {i j : ι}
    (hi : (w.nodes i).leading) (hj : (w.nodes j).leading)
    (hterm : (w.nodes i).term = (w.nodes j).term) : i = j :=
  World.elected_unique hw (hw.leading i hi) (by rw [hterm]; exact hw.leading j hj)

/-! ## What voters hand on -/

/-- A voter keeps something beyond a term: it has it, and so has every node it
    votes for in a later term. -/
def World.Keeps (w : World ι τ) (has : ι → Prop) (t : τ) (v : ι) : Prop :=
  has v ∧ ∀ t' c, (t', v, c) ∈ w.cast → t < t' → has c

section Keeps

variable {S : Setup ι τ} {w w' : World ι τ} {has has' : ι → Prop} {t t' : τ} {v : ι}

omit [DecidableEq ι] in
theorem World.Keeps.mono (h : w.Keeps has t v) (hle : t ≤ t') : w.Keeps has t' v :=
  ⟨h.1, fun u c hcast hlt => h.2 u c hcast (lt_of_le_of_lt hle hlt)⟩

omit [DecidableEq ι] in
/-- A voter does not vote beyond its term. -/
theorem World.Inv.cast_le (hw : w.Inv S) {c : ι} (hcast : (t, v, c) ∈ w.cast) :
    t ≤ (w.nodes v).term := by
  rcases (hw.honest v).remembered t c hcast with hold | ⟨hnow, _⟩
  · exact hold.le
  · exact hnow.le

omit [DecidableEq ι] in
/-- A voter that has not got beyond a term keeps whatever it has, or gets
    without a vote. -/
theorem World.Inv.keeps (hw : w.Inv S) (hterm : (w.nodes v).term ≤ t) (hhas : has v)
    (hcast : w'.cast = w.cast) : w'.Keeps has t v := by
  refine ⟨hhas, ?_⟩
  intro t' c hc hlt
  rw [hcast] at hc
  -- There is no later vote yet.
  exact absurd ((hw.cast_le hc).trans hterm) (not_le.mpr hlt)

omit [DecidableEq ι] in
/-- A voter goes on keeping what nobody loses, if it only votes for nodes that
    have it. -/
theorem World.Keeps.later (h : w.Keeps has t v) (hgrow : ∀ i, has i → has' i)
    (hcast : ∀ t' c, (t', v, c) ∈ w'.cast → (t', v, c) ∈ w.cast ∨ (has v → has' c)) :
    w'.Keeps has' t v := by
  refine ⟨hgrow v h.1, ?_⟩
  intro t' c hc hlt
  rcases hcast t' c hc with hold | hnew
  · exact hgrow c (h.2 t' c hold hlt)
  · exact hnew h.1

/-- What a majority keeps beyond a term, every leader of a later term has. -/
theorem World.Elected.handed_on {i : ι} (h : w.Elected S t' i) (hbase : S.base ≤ t) (hlt : t < t')
    {A : Finset ι} (hA : A ⊆ S.members) (hcard : S.members.card < S.quorum + A.card)
    (hkeeps : ∀ v ∈ A, w.Keeps has t v) : has i := by
  rcases h.exists_voter (lt_of_le_of_lt hbase hlt) hA hcard with ⟨v, hv, hcast⟩
  exact (hkeeps v hv).2 t' i hcast hlt

end Keeps

end MqBroker.Election
