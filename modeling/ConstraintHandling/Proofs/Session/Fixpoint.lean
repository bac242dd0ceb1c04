import ConstraintHandling.Proofs.Session.Consistency

/-! Fixpoints. When solving ends because no rule fires, every combination that matches in the store
has been tried exactly once during the session, and the rule has fired on it if that trial passed.
The guards of a trial that failed may have been checked against other built-in constraints than
those in the store at the end. -/
namespace ConstraintHandling
namespace Search

lemma unifyAll_extends {store store' : Store} (grows : store.Extends store') {heads : List Term}
    {cs : List ConstraintId} (known : ∀ c ∈ cs, c < store.size) (env : Environment) :
    unifyAll store' heads cs env = unifyAll store heads cs env := by
  induction heads generalizing cs env with
  | nil => cases cs <;> rfl
  | cons head heads ih =>
    cases cs with
    | nil => rfl
    | cons c cs =>
      obtain ⟨hc, hcs⟩ := List.forall_mem_cons.mp known
      rw [unifyAll, unifyAll, grows.get c hc]
      simp only [ih hcs]

end Search

/-- A combination has been tried exactly once, under the environment of its match, and the rule has
fired on it if and only if the trial passed. -/
structure TriedOnce (chronicle : Chronicle) (r : Rule) (combination : Combination)
    (env : Environment) (t : Trial) : Prop where
  once : (chronicle.trials.filter fun u => u.combination = combination) = [t]
  outcome : t.passed = (Search.checkGuards t.store.holds r.guards env).isSome
  fired : combination ∈ chronicle.firings ↔ t.passed = true

/-- Every match of constraints that are eligible has been tried exactly once, and none of a rule that
would delete some of them has passed. -/
def Journal.HasTriedOnce (base : RuleBase) (eligible : Store → Term → ConstraintId → Bool)
    (j : Journal) : Prop :=
  ∀ {id r cs env}, base.get? id = some r →
    Search.Combines j.session.store (eligible j.session.store) r.heads cs env →
    ∃ t, TriedOnce j.chronicle r ⟨id, cs⟩ env t ∧ (r.deleteHeads ≠ [] → t.passed = false)

/-- On every match of constraints that are eligible, the rule has fired, if its guards succeed. -/
def Journal.HasFired (base : RuleBase) (eligible : Store → Term → ConstraintId → Bool)
    (j : Journal) : Prop :=
  ∀ {id r cs env}, base.get? id = some r →
    Search.Combines j.session.store (eligible j.session.store) r.heads cs env →
    (Search.checkGuards j.session.store.holds r.guards env).isSome = true →
    ⟨id, cs⟩ ∈ j.chronicle.firings

lemma filter_eq_singleton {α β : Type} [DecidableEq β] {f : α → β} {as : List α}
    (nodup : (as.map f).Nodup) {a : α} (ha : a ∈ as) : (as.filter fun b => f b = f a) = [a] := by
  induction as with
  | nil => cases ha
  | cons b as ih =>
    obtain ⟨new, nodup⟩ := List.nodup_cons.mp nodup
    obtain rfl | ha := List.mem_cons.mp ha
    · have none : (as.filter fun b => f b = f a) = [] := by
        refine List.filter_eq_nil_iff.mpr fun b hb heq => ?_
        exact new (of_decide_eq_true heq ▸ List.mem_map_of_mem hb)
      simp [none]
    · have hne : f b ≠ f a := fun heq => new (heq ▸ List.mem_map_of_mem ha)
      simp [hne, ih nodup ha]

section Consistent
variable {base : RuleBase} {s : Session} {chronicle : Chronicle}

lemma Consistent.triedOnce (h : Consistent base s chronicle) {id : RuleId} {r : Rule}
    {cs : List ConstraintId} {env : Environment} (hr : base.get? id = some r)
    (combines : Search.Combines s.store s.store.canMatch r.heads cs env)
    (tried : ⟨id, cs⟩ ∈ chronicle.trials.map Trial.combination) :
    ∃ t, TriedOnce chronicle r ⟨id, cs⟩ env t := by
  obtain ⟨t, ht, hcombination⟩ := List.mem_map.mp tried
  obtain ⟨hrule, hcs⟩ := Combination.mk.inj hcombination
  have made := h.made t ht
  obtain ⟨r', env', hr', combines', outcome⟩ := made.outcome
  obtain rfl : r = r' := by simpa [hrule, hr] using hr'
  -- The store has grown since the trial, but what its constraints unify to is settled.
  have same : env' = env := by
    have known : ∀ c ∈ t.constraints, c < t.store.size := fun c hc =>
      combines'.lt_size hc
    have unified := combines.unified
    rw [← hcs, Search.unifyAll_extends (made.reaches.extends made.indexed) known,
      combines'.unified] at unified
    exact Option.some.inj unified
  have once : (chronicle.trials.filter fun u => u.combination = ⟨id, cs⟩) = [t] := by
    rw [← hcombination]
    exact filter_eq_singleton h.once ht
  refine ⟨t, once, same ▸ outcome, ?_⟩
  rw [h.firings]
  constructor
  · intro hmem
    obtain ⟨u, hu, heq⟩ := List.mem_map.mp hmem
    obtain ⟨hu, passed⟩ := List.mem_filter.mp hu
    have hut : u ∈ [t] := once ▸ List.mem_filter.mpr ⟨hu, decide_eq_true heq⟩
    rwa [List.mem_singleton.mp hut] at passed
  · intro passed
    rw [← hcombination]
    exact List.mem_map_of_mem (List.mem_filter.mpr ⟨ht, passed⟩)

lemma TriedOnce.mem {r : Rule} {combination : Combination} {env : Environment} {t : Trial}
    (h : TriedOnce chronicle r combination env t) :
    t ∈ chronicle.trials ∧ t.combination = combination := by
  have hmem : t ∈ chronicle.trials.filter fun u => u.combination = combination :=
    h.once ▸ List.mem_singleton_self t
  obtain ⟨ht, heq⟩ := List.mem_filter.mp hmem
  exact ⟨ht, of_decide_eq_true heq⟩

lemma Consistent.unpassed (h : Consistent base s chronicle) {id : RuleId} {r : Rule}
    {cs : List ConstraintId} {env : Environment} {t : Trial} (hr : base.get? id = some r)
    (combines : Search.Combines s.store s.store.canMatch r.heads cs env)
    (tried : TriedOnce chronicle r ⟨id, cs⟩ env t) (deletes : r.deleteHeads ≠ []) :
    t.passed = false := by
  -- Had the trial passed, the firing would have deleted one of the constraints.
  obtain ⟨ht, hcombination⟩ := tried.mem
  obtain ⟨hrule, hcs⟩ := Combination.mk.inj hcombination
  -- Had it passed, the first constraint would have been deleted.
  by_contra passed
  have gone := (h.made t ht).deleted (by simpa using passed) r (hrule ▸ hr)
  rw [hcs] at gone
  have hdelete : 0 < r.deleteHeads.length := List.length_pos_iff.mpr deletes
  have length := combines.length
  rw [Rule.heads, List.length_append] at length
  have hpos : 0 < (cs.take r.deleteHeads.length).length := by
    rw [List.length_take]
    omega
  obtain ⟨c, hc⟩ := List.exists_mem_of_length_pos hpos
  have live := combines.live c (List.mem_of_mem_take hc)
  rw [gone c hc] at live
  cases live

end Consistent

def withGoal (rs : List Rule) : Journal :=
  (Journal.begin (RuleBase.ofRules rs).1).obeyAll [.goals [.atom "p"]]

def less : Term := .compound "<" [.atom "a", .atom "b"] 700

/-- A rule whose guard asks for a built-in constraint. -/
def ask : Rule := ⟨"ask", [.atom "p"], [], [.compound "&&" [less, .bool true] 1000], [.atom "q"]⟩

def learn : Rule := ⟨"learn", [.atom "p"], [], [], [less]⟩

lemma combines_ask :
    Search.Combines ((withGoal [ask, learn]).obey .solve).session.store
      ((withGoal [ask, learn]).obey .solve).session.store.canMatch ask.heads [0] .empty where
  length := rfl
  distinct := by decide
  live := by decide +kernel
  eligible := by decide +kernel
  unified := rfl

lemma unfired_ask : ⟨0, [0]⟩ ∉ ((withGoal [ask, learn]).obey .solve).chronicle.firings := by
  decide +kernel

lemma combines_erase :
    Search.Combines ((withGoal [Search.erase]).obey .solve).session.store
      ((withGoal [Search.erase]).obey .solve).session.store.sharesPartition Search.erase.heads [0]
      (Environment.empty.bind ⟨"X", 0⟩ (.atom "p")) where
  length := rfl
  distinct := by decide
  live := by decide +kernel
  eligible := by decide +kernel
  unified := rfl

/-- Over a whole session no combination is tried twice, so that no rule fires twice on one; and
whenever solving ends in a fixpoint, every match has been tried exactly once. -/
theorem tried_once (rs : List Rule) (commands : List Command) :
    let base := (RuleBase.ofRules rs).1
    let j := (Journal.begin base).obeyAll commands
    (j.chronicle.trials.map Trial.combination).Nodup ∧ j.chronicle.firings.Nodup ∧
      (j.session.solve.verdict = .fixpoint → (j.obey .solve).HasTriedOnce base Store.canMatch) := by
  intro base j
  have hheads : base.HasHeads := RuleBase.hasHeads_ofRules rs
  have consistent := consistent_obeyAll hheads commands
  refine ⟨consistent.once, ?_, fun hverdict id r cs env hr combines => ?_⟩
  · rw [consistent.firings]
    exact consistent.once.sublist (List.filter_sublist.map _)
  · obtain ⟨solved, tried⟩ := consistent.solve hheads
    obtain ⟨t, ht⟩ := solved.triedOnce hr combines (tried hverdict hr combines)
    exact ⟨t, ht, solved.unpassed hr combines ht⟩

/-- The trial of a rule that asks for a built-in constraint not yet known. -/
theorem tried_once_ask : ∃ t,
    TriedOnce ((withGoal [ask, learn]).obey .solve).chronicle ask ⟨0, [0]⟩ .empty t ∧
      t.passed = false := by
  obtain ⟨-, -, h⟩ := tried_once [ask, learn] [.goals [.atom "p"]]
  have registered : (RuleBase.ofRules [ask, learn]).1.get? 0 = some ask := rfl
  obtain ⟨t, ht, -⟩ := h (by decide +kernel) registered combines_ask
  refine ⟨t, ht, ?_⟩
  by_contra passed
  exact unfired_ask (ht.fired.mpr (by simpa using passed))

/-- A head that is a variable unifies with every constraint, but no rule is tried on them for it. -/
theorem untried_of_variable_head :
    ¬ ∀ (rs : List Rule) (commands : List Command),
      let base := (RuleBase.ofRules rs).1
      let j := (Journal.begin base).obeyAll commands
      (j.chronicle.trials.map Trial.combination).Nodup ∧ j.chronicle.firings.Nodup ∧
        (j.session.solve.verdict = .fixpoint →
          (j.obey .solve).HasTriedOnce base Store.sharesPartition) := by
  intro h
  obtain ⟨-, -, h⟩ := h [Search.erase] [.goals [.atom "p"]]
  have registered : (RuleBase.ofRules [Search.erase]).1.get? 0 = some Search.erase := rfl
  obtain ⟨t, ht, -⟩ := h (by decide +kernel) registered combines_erase
  have untried : ((withGoal [Search.erase]).obey .solve).chronicle.trials.length = 0 := by
    decide +kernel
  exact List.ne_nil_of_mem ht.mem.1 (List.length_eq_zero_iff.mp untried)

/-- At a fixpoint, a match whose guards succeed in the store is one on which the rule has fired, or
else its only trial has failed while other built-in constraints were known. -/
theorem fired_or_known_otherwise (rs : List Rule) (commands : List Command) :
    let base := (RuleBase.ofRules rs).1
    let j := (Journal.begin base).obeyAll commands
    let final := j.obey .solve
    j.session.solve.verdict = .fixpoint → ∀ {id r cs env}, base.get? id = some r →
      Search.Combines final.session.store final.session.store.canMatch r.heads cs env →
      (Search.checkGuards final.session.store.holds r.guards env).isSome = true →
      ⟨id, cs⟩ ∈ final.chronicle.firings ∨
        ∃ t, TriedOnce final.chronicle r ⟨id, cs⟩ env t ∧ t.passed = false ∧
          t.store.Reaches final.session.store ∧
          ∃ u, t.store.holds u ≠ final.session.store.holds u := by
  intro base j final hverdict id r cs env hr combines succeed
  have hheads : base.HasHeads := RuleBase.hasHeads_ofRules rs
  obtain ⟨solved, tried⟩ := (consistent_obeyAll hheads commands).solve hheads
  obtain ⟨t, ht⟩ := solved.triedOnce hr combines (tried hverdict hr combines)
  cases hpassed : t.passed with
  | true => exact .inl (ht.fired.mpr hpassed)
  | false =>
    refine .inr ⟨t, ht, hpassed, (solved.made t ht.mem.1).reaches, ?_⟩
    by_contra none
    have same : t.store.holds = final.session.store.holds := by
      funext u
      exact not_not.mp (not_exists.mp none u)
    have outcome := ht.outcome
    rw [same, hpassed, succeed] at outcome
    cases outcome

/-- The rule that asks stays unfired: the constraint becomes known only after its trial. -/
theorem fired_or_known_otherwise_ask : ∃ t u,
    TriedOnce ((withGoal [ask, learn]).obey .solve).chronicle ask ⟨0, [0]⟩ .empty t ∧
      t.store.holds u ≠ ((withGoal [ask, learn]).obey .solve).session.store.holds u := by
  have registered : (RuleBase.ofRules [ask, learn]).1.get? 0 = some ask := rfl
  have outcome := fired_or_known_otherwise [ask, learn] [.goals [.atom "p"]] (by decide +kernel)
    registered combines_ask (by decide +kernel)
  obtain fired | ⟨t, ht, -, -, u, hu⟩ := outcome
  · exact absurd fired unfired_ask
  · exact ⟨t, u, ht, hu⟩

/-- Neither does a rule fire on everything that its heads unify with, nor do guards that succeed at
the end mean that it has fired. -/
theorem unfired_at_fixpoint :
    (¬ ∀ (rs : List Rule) (commands : List Command),
      let base := (RuleBase.ofRules rs).1
      let j := (Journal.begin base).obeyAll commands
      j.session.solve.verdict = .fixpoint → (j.obey .solve).HasFired base Store.sharesPartition) ∧
    ¬ ∀ (rs : List Rule) (commands : List Command),
      let base := (RuleBase.ofRules rs).1
      let j := (Journal.begin base).obeyAll commands
      j.session.solve.verdict = .fixpoint → (j.obey .solve).HasFired base Store.canMatch := by
  constructor
  · intro h
    have registered : (RuleBase.ofRules [Search.erase]).1.get? 0 = some Search.erase := rfl
    have fired := h [Search.erase] [.goals [.atom "p"]] (by decide +kernel) registered
      combines_erase (by decide +kernel)
    revert fired
    decide +kernel
  · intro h
    have registered : (RuleBase.ofRules [ask, learn]).1.get? 0 = some ask := rfl
    have fired := h [ask, learn] [.goals [.atom "p"]] (by decide +kernel) registered
      combines_ask (by decide +kernel)
    exact unfired_ask fired

end ConstraintHandling
