import ConstraintHandling.Proofs.Search.Exploration

/-! The memo is invisible. Searches for matches that share one memo, while the store changes between
them, give the answers of searches that keep nothing but the combinations they have tried. -/
namespace ConstraintHandling

namespace RuleBase

def HasHeads (base : RuleBase) : Prop :=
  ∀ r ∈ base.rules, r.heads ≠ []

lemma HasHeads.add {base base' : RuleBase} (h : base.HasHeads) {r : Rule} {id : RuleId}
    (hadd : base.add r = .ok (base', id)) : base'.HasHeads := by
  unfold RuleBase.add at hadd
  split at hadd
  · cases hadd
  · next nonempty =>
    cases hadd
    intro r' hr'
    obtain hr' | hr' := List.mem_append.mp hr'
    · exact h r' hr'
    · obtain rfl := List.mem_singleton.mp hr'
      simpa using nonempty

theorem hasHeads_ofRules (rs : List Rule) : (ofRules rs).1.HasHeads := by
  unfold ofRules
  refine List.foldlRecOn rs _ (motive := fun acc : RuleBase × List Headless => acc.1.HasHeads)
    (by simp [HasHeads, empty]) ?_
  rintro ⟨base, refused⟩ h r -
  dsimp only
  cases hadd : base.add r with
  | ok added => exact h.add hadd
  | error e => exact h

end RuleBase

namespace Search

/-- A search for the next match of a rule, and the changes of the store since the search before it. -/
structure Call (base : RuleBase) where
  changes : List Change
  rule : Fin base.size

/-- The answers of searches that share a memo. -/
def memoisedAnswers {base : RuleBase} : List (Call base) → Store → Memo → List (Option Match)
  | [], _, _ => []
  | call :: calls, store, memo =>
    let store := store.changeAll call.changes
    let (found, memo) := base.rules[call.rule].nextMatch call.rule store memo
    found :: memoisedAnswers calls store memo

/-- The answers of searches that go through all combinations, apart from those on which the rule has
been tried. -/
def plainAnswers {base : RuleBase} (eligible : Store → Term → ConstraintId → Bool) :
    List (Call base) → Store → List Trial → List (Option Match)
  | [], _, _ => []
  | call :: calls, store, trials =>
    let store := store.changeAll call.changes
    let rule := base.rules[call.rule]
    let (found, new) := attempt rule call.rule store
      (combinations store (eligible store) rule.heads) (triedBy call.rule trials)
    found :: plainAnswers eligible calls store (trials ++ new)

lemma memoisedAnswers_eq_of_coherent {base : RuleBase} (hheads : base.HasHeads)
    {calls : List (Call base)} {store : Store} {g : History} (h : Coherent base store g) :
    memoisedAnswers calls store g.memo = plainAnswers Store.canMatch calls store g.trials := by
  induction calls generalizing store g with
  | nil => rfl
  | cons call calls ih =>
    have changed := h.reaches (store.reaches_changeAll call.changes)
    have hr : base.get? call.rule = some base.rules[call.rule] :=
      List.getElem?_eq_getElem call.rule.isLt
    obtain ⟨g', hmemo, htrials, h', hattempt⟩ :=
      explores_tracedMatch changed hr (hheads _ (List.getElem_mem _))
    have untraced := Rule.untraced_tracedMatch base.rules[call.rule] call.rule
      (store.changeAll call.changes) g.memo
    rw [memoisedAnswers, plainAnswers, ← untraced, hattempt]
    simp only [Searched.untraced, ← hmemo, ← htrials, ih h']

/-- Whatever happens to the store between searches, and whichever rules they are for, the memoised
search gives the answers of the plain one. -/
theorem memoisedAnswers_eq (rs : List Rule) (calls : List (Call (RuleBase.ofRules rs).1)) :
    memoisedAnswers calls .empty .initial = plainAnswers Store.canMatch calls .empty [] :=
  memoisedAnswers_eq_of_coherent (RuleBase.hasHeads_ofRules rs) (coherent_initial _)

def erase : Rule := ⟨"erase", [], [.var ⟨"X", 0⟩], [], []⟩

/-- A head that is a variable unifies with every constraint, but the search offers it none. -/
theorem memoisedAnswers_ne_of_variable_head :
    ¬ ∀ (rs : List Rule) (calls : List (Call (RuleBase.ofRules rs).1)),
      memoisedAnswers calls .empty .initial = plainAnswers Store.sharesPartition calls .empty [] := by
  intro h
  have heq := congrArg (List.map Option.isSome) (h [erase] [⟨[.add (.atom "p")], 0, by decide⟩])
  revert heq
  decide

end Search
end ConstraintHandling
