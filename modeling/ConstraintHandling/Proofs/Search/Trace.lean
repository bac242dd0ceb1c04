import ConstraintHandling.Proofs.Search.Combination

/-! The memoised search with a record of its trials. Each evaluation of guards, which happens when the
last head has taken a constraint, is recorded; apart from the record the traced search is the search
itself. -/
namespace ConstraintHandling

/-- What a traced search comes back with. -/
structure Searched where
  found : Option Match
  memo : Memo
  trials : List Trial

namespace Searched

def untraced (s : Searched) : Option Match × Memo :=
  (s.found, s.memo)

def after (c : ConstraintId) (s : Searched) : Searched :=
  ⟨s.found.map (Search.after c), s.memo, s.trials⟩

/-- Goes on with a later part of the search where the earlier one found nothing. -/
def orElse (s : Searched) (later : Memo → Searched) : Searched :=
  match s.found with
  | some _ => s
  | none =>
    let t := later s.memo
    ⟨t.found, t.memo, s.trials ++ t.trials⟩

end Searched

namespace Search

/-- How to go on behind a head, with a record of the trials. -/
abbrev TracedContinuation := ConstraintId → EnvironmentId → Environment → Memo → Searched

def tracedRevisit (store : Store) (claimed : List ConstraintId) (next : TracedContinuation) :
    List (ConstraintId × Slot) → Memo → Searched
  | [], memo => ⟨none, memo, []⟩
  | (_, .noMatch) :: rest, memo => tracedRevisit store claimed next rest memo
  | (c, .matched id) :: rest, memo =>
    if isAvailable store claimed c then
      ((next c id ((memo.environment? id).getD .empty) memo).after c).orElse
        (tracedRevisit store claimed next rest)
    else tracedRevisit store claimed next rest memo

def tracedScan (store : Store) (claimed : List ConstraintId) (head : Term) (env : Environment)
    (stage : Stage) (next : TracedContinuation) : List ConstraintId → Memo → Searched
  | [], memo => ⟨none, memo, []⟩
  | c :: rest, memo =>
    match unifyAvailable store claimed head env c with
    | none => tracedScan store claimed head env stage next rest (memo.record stage .noMatch)
    | some env' =>
      ((next c memo.size env' (memo.recordMatch stage env')).after c).orElse
        (tracedScan store claimed head env stage next rest)

/-- The trial of the combination that ends with a constraint. -/
def tryLast (store : Store) (rule : RuleId) (guards : List Term) (claimed : List ConstraintId) :
    TracedContinuation := fun c _ env memo =>
  let passed := checkGuards store.holds guards env
  ⟨passed.map fun env => ⟨[], env⟩, memo, [⟨rule, (c :: claimed).reverse, store, passed.isSome⟩]⟩

/-- The candidates for a head that have no outcome at a stage yet. -/
def fresh (store : Store) (head : Term) (env : Environment) (stage : Stage) (memo : Memo) :
    List ConstraintId :=
  (store.candidates head env).toList.drop (memo.outcomes stage).size

/-- `matchHeads` with a record of the trials. -/
def tracedMatchHeads (store : Store) (rule : RuleId) (guards : List Term) :
    List Term → Nat → List ConstraintId → EnvironmentId → Environment → Memo → Searched
  | [], _, _, _, _, memo => ⟨none, memo, []⟩
  | [head], place, claimed, parent, env, memo =>
    let stage : Stage := ⟨parent, rule, place⟩
    tracedScan store claimed head env stage (tryLast store rule guards claimed)
      (fresh store head env stage memo) memo
  | head :: following :: heads, place, claimed, parent, env, memo =>
    let stage : Stage := ⟨parent, rule, place⟩
    let next : TracedContinuation := fun c id env memo =>
      tracedMatchHeads store rule guards (following :: heads) (place + 1) (c :: claimed) id env memo
    (tracedRevisit store claimed next
        ((store.candidates head env).toList.zip (memo.outcomes stage).toList) memo).orElse
      (tracedScan store claimed head env stage next (fresh store head env stage memo))

section Untraced
variable {store : Store} {claimed : List ConstraintId} {next : Continuation}
  {traced : TracedContinuation}

lemma untraced_orElse (s : Searched) (later : Memo → Searched) :
    (s.orElse later).untraced =
      match s.untraced with
      | (some m, memo) => (some m, memo)
      | (none, memo) => (later memo).untraced := by
  obtain ⟨_ | m, memo, trials⟩ := s
  · rfl
  · rfl

lemma untraced_after_orElse (s : Searched) (c : ConstraintId) (later : Memo → Searched) :
    ((s.after c).orElse later).untraced =
      match s.untraced with
      | (some m, memo) => (some (Search.after c m), memo)
      | (none, memo) => (later memo).untraced := by
  obtain ⟨_ | m, memo, trials⟩ := s
  · rfl
  · rfl

lemma untraced_revisit (h : ∀ c id env memo, (traced c id env memo).untraced = next c id env memo)
    (known : List (ConstraintId × Slot)) (memo : Memo) :
    (tracedRevisit store claimed traced known memo).untraced =
      revisit store claimed next known memo := by
  induction known generalizing memo with
  | nil => rfl
  | cons pair rest ih =>
    obtain ⟨c, _ | id⟩ := pair
    · exact ih memo
    · rw [tracedRevisit, revisit]
      split
      · rw [untraced_after_orElse, h]
        dsimp only
        obtain ⟨_ | m, memo⟩ := next c id ((memo.environment? id).getD .empty) memo
        · exact ih memo
        · rfl
      · exact ih memo

lemma untraced_scan (h : ∀ c id env memo, (traced c id env memo).untraced = next c id env memo)
    (head : Term) (env : Environment) (stage : Stage) (cs : List ConstraintId) (memo : Memo) :
    (tracedScan store claimed head env stage traced cs memo).untraced =
      scan store claimed head env stage next cs memo := by
  induction cs generalizing memo with
  | nil => rfl
  | cons c rest ih =>
    rw [tracedScan, scan]
    cases unifyAvailable store claimed head env c with
    | none => exact ih _
    | some env' =>
      dsimp only
      rw [untraced_after_orElse, h]
      obtain ⟨_ | m, memo⟩ := next c memo.size env' (memo.recordMatch stage env')
      · exact ih memo
      · rfl

end Untraced

lemma extract_eq_fresh (store : Store) (head : Term) (env : Environment) (stage : Stage)
    (memo : Memo) :
    ((store.candidates head env).extract (memo.outcomes stage).size
        (store.candidates head env).size).toList = fresh store head env stage memo := by
  simp only [Array.toList_extract, List.extract_eq_take_drop, fresh]
  exact List.take_of_length_le (by simp)

theorem untraced_matchHeads (store : Store) (rule : RuleId) (guards : List Term) (heads : List Term)
    (place : Nat) (claimed : List ConstraintId) (parent : EnvironmentId) (env : Environment)
    (memo : Memo) :
    (tracedMatchHeads store rule guards heads place claimed parent env memo).untraced =
      matchHeads store rule guards heads place claimed parent env memo := by
  match heads with
  | [] => rfl
  | [head] =>
    rw [tracedMatchHeads, matchHeads, ← extract_eq_fresh]
    exact untraced_scan (fun _ _ _ _ => rfl) head env _ _ memo
  | head :: following :: heads =>
    have ih (c : ConstraintId) (id : EnvironmentId) (env : Environment) (memo : Memo) :=
      untraced_matchHeads store rule guards (following :: heads) (place + 1) (c :: claimed) id env
        memo
    rw [tracedMatchHeads, matchHeads, untraced_orElse, untraced_revisit ih]
    obtain ⟨_ | m, memo'⟩ := revisit store claimed _ _ memo
    · exact (untraced_scan ih head env ..).trans (by rw [← extract_eq_fresh, Array.length_toList])
    · rfl

end Search

def Rule.tracedMatch (r : Rule) (id : RuleId) (store : Store) (memo : Memo) : Searched :=
  Search.tracedMatchHeads store id r.guards r.heads 0 [] Memo.start .empty memo

theorem Rule.untraced_tracedMatch (r : Rule) (id : RuleId) (store : Store) (memo : Memo) :
    (r.tracedMatch id store memo).untraced = r.nextMatch id store memo :=
  Search.untraced_matchHeads ..

end ConstraintHandling
