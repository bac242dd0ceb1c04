import ConstraintHandling.Proofs.Unification.Calls
import ConstraintHandling.Search

/-! The search that waits for unification. Variables that a head has bound in a ring can keep unification
busy for ever, and a search that makes such a call does not return either. Here an endless call has no
result, and so has every part of the search that makes one; what returns is the search itself. -/
namespace ConstraintHandling

namespace Unification

/-- What is known when unification has ended. -/
def result? : Unification → Option (Option Environment)
  | .unified env => some (some env)
  | .clash => some none
  | .unfinished => none

end Unification

/-- What unification returns, if it comes to an end. -/
def unify? (s t : Term) (env : Environment) : Option (Option Environment) :=
  (Unification.within (Unification.depthBound s t env) s t env).result?

section Unify
variable {s t : Term} {env : Environment}

end Unify

/-- A call that may have no end, and all that it can return. -/
inductive ReturnsOnly {α : Type} : Option α → α → Prop
  | returned (result : α) : ReturnsOnly (some result) result
  | endless (result : α) : ReturnsOnly none result

section ReturnsOnly
variable {α β : Type} {call : Option α} {result : α}

lemma ReturnsOnly.eq_of_returned (h : ReturnsOnly call result) {r : α} (returned : call = some r) :
    result = r := by
  cases h with
  | returned => exact Option.some.inj returned
  | endless => cases returned

lemma ReturnsOnly.bind {behind : α → Option β} {value : β} (h : ReturnsOnly call result)
    (hbehind : ReturnsOnly (behind result) value) : ReturnsOnly (call >>= behind) value := by
  cases h with
  | returned => exact hbehind
  | endless => exact .endless value

lemma returnsOnly_unify? (s t : Term) (env : Environment) :
    ReturnsOnly (unify? s t env) (unify s t env) := by
  rw [unify?, unify]
  cases Unification.within (Unification.depthBound s t env) s t env with
  | unified env' => exact .returned (some env')
  | clash => exact .returned none
  | unfinished => exact .endless none

end ReturnsOnly

namespace Search

/-- How to go on with the heads behind one that took a constraint, as long as unification ends. -/
abbrev PartialContinuation :=
  ConstraintId → EnvironmentId → Environment → Memo → Option (Option Match × Memo)

def revisit? (store : Store) (claimed : List ConstraintId) (next : PartialContinuation) :
    List (ConstraintId × Slot) → Memo → Option (Option Match × Memo)
  | [], memo => some (none, memo)
  | (_, .noMatch) :: rest, memo => revisit? store claimed next rest memo
  | (c, .matched id) :: rest, memo =>
    if isAvailable store claimed c then do
      let env := (memo.environment? id).getD .empty
      match ← next c id env memo with
      | (some found, memo) => return (some (after c found), memo)
      | (none, memo) => revisit? store claimed next rest memo
    else revisit? store claimed next rest memo

/-- `unifyAvailable` when unification need not end. -/
def unifyUnclaimed? (store : Store) (claimed : List ConstraintId) (head : Term) (env : Environment)
    (c : ConstraintId) : Option (Option Environment) :=
  if isAvailable store claimed c then
    match store.get? c with
    | some t => unify? head t env
    | none => some none
  else some none

def scan? (store : Store) (claimed : List ConstraintId) (head : Term) (env : Environment)
    (stage : Stage) (next : PartialContinuation) :
    List ConstraintId → Memo → Option (Option Match × Memo)
  | [], memo => some (none, memo)
  | c :: rest, memo => do
    match ← unifyUnclaimed? store claimed head env c with
    | none => scan? store claimed head env stage next rest (memo.record stage .noMatch)
    | some env' =>
      let id := memo.size
      match ← next c id env' (memo.recordMatch stage env') with
      | (some found, memo) => return (some (after c found), memo)
      | (none, memo) => scan? store claimed head env stage next rest memo

/-- `matchHeads` when unification need not end. Guards are checked without it. -/
def matchHeads? (store : Store) (rule : RuleId) (guards : List Term) :
    List Term → Nat → List ConstraintId → EnvironmentId → Environment → Memo →
      Option (Option Match × Memo)
  | [], _, _, _, _, memo => some (none, memo)
  | [head], place, claimed, parent, env, memo =>
    let stage : Stage := ⟨parent, rule, place⟩
    let candidates := store.candidates head env
    let known := (memo.outcomes stage).size
    let fresh := (candidates.extract known candidates.size).toList
    let last : PartialContinuation := fun _ _ env memo =>
      some ((checkGuards store.holds guards env).map fun env => ⟨[], env⟩, memo)
    scan? store claimed head env stage last fresh memo
  | head :: following :: heads, place, claimed, parent, env, memo => do
    let stage : Stage := ⟨parent, rule, place⟩
    let candidates := store.candidates head env
    let outcomes := (memo.outcomes stage).toList
    let fresh := (candidates.extract outcomes.length candidates.size).toList
    let next : PartialContinuation := fun c id env memo =>
      matchHeads? store rule guards (following :: heads) (place + 1) (c :: claimed) id env memo
    match ← revisit? store claimed next (candidates.toList.zip outcomes) memo with
    | (some found, memo) => return (some found, memo)
    | (none, memo) => scan? store claimed head env stage next fresh memo

section Return
variable {store : Store} {claimed : List ConstraintId} {head : Term} {env : Environment}
  {next? : PartialContinuation} {next : Continuation}

lemma returnsOnly_orElse (f : Match → Match) {later? : Memo → Option (Option Match × Memo)}
    {later : Memo → Option Match × Memo} (hlater : ∀ memo, ReturnsOnly (later? memo) (later memo)) :
    ∀ {call : Option (Option Match × Memo)} {result : Option Match × Memo}, ReturnsOnly call result →
      ReturnsOnly
        (call.bind fun
          | (some found, memo) => some (some (f found), memo)
          | (none, memo) => later? memo)
        (match result with
          | (some found, memo) => (some (f found), memo)
          | (none, memo) => later memo) := by
  intro call result h
  refine h.bind ?_
  obtain ⟨_ | found, memo⟩ := result
  · exact hlater memo
  · exact .returned _

lemma returnsOnly_unifyUnclaimed? (store : Store) (claimed : List ConstraintId) (head : Term)
    (env : Environment) (c : ConstraintId) :
    ReturnsOnly (unifyUnclaimed? store claimed head env c)
      (unifyAvailable store claimed head env c) := by
  rw [unifyUnclaimed?, unifyAvailable]
  split
  · cases store.get? c with
    | some t => exact returnsOnly_unify? head t env
    | none => exact .returned none
  · exact .returned none

lemma returnsOnly_revisit? (hnext : ∀ c id env memo, ReturnsOnly (next? c id env memo)
    (next c id env memo)) (known : List (ConstraintId × Slot)) (memo : Memo) :
    ReturnsOnly (revisit? store claimed next? known memo)
      (revisit store claimed next known memo) := by
  induction known generalizing memo with
  | nil => exact .returned _
  | cons pair known ih =>
    obtain ⟨c, _ | id⟩ := pair
    · exact ih memo
    · rw [revisit?, revisit]
      split
      · exact returnsOnly_orElse (after c) ih (hnext ..)
      · exact ih memo

lemma returnsOnly_scan? (hnext : ∀ c id env memo, ReturnsOnly (next? c id env memo)
    (next c id env memo)) (stage : Stage) (cs : List ConstraintId) (memo : Memo) :
    ReturnsOnly (scan? store claimed head env stage next? cs memo)
      (scan store claimed head env stage next cs memo) := by
  induction cs generalizing memo with
  | nil => exact .returned _
  | cons c cs ih =>
    rw [scan?, scan]
    refine (returnsOnly_unifyUnclaimed? store claimed head env c).bind ?_
    cases unifyAvailable store claimed head env c with
    | none => exact ih _
    | some env' => exact returnsOnly_orElse (after c) ih (hnext ..)

/-- A search that returns, returns what the search that cuts endless unification off finds. -/
theorem returnsOnly_matchHeads? (store : Store) (rule : RuleId) (guards : List Term)
    (heads : List Term) (place : Nat) (claimed : List ConstraintId) (parent : EnvironmentId)
    (env : Environment) (memo : Memo) :
    ReturnsOnly (matchHeads? store rule guards heads place claimed parent env memo)
      (matchHeads store rule guards heads place claimed parent env memo) := by
  induction heads generalizing place claimed parent env memo with
  | nil => exact .returned _
  | cons head heads ih =>
    cases heads with
    | nil => exact returnsOnly_scan? (fun _ _ _ _ => .returned _) ..
    | cons following heads =>
      have hnext (c : ConstraintId) := ih (place + 1) (c :: claimed)
      rw [matchHeads?, matchHeads]
      exact returnsOnly_orElse (fun found => found) (returnsOnly_scan? hnext _ _)
        (returnsOnly_revisit? hnext ..)

end Return

end Search

def Rule.nextMatch? (r : Rule) (id : RuleId) (store : Store) (memo : Memo) :
    Option (Option Match × Memo) :=
  Search.matchHeads? store id r.guards r.heads 0 [] Memo.start .empty memo

lemma Rule.returnsOnly_nextMatch? (r : Rule) (id : RuleId) (store : Store) (memo : Memo) :
    ReturnsOnly (r.nextMatch? id store memo) (r.nextMatch id store memo) :=
  Search.returnsOnly_matchHeads? ..

end ConstraintHandling
