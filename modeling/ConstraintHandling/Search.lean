import ConstraintHandling.Memo
import ConstraintHandling.Store.Basic
import ConstraintHandling.Unification

/-! The search for the next match of a rule. The heads are matched one after the other, and what
became of every candidate is recorded in a memo that all searches of a session share. Candidates
that matched a head before are gone through again, since the heads behind it may have new
candidates; those of the last head are never tried twice, so that every combination of constraints
is tried once. -/
namespace ConstraintHandling

/-- A combination of constraints, in the order in which heads are matched, and the environment
that matching and guards have led to. -/
structure Match where
  constraints : List ConstraintId
  env : Environment

namespace Search

/-- Checks one guard. An assignment binds its left side, which has to be an unbound variable, to the
value of its right side; any other guard has to be true. -/
def checkGuard (known : Oracle) (guard : Term) (env : Environment) : Option Environment :=
  match guard.assignment? with
  | some (left, right) =>
    match env.chase left with
    | .var v => some (env.bind v (evaluate known right env))
    | _ => none
  | none => if isTrue known guard env then some env else none

def checkGuards (known : Oracle) : List Term → Environment → Option Environment
  | [], env => some env
  | g :: gs, env =>
    match checkGuard known g env with
    | some env' => checkGuards known gs env'
    | none => none

/-- A constraint can be taken for a head when it is live and no other head has taken it. -/
def isAvailable (store : Store) (claimed : List ConstraintId) (c : ConstraintId) : Bool :=
  store.isLive c && !claimed.contains c

def after (c : ConstraintId) (found : Match) : Match :=
  ⟨c :: found.constraints, found.env⟩

/-- How to go on with the heads behind one that took a constraint and led to an environment. -/
abbrev Continuation := ConstraintId → EnvironmentId → Environment → Memo → Option Match × Memo

/-- Goes through candidates whose outcome is known, following those that matched and are still
available. -/
def revisit (store : Store) (claimed : List ConstraintId) (next : Continuation) :
    List (ConstraintId × Slot) → Memo → Option Match × Memo
  | [], memo => (none, memo)
  | (_, .noMatch) :: rest, memo => revisit store claimed next rest memo
  | (c, .matched id) :: rest, memo =>
    if isAvailable store claimed c then
      let env := (memo.environment? id).getD .empty
      match next c id env memo with
      | (some found, memo) => (some (after c found), memo)
      | (none, memo) => revisit store claimed next rest memo
    else revisit store claimed next rest memo

def unifyAvailable (store : Store) (claimed : List ConstraintId) (head : Term) (env : Environment)
    (c : ConstraintId) : Option Environment :=
  if isAvailable store claimed c then
    match store.get? c with
    | some t => unify head t env
    | none => none
  else none

/-- Tries candidates for the first time and records what becomes of them. -/
def scan (store : Store) (claimed : List ConstraintId) (head : Term) (env : Environment)
    (stage : Stage) (next : Continuation) : List ConstraintId → Memo → Option Match × Memo
  | [], memo => (none, memo)
  | c :: rest, memo =>
    match unifyAvailable store claimed head env c with
    | none => scan store claimed head env stage next rest (memo.record stage .noMatch)
    | some env' =>
      let id := memo.size
      match next c id env' (memo.recordMatch stage env') with
      | (some found, memo) => (some (after c found), memo)
      | (none, memo) => scan store claimed head env stage next rest memo

/-- Matches the remaining heads of a rule, of which the first has the given place. -/
def matchHeads (store : Store) (rule : RuleId) (guards : List Term) :
    List Term → Nat → List ConstraintId → EnvironmentId → Environment → Memo → Option Match × Memo
  | [], _, _, _, _, memo => (none, memo)
  | [head], place, claimed, parent, env, memo =>
    let stage : Stage := ⟨parent, rule, place⟩
    let candidates := store.candidates head env
    let known := (memo.outcomes stage).size
    let fresh := (candidates.extract known candidates.size).toList
    scan store claimed head env stage
      (fun _ _ env memo => ((checkGuards store.holds guards env).map fun env => ⟨[], env⟩, memo))
      fresh memo
  | head :: following :: heads, place, claimed, parent, env, memo =>
    let stage : Stage := ⟨parent, rule, place⟩
    let candidates := store.candidates head env
    let outcomes := (memo.outcomes stage).toList
    let fresh := (candidates.extract outcomes.length candidates.size).toList
    let next : Continuation := fun c id env memo =>
      matchHeads store rule guards (following :: heads) (place + 1) (c :: claimed) id env memo
    match revisit store claimed next (candidates.toList.zip outcomes) memo with
    | (some found, memo) => (some found, memo)
    | (none, memo) => scan store claimed head env stage next fresh memo

end Search

def Rule.nextMatch (r : Rule) (id : RuleId) (store : Store) (memo : Memo) : Option Match × Memo :=
  Search.matchHeads store id r.guards r.heads 0 [] Memo.start .empty memo

end ConstraintHandling
