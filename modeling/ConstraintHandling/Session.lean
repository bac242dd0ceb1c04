import ConstraintHandling.Firing
import ConstraintHandling.Search

/-! A session: rules, a store of constraints, and the memo of the search for matches. A step tries
the rules in order and lets the first that matches fire; solving repeats steps until no rule fires
or the passes are used up. -/
namespace ConstraintHandling

/-- The state of a session. `lastScope` is the scope given to variables most recently. -/
structure Session where
  rules : RuleBase
  store : Store
  memo : Memo
  lastScope : Nat
  maxPasses : Nat

def defaultMaxPasses : Nat := 10000

structure GoalRefusal where
  goal : Term
  cause : Refusal

structure Attempt where
  fired : Bool
  session : Session
  events : List Event

/-- The end of solving, with the number of passes used. -/
structure Outcome where
  verdict : Verdict
  passes : Nat
  session : Session
  events : Array Event

namespace Session

def start (rules : RuleBase) : Session where
  rules := rules
  store := .empty
  memo := .initial
  lastScope := 0
  maxPasses := defaultMaxPasses

/-- Asserts evaluated goals in order, up to the first that is refused. -/
def assertGoals (store : Store) : List Term → Except GoalRefusal Unit × Store
  | [] => (.ok (), store)
  | t :: ts =>
    match store.add t with
    | .ok (store, _) => assertGoals store ts
    | .error cause => (.error ⟨t, cause⟩, store)

/-- Adds a conjunction of goals, whose variables share a fresh scope. Goals are evaluated before
they are asserted, and those that are true are left out. -/
def addGoals (s : Session) (goals : List Term) : Except GoalRefusal Unit × Session :=
  let ⟨rules, store, memo, lastScope, maxPasses⟩ := s
  let scope := lastScope + 1
  let values := goals.map fun g => evaluate .nothing (g.rename scope) .empty
  let (result, store) := assertGoals store (values.filter fun t => !(t == .bool true))
  (result, ⟨rules, store, memo, scope, maxPasses⟩)

/-- Looks for the next match of a rule and fires the rule on it. -/
def tryRule (s : Session) (r : Rule) (id : RuleId) : Attempt :=
  let ⟨rules, store, memo, lastScope, maxPasses⟩ := s
  match r.nextMatch id store memo with
  | (none, memo) => ⟨false, ⟨rules, store, memo, lastScope, maxPasses⟩, [.attempted r, .notFired r]⟩
  | (some m, memo) =>
    let matched := m.constraints.filterMap store.get?
    let scope := lastScope + 1
    let (store, events) := r.fire m scope store
    ⟨true, ⟨rules, store, memo, scope, maxPasses⟩,
      .attempted r :: .fired r matched :: .environment r m.env :: events⟩

/-- Tries rules in order up to the first that fires. -/
def tryRules (s : Session) : List (Rule × RuleId) → Attempt
  | [] => ⟨false, s, []⟩
  | (r, id) :: rules =>
    match s.tryRule r id with
    | ⟨true, s, events⟩ => ⟨true, s, events⟩
    | ⟨false, s, events⟩ =>
      let ⟨fired, s, later⟩ := s.tryRules rules
      ⟨fired, s, events ++ later⟩

def step (s : Session) : Attempt :=
  let numbered := s.rules.numbered
  s.tryRules numbered

/-- Repeats passes until none fires; a pass that fires when no further pass is allowed ends the
run. -/
def run (s : Session) (passes : Nat) (events : Array Event) : Nat → Outcome
  | 0 =>
    let ⟨fired, s, new⟩ := s.step
    ⟨if fired then .nonTermination else .fixpoint, passes + 1, s, events ++ new⟩
  | allowed + 1 =>
    match s.step with
    | ⟨true, s, new⟩ => s.run (passes + 1) (events ++ new) allowed
    | ⟨false, s, new⟩ => ⟨.fixpoint, passes + 1, s, events ++ new⟩

/-- Fires rules until a fixpoint is reached or one pass more than allowed has fired. -/
def solve (s : Session) : Outcome :=
  let allowed := s.maxPasses
  let outcome := s.run 0 #[] allowed
  ⟨outcome.verdict, outcome.passes, outcome.session,
    outcome.events.push (.ended outcome.verdict outcome.passes)⟩

end Session
end ConstraintHandling
