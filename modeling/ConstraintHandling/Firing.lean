import ConstraintHandling.Event
import ConstraintHandling.Search

/-! What a rule does when it fires. Its body is gone through from left to right in a fresh scope: it
binds variables, collects equations as replacements, and collects constraints to assert; a literal
that is false cancels the whole. What was collected is then applied to the store at once. -/
namespace ConstraintHandling

structure Replacement where
  old : Term
  new : Term

/-- What a body has collected so far, both parts in order. -/
structure Effects where
  asserted : List Term
  replacements : List Replacement

namespace Effects

def none : Effects := ⟨[], []⟩

instance : Inhabited Effects := ⟨none⟩

def apply (e : Effects) (t : Term) : Term :=
  e.replacements.foldl (fun t r => Term.replace r.old r.new t) t

/-- A replacement between two terms, of the smaller one by the greater one. -/
def orient (s t : Term) : Replacement :=
  if s.compareStandard t = .gt then ⟨t, s⟩ else ⟨s, t⟩

/-- Takes the equation between two evaluated terms into account; nothing comes back when it is known
not to hold. Two values have to be equal; of other terms the smaller one is replaced. -/
def addEquation (known : Oracle) (e : Effects) (left right : Term) : Option Effects :=
  let left := e.apply (evaluate known left .empty)
  let right := e.apply (evaluate known right .empty)
  if left.isValue && right.isValue then
    if isTrue known (.equation left right) .empty then some e else Option.none
  else if left == right then some e
  else some ⟨e.asserted, e.replacements ++ [orient left right]⟩

end Effects

structure Progress where
  env : Environment
  effects : Effects

namespace Progress

/-- Performs an assignment. A variable of the rule is bound to the value; anything else is bound
already, so that the assignment is a test. -/
def assign (known : Oracle) (rule : Rule) (scope : Nat) (p : Progress) (left right : Term) :
    Option (Progress × List Event) :=
  match left.asVariable?.filter (·.scope == 0) with
  | some v => some (⟨p.env.bind v (evaluate known right .empty), p.effects⟩, [])
  | none =>
    match evaluate known (.equation (left.rename scope) (right.rename scope)) .empty with
    | .bool true => some (p, [])
    | .bool false => none
    | t => some (p, [.ignoredAssignment rule t])

/-- Performs a literal that is neither an assignment nor an equation: constraints are asserted once
the body is through, and other values are ignored. -/
def assert (known : Oracle) (rule : Rule) (p : Progress) (literal : Term) :
    Option (Progress × List Event) :=
  match evaluate known literal .empty with
  | .bool true => some (p, [])
  | .bool false => none
  | .atom a => some (⟨p.env, ⟨p.effects.asserted ++ [.atom a], p.effects.replacements⟩⟩, [])
  | .compound f args q =>
    some (⟨p.env, ⟨p.effects.asserted ++ [.compound f args q], p.effects.replacements⟩⟩, [])
  | t => some (p, [.ignoredLiteral rule t])

def perform (known : Oracle) (rule : Rule) (scope : Nat) (p : Progress) (literal : Term) :
    Option (Progress × List Event) :=
  let literal := p.env.substitute literal
  match literal.assignment? with
  | some (left, right) => p.assign known rule scope left right
  | none =>
    let literal := literal.rename scope
    if literal.isBinaryOperator Operator.equality then
      match literal.args with
      | [left, right] =>
        (p.effects.addEquation known left right).map fun effects => (⟨p.env, effects⟩, [])
      | _ => none
    else p.assert known rule literal

/-- Performs the literals of a body from left to right. There are no effects when one of them is
false; the events up to there stay. -/
def performAll (known : Oracle) (rule : Rule) (scope : Nat) :
    List Term → Progress → Option Effects × List Event
  | [], p => (some p.effects, [])
  | literal :: rest, p =>
    match p.perform known rule scope literal with
    | none => (none, [])
    | some (p', events) =>
      let (effects, later) := performAll known rule scope rest p'
      (effects, events ++ later)

end Progress

namespace Store

def addOrReport (s : Store) (t : Term) : Store × List Event :=
  match s.add t with
  | .ok (s', _) => (s', [])
  | .error refusal => (s, [.refused refusal])

def addAll (s : Store) : List Term → Store × List Event
  | [] => (s, [])
  | t :: ts =>
    let (s, events) := s.addOrReport t
    let (s, later) := s.addAll ts
    (s, events ++ later)

/-- The live constraints that the replacements change, with their new terms; the ordinary ones come
first. -/
def changedBy (s : Store) (e : Effects) : List (ConstraintId × Term) :=
  (s.live .ordinary ++ s.live .builtin).filterMap fun (id, t) =>
    let replaced := e.apply t
    if replaced == t then none else some (id, replaced)

def supersede (s : Store) : List (ConstraintId × Term) → Store × List Event
  | [] => (s, [])
  | (id, t) :: changes =>
    let (s, events) := (s.consume id).addOrReport t
    let (s, later) := s.supersede changes
    (s, events ++ later)

def consumeAll (s : Store) (ids : List ConstraintId) : Store :=
  ids.foldl consume s

/-- Applies the effects of a body: the new constraints are asserted, every live constraint that the
replacements change is superseded, and the equations themselves are asserted. -/
def commit (s : Store) (e : Effects) : Store × List Event :=
  let (s, asserting) := s.addAll e.asserted
  if e.replacements.isEmpty then (s, asserting)
  else
    let changes := s.changedBy e
    let (s, superseding) := s.supersede changes
    let (s, equating) := s.addAll (e.replacements.map fun r => .equation r.old r.new)
    (s, asserting ++ superseding ++ equating)

end Store

/-- Fires a rule on a match: the constraints of the heads to delete are consumed, then the body is
performed in the given scope and its effects are applied. -/
def Rule.fire (r : Rule) (m : Match) (scope : Nat) (store : Store) : Store × List Event :=
  let store := store.consumeAll (m.constraints.take r.deleteHeads.length)
  match Progress.performAll store.holds r scope r.body ⟨m.env, .none⟩ with
  | (some effects, events) =>
    let (store, later) := store.commit effects
    (store, events ++ later)
  | (none, events) => (store, events ++ [.bodyFailed r])

end ConstraintHandling
