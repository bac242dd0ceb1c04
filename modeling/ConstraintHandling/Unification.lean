import ConstraintHandling.Environment

/-! Unification of two terms under an environment. Both terms are chased first; a variable is bound
to the other term unless that term shows the variable, directly or in the values directly bound to
its variables. Cyclic environments can make two terms unfold without end, so that a run is bounded
and may stay unfinished. -/
namespace ConstraintHandling

/-- How an attempt to unify ends. -/
inductive Unification where
  | unified (env : Environment)
  | clash
  | unfinished

namespace Unification

def environment? : Unification → Option Environment
  | .unified env => some env
  | _ => none

/-- Threads an environment through two lists, place by place, up to the end of the shorter one. -/
def fold (step : Term → Term → Environment → Unification) :
    List Term → List Term → Environment → Unification
  | s :: ss, t :: ts, env =>
    match step s t env with
    | .unified env' => fold step ss ts env'
    | failure => failure
  | _, _, env => .unified env

/-- One of the visited variables shows in the term or in a value directly bound to one of its
variables; longer chains of values are not followed. -/
def occurs (visited : List Variable) (env : Environment) (t : Term) : Bool :=
  t.occurrences.any fun w =>
    visited.contains w ||
      match env.lookup w with
      | some value => value.occurrences.any visited.contains
      | none => false

/-- Binds a variable to a term that does not show it. -/
def bindChecked (visited : List Variable) (env : Environment) (v : Variable) (t : Term) :
    Unification :=
  if occurs visited env t then .clash else .unified (env.bind v t)

/-- Unifies, going at most `depth` levels down. -/
def within : Nat → Term → Term → Environment → Unification
  | 0, _, _, _ => .unfinished
  | depth + 1, s, t, env =>
    let (s, visitedLeft) := env.chaseVisiting s
    let (t, visitedRight) := env.chaseVisiting t
    match s, t with
    | .var v, .var w => .unified (if v = w then env else env.bind v (.var w))
    | .var v, t => bindChecked visitedLeft env v t
    | s, .var w => bindChecked visitedRight env w s
    | .compound f as _, .compound g bs _ =>
      if f = g ∧ as.length = bs.length then fold (within depth) as bs env else .clash
    | .list as, .list bs =>
      if as.length = bs.length then fold (within depth) as bs env else .clash
    | s, t => if s == t then .unified env else .clash

/-- The number of nodes that unification can meet. -/
def nodes (s t : Term) (env : Environment) : Nat :=
  s.size + t.size + Term.sizeAll (env.bindings.map Prod.snd) + env.size

/-- A depth that no finishing run exceeds: on a way down that meets the same two nodes twice under
bindings of the same meaning the run repeats itself for ever, and there are at most `nodes ^ 2`
pairs of nodes and `2 * nodes` bindings that change a meaning. -/
def depthBound (s t : Term) (env : Environment) : Nat :=
  2 * (nodes s t env + 1).pow 3

end Unification

/-- Unifies two terms, binding variables of both. Where there is no end to unification this one fails. -/
def unify (s t : Term) (env : Environment) : Option Environment :=
  (Unification.within (Unification.depthBound s t env) s t env).environment?

end ConstraintHandling
