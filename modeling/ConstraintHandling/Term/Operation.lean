import ConstraintHandling.Operator
import ConstraintHandling.Term.Basic

/-! Operator terms built with the priorities of the operator table, and the two readings of them
that solving relies on: the negation of a relation and the sides of an assignment. -/
namespace ConstraintHandling

inductive UnknownOperator where
  | binary (name : String)
  | unary (name : String)
  deriving DecidableEq, Repr

def UnknownOperator.message : UnknownOperator → String
  | .binary name => "no such infix operator: " ++ name
  | .unary name => "no such prefix operator: " ++ name

namespace Term

def ordinary (functor : String) (args : List Term) : Term :=
  .compound functor args 0

def binary (name : String) (left right : Term) : Except UnknownOperator Term :=
  match Operator.binary? name with
  | some op => .ok (.compound op.name [left, right] op.priority)
  | none => .error (.binary name)

def unary (name : String) (arg : Term) : Except UnknownOperator Term :=
  match Operator.unary? name with
  | some op => .ok (.compound op.name [arg] op.priority)
  | none => .error (.unary name)

def relation (name : String) (left right : Term) : Term :=
  .compound name [left, right] Operator.relationPriority

def equation (left right : Term) : Term :=
  relation Operator.equality left right

/-- The negation of a term, for those that have one of their own: a relation becomes its
complement, `!t` becomes `t`, and booleans are inverted. -/
def negation? : Term → Option Term
  | .bool b => some (.bool !b)
  | .compound f [arg] p => if p != 0 && f == "!" then some arg else none
  | .compound f [left, right] p =>
    if p != 0 then (Operator.complement? f).map (relation · left right) else none
  | _ => none

def assignment? : Term → Option (Term × Term)
  | .compound f [left, right] p =>
    if p != 0 && Operator.isAssignment f then some (left, right) else none
  | _ => none

theorem binary_equality (left right : Term) :
    binary Operator.equality left right = .ok (equation left right) := by
  simp only [binary, show Operator.binary? Operator.equality = some ⟨"==", 700, .xfx⟩ by decide]
  rfl

theorem binary_of_complement? {name other : String} (h : Operator.complement? name = some other)
    (left right : Term) : binary other left right = .ok (relation other left right) := by
  unfold Operator.complement? at h
  split at h <;> simp at h <;> subst h <;> rfl

end Term
end ConstraintHandling
