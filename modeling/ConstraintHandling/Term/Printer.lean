import ConstraintHandling.Decimal.Layout
import ConstraintHandling.Operator
import ConstraintHandling.Term.Basic
import ConstraintHandling.Text.Quoted

/-! The text of a term. Operator terms are written with their operator, inside parentheses where
their priority exceeds what their place allows; other compound terms are written with their functor
in front of their arguments. -/
namespace ConstraintHandling

/-- A variable is written with its scope, unless that is the scope of source text. -/
def Variable.text (v : Variable) : String :=
  if v.scope = 0 then v.name else v.name ++ "_" ++ Nat.repr v.scope

namespace Operator

/-- The largest priorities allowed in the places of the arguments, in order. -/
def operandMaxima (op : Operator) : List Nat :=
  match op.associativity with
  | .fy => [op.argumentMaxima.2]
  | _ => [op.argumentMaxima.1, op.argumentMaxima.2]

def layout (op : Operator) : List String → String
  | [arg] => op.name ++ arg
  | [left, right] => left ++ (if op.isAlphabetic then " " ++ op.name ++ " " else op.name) ++ right
  | _ => op.name

end Operator

namespace Term

/-- The largest priority of an element of a list or an argument of a compound term. -/
def elementMaximum : Nat := 999

/-- The largest priority of a term that stands alone. -/
def topMaximum : Nat := 1200

mutual
/-- The text of a term in a place that allows priorities up to `maximum`. -/
def textWithin (maximum : Nat) : Term → String
  | .atom a => Text.atomText a
  | .bool b => if b then "true" else "false"
  | .int i => Int.repr i.toInt
  | .float x => x.plainText
  | .str s => Text.quoteString s
  | .var v => v.text
  | .list items =>
    "[" ++ String.intercalate "," (textEach (List.replicate items.length elementMaximum) items) ++ "]"
  | .compound f args p =>
    match Operator.ofCompound? f args.length p with
    | some op =>
      let body := op.layout (textEach op.operandMaxima args)
      if maximum < op.priority then "(" ++ body ++ ")" else body
    | none =>
      Text.atomText f ++ "(" ++
        String.intercalate "," (textEach (List.replicate args.length elementMaximum) args) ++ ")"
def textEach : List Nat → List Term → List String
  | m :: ms, t :: ts => textWithin m t :: textEach ms ts
  | _, _ => []
end

/-- The text of a term that stands alone. -/
def text (t : Term) : String :=
  t.textWithin topMaximum

instance : ToString Term := ⟨text⟩

end Term
end ConstraintHandling
