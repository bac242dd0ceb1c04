import ConstraintHandling.Term.Basic

/-! The standard order of terms: variables, booleans, numbers by value, atoms, strings, lists by
length and then by elements, and compound terms by arity, functor and arguments. Operator
priorities play no part in it. -/
namespace ConstraintHandling
namespace Term

/-- The place of each shape in the order; integers and floats share one. -/
def rank : Term → Nat
  | .var _ => 0
  | .bool _ => 1
  | .int _ | .float _ => 2
  | .atom _ => 3
  | .str _ => 4
  | .list _ => 5
  | .compound .. => 6

/-- Numbers are compared as floats; of an integer and a float of the same value the integer comes
first, and a NaN has the same value as every number. -/
def compareNumbers (s t : Term) (x y : Binary64) : Ordering :=
  ((x.compare? y).getD .eq).then (compare s.isFloat t.isFloat)

mutual
def compareStandard : Term → Term → Ordering
  | .var v, .var w => (compare v.name w.name).then (compare v.scope w.scope)
  | .bool a, .bool b => compare a b
  | .int a, .int b => compare a.toInt b.toInt
  | .atom a, .atom b => compare a b
  | .str a, .str b => compare a b
  | .list as, .list bs => (compare as.length bs.length).then (compareAll as bs)
  | .compound f as _, .compound g bs _ =>
    (compare as.length bs.length).then ((compare f g).then (compareAll as bs))
  | s, t =>
    match s.number?, t.number? with
    | some x, some y => compareNumbers s t x y
    | _, _ => compare s.rank t.rank
/-- The first difference between two lists of terms decides, as far as both of them go. -/
def compareAll : List Term → List Term → Ordering
  | a :: as, b :: bs => (compareStandard a b).then (compareAll as bs)
  | _, _ => .eq
end

def atMost (s t : Term) : Bool :=
  compareStandard s t != .gt

/-- Sorts by the standard order; terms that compare as equal keep their order. -/
def sort (ts : List Term) : List Term :=
  ts.mergeSort atMost

end Term
end ConstraintHandling
