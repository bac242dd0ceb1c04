import ConstraintHandling.Arithmetic
import ConstraintHandling.Environment
import ConstraintHandling.Term.Operation

/-! Evaluation of expressions. Bindings are substituted first, then operator terms are reduced from
the leaves up; what cannot be reduced stays as it is. An oracle gives truth values to relations that
are known to hold although they cannot be reduced. -/
namespace ConstraintHandling

/-- The constraints that are known to hold. -/
abbrev Oracle := Term → Bool

def Oracle.nothing : Oracle := fun _ => false

inductive BinaryOperation where
  | arithmetic (op : Arithmetic)
  | comparison (c : Comparison)
  | equal
  | different
  | conjunction
  | disjunction
  deriving DecidableEq, Repr

def BinaryOperation.ofName? : String → Option BinaryOperation
  | "+" => some (.arithmetic .add)
  | "-" => some (.arithmetic .subtract)
  | "*" => some (.arithmetic .multiply)
  | "/" => some (.arithmetic .divide)
  | "mod" => some (.arithmetic .modulo)
  | "**" => some (.arithmetic .power)
  | "^" => some (.arithmetic .power)
  | "<" => some (.comparison .less)
  | "<=" => some (.comparison .atMost)
  | ">" => some (.comparison .greater)
  | ">=" => some (.comparison .atLeast)
  | "==" => some .equal
  | "!=" => some .different
  | "&&" => some .conjunction
  | "||" => some .disjunction
  | _ => none

namespace Evaluation

/-- The truth value of a term: booleans have one, and so has what the oracle knows to hold and what
is the negation of it. -/
def truth? (known : Oracle) : Term → Option Bool
  | .bool b => some b
  | t =>
    if known t then some true
    else if (t.negation?.map known).getD false then some false
    else none

/-- `s` and `t` are negations of each other, as far as that can be read off `s`. -/
def areOpposite (s t : Term) : Bool :=
  match s.negation? with
  | some n => n == t
  | none => false

def conjunction? (known : Oracle) (s t : Term) : Option Term :=
  match truth? known s, truth? known t with
  | some false, _ => some (.bool false)
  | _, some false => some (.bool false)
  | some true, some true => some (.bool true)
  | some true, none => some t
  | none, some true => some s
  | none, none => if areOpposite s t then some (.bool false) else none

def disjunction? (known : Oracle) (s t : Term) : Option Term :=
  match truth? known s, truth? known t with
  | some true, _ => some (.bool true)
  | _, some true => some (.bool true)
  | some false, some false => some (.bool false)
  | some false, none => some t
  | none, some false => some s
  | none, none => if areOpposite s t then some (.bool true) else none

def unary? (known : Oracle) (name : String) (t : Term) : Option Term :=
  match name, t with
  | "-", .int i => (fit? (-i.toInt)).map .int
  | "-", .float x => some (.float x.negate)
  | "!", t => (truth? known t).map fun b => .bool !b
  | _, _ => none

def binary? (known : Oracle) (name : String) (s t : Term) : Option Term :=
  match BinaryOperation.ofName? name with
  | some (.arithmetic op) => op.apply s t
  | some (.comparison c) => (c.apply s t).map .bool
  | some .equal => (settledEqual? s t).map .bool
  | some .different => (settledEqual? s t).map fun b => .bool !b
  | some .conjunction => conjunction? known s t
  | some .disjunction => disjunction? known s t
  | none => none

def operation? (known : Oracle) (name : String) : List Term → Option Term
  | [t] => unary? known name t
  | [s, t] => binary? known name s t
  | _ => none

end Evaluation

namespace Term

mutual
/-- Reduces the operators of a term from the leaves up. -/
def reduce (known : Oracle) : Term → Term
  | .compound f args p =>
    let reduced := reduceAll known args
    if p = 0 then .compound f reduced 0
    else (Evaluation.operation? known f reduced).getD (.compound f reduced p)
  | .list items => .list (reduceAll known items)
  | t => t
def reduceAll (known : Oracle) : List Term → List Term
  | [] => []
  | t :: ts => reduce known t :: reduceAll known ts
end

@[simp] theorem reduceAll_eq (known : Oracle) (ts : List Term) :
    reduceAll known ts = ts.map (reduce known) := by
  induction ts with
  | nil => simp [reduceAll]
  | cons t ts ih => simp [reduceAll, ih]

end Term

/-- The value of a term under an environment. -/
def evaluate (known : Oracle) (t : Term) (env : Environment) : Term :=
  (env.substitute t).reduce known

def isTrue (known : Oracle) (t : Term) (env : Environment) : Bool :=
  match evaluate known t env with
  | .bool true => true
  | _ => false

end ConstraintHandling
