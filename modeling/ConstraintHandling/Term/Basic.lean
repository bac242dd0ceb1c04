import ConstraintHandling.Binary64

/-! Terms of the constraint language: constants, compound terms, lists and scoped variables.
Equality of terms is a boolean function and not a decision procedure for `=`, since it compares
floats by value: a term holding a NaN differs from itself, and the two zeros are equal. -/
namespace ConstraintHandling

/-- A logical variable. Scope `0` is the scope of variables as they are written; positive scopes
keep the variables of different goals and firings apart. -/
structure Variable where
  name : String
  scope : Nat := 0
  deriving DecidableEq, Repr

/-- Moves a variable of scope `0` to another scope; variables of other scopes stay. -/
def Variable.inScope (scope : Nat) (v : Variable) : Variable :=
  if v.scope = 0 then ⟨v.name, scope⟩ else v

/-- A term. A compound term of priority `0` is an ordinary constraint or data; a positive priority
marks an operator term, which denotes a built-in constraint or an expression. -/
inductive Term where
  | atom (name : String)
  | bool (value : Bool)
  | int (value : Int64)
  | float (value : Binary64)
  | str (text : String)
  | compound (functor : String) (args : List Term) (priority : Nat)
  | list (items : List Term)
  | var (v : Variable)

inductive Kind where
  | atom | bool | int | float | str | compound | list | var
  deriving DecidableEq, Repr

def Kind.name : Kind → String
  | .atom => "atom"
  | .bool => "bool"
  | .int => "int"
  | .float => "float"
  | .str => "str"
  | .compound => "compound"
  | .list => "list"
  | .var => "variable"

namespace Term

instance : Inhabited Term := ⟨.bool true⟩

def kind : Term → Kind
  | .atom _ => .atom
  | .bool _ => .bool
  | .int _ => .int
  | .float _ => .float
  | .str _ => .str
  | .compound .. => .compound
  | .list _ => .list
  | .var _ => .var

mutual
/-- Structural equality. Different shapes are never equal (`1` and `1.0` are not), and operator
priorities count. -/
def beq : Term → Term → Bool
  | .atom a, .atom b => a == b
  | .bool a, .bool b => a == b
  | .int a, .int b => a == b
  | .float a, .float b => a.equal b
  | .str a, .str b => a == b
  | .compound f as p, .compound g bs q => f == g && p == q && beqAll as bs
  | .list as, .list bs => beqAll as bs
  | .var v, .var w => v == w
  | _, _ => false
/-- Equality of two lists of terms, of the same length and equal place by place. -/
def beqAll : List Term → List Term → Bool
  | [], [] => true
  | a :: as, b :: bs => beq a b && beqAll as bs
  | _, _ => false
end

instance : BEq Term := ⟨beq⟩

/-- The name under which a constraint is stored; only atoms and compound terms have one. -/
def functor? : Term → Option String
  | .atom a => some a
  | .compound f _ _ => some f
  | _ => none

def args : Term → List Term
  | .compound _ as _ => as
  | _ => []

def arity (t : Term) : Nat :=
  t.args.length

def priority : Term → Nat
  | .compound _ _ p => p
  | _ => 0

def isOperator (t : Term) : Bool :=
  t.priority != 0

def isBinaryOperator (name : String) : Term → Bool
  | .compound f [_, _] p => p != 0 && f == name
  | _ => false

def asVariable? : Term → Option Variable
  | .var v => some v
  | _ => none

def isNumber : Term → Bool
  | .int _ | .float _ => true
  | _ => false

def isFloat : Term → Bool
  | .float _ => true
  | _ => false

/-- Booleans, numbers and strings: the terms whose equality is settled by comparing them. -/
def isValue : Term → Bool
  | .bool _ | .int _ | .float _ | .str _ => true
  | _ => false

/-- The value of a number as a float; integers are rounded to nearest. -/
def number? : Term → Option Binary64
  | .int i => some (.ofInt i.toInt)
  | .float x => some x
  | _ => none

mutual
def size : Term → Nat
  | .compound _ as _ => sizeAll as + 1
  | .list as => sizeAll as + 1
  | _ => 1
def sizeAll : List Term → Nat
  | [] => 0
  | a :: as => size a + sizeAll as
end

mutual
/-- Every occurrence of a variable, from left to right. -/
def occurrences : Term → List Variable
  | .var v => [v]
  | .compound _ as _ => occurrencesAll as
  | .list as => occurrencesAll as
  | _ => []
def occurrencesAll : List Term → List Variable
  | [] => []
  | a :: as => occurrences a ++ occurrencesAll as
end

/-- The variables of a term, each once, in order of first occurrence. -/
def freeVariables (t : Term) : List Variable :=
  t.occurrences.eraseDups

def isGround (t : Term) : Bool :=
  t.occurrences.isEmpty

mutual
/-- Puts `f v` in the place of every variable `v`, all at once. -/
def mapVariables (f : Variable → Term) : Term → Term
  | .var v => f v
  | .compound g as p => .compound g (mapVariablesAll f as) p
  | .list as => .list (mapVariablesAll f as)
  | t => t
def mapVariablesAll (f : Variable → Term) : List Term → List Term
  | [] => []
  | a :: as => mapVariables f a :: mapVariablesAll f as
end

def rename (scope : Nat) (t : Term) : Term :=
  t.mapVariables fun v => .var (v.inScope scope)

mutual
/-- Replaces every largest subterm equal to `old` by `new`. -/
def replace (old new : Term) : Term → Term
  | .compound f as p =>
    if Term.compound f as p == old then new else .compound f (replaceAll old new as) p
  | .list as => if Term.list as == old then new else .list (replaceAll old new as)
  | t => if t == old then new else t
def replaceAll (old new : Term) : List Term → List Term
  | [] => []
  | a :: as => replace old new a :: replaceAll old new as
end

@[simp] theorem beqAll_nil : beqAll [] [] = true := by simp [beqAll]

@[simp] theorem beqAll_cons (a b : Term) (as bs : List Term) :
    beqAll (a :: as) (b :: bs) = (a == b && beqAll as bs) := by
  rw [beqAll]; rfl

theorem length_eq_of_beqAll : ∀ {as bs : List Term}, beqAll as bs = true → as.length = bs.length
  | [], [], _ => rfl
  | a :: as, b :: bs, h => by
    simp only [beqAll_cons, Bool.and_eq_true] at h
    simp [length_eq_of_beqAll h.2]
  | [], _ :: _, h => by simp [beqAll] at h
  | _ :: _, [], h => by simp [beqAll] at h

@[simp] theorem occurrencesAll_eq (as : List Term) :
    occurrencesAll as = as.flatMap occurrences := by
  induction as with
  | nil => simp [occurrencesAll]
  | cons a as ih => simp [occurrencesAll, ih]

@[simp] theorem mapVariablesAll_eq (f : Variable → Term) (as : List Term) :
    mapVariablesAll f as = as.map (mapVariables f) := by
  induction as with
  | nil => simp [mapVariablesAll]
  | cons a as ih => simp [mapVariablesAll, ih]

@[simp] theorem replaceAll_eq (old new : Term) (as : List Term) :
    replaceAll old new as = as.map (replace old new) := by
  induction as with
  | nil => simp [replaceAll]
  | cons a as ih => simp [replaceAll, ih]

@[simp] theorem mem_freeVariables {v : Variable} {t : Term} :
    v ∈ t.freeVariables ↔ v ∈ t.occurrences := by
  simp [freeVariables]

theorem asVariable?_eq_none_iff {t : Term} : t.asVariable? = none ↔ ∀ v, t ≠ .var v := by
  cases t <;> simp [asVariable?]

theorem isGround_iff {t : Term} : t.isGround = true ↔ t.occurrences = [] := by
  simp [isGround]

end Term
end ConstraintHandling
