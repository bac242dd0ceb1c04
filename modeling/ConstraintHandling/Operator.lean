/-! The operator table of the expression language and the priorities it imposes on arguments. -/
namespace ConstraintHandling

/-- How an operator associates: `f` stands for the operator, `x` for an argument of strictly lower
priority and `y` for an argument whose priority may equal its own. -/
inductive Associativity where
  | xfx | xfy | yfx | fy
  deriving DecidableEq, Repr

structure Operator where
  name : String
  priority : Nat
  associativity : Associativity
  deriving DecidableEq, Repr

namespace Operator

/-- The largest priorities allowed for the two arguments; an operator written before its only
argument uses the second one. -/
def argumentMaxima (op : Operator) : Nat × Nat :=
  match op.associativity with
  | .xfx => (op.priority - 1, op.priority - 1)
  | .xfy => (op.priority - 1, op.priority)
  | .yfx => (op.priority, op.priority - 1)
  | .fy => (0, op.priority)

/-- An operator spelled with letters, which has to be written between blanks. -/
def isAlphabetic (op : Operator) : Bool :=
  op.name.all Char.isAlpha

def binaryTable : List Operator := [
  ⟨"||", 1100, .xfy⟩,
  ⟨"&&", 1000, .xfy⟩,
  ⟨":=", 700, .xfx⟩,
  ⟨"=", 700, .xfx⟩,
  ⟨"is", 700, .xfx⟩,
  ⟨"==", 700, .xfx⟩,
  ⟨"!=", 700, .xfx⟩,
  ⟨"<", 700, .xfx⟩,
  ⟨"<=", 700, .xfx⟩,
  ⟨">", 700, .xfx⟩,
  ⟨">=", 700, .xfx⟩,
  ⟨"+", 500, .yfx⟩,
  ⟨"-", 500, .yfx⟩,
  ⟨"*", 400, .yfx⟩,
  ⟨"/", 400, .yfx⟩,
  ⟨"mod", 400, .yfx⟩,
  ⟨"**", 200, .xfx⟩,
  ⟨"^", 200, .xfy⟩]

def unaryTable : List Operator := [
  ⟨"!", 900, .fy⟩,
  ⟨"-", 200, .fy⟩]

def binary? (name : String) : Option Operator :=
  binaryTable.find? (·.name == name)

def unary? (name : String) : Option Operator :=
  unaryTable.find? (·.name == name)

/-- The operator a compound term is written with: the table entry for its functor and number of
arguments, provided the priorities agree. -/
def ofCompound? (functor : String) (arity priority : Nat) : Option Operator :=
  let entry := match arity with
    | 1 => unary? functor
    | 2 => binary? functor
    | _ => none
  entry.filter (·.priority == priority)

/-- The operators that bind a variable in guards and bodies. -/
def isAssignment (name : String) : Bool :=
  name == ":=" || name == "=" || name == "is"

def equality : String := "=="

/-- The relation that holds exactly when the given one does not. -/
def complement? : String → Option String
  | "<" => some ">="
  | ">=" => some "<"
  | ">" => some "<="
  | "<=" => some ">"
  | "==" => some "!="
  | "!=" => some "=="
  | _ => none

def relationPriority : Nat := 700

theorem mem_binaryTable_of_binary? {name : String} {op : Operator} (h : binary? name = some op) :
    op ∈ binaryTable ∧ op.name = name :=
  ⟨List.mem_of_find?_eq_some h, by simpa using List.find?_some h⟩

theorem mem_unaryTable_of_unary? {name : String} {op : Operator} (h : unary? name = some op) :
    op ∈ unaryTable ∧ op.name = name :=
  ⟨List.mem_of_find?_eq_some h, by simpa using List.find?_some h⟩

theorem complement?_complement? {name other : String} (h : complement? name = some other) :
    complement? other = some name := by
  unfold complement? at h
  split at h <;> simp_all <;> subst h <;> rfl

end Operator
end ConstraintHandling
