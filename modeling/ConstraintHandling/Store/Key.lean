import ConstraintHandling.Environment
import ConstraintHandling.Buckets

/-! The keys under which a store finds its constraints: the partition, the functor and the shape of
the first argument. -/
namespace ConstraintHandling

/-- The two parts of a store: user-defined constraints and operator terms. -/
inductive Partition where
  | ordinary | builtin
  deriving DecidableEq, Repr

def Partition.of (t : Term) : Partition :=
  if t.isOperator then .builtin else .ordinary

/-- What is known of the first argument of a constraint without looking into it. -/
inductive FirstArgument where
  | absent
  | atom (name : String)
  | bool (value : Bool)
  | int (value : Int)
  | float (bits : Nat)
  | str (text : String)
  | compound (functor : String)
  | list
  | var
  deriving DecidableEq, Repr

namespace FirstArgument

/-- The two zeros share a key, since they are equal. -/
def ofTerm : Term → FirstArgument
  | .atom a => .atom a
  | .bool b => .bool b
  | .int i => .int i.toInt
  | .float x => .float (if x.isZero then 0 else x.bits.toNat)
  | .str s => .str s
  | .compound f _ _ => .compound f
  | .list _ => .list
  | .var _ => .var

/-- The key of the first argument after chasing it. -/
def ofHead (head : Term) (env : Environment) : FirstArgument :=
  match head.args with
  | [] => .absent
  | t :: _ => ofTerm (env.chase t)

def ofConstraint (t : Term) : FirstArgument :=
  match t.args with
  | [] => .absent
  | t :: _ => ofTerm t

def shape : FirstArgument → Nat
  | absent => 0
  | atom _ => 1
  | bool _ => 2
  | int _ => 3
  | float _ => 4
  | str _ => 5
  | compound _ => 6
  | list => 7
  | var => 8

def number : FirstArgument → Int
  | bool b => if b then 1 else 0
  | int i => i
  | float n => n
  | _ => 0

def name : FirstArgument → String
  | atom a => a
  | str s => s
  | compound f => f
  | _ => ""

theorem ext_code {k l : FirstArgument} (hs : k.shape = l.shape) (hn : k.number = l.number)
    (ht : k.name = l.name) : k = l := by
  cases k <;> cases l <;> grind [shape, number, name]

end FirstArgument

structure FunctorKey where
  partition : Partition
  functor : String
  deriving DecidableEq, Repr

structure BucketKey where
  partition : Partition
  functor : String
  first : FirstArgument
  deriving DecidableEq, Repr

def Partition.number : Partition → Nat
  | .ordinary => 0
  | .builtin => 1

def FunctorKey.compare : FunctorKey → FunctorKey → Ordering :=
  compareLex (compareOn fun k => k.partition.number) (compareOn FunctorKey.functor)

def BucketKey.compare : BucketKey → BucketKey → Ordering :=
  compareLex (compareOn fun k => k.partition.number) <|
  compareLex (compareOn fun k => k.first.shape) <|
  compareLex (compareOn fun k => k.first.number) <|
  compareLex (compareOn BucketKey.functor) (compareOn fun k => k.first.name)

theorem Partition.number_injective {p q : Partition} (h : p.number = q.number) : p = q := by
  cases p <;> cases q <;> simp_all [Partition.number]

instance : Std.TransCmp FunctorKey.compare :=
  inferInstanceAs (Std.TransCmp (compareLex _ _))

instance : Std.LawfulEqCmp FunctorKey.compare where
  eq_of_compare {k l} h := by
    simp only [FunctorKey.compare, compareLex, compareOn, Ordering.then_eq_eq,
      Std.compare_eq_iff_eq] at h
    have part := Partition.number_injective h.1
    cases k; cases l
    simp_all

instance : Std.TransCmp BucketKey.compare :=
  inferInstanceAs (Std.TransCmp (compareLex _ _))

instance : Std.LawfulEqCmp BucketKey.compare where
  eq_of_compare {k l} h := by
    simp only [BucketKey.compare, compareLex, compareOn, Ordering.then_eq_eq,
      Std.compare_eq_iff_eq] at h
    obtain ⟨partition, shape, number, functor, name⟩ := h
    have first := FirstArgument.ext_code shape number name
    have part := Partition.number_injective partition
    cases k; cases l
    simp_all

end ConstraintHandling
