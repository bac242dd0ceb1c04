import ConstraintHandling.Term.Printer

/-! Environments: variable bindings, the most recent first. A newer binding of a variable hides the
older ones. Values may hold bound variables themselves, also in a cycle, so that following a chain
of variables and substituting are both bounded by the number of bindings. -/
namespace ConstraintHandling

/-- The bindings of variables to terms, from the most recent to the oldest. -/
structure Environment where
  bindings : List (Variable × Term)

namespace Environment

def empty : Environment := ⟨[]⟩

instance : Inhabited Environment := ⟨empty⟩

instance : EmptyCollection Environment := ⟨empty⟩

def bind (env : Environment) (v : Variable) (t : Term) : Environment :=
  ⟨(v, t) :: env.bindings⟩

/-- The environment after binding in the given order. -/
def ofList (entries : List (Variable × Term)) : Environment :=
  entries.foldl (fun env e => env.bind e.1 e.2) empty

/-- The number of bindings, hidden ones included. -/
def size (env : Environment) : Nat :=
  env.bindings.length

def isEmpty (env : Environment) : Bool :=
  env.bindings.isEmpty

def lookup (env : Environment) (v : Variable) : Option Term :=
  env.bindings.lookup v

def isBound (env : Environment) (v : Variable) : Bool :=
  (env.lookup v).isSome

/-- Follows at most `steps` bindings from a term, as long as it is a bound variable. -/
def chaseWithin (env : Environment) : Nat → Term → Term
  | steps + 1, .var v =>
    match env.lookup v with
    | some t => chaseWithin env steps t
    | none => .var v
  | _, t => t

/-- The term at the end of a chain of bound variables. On a cycle of variables the walk ends after
one binding more than the environment holds. -/
def chase (env : Environment) (t : Term) : Term :=
  env.chaseWithin (env.size + 1) t

/-- Follows bindings until a variable comes up again, collecting the variables walked through, the
latest first; at most `steps` variables are visited. -/
def walk (env : Environment) : Nat → List Variable → Term → Term × List Variable
  | steps + 1, visited, .var v =>
    if v ∈ visited then (.var v, visited)
    else
      match env.lookup v with
      | some t => walk env steps (v :: visited) t
      | none => (.var v, v :: visited)
  | _, visited, t => (t, visited)

/-- The term at the end of a chain of bound variables, with the variables on the way. A cycle of
variables stops at the first repeated one. -/
def chaseVisiting (env : Environment) (t : Term) : Term × List Variable :=
  env.walk (env.size + 1) [] t

/-- Replaces every bound variable by its value, in values too, down to the given depth. -/
def substituteWithin (env : Environment) : Nat → Term → Term
  | 0, t => t
  | depth + 1, t => t.mapVariables fun v =>
    match env.lookup v with
    | some value => substituteWithin env depth value
    | none => .var v

/-- Replaces every bound variable by its value, in values too. The depth that the number of bindings
allows is never reached unless values hold their own variables. -/
def substitute (env : Environment) (t : Term) : Term :=
  if env.isEmpty then t else env.substituteWithin (env.size + 1) t

/-- The bindings from the oldest to the most recent. -/
def text (env : Environment) : String :=
  let entry (b : Variable × Term) := b.1.text ++ "=" ++ b.2.text
  "\x7b" ++ String.intercalate ", " (env.bindings.reverse.map entry) ++ "\x7d"

@[simp] theorem bindings_bind (env : Environment) (v : Variable) (t : Term) :
    (env.bind v t).bindings = (v, t) :: env.bindings := rfl

@[simp] theorem size_bind (env : Environment) (v : Variable) (t : Term) :
    (env.bind v t).size = env.size + 1 := rfl

@[simp] theorem lookup_empty (v : Variable) : empty.lookup v = none := rfl

@[simp] theorem lookup_bind_self (env : Environment) (v : Variable) (t : Term) :
    (env.bind v t).lookup v = some t := by
  simp [lookup]

theorem lookup_bind_of_ne (env : Environment) {v w : Variable} (t : Term) (h : w ≠ v) :
    (env.bind v t).lookup w = env.lookup w := by
  simp [lookup, List.lookup_cons, beq_false_of_ne h]

@[simp] theorem substitute_empty (t : Term) : empty.substitute t = t := rfl

end Environment
end ConstraintHandling
