import ConstraintHandling.Store.Key
import ConstraintHandling.Evaluation

/-! The constraint store. Constraints are only ever added, under increasing numbers; a consumed one
stays in its place and is marked as dead. Candidates for a head are found by functor and first
argument, and a list of candidates only grows at its end. -/
namespace ConstraintHandling

/-- The number of a constraint, which is its place in the order of assertion. -/
abbrev ConstraintId := Nat

/-- Constraints in order of assertion, a flag for each that tells whether it has been consumed, two
indexes on them, and the numbers of either partition. -/
structure Store where
  terms : Array Term
  consumed : Array Bool
  byFunctor : Buckets FunctorKey ConstraintId FunctorKey.compare
  byFirst : Buckets BucketKey ConstraintId BucketKey.compare
  ordinary : Array ConstraintId
  builtin : Array ConstraintId

/-- The refusal to assert a term that is neither an atom nor a compound term. -/
structure Refusal where
  term : Term

def Refusal.message (r : Refusal) : String :=
  "cannot assert " ++ r.term.text ++ " (" ++ r.term.kind.name ++ ") as a constraint"

namespace Store

def empty : Store := ⟨#[], #[], .empty, .empty, #[], #[]⟩

instance : Inhabited Store := ⟨empty⟩

def size (s : Store) : Nat :=
  s.terms.size

/-- The numbers of the constraints of a partition, in order of assertion. -/
def ids (s : Store) : Partition → Array ConstraintId
  | .ordinary => s.ordinary
  | .builtin => s.builtin

def insert (s : Store) (functor : String) (t : Term) : Store :=
  let ⟨terms, consumed, byFunctor, byFirst, ordinary, builtin⟩ := s
  let id := terms.size
  let partition := Partition.of t
  ⟨terms.push t, consumed.push false,
    byFunctor.push ⟨partition, functor⟩ id,
    byFirst.push ⟨partition, functor, .ofConstraint t⟩ id,
    if partition = .ordinary then ordinary.push id else ordinary,
    if partition = .builtin then builtin.push id else builtin⟩

/-- Asserts a term. The constraint gets the next number, which is returned with the store. -/
@[inline]
def add (s : Store) (t : Term) : Except Refusal (Store × ConstraintId) :=
  match t.functor? with
  | some functor =>
    let id := s.size
    .ok (s.insert functor t, id)
  | none => .error ⟨t⟩

/-- The constraint of the given number, consumed or not. -/
def get? (s : Store) (id : ConstraintId) : Option Term :=
  s.terms[id]?

/-- The number belongs to a constraint that has not been consumed. -/
def isLive (s : Store) (id : ConstraintId) : Bool :=
  match s.consumed[id]? with
  | some consumed => !consumed
  | none => false

/-- Marks a constraint as consumed. -/
def consume (s : Store) (id : ConstraintId) : Store :=
  let ⟨terms, consumed, byFunctor, byFirst, ordinary, builtin⟩ := s
  ⟨terms, consumed.setIfInBounds id true, byFunctor, byFirst, ordinary, builtin⟩

def allOf (s : Store) (partition : Partition) (functor : String) : Array ConstraintId :=
  s.byFunctor.get ⟨partition, functor⟩

/-- The constraints of a functor whose first argument has the given key. -/
def bucket (s : Store) (partition : Partition) (functor : String) (first : FirstArgument) :
    Array ConstraintId :=
  s.byFirst.get ⟨partition, functor, first⟩

/-- Merges an increasing sequence with a second one. Its first number comes apart, with the way to merge
the others. -/
def mergeFirst (x : ConstraintId) (xs : List ConstraintId)
    (others : List ConstraintId → List ConstraintId) : List ConstraintId → List ConstraintId
  | [] => x :: xs
  | y :: ys => if x < y then x :: others (y :: ys) else y :: mergeFirst x xs others ys

/-- Two increasing sequences of numbers in one. -/
def mergeIds : List ConstraintId → List ConstraintId → List ConstraintId
  | [], ys => ys
  | x :: xs, ys => mergeFirst x xs (mergeIds xs) ys

/-- The constraints that may match a head, in increasing order of their numbers, consumed ones
included. A first argument that is a variable after chasing is compatible with every constraint of
the functor, any other one with its own bucket and the bucket of the variables. -/
def candidates (s : Store) (head : Term) (env : Environment) : Array ConstraintId :=
  match head.functor? with
  | none => #[]
  | some functor =>
    let partition := Partition.of head
    match FirstArgument.ofHead head env with
    | .var => s.allOf partition functor
    | .absent => s.bucket partition functor .absent
    | first =>
      let own := s.bucket partition functor first
      let free := s.bucket partition functor .var
      (mergeIds own.toList free.toList).toArray

def liveCandidates (s : Store) (head : Term) (env : Environment) : Array ConstraintId :=
  (s.candidates head env).filter s.isLive

/-- The live constraints of a partition with their numbers, in order of assertion. -/
def live (s : Store) (partition : Partition) : List (ConstraintId × Term) :=
  ((s.ids partition).toList.filter s.isLive).filterMap fun id => (s.get? id).map (id, ·)

def liveTerms (s : Store) (partition : Partition) : List Term :=
  (s.live partition).map (·.2)

def liveCount (s : Store) : Nat :=
  s.consumed.countP (!·)

/-- The constraint of the given number is live and equal to a term. -/
def isLiveCopy (s : Store) (t : Term) (id : ConstraintId) : Bool :=
  s.isLive id && (s.get? id).any (· == t)

def find? (s : Store) (t : Term) : Option ConstraintId :=
  match t.functor? with
  | none => none
  | some functor =>
    (s.bucket (Partition.of t) functor (.ofConstraint t)).find? (s.isLiveCopy t)

/-- The store as an oracle: an operator term holds when a live constraint equals it. -/
def holds (s : Store) : Oracle := fun t =>
  t.isOperator && (s.find? t).isSome

@[simp] theorem size_empty : empty.size = 0 := rfl

@[simp] theorem size_insert (s : Store) (functor : String) (t : Term) :
    (s.insert functor t).size = s.size + 1 := by
  simp [insert, size]

@[simp] theorem size_consume (s : Store) (id : ConstraintId) : (s.consume id).size = s.size := rfl

theorem mergeIds_nil (xs : List ConstraintId) : mergeIds xs [] = xs := by
  cases xs <;> rfl

theorem mergeIds_cons (x y : ConstraintId) (xs ys : List ConstraintId) :
    mergeIds (x :: xs) (y :: ys) =
      if x < y then x :: mergeIds xs (y :: ys) else y :: mergeIds (x :: xs) ys := rfl

theorem add_eq_ok_iff {s s' : Store} {t : Term} {id : ConstraintId} :
    s.add t = .ok (s', id) ↔
      ∃ functor, t.functor? = some functor ∧ s' = s.insert functor t ∧ id = s.size := by
  unfold add
  split
  · next functor h => simp [h, eq_comm]
  · next h => simp [h]

end Store
end ConstraintHandling
