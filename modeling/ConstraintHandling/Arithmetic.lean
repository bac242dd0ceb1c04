import ConstraintHandling.Term.Order

/-! Arithmetic and comparisons on values. Every operation is partial: operands of the wrong shape,
results outside the integers of 64 bits and undefined results have no value. -/
namespace ConstraintHandling

inductive Arithmetic where
  | add | subtract | multiply | divide | modulo | power
  deriving DecidableEq, Repr

inductive Comparison where
  | less | atMost | greater | atLeast
  deriving DecidableEq, Repr

/-- An exact integer as a word of 64 bits, if it fits. -/
def fit? (n : Int) : Option Int64 :=
  if Int64.minValue.toInt ≤ n ∧ n ≤ Int64.maxValue.toInt then some (Int64.ofInt n) else none

theorem toInt_of_fit? {n : Int} {i : Int64} (h : fit? n = some i) : i.toInt = n := by
  unfold fit? at h
  split at h
  · next bounds =>
    cases h
    exact Int64.toInt_ofInt_of_le (by simpa using bounds.1) (by
      have : n ≤ 9223372036854775807 := bounds.2
      omega)
  · cases h

namespace Arithmetic

/-- Exponents are limited to 32 bits. -/
def exponentLimit : Int := UInt32.size

/-- An integer power. Beyond the exponent 63 only the bases -1, 0 and 1 stay within 64 bits, and
their powers depend on the parity of the exponent alone. -/
def power? (a b : Int) : Option Int64 :=
  if b < 0 ∨ exponentLimit ≤ b then none
  else if b < 64 then fit? (a.pow b.toNat)
  else if a.natAbs ≤ 1 then fit? (a.pow (2 - b.toNat % 2))
  else none

/-- The quotient, rounded toward zero. -/
def quotient? (a b : Int64) : Option Int64 :=
  if b = 0 then none else fit? (a.toInt.tdiv b.toInt)

/-- What the quotient leaves; it has the sign of the dividend, and there is none where there is no
quotient. -/
def remainder? (a b : Int64) : Option Int64 :=
  (quotient? a b).map fun _ => a % b

/-- The remainder, corrected to the sign of the divisor. -/
def modulus? (a b : Int64) : Option Int64 :=
  (remainder? a b).bind fun r =>
    if r ≠ 0 ∧ (r < 0) ≠ (b < 0) then fit? (r.toInt + b.toInt) else some r

def onIntegers (op : Arithmetic) (a b : Int64) : Option Int64 :=
  match op with
  | add => fit? (a.toInt + b.toInt)
  | subtract => fit? (a.toInt - b.toInt)
  | multiply => fit? (a.toInt * b.toInt)
  | divide => quotient? a b
  | modulo => modulus? a b
  | power => power? a.toInt b.toInt

/-- An operation on floats; there is no modulus, and a quotient by zero is undefined. -/
def onFloats (op : Arithmetic) (x y : Binary64) : Option Binary64 :=
  match op with
  | add => some (x.combine (· + ·) y)
  | subtract => some (x.combine (· - ·) y)
  | multiply => some (x.combine (· * ·) y)
  | divide => if y.isZero then none else some (x.combine (· / ·) y)
  | modulo => none
  | power => some (x.combine Float.pow y)

/-- An operation on terms. Two integers stay integers, other numbers are taken as floats, and two
strings are joined by addition. -/
def apply (op : Arithmetic) (s t : Term) : Option Term :=
  match s, t with
  | .int a, .int b => (op.onIntegers a b).map .int
  | .str a, .str b => if op = add then some (.str (a ++ b)) else none
  | s, t =>
    match s.number?, t.number? with
    | some x, some y => (op.onFloats x y).map .float
    | _, _ => none

end Arithmetic

namespace Comparison

def holdsFor (c : Comparison) (o : Ordering) : Bool :=
  match c with
  | less => o == .lt
  | atMost => o != .gt
  | greater => o == .gt
  | atLeast => o != .lt

/-- The order of two integers, two strings or two numbers; a NaN has none. -/
def order? : Term → Term → Option Ordering
  | .int a, .int b => some (compare a.toInt b.toInt)
  | .str a, .str b => some (compare a b)
  | s, t =>
    match s.number?, t.number? with
    | some x, some y => x.compare? y
    | _, _ => none

def apply (c : Comparison) (s t : Term) : Option Bool :=
  (order? s t).map c.holdsFor

end Comparison

/-- Whether two terms are equal, if that is settled: numbers are compared by value, equal terms are
equal, and different terms without variables are different. -/
def settledEqual? (s t : Term) : Option Bool :=
  if s.isNumber && t.isNumber then (Comparison.order? s t).map (· == .eq)
  else if s == t then some true
  else if s.isGround && t.isGround then some false
  else none

end ConstraintHandling
