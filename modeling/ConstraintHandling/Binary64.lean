/-! Floating-point numbers of 64 bits. They are kept by their bits and not only by their value, since
NaNs of different bits are told apart where bits are compared, although no NaN equals another. -/
namespace ConstraintHandling

/-- A floating-point number in its binary form: sign, exponent and fraction. -/
structure Binary64 where
  bits : UInt64
  deriving DecidableEq, Repr

namespace Binary64

def value (x : Binary64) : Float :=
  Float.ofBits x.bits

def ofFloat (f : Float) : Binary64 :=
  ⟨f.toBits⟩

/-- The number nearest to an integer. -/
def ofInt (n : Int) : Binary64 :=
  ofFloat (Float.ofInt n)

def isNaN (x : Binary64) : Bool :=
  x.value.isNaN

def isInfinite (x : Binary64) : Bool :=
  x.value.isInf

def isZero (x : Binary64) : Bool :=
  x.value == 0

/-- The sign bit is set; this also holds of the negative zero. -/
def isNegative (x : Binary64) : Bool :=
  x.bits.toBitVec.msb

/-- Equality of values: the two zeros are equal, and a NaN equals nothing. -/
def equal (x y : Binary64) : Bool :=
  x.value == y.value

/-- The order of two values, which a NaN does not have. -/
def compare? (x y : Binary64) : Option Ordering :=
  if x.value < y.value then some .lt
  else if y.value < x.value then some .gt
  else if x.equal y then some .eq
  else none

def negate (x : Binary64) : Binary64 :=
  ⟨x.bits ^^^ 0x8000000000000000⟩

/-- A NaN made quiet, all its other bits kept. -/
def quiet (x : Binary64) : Binary64 :=
  ⟨x.bits ||| 0x0008000000000000⟩

/-- The NaN that an operation without a value makes of numbers. -/
def invalid : Binary64 :=
  ⟨0xFFF8000000000000⟩

/-- An operation on values. A NaN among the operands is passed on, the left one first. -/
def combine (op : Float → Float → Float) (x y : Binary64) : Binary64 :=
  let result := op x.value y.value
  if !result.isNaN then ofFloat result
  else if x.isNaN then x.quiet
  else if y.isNaN then y.quiet
  else invalid

end Binary64
end ConstraintHandling
