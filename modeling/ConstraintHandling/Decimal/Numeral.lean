import ConstraintHandling.Arithmetic

/-! Values of numerals. Only ASCII digits have a value; integers have to fit into 64 bits and floats
are rounded to nearest. -/
namespace ConstraintHandling

inductive NumeralError where
  | invalidDigit
  | tooLarge
  | invalidFloat
  | missingDigits
  deriving DecidableEq, Repr

def NumeralError.message : NumeralError → String
  | invalidDigit => "invalid digit found in string"
  | tooLarge => "number too large to fit in target type"
  | invalidFloat => "invalid float literal"
  | missingDigits => "cannot parse integer from empty string"

namespace Numeral

def digitValue (c : Char) : Nat :=
  c.toNat - '0'.toNat

/-- Reads digits from left to right up to a limit. The first character that is no digit or that
makes the number exceed the limit decides on the error. -/
def readDigits (limit : Nat) : Nat → List Char → Except NumeralError Nat
  | n, [] => .ok n
  | n, c :: cs =>
    if !c.isDigit then .error .invalidDigit
    else
      let next := 10 * n + digitValue c
      if limit < next then .error .tooLarge else readDigits limit next cs

def readInteger (cs : List Char) : Except NumeralError Int64 :=
  (readDigits Int64.maxValue.toInt.toNat 0 cs).map fun n => Int64.ofNat n

/-- The value of a natural number of 64 bits, in front of which a plus sign may stand. -/
def readNatural (cs : List Char) : Except NumeralError Nat :=
  match cs with
  | [] => .error .missingDigits
  | ['+'] => .error .invalidDigit
  | '+' :: ds => readDigits (UInt64.size - 1) 0 ds
  | ds => readDigits (UInt64.size - 1) 0 ds

def ofDigits (cs : List Char) : Nat :=
  cs.foldl (fun n c => 10 * n + digitValue c) 0

/-- The number nearest to `significand * 10 ^ exponent`. Far outside the range of floats the value is
infinite or zero, whatever the exact exponent. -/
def scaled (significand : Nat) (exponent : Int) : Binary64 :=
  let magnitude := (Nat.repr significand).length + exponent
  if significand = 0 || magnitude < -400 then .ofFloat 0
  else if 400 < magnitude then .ofFloat (1 / 0)
  else .ofFloat (Float.ofScientific significand (exponent < 0) exponent.natAbs)

/-- The parts of a float numeral: the digits before and behind the point, and the exponent. -/
structure FloatParts where
  whole : List Char
  fraction : List Char
  negativeExponent : Bool
  exponent : List Char

def readFloat (p : FloatParts) : Except NumeralError Binary64 :=
  if (p.whole ++ p.fraction ++ p.exponent).all Char.isDigit then
    let magnitude : Int := ofDigits p.exponent
    let exponent := if p.negativeExponent then -magnitude else magnitude
    .ok (scaled (ofDigits (p.whole ++ p.fraction)) (exponent - p.fraction.length))
  else .error .invalidFloat

end Numeral
end ConstraintHandling
