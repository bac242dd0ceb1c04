import ConstraintHandling.Binary64
import ConstraintHandling.Decimal.Shortest

/-! Decimal texts of floats. Both layouts write the shortest digits that read back; they differ in
where the point goes and in when an exponent is used. -/
namespace ConstraintHandling

namespace Decimal

def digits (d : Decimal) : List Char :=
  (Nat.repr d.significand).toList

/-- The position of the point relative to the first digit. -/
def pointPosition (d : Decimal) : Int :=
  d.digits.length + d.exponent

def zeros (n : Nat) : List Char :=
  List.replicate n '0'

/-- Digits with a point and no exponent; a whole number ends in `.0`. -/
def positional (d : Decimal) : String :=
  let ds := d.digits
  let point := d.pointPosition
  if point ≤ 0 then String.ofList ('0' :: '.' :: zeros (-point).toNat ++ ds)
  else if (ds.length : Int) ≤ point then
    String.ofList (ds ++ zeros d.exponent.toNat ++ ['.', '0'])
  else String.ofList (ds.take point.toNat ++ '.' :: ds.drop point.toNat)

/-- One digit before the point, the others behind it, and an exponent. -/
def exponential (d : Decimal) : String :=
  let exponent := toString (d.pointPosition - 1)
  match d.digits with
  | [] => "e" ++ exponent
  | [c] => String.ofList [c] ++ "e" ++ exponent
  | c :: cs => String.ofList (c :: '.' :: cs) ++ "e" ++ exponent

end Decimal

namespace Binary64

def signText (x : Binary64) : String :=
  if x.isNegative then "-" else ""

/-- The text of a number in a term: all integer digits and one decimal for a whole number, else the
shortest digits that read back; never an exponent. -/
def plainText (x : Binary64) : String :=
  let d := Dyadic.ofBits x.bits
  if x.isNaN then "NaN"
  else if x.isInfinite then x.signText ++ "inf"
  else if d.isIntegral then x.signText ++ Nat.repr d.floor ++ ".0"
  else x.signText ++ (Decimal.shortest d).positional

/-- The text of a number in a token: the shortest digits that read back, with an exponent from
`10 ^ 16` upwards and for non-zero magnitudes below `10 ^ (-4)`. -/
def tokenText (x : Binary64) : String :=
  let d := Dyadic.ofBits x.bits
  if x.isNaN then "NaN"
  else if x.isInfinite then x.signText ++ "inf"
  else if d.significand = 0 then x.signText ++ "0.0"
  else
    let s := Decimal.shortest d
    x.signText ++ (if s.pointPosition ≤ -4 || 16 < s.pointPosition then s.exponential
      else s.positional)

end Binary64
end ConstraintHandling
