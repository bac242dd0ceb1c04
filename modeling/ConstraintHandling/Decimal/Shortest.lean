/-! The shortest decimal that reads back as a given binary float, found in exact arithmetic: the
decimal grids are searched from coarse to fine for a point in the interval of reals that round to
the float, and of two such points the nearer wins. -/
namespace ConstraintHandling

/-- The non-negative number `significand * 10 ^ exponent`. -/
structure Decimal where
  significand : Nat
  exponent : Int
  deriving DecidableEq, Repr

/-- The magnitude `significand * 2 ^ exponent` of a finite float. `atBoundary` tells that the next
smaller float is only half as far away as the next larger one. -/
structure Dyadic where
  significand : Nat
  exponent : Int
  atBoundary : Bool
  deriving DecidableEq, Repr

namespace Dyadic

/-- The magnitude encoded by the bits of a finite float, whatever its sign. -/
def ofBits (bits : UInt64) : Dyadic :=
  let fraction : Nat := (bits.toBitVec.extractLsb' 0 52).toNat
  let biased : Nat := (bits.toBitVec.extractLsb' 52 11).toNat
  if biased = 0 then ⟨fraction, -1074, false⟩
  else ⟨fraction + (1 <<< 52), (biased : Int) - 1075, fraction == 0 && biased > 1⟩

def floor (d : Dyadic) : Nat :=
  if 0 ≤ d.exponent then d.significand <<< d.exponent.toNat
  else d.significand >>> (-d.exponent).toNat

def isIntegral (d : Dyadic) : Bool :=
  0 ≤ d.exponent || d.floor <<< (-d.exponent).toNat == d.significand

end Dyadic

namespace Decimal

/-- The real interval that rounds to a float, in quarters of its last place: all three numbers are
to be multiplied by `2 ^ exponent`. The ends belong to the interval when `closed` holds. -/
structure Neighbourhood where
  low : Nat
  middle : Nat
  high : Nat
  exponent : Int
  closed : Bool

def Neighbourhood.of (d : Dyadic) : Neighbourhood where
  low := 4 * d.significand - (if d.atBoundary then 1 else 2)
  middle := 4 * d.significand
  high := 4 * d.significand + 2
  exponent := d.exponent - 2
  closed := d.significand % 2 == 0

namespace Neighbourhood

/-- One unit of the neighbourhood, as a fraction of `10 ^ grid`. -/
def unit (n : Neighbourhood) (grid : Int) : Nat × Nat :=
  (Nat.pow 10 (-grid).toNat <<< n.exponent.toNat, Nat.pow 10 grid.toNat <<< (-n.exponent).toNat)

/-- The multiple `k` of `10 ^ grid` rounds to the float. -/
def contains (n : Neighbourhood) (grid : Int) (k : Nat) : Bool :=
  let (numerator, denominator) := n.unit grid
  if n.closed then n.low * numerator ≤ k * denominator && k * denominator ≤ n.high * numerator
  else n.low * numerator < k * denominator && k * denominator < n.high * numerator

/-- The multiple of `10 ^ grid` that rounds to the float and lies nearest to it; a tie goes up. -/
def nearestOn? (n : Neighbourhood) (grid : Int) : Option Nat :=
  let (numerator, denominator) := n.unit grid
  let value := n.middle * numerator
  let below := value / denominator
  match n.contains grid below, n.contains grid (below + 1) with
  | true, true =>
    some (if 2 * (value % denominator) < denominator then below else below + 1)
  | true, false => some below
  | false, true => some (below + 1)
  | false, false => none

/-- The first grid with a point in the interval, trying at most `steps` grids. -/
def search (n : Neighbourhood) (grid : Int) : Nat → Decimal
  | 0 => ⟨0, 0⟩
  | steps + 1 =>
    match n.nearestOn? grid with
    | some k => ⟨k, grid⟩
    | none => search n (grid - 1) steps

end Neighbourhood

/-- The shortest decimal that rounds to a positive magnitude. The first grid tried is coarser than
the magnitude and the last one has more than seventeen digits, so the search succeeds. -/
def shortest (d : Dyadic) : Decimal :=
  let bits : Int := d.significand.log2 + 1 + d.exponent
  (Neighbourhood.of d).search (bits * 30103 / 100000 + 2) 24

end Decimal
end ConstraintHandling
