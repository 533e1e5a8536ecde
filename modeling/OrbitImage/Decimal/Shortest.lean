import OrbitImage.Decimal.Dyadic
/-!
The shortest decimal that reads back as a given double: a point of the coarsest decimal grid that
has one among the reals which round to the double, and of two such points the nearer.
-/
namespace OrbitImage

/-- The number digits * 10^exponent. -/
structure Decimal where
  digits : Nat
  exponent : Int
  deriving DecidableEq, Repr

/-- The reals that round to a positive double, in quarters of its last place. -/
structure Rounding where
  /-- The double is numerator / denominator. -/
  numerator : Nat
  denominator : Nat
  /-- The reals reach from low / (4 * denominator) to high / (4 * denominator). -/
  low : Nat
  high : Nat
  /-- Whether the two ends round to the double as well. -/
  closed : Bool

namespace Rounding

/-- Half a place on each side, but a quarter below a power of two; a tie rounds to an even
mantissa. -/
def ofDyadic (d : Dyadic) : Rounding :=
  let scale := Nat.pow 2 d.exponent.toNat
  let below := if d.mantissa = Dyadic.leading ∧ d.exponent > -1074 then 1 else 2
  { numerator := d.mantissa * scale
    denominator := Nat.pow 2 (-d.exponent).toNat
    low := (4 * d.mantissa - below) * scale
    high := (4 * d.mantissa + 2) * scale
    closed := d.mantissa % 2 = 0 }

/-- Whether digits * 10^place rounds to the double. -/
def holds (r : Rounding) (place : Int) (digits : Nat) : Bool :=
  let point := 4 * r.denominator * digits * Nat.pow 10 place.toNat
  let unit := Nat.pow 10 (-place).toNat
  if r.closed then r.low * unit ≤ point ∧ point ≤ r.high * unit
  else r.low * unit < point ∧ point < r.high * unit

/-- The point of the grid of a place that rounds to the double; the nearer of two, and at equal
distance the even one. -/
def pointAt? (r : Rounding) (place : Int) : Option Decimal :=
  let numerator := r.numerator * Nat.pow 10 (-place).toNat
  let denominator := r.denominator * Nat.pow 10 place.toNat
  let below := numerator / denominator
  let twice := 2 * (numerator % denominator)
  let upper := twice > denominator ∨ (twice = denominator ∧ below % 2 = 1)
  match r.holds place below, r.holds place (below + 1) with
  | true, true => some ⟨if upper then below + 1 else below, place⟩
  | true, false => some ⟨below, place⟩
  | false, true => some ⟨below + 1, place⟩
  | false, false => none

/-- The first hit among `count` grids, each ten times as fine as the one before. -/
def search (r : Rounding) : Nat → Int → Option Decimal
  | 0, _ => none
  | count + 1, place =>
    match r.pointAt? place with
    | some d => some d
    | none => search r count (place - 1)

/-- A place whose grid is too coarse to have a point, by at most two places. -/
def coarsest (r : Rounding) : Int :=
  let bits : Int := r.numerator.log2 - r.denominator.log2 + 1
  bits * 30103 / 100000 + 2

end Rounding

/-- The shortest decimal that rounds to the magnitude of a double. Seventeen digits always
suffice, so the grids from the coarsest on have a hit. -/
def Decimal.shortest (d : Dyadic) : Decimal :=
  if d.mantissa = 0 then ⟨0, 0⟩
  else
    let r := Rounding.ofDyadic d
    (r.search 22 r.coarsest).getD ⟨0, 0⟩

end OrbitImage
