/-!
Doubles as exact numbers: a finite double is plus or minus a natural number times a power of two.
From its exact value it is rounded to a fixed number of decimal places.
-/
namespace OrbitImage

/-- The number mantissa * 2^exponent, with a sign. -/
structure Dyadic where
  negative : Bool
  mantissa : Nat
  exponent : Int
  deriving DecidableEq, Repr

namespace Dyadic

/-- The bit in front of the 52 that a double keeps of its mantissa. -/
def leading : Nat :=
  Nat.pow 2 52

/-- The exact value of a double, with the exponent that its last place has; none of NaN and the
infinities. -/
def ofFloat? (x : Float) : Option Dyadic :=
  let bits := x.toBits.toNat
  let negative := decide (bits >>> 63 = 1)
  let scale : Nat := (bits >>> 52) % 2048
  let fraction : Nat := bits % leading
  if scale = 2047 then none
  else if scale = 0 then some ⟨negative, fraction, -1074⟩
  else some ⟨negative, leading + fraction, (scale : Int) - 1075⟩

def ratio (d : Dyadic) : Nat × Nat :=
  (d.mantissa * Nat.pow 2 d.exponent.toNat, Nat.pow 2 (-d.exponent).toNat)

end Dyadic

/-- The quotient rounded to a whole number; half a unit goes to the even neighbour. -/
def roundDiv (numerator denominator : Nat) : Nat :=
  let quotient := numerator / denominator
  let twice := 2 * (numerator % denominator)
  if twice > denominator ∨ (twice = denominator ∧ quotient % 2 = 1) then quotient + 1
  else quotient

/-- One decimal place, with a sign also for a negative zero. -/
def tenths (x : Float) : String :=
  match Dyadic.ofFloat? x with
  | some d =>
    let (numerator, denominator) := d.ratio
    let n := roundDiv (numerator * 10) denominator
    (if d.negative then "-" else "") ++ toString (n / 10) ++ "." ++ toString (n % 10)
  | none => if x.isNaN then "NaN" else if x < 0 then "-inf" else "inf"

end OrbitImage
