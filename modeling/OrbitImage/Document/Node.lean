/-!
What reading a document makes of its text: a tree with the members of maps in the order of the
text, repeated keys kept. Where the text leaves the grammar the tree has a damaged leaf, and all
that encloses it ends there, so a reader that walks the tree in order meets the damage exactly
after everything that stands before it.
-/
namespace OrbitImage

/-- A number as it is written: digits * 10^exponent, with a sign. -/
structure Numeral where
  negative : Bool
  digits : Nat
  exponent : Int
  /-- Whether it is an integer; neither a fraction nor an exponent is written then. -/
  whole : Bool
  deriving DecidableEq, Repr

inductive Scalar
  | null
  | bool (b : Bool)
  | number (n : Numeral)
  | text (s : String)
  /-- A text with one half of a surrogate pair in it. -/
  | unpaired
  /-- A text without quotes, which may also be meant as a scalar of another kind. -/
  | plain (s : String)
  deriving DecidableEq, Repr

inductive Node
  | scalar (s : Scalar)
  | list (items : List Node)
  /-- Keys and values; a key may be a node of any kind. -/
  | map (members : List (Node × Node))
  | damaged
  deriving Repr

/-- The tree of a document. -/
structure Reading where
  root : Node
  /-- Nothing follows the root. -/
  ended : Bool

namespace Numeral

/-- Half a place above the largest double, from where on a number has no finite double. -/
def doubleBound : Nat :=
  Nat.pow 2 1024 - Nat.pow 2 970

/-- Whether the number is beyond the doubles. Exponents are compared first, so that no power is
computed that an exponent in the text could make arbitrarily large. -/
def isTooLarge (n : Numeral) : Bool :=
  let size := (toString n.digits).length + n.exponent
  if n.digits = 0 ∨ size ≤ 308 then false
  else if size > 310 then true
  else
    let numerator := n.digits * Nat.pow 10 n.exponent.toNat
    let denominator := Nat.pow 10 (-n.exponent).toNat
    doubleBound * denominator ≤ numerator

def natural? (n : Numeral) (bound : Nat) : Option Nat :=
  if n.whole ∧ (n.negative = false ∨ n.digits = 0) ∧ n.digits < bound then some n.digits else none

/-- The value as a place in a row, counted from zero. A number with a minus is none, not even
zero. -/
def position? (n : Numeral) : Option Nat :=
  if n.whole ∧ n.negative = false then some n.digits else none

end Numeral

end OrbitImage
