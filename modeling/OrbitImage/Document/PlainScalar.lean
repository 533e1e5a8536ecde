import OrbitImage.Document.Node
import OrbitImage.Text.Numeral
/-!
Scalars without quotes. Which scalar such a text is depends on the text alone: null, a boolean, an
integer in one of four bases, another number, or a text.
-/
namespace OrbitImage.PlainScalar
open Text

def isNull (s : String) : Bool :=
  s = "" || s = "~" || s = "null" || s = "Null" || s = "NULL"

def bool? (s : String) : Option Bool :=
  if s = "true" ∨ s = "True" ∨ s = "TRUE" then some true
  else if s = "false" ∨ s = "False" ∨ s = "FALSE" then some false
  else none

/-- Digits behind a zero are a text. -/
def isPaddedZero (cs : List Char) : Bool :=
  match cs with
  | '0' :: c :: rest => (c :: rest).all Char.isDigit
  | _ => false

def digitsIn? (base : Nat) (cs : List Char) : Option Nat :=
  if cs ≠ [] ∧ cs.all (fun c => isHexDigit c && digitValue c < base) then some (valueIn base cs)
  else none

/-- The magnitude of an integer without sign, in base 16, 8, 2 or 10. -/
def magnitude? (cs : List Char) : Option Nat :=
  let based := match cs with
    | '0' :: 'x' :: ds => digitsIn? 16 ds
    | '0' :: 'o' :: ds => digitsIn? 8 ds
    | '0' :: 'b' :: ds => digitsIn? 2 ds
    | _ => none
  match based with
  | some n => some n
  | none => if isPaddedZero cs then none else digitsIn? 10 cs

/-- The digits behind `e` or `E`; none if anything else is written. -/
def exponent? : List Char → Option Int
  | [] => some 0
  | e :: cs =>
    if e = 'e' ∨ e = 'E' then
      match cs with
      | '-' :: ds => (digitsIn? 10 ds).map fun n => -Int.ofNat n
      | '+' :: ds => (digitsIn? 10 ds).map Int.ofNat
      | ds => (digitsIn? 10 ds).map Int.ofNat
    else none

/-- A number with an optional point and an optional exponent, and a digit before one of them. -/
def fractional? (negative : Bool) (cs : List Char) : Option Numeral := do
  let whole := cs.takeWhile Char.isDigit
  let (part, rest) := match cs.dropWhile Char.isDigit with
    | '.' :: rest => (rest.takeWhile Char.isDigit, rest.dropWhile Char.isDigit)
    | rest => ([], rest)
  if whole.isEmpty && part.isEmpty then none
  let exponent ← exponent? rest
  let n : Numeral :=
    { negative, digits := valueIn 10 (whole ++ part), exponent := exponent - part.length
      whole := false }
  if n.isTooLarge then none else some n

/-- Infinities and NaN count as numbers, though not as integers. -/
def special? (s : String) : Option Numeral :=
  let names := [".inf", ".Inf", ".INF", "+.inf", "+.Inf", "+.INF", "-.inf", "-.Inf", "-.INF",
    ".nan", ".NaN", ".NAN"]
  if names.contains s then some { negative := false, digits := 0, exponent := 0, whole := false }
  else none

/-- An integer that a field for natural numbers takes. -/
def natural? (s : String) : Option Nat :=
  match s.toList with
  | '+' :: cs => magnitude? cs
  | cs => magnitude? cs

def integer (negative : Bool) (digits : Nat) : Scalar :=
  .number { negative, digits, exponent := 0, whole := true }

/-- The scalar that a text is; none for an integer of more than 64 bits that fits into 128. -/
def scalar? (s : String) : Option Scalar :=
  if isNull s then some .null
  else
    match bool? s with
    | some b => some (.bool b)
    | none =>
      let (negative, cs) := match s.toList with
        | '-' :: cs => (true, cs)
        | '+' :: cs => (false, cs)
        | cs => (false, cs)
      let float :=
        if isPaddedZero cs then Scalar.text s
        else
          match special? s with
          | some n => .number n
          | none =>
            match fractional? negative cs with
            | some n => .number n
            | none => .text s
      match magnitude? cs with
      | some n =>
        if negative then
          if n ≤ Nat.pow 2 63 then some (integer true n)
          else if n ≤ Nat.pow 2 127 then none
          else some float
        else if n < Nat.pow 2 64 then some (integer false n)
        else if n < Nat.pow 2 128 then none
        else some float
      | none => some float

end OrbitImage.PlainScalar
