/-!
Numerals. Main definitions: `valueIn`, the value of a row of digits; `unsigned?` and `signed?`,
the integers a user may type; and `hex`, fixed-width hexadecimal.
-/
namespace OrbitImage.Text

def isHexLetter (c : Char) : Bool :=
  ('a' ≤ c && c ≤ 'f') || ('A' ≤ c && c ≤ 'F')

def isHexDigit (c : Char) : Bool :=
  c.isDigit || isHexLetter c

/-- The value of a hexadecimal digit in either case. -/
def digitValue (c : Char) : Nat :=
  if c.isDigit then c.toNat - '0'.toNat
  else if 'a' ≤ c then c.toNat - 'a'.toNat + 10
  else c.toNat - 'A'.toNat + 10

/-- The value of a row of digits, the most significant first. -/
def valueIn (base : Nat) (digits : List Char) : Nat :=
  digits.foldl (fun n c => n * base + digitValue c) 0

/-- A row of decimal digits, at least one of them. -/
def digits? (cs : List Char) : Option Nat :=
  if cs ≠ [] ∧ cs.all Char.isDigit then some (valueIn 10 cs) else none

/-- A decimal integer below `bound`, with at most one plus sign in front. -/
def unsigned? (bound : Nat) (s : String) : Option Nat :=
  let digits := match s.toList with
    | '+' :: cs => cs
    | cs => cs
  (digits? digits).filter (· < bound)

/-- A decimal integer with at most one sign in front. -/
def signed? (s : String) : Option Int :=
  match s.toList with
  | '-' :: cs => (digits? cs).map fun n => -Int.ofNat n
  | '+' :: cs => (digits? cs).map Int.ofNat
  | cs => (digits? cs).map Int.ofNat

/-- The low `width` hexadecimal digits of `n`, in lower case. -/
def hex (width n : Nat) : String :=
  let digit (k : Nat) : Char := Nat.digitChar ((n >>> (4 * k)) % 16)
  String.ofList ((List.range width).reverse.map digit)

end OrbitImage.Text
