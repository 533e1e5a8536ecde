import OrbitImage.Decimal.Shortest
import OrbitImage.Text.Numeral
/-!
JSON values and their text, compact or with an indentation of two spaces. Members are written in
the order given. A number that is no integer has the fewest digits that read back as the same
double: positional from 0.00001 up to below 10^16, with a sign at the exponent elsewhere, and
null for NaN and the infinities.
-/
namespace OrbitImage

inductive Json
  | null
  | bool (b : Bool)
  | int (n : Int)
  | float (x : Float)
  | text (s : String)
  | list (items : List Json)
  | map (members : List (String × Json))

namespace Json

/-- An escape stands for a quote, a backslash and a control character. -/
def escape (c : Char) : List Char :=
  if c = '"' then ['\\', '"']
  else if c = '\\' then ['\\', '\\']
  else if c = '\n' then ['\\', 'n']
  else if c = '\r' then ['\\', 'r']
  else if c = '\t' then ['\\', 't']
  else if c = '\x08' then ['\\', 'b']
  else if c = '\x0c' then ['\\', 'f']
  else if c.toNat < 0x20 then '\\' :: 'u' :: (Text.hex 4 c.toNat).toList
  else [c]

def quoted (s : String) : List Char :=
  '"' :: (s.toList.flatMap escape ++ ['"'])

/-- A decimal with `digits.length + exponent` places before its point. -/
def decimalText (digits : List Char) (exponent : Int) : List Char :=
  let point := digits.length + exponent
  if 0 ≤ exponent ∧ point ≤ 16 then
    digits ++ List.replicate exponent.toNat '0' ++ ['.', '0']
  else if 0 < point ∧ point ≤ 16 then
    digits.take point.toNat ++ '.' :: digits.drop point.toNat
  else if -5 < point ∧ point ≤ 0 then
    '0' :: '.' :: (List.replicate (-point).toNat '0' ++ digits)
  else
    let power := point - 1
    let tail := 'e' :: (if 0 ≤ power then '+' else '-') :: (toString power.natAbs).toList
    match digits with
    | [d] => d :: tail
    | _ => digits.take 1 ++ '.' :: digits.drop 1 ++ tail

def floatText (x : Float) : List Char :=
  match Dyadic.ofFloat? x with
  | none => "null".toList
  | some d =>
    let shortest := Decimal.shortest d
    (if d.negative then ['-'] else []) ++
      decimalText (toString shortest.digits).toList shortest.exponent

mutual

def compact : Json → List Char
  | null => "null".toList
  | bool true => "true".toList
  | bool false => "false".toList
  | int n => (toString n).toList
  | float x => floatText x
  | text s => quoted s
  | list items => '[' :: (compactItems items ++ [']'])
  | map members => '{' :: (compactMembers members ++ ['}'])

def compactItems : List Json → List Char
  | [] => []
  | [j] => compact j
  | j :: js => compact j ++ ',' :: compactItems js

def compactMembers : List (String × Json) → List Char
  | [] => []
  | [(key, j)] => quoted key ++ ':' :: compact j
  | (key, j) :: ms => quoted key ++ ':' :: (compact j ++ ',' :: compactMembers ms)

end

def newline (depth : Nat) : List Char :=
  '\n' :: List.replicate (2 * depth) ' '

mutual

/-- The text with each item and member on a line of its own. -/
def indented (depth : Nat) : Json → List Char
  | list [] => ['[', ']']
  | list items => '[' :: (indentedItems (depth + 1) items ++ newline depth ++ [']'])
  | map [] => ['{', '}']
  | map members => '{' :: (indentedMembers (depth + 1) members ++ newline depth ++ ['}'])
  | j => compact j

def indentedItems (depth : Nat) : List Json → List Char
  | [] => []
  | [j] => newline depth ++ indented depth j
  | j :: js => newline depth ++ indented depth j ++ ',' :: indentedItems depth js

def indentedMembers (depth : Nat) : List (String × Json) → List Char
  | [] => []
  | [(key, j)] => newline depth ++ quoted key ++ ':' :: ' ' :: indented depth j
  | (key, j) :: ms =>
    newline depth ++ quoted key ++ ':' :: ' ' :: (indented depth j ++ ',' ::
      indentedMembers depth ms)

end

def render (j : Json) : String :=
  String.ofList j.compact

def renderIndented (j : Json) : String :=
  String.ofList (j.indented 0)

end Json

end OrbitImage
