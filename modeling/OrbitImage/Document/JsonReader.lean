import OrbitImage.Document.Node
import OrbitImage.Text.Numeral
/-!
From JSON text to the tree of a document. The text is first cut into marks, then the marks are
read; a text that breaks the grammar has a tree as well, damaged where it breaks.
-/
namespace OrbitImage

inductive JsonMark
  | openList
  | closeList
  | openMap
  | closeMap
  | comma
  | colon
  | scalar (s : Scalar)
  | broken
  deriving DecidableEq, Repr

namespace JsonMark
open Text

/-- A piece of a quoted text: a character, or a UTF-16 unit given by its number. -/
inductive Piece
  | char (c : Char)
  | unit (value : Nat)

def unescape? : Char → Option Char
  | '"' => some '"'
  | '\\' => some '\\'
  | '/' => some '/'
  | 'b' => some '\x08'
  | 'f' => some '\x0c'
  | 'n' => some '\n'
  | 'r' => some '\r'
  | 't' => some '\t'
  | _ => none

/-- The pieces up to the closing quote, and what follows it. -/
def quoted? : List Char → Option (List Piece × List Char)
  | [] => none
  | '"' :: cs => some ([], cs)
  | '\\' :: 'u' :: a :: b :: c :: d :: cs =>
    if [a, b, c, d].all isHexDigit then
      (quoted? cs).map fun (ps, rest) => (.unit (valueIn 16 [a, b, c, d]) :: ps, rest)
    else none
  | '\\' :: e :: cs =>
    match unescape? e with
    | some c => (quoted? cs).map fun (ps, rest) => (.char c :: ps, rest)
    | none => none
  | c :: cs =>
    if c.toNat < 0x20 then none
    else (quoted? cs).map fun (ps, rest) => (.char c :: ps, rest)

/-- The characters of pieces in which every half of a surrogate pair has its partner. -/
def pair? : List Piece → Option (List Char)
  | [] => some []
  | .char c :: ps => (pair? ps).map (c :: ·)
  | .unit high :: .unit low :: ps =>
    if 0xD800 ≤ high ∧ high < 0xDC00 then
      if 0xDC00 ≤ low ∧ low < 0xE000 then
        (pair? ps).map (Char.ofNat (0x10000 + (high - 0xD800) * 0x400 + (low - 0xDC00)) :: ·)
      else none
    else if 0xDC00 ≤ high ∧ high < 0xE000 then none
    else (pair? (.unit low :: ps)).map (Char.ofNat high :: ·)
  | .unit u :: ps =>
    if 0xD800 ≤ u ∧ u < 0xE000 then none else (pair? ps).map (Char.ofNat u :: ·)

def ofPieces (ps : List Piece) : JsonMark :=
  match pair? ps with
  | some cs => scalar (.text (String.ofList cs))
  | none => scalar .unpaired

/-- The digits before the point: a zero alone, or no zero in front. -/
def integral? : List Char → Option (List Char × List Char)
  | '0' :: cs =>
    match cs with
    | [] => some (['0'], [])
    | c :: rest => if c.isDigit then none else some (['0'], c :: rest)
  | cs =>
    match cs.takeWhile Char.isDigit with
    | [] => none
    | ds => some (ds, cs.dropWhile Char.isDigit)

/-- The digits behind a point, if there is one; a point needs a digit. -/
def fraction? : List Char → Option (List Char × List Char)
  | '.' :: cs =>
    match cs.takeWhile Char.isDigit with
    | [] => none
    | ds => some (ds, cs.dropWhile Char.isDigit)
  | cs => some ([], cs)

/-- The exponent, if one is written; it needs a digit. -/
def exponent? (cs : List Char) : Option (Option Int × List Char) :=
  let read (negative : Bool) (cs : List Char) : Option (Option Int × List Char) :=
    match cs.takeWhile Char.isDigit with
    | [] => none
    | ds =>
      let n : Int := valueIn 10 ds
      some (some (if negative then -n else n), cs.dropWhile Char.isDigit)
  match cs with
  | e :: cs' =>
    if e = 'e' ∨ e = 'E' then
      match cs' with
      | '-' :: rest => read true rest
      | '+' :: rest => read false rest
      | rest => read false rest
    else some (none, cs)
  | [] => some (none, [])

/-- The number at the start of a text. A zero with a minus is no integer. -/
def number? (cs : List Char) : Option (Numeral × List Char) := do
  let (negative, cs) := match cs with
    | '-' :: rest => (true, rest)
    | rest => (false, rest)
  let (whole, cs) ← integral? cs
  let (part, cs) ← fraction? cs
  let (exponent, cs) ← exponent? cs
  let digits := valueIn 10 (whole ++ part)
  return ({ negative
            digits
            exponent := exponent.getD 0 - part.length
            whole := part.isEmpty && exponent.isNone && !(negative && digits = 0) }, cs)

/-- The mark at the start of a text, and what follows it. -/
def first (c : Char) (cs : List Char) : JsonMark × List Char :=
  match c, cs with
  | '[', _ => (openList, cs)
  | ']', _ => (closeList, cs)
  | '{', _ => (openMap, cs)
  | '}', _ => (closeMap, cs)
  | ',', _ => (comma, cs)
  | ':', _ => (colon, cs)
  | 'n', 'u' :: 'l' :: 'l' :: rest => (scalar .null, rest)
  | 't', 'r' :: 'u' :: 'e' :: rest => (scalar (.bool true), rest)
  | 'f', 'a' :: 'l' :: 's' :: 'e' :: rest => (scalar (.bool false), rest)
  | '"', _ =>
    match quoted? cs with
    | some (ps, rest) => (ofPieces ps, rest)
    | none => (broken, [])
  | _, _ =>
    match number? (c :: cs) with
    | some (n, rest) => (scalar (.number n), rest)
    | none => (broken, [])

def isBlank (c : Char) : Bool :=
  c = ' ' || c = '\n' || c = '\r' || c = '\t'

/-- The marks of a text of at most `length` characters; each takes at least one of them. -/
def marks (length : Nat) (cs : List Char) : List JsonMark :=
  match length, cs with
  | _, [] => []
  | 0, _ :: _ => [broken]
  | length + 1, c :: cs =>
    if isBlank c then marks length cs
    else
      let (mark, rest) := first c cs
      mark :: marks length rest

end JsonMark

namespace Node

/-- Whether a scalar may be a key; a key is quoted. -/
def isQuoted : Scalar → Bool
  | .text _ | .unpaired => true
  | _ => false

mutual

/-- The value at the start of marks, and what follows it unless the value is damaged. Of two calls
one inside the other at least one passes over a mark, so twice the number of marks is enough
fuel. -/
def ofMarks (fuel : Nat) (marks : List JsonMark) : Node × Option (List JsonMark) :=
  match fuel, marks with
  | _ + 1, .scalar s :: rest => (.scalar s, some rest)
  | _ + 1, .openList :: .closeList :: rest => (.list [], some rest)
  | fuel + 1, .openList :: rest =>
    let (items, rest) := itemsOfMarks fuel rest
    (.list items, rest)
  | _ + 1, .openMap :: .closeMap :: rest => (.map [], some rest)
  | fuel + 1, .openMap :: rest =>
    let (members, rest) := membersOfMarks fuel rest
    (.map members, rest)
  | _, _ => (.damaged, none)

/-- The items up to the end of a list that is not empty. -/
def itemsOfMarks (fuel : Nat) (marks : List JsonMark) : List Node × Option (List JsonMark) :=
  match fuel with
  | 0 => ([.damaged], none)
  | fuel + 1 =>
    match ofMarks fuel marks with
    | (item, some (.comma :: rest)) =>
      let (items, rest) := itemsOfMarks fuel rest
      (item :: items, rest)
    | (item, some (.closeList :: rest)) => ([item], some rest)
    | (item, some _) => ([item, .damaged], none)
    | (item, none) => ([item], none)

/-- The members up to the end of a map that is not empty. -/
def membersOfMarks (fuel : Nat) (marks : List JsonMark) :
    List (Node × Node) × Option (List JsonMark) :=
  match fuel, marks with
  | fuel + 1, .scalar s :: .colon :: rest =>
    if isQuoted s then
      match ofMarks fuel rest with
      | (value, some (.comma :: rest)) =>
        let (members, rest) := membersOfMarks fuel rest
        ((.scalar s, value) :: members, rest)
      | (value, some (.closeMap :: rest)) => ([(.scalar s, value)], some rest)
      | (value, some _) => ([(.scalar s, value), (.damaged, .damaged)], none)
      | (value, none) => ([(.scalar s, value)], none)
    else ([(.damaged, .damaged)], none)
  | _, _ => ([(.damaged, .damaged)], none)

end

end Node

def Reading.ofJson (text : String) : Reading :=
  let cs := text.toList
  let marks := JsonMark.marks cs.length cs
  match Node.ofMarks (2 * marks.length) marks with
  | (root, some []) => ⟨root, true⟩
  | (root, _) => ⟨root, false⟩

end OrbitImage
