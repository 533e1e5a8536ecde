import OrbitImage.Text.Numeral
/-!
Texts in YAML documents: plain ones, which end where the layout says, and quoted ones. Both may go
over several lines and are folded: a single line break counts as a space, of several the first does
not count, and blanks around line breaks do not count at all.
-/
namespace OrbitImage.Yaml

/-- A place in a document: characters and lines before it, and characters before it on its line. -/
structure Place where
  index : Nat := 0
  line : Nat := 0
  column : Nat := 0
  deriving DecidableEq, Repr

/-- The place after a character, or after a number of them, on the same line. -/
def Place.along (p : Place) (count : Nat) : Place :=
  { p with index := p.index + count, column := p.column + count }

/-- The place after a line break of so many characters. -/
def Place.newline (p : Place) (count : Nat) : Place :=
  { index := p.index + count, line := p.line + 1, column := 0 }

structure Rest where
  chars : List Char
  place : Place := {}
  deriving DecidableEq, Repr

def isBlank (c : Char) : Bool :=
  c = ' ' || c = '\t'

def isBreak (c : Char) : Bool :=
  c = '\n' || c = '\r' || c = '\x85' || c = '\u2028' || c = '\u2029'

/-- The characters a document may have: no control characters but tabs and line breaks. -/
def isPermitted (c : Char) : Bool :=
  let n := c.toNat
  n = 0x09 || n = 0x0A || n = 0x0D || (0x20 ≤ n && n ≤ 0x7E) || n = 0x85 ||
    (0xA0 ≤ n && n ≤ 0xFFFD) || 0x10000 ≤ n

def isWordEnd : List Char → Bool
  | [] => true
  | c :: _ => isBlank c || isBreak c

/-- Whether three dashes or three dots stand alone. -/
def isDocumentMark : List Char → Bool
  | '-' :: '-' :: '-' :: cs => isWordEnd cs
  | '.' :: '.' :: '.' :: cs => isWordEnd cs
  | _ => false

def Rest.isDocumentMark (r : Rest) : Bool :=
  r.place.column = 0 && Yaml.isDocumentMark r.chars

inductive Gap
  | blanks (cs : List Char)
  /-- Line breaks; the first is missing if it was escaped. -/
  | breaks (first : Option Char) (more : List Char)
  deriving DecidableEq, Repr

namespace Gap

def isBreaks : Gap → Bool
  | blanks _ => false
  | breaks _ _ => true

def addBlank (c : Char) : Gap → Gap
  | blanks cs => blanks (cs ++ [c])
  | breaks first more => breaks first more

def addBreak (c : Char) : Gap → Gap
  | blanks _ => breaks (some c) []
  | breaks first more => breaks first (more ++ [c])

/-- What a gap counts as when a word follows. -/
def folded : Gap → List Char
  | blanks cs => cs
  | breaks (some '\n') [] => [' ']
  | breaks (some '\n') more => more
  | breaks (some c) more => c :: more
  | breaks none more => more

/-- Every break is a line feed, but the two separators of Unicode stay. -/
def breakChar (c : Char) : Char :=
  if c = '\u2028' ∨ c = '\u2029' then c else '\n'

/-- The gap at the start of a rest. A tab that indents a line by less than `indent` is refused. -/
def read (indent : Nat) : List Char → Place → Gap → Option (Gap × Rest)
  | [], place, gap => some (gap, ⟨[], place⟩)
  | '\r' :: '\n' :: cs, place, gap => read indent cs (place.newline 2) (gap.addBreak '\n')
  | c :: cs, place, gap =>
    if isBlank c then
      if gap.isBreaks ∧ place.column < indent ∧ c = '\t' then none
      else read indent cs (place.along 1) (gap.addBlank c)
    else if isBreak c then read indent cs (place.newline 1) (gap.addBreak (breakChar c))
    else some (gap, ⟨c :: cs, place⟩)

end Gap

/-- A text, what follows it, and whether that is on a line of its own. -/
structure Folded where
  text : List Char
  rest : Rest
  atLine : Bool := false

namespace Plain

def isFlowIndicator (c : Char) : Bool :=
  c = ',' || c = '[' || c = ']' || c = '{' || c = '}'

/-- The word at the start of a text; a colon that ends a word belongs to the layout, and inside
brackets so do the indicators of lists and maps. -/
def word (inFlow : Bool) : List Char → Option (List Char × List Char)
  | [] => some ([], [])
  | ':' :: cs =>
    if isWordEnd cs then some ([], ':' :: cs)
    else if inFlow ∧ (cs.head?.any fun c => c = '?' || isFlowIndicator c) then none
    else (word inFlow cs).map fun (w, rest) => (':' :: w, rest)
  | c :: cs =>
    if isBlank c ∨ isBreak c ∨ (inFlow ∧ isFlowIndicator c) then some ([], c :: cs)
    else (word inFlow cs).map fun (w, rest) => (c :: w, rest)

/-- Adds the words from a rest on, where `gap` stands before the first. Inside brackets the
indentation does not matter. -/
def extend (inFlow : Bool) (indent : Nat) : Nat → Rest → Gap → List Char → Option Folded
  | 0, rest, gap, text => some ⟨text, rest, gap.isBreaks⟩
  | fuel + 1, rest, gap, text =>
    if rest.isDocumentMark ∨ rest.chars.head? = some '#' then some ⟨text, rest, gap.isBreaks⟩
    else
      match word inFlow rest.chars with
      | none => none
      | some ([], _) => some ⟨text, rest, gap.isBreaks⟩
      | some (w, chars) =>
        let text := text ++ gap.folded ++ w
        match Gap.read indent chars (rest.place.along w.length) (.blanks []) with
        | none => none
        | some (gap, rest) =>
          if !inFlow && rest.place.column < indent then some ⟨text, rest, gap.isBreaks⟩
          else extend inFlow indent fuel rest gap text

/-- The plain text at the start of a rest; each word takes a character at least. -/
def read (inFlow : Bool) (indent : Nat) (rest : Rest) : Option Folded :=
  extend inFlow indent (rest.chars.length + 1) rest (.blanks []) []

end Plain

namespace Quoted
open Text

def unescape? : Char → Option Char
  | '0' => some '\x00'
  | 'a' => some '\x07'
  | 'b' => some '\x08'
  | 't' | '\t' => some '\t'
  | 'n' => some '\n'
  | 'v' => some '\x0b'
  | 'f' => some '\x0c'
  | 'r' => some '\r'
  | 'e' => some '\x1b'
  | ' ' => some ' '
  | '"' => some '"'
  | '/' => some '/'
  | '\\' => some '\\'
  | 'N' => some '\x85'
  | '_' => some '\xa0'
  | 'L' => some '\u2028'
  | 'P' => some '\u2029'
  | _ => none

/-- How many digits follow an escape by number. -/
def codeLength? : Char → Option Nat
  | 'x' => some 2
  | 'u' => some 4
  | 'U' => some 8
  | _ => none

/-- The character of a code point written with so many digits. -/
def code? (length : Nat) (cs : List Char) : Option Char :=
  let digits := cs.take length
  let n := valueIn 16 digits
  if digits.length = length ∧ digits.all isHexDigit ∧ n.isValidChar then some (Char.ofNat n)
  else none

inductive WordEnd
  | quote
  | gap
  /-- A line break that does not count. -/
  | escapedBreak
  deriving DecidableEq, Repr

/-- The word at the start of a rest, after the characters `done` of it, which are held last one
first. -/
def word (quote : Char) : Nat → Rest → List Char → Option (List Char × WordEnd × Rest)
  | 0, _, _ => none
  | fuel + 1, ⟨chars, place⟩, done =>
    match chars with
    | [] => none
    | c :: cs =>
      if c = quote then
        match cs with
        | '\'' :: cs =>
          if c = '\'' then word quote fuel ⟨cs, place.along 2⟩ (c :: done)
          else some (done.reverse, .quote, ⟨'\'' :: cs, place.along 1⟩)
        | cs => some (done.reverse, .quote, ⟨cs, place.along 1⟩)
      else if isBlank c ∨ isBreak c then some (done.reverse, .gap, ⟨c :: cs, place⟩)
      else if quote = '"' ∧ c = '\\' then
        match cs with
        | [] => none
        | '\r' :: '\n' :: cs =>
          some (done.reverse, .escapedBreak, ⟨cs, (place.along 1).newline 2⟩)
        | e :: cs =>
          if isBreak e then some (done.reverse, .escapedBreak, ⟨cs, (place.along 1).newline 1⟩)
          else
            match unescape? e, codeLength? e with
            | some d, _ => word quote fuel ⟨cs, place.along 2⟩ (d :: done)
            | none, some length =>
              match code? length cs with
              | some d => word quote fuel ⟨cs.drop length, place.along (2 + length)⟩ (d :: done)
              | none => none
            | none, none => none
      else word quote fuel ⟨cs, place.along 1⟩ (c :: done)

/-- Adds the words from a rest on, where `gap` stands before the first, up to the closing quote. -/
def extend (quote : Char) : Nat → Rest → Gap → List Char → Option Folded
  | 0, _, _, _ => none
  | fuel + 1, rest, gap, text =>
    if rest.isDocumentMark then none
    else
      match word quote (rest.chars.length + 1) rest [] with
      | none => none
      | some (w, .quote, rest) => some ⟨text ++ gap.folded ++ w, rest, false⟩
      | some (w, wordEnd, rest) =>
        let start := if wordEnd = .escapedBreak then .breaks none [] else .blanks []
        match Gap.read 0 rest.chars rest.place start with
        | none => none
        | some (next, rest) => extend quote fuel rest next (text ++ gap.folded ++ w)

/-- The text behind an opening quote; each gap takes a character at least. -/
def read (quote : Char) (rest : Rest) : Option Folded :=
  extend quote (rest.chars.length + 1) rest (.blanks []) []

end Quoted

end OrbitImage.Yaml
