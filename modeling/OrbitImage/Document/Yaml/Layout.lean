import OrbitImage.Document.Node
import OrbitImage.Document.Yaml.Text
/-!
From the text of a YAML document to its marks. Indentation becomes marks that open and close
blocks. That a text or a bracket starts a key shows only at the colon behind it, so the layout
remembers where a key may have started, and puts its mark there afterwards; a question mark tells
of a key at once.
-/
namespace OrbitImage.Yaml

inductive Mark
  | openBlockList
  | openBlockMap
  | closeBlock
  | entry
  | key
  | value
  | openList
  | closeList
  | openMap
  | closeMap
  | comma
  | scalar (s : Scalar)
  | startDocument
  | endDocument
  | broken
  deriving DecidableEq, Repr

/-- Where a key may have started. -/
structure Candidate where
  place : Place
  /-- How many marks stand before it. -/
  before : Nat
  /-- Nothing but a key can stand there. -/
  required : Bool

structure Layout where
  rest : Rest
  /-- The columns of the open blocks, the innermost first. -/
  indents : List Nat := []
  /-- The candidate of the innermost bracket or, outside brackets, of the block. -/
  candidate : Option Candidate := none
  /-- The candidates around the open brackets, the innermost first. -/
  outer : List (Option Candidate) := []
  keyAllowed : Bool := true
  /-- The marks so far, the last first. -/
  marks : List Mark := []

namespace Layout

def inFlow (s : Layout) : Bool :=
  !s.outer.isEmpty

/-- The column that what belongs to the innermost block must reach. -/
def inner (s : Layout) : Nat :=
  match s.indents with
  | [] => 0
  | column :: _ => column + 1

def emit (s : Layout) (mark : Mark) : Layout :=
  { s with marks := mark :: s.marks }

/-- Puts marks behind the first `before` marks. -/
def emitAt (s : Layout) (before : Nat) (marks : List Mark) : Layout :=
  let later := s.marks.length - before
  { s with marks := s.marks.take later ++ marks.reverse ++ s.marks.drop later }

def advance (s : Layout) (count : Nat) : Layout :=
  { s with rest := ⟨s.rest.chars.drop count, s.rest.place.along count⟩ }

/-- The marks to open a block at a column, if it is not open. -/
def openBlock (s : Layout) (column : Nat) (mark : Mark) : List Mark × List Nat :=
  if !s.inFlow && s.inner ≤ column then ([mark], column :: s.indents) else ([], s.indents)

/-- Closes the blocks that are indented by at least `width`. -/
def closeBlocks (width : Nat) : List Nat → List Mark → List Nat × List Mark
  | [], marks => ([], marks)
  | column :: columns, marks =>
    if width ≤ column then closeBlocks width columns (.closeBlock :: marks)
    else (column :: columns, marks)

def close (s : Layout) (width : Nat) : Layout :=
  if s.inFlow then s
  else
    let (indents, marks) := closeBlocks width s.indents s.marks
    { s with indents, marks }

/-- A candidate is given up at the end of its line, or after 1024 characters. -/
def Candidate.isStale (place : Place) (c : Candidate) : Bool :=
  c.place.line < place.line || c.place.index + 1024 < place.index

/-- Gives up stale candidates; none of them may be required. -/
def dropStale (s : Layout) : Option Layout :=
  let place := s.rest.place
  let isStale (c : Candidate) : Bool := Candidate.isStale place c
  if (s.candidate :: s.outer).any (·.any fun c => isStale c && c.required) then none
  else
    some { s with
      candidate := s.candidate.filter (!isStale ·)
      outer := s.outer.map (·.filter (!isStale ·)) }

/-- Gives up the candidate, which must not be required. -/
def dropCandidate (s : Layout) : Option Layout :=
  if s.candidate.any (·.required) then none else some { s with candidate := none }

/-- Makes this place a candidate, if a key may start here. -/
def mayBeKey (s : Layout) : Option Layout :=
  if s.keyAllowed then do
    let s ← s.dropCandidate
    let required := !s.inFlow && s.indents.head? = some s.rest.place.column
    return { s with candidate := some ⟨s.rest.place, s.marks.length, required⟩ }
  else some s

/-- Passes over blanks, comments and line breaks; after a break outside brackets a key may start. A
tab may not stand where a key may start. -/
def skipChars (inFlow inComment : Bool) : List Char → Place → Bool → Rest × Bool
  | [], place, keyAllowed => (⟨[], place⟩, keyAllowed)
  | '\r' :: '\n' :: cs, place, keyAllowed =>
    skipChars inFlow false cs (place.newline 2) (keyAllowed || !inFlow)
  | c :: cs, place, keyAllowed =>
    if isBreak c then skipChars inFlow false cs (place.newline 1) (keyAllowed || !inFlow)
    else if inComment ∨ c = ' ' ∨ (c = '\t' ∧ (inFlow ∨ keyAllowed = false)) ∨
        (c = '\ufeff' ∧ place.column = 0) then
      skipChars inFlow inComment cs (place.along 1) keyAllowed
    else if c = '#' then skipChars inFlow true cs (place.along 1) keyAllowed
    else (⟨c :: cs, place⟩, keyAllowed)

def skip (s : Layout) : Layout :=
  let (rest, keyAllowed) := skipChars s.inFlow false s.rest.chars s.rest.place s.keyAllowed
  { s with rest, keyAllowed }

/-- A mark for the start or the end of a document, which closes all blocks. -/
def document (s : Layout) (mark : Mark) : Option Layout := do
  let s ← (s.close 0).dropCandidate
  return { (s.emit mark).advance 3 with keyAllowed := false }

def openBracket (s : Layout) (mark : Mark) : Option Layout := do
  let s ← s.mayBeKey
  return { (s.emit mark).advance 1 with
    candidate := none, outer := s.candidate :: s.outer, keyAllowed := true }

def closeBracket (s : Layout) (mark : Mark) : Option Layout := do
  let s ← s.dropCandidate
  let s := { (s.emit mark).advance 1 with keyAllowed := false }
  match s.outer with
  | [] => return s
  | candidate :: outer => return { s with candidate, outer }

def comma (s : Layout) : Option Layout := do
  let s ← s.dropCandidate
  return { (s.emit .comma).advance 1 with keyAllowed := true }

def entry (s : Layout) : Option Layout := do
  if !s.inFlow && !s.keyAllowed then none
  let (marks, indents) := s.openBlock s.rest.place.column .openBlockList
  let s ← { s with indents, marks := marks ++ s.marks }.dropCandidate
  return { (s.emit .entry).advance 1 with keyAllowed := true }

def key (s : Layout) : Option Layout := do
  if !s.inFlow && !s.keyAllowed then none
  let (marks, indents) := s.openBlock s.rest.place.column .openBlockMap
  let s ← { s with indents, marks := marks ++ s.marks }.dropCandidate
  return { (s.emit .key).advance 1 with keyAllowed := !s.inFlow }

/-- A colon. It makes a candidate the start of a key; without one it belongs to a question mark. -/
def value (s : Layout) : Option Layout :=
  match s.candidate with
  | some c =>
    let (marks, indents) := s.openBlock c.place.column .openBlockMap
    let s := { s.emitAt c.before (marks ++ [.key]) with indents, candidate := none }
    some { (s.emit .value).advance 1 with keyAllowed := false }
  | none =>
    if !s.inFlow && !s.keyAllowed then none
    else
      let (marks, indents) := s.openBlock s.rest.place.column .openBlockMap
      let s := { s with indents, marks := marks ++ s.marks }
      some { (s.emit .value).advance 1 with keyAllowed := !s.inFlow }

def text (s : Layout) (scalar : String → Scalar) (read : Rest → Option Folded) : Option Layout := do
  let s ← s.mayBeKey
  let folded ← read s.rest
  let s := s.emit (.scalar (scalar (String.ofList folded.text)))
  return { s with rest := folded.rest, keyAllowed := folded.atLine }

/-- Whether a plain text may start with these characters. -/
def startsPlain (inFlow : Bool) (c : Char) (cs : List Char) : Bool :=
  let indicators := ['-', '?', ':', ',', '[', ']', '{', '}', '#', '&', '*', '!', '|', '>', '\'',
    '"', '%', '@', '\x60']
  !indicators.contains c ||
    (c = '-' && !cs.head?.any isBlank) ||
    (!inFlow && (c = '?' || c = ':') && !isWordEnd cs)

/-- The next mark at a place where blanks are passed over; none if the text is broken there. -/
def mark (s : Layout) (c : Char) (cs : List Char) : Option Layout :=
  if s.rest.isDocumentMark then s.document (if c = '-' then .startDocument else .endDocument)
  else if s.rest.place.column = 0 ∧ c = '%' then none
  else
    match c with
    | '[' => s.openBracket .openList
    | ']' => s.closeBracket .closeList
    | '{' => s.openBracket .openMap
    | '}' => s.closeBracket .closeMap
    | ',' => s.comma
    | '\'' | '"' => s.text .text fun r => Quoted.read c ⟨r.chars.drop 1, r.place.along 1⟩
    | _ =>
      if c = '-' ∧ isWordEnd cs then s.entry
      else if c = '?' ∧ (s.inFlow ∨ isWordEnd cs) then s.key
      else if c = ':' ∧ (s.inFlow ∨ isWordEnd cs) then s.value
      else if startsPlain s.inFlow c cs then s.text .plain (Plain.read s.inFlow s.inner)
      else none

/-- All marks; each takes a character at least. -/
def run : Nat → Layout → List Mark
  | 0, s => (Mark.broken :: s.marks).reverse
  | fuel + 1, s =>
    match s.skip.dropStale with
    | none => (Mark.broken :: s.marks).reverse
    | some s =>
      match s.rest.chars with
      | [] =>
        match (s.close 0).dropCandidate with
        | some s => s.marks.reverse
        | none => (Mark.broken :: s.marks).reverse
      | c :: cs =>
        let s := s.close (s.rest.place.column + 1)
        match s.mark c cs with
        | some s => run fuel s
        | none => (Mark.broken :: s.marks).reverse

end Layout

def marks (text : String) : List Mark :=
  let cs := text.toList
  if cs.all isPermitted then Layout.run (cs.length + 1) { rest := ⟨cs, {}⟩ } else [.broken]

end OrbitImage.Yaml
