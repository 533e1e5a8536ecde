import OrbitImage.Equation.Fault
import OrbitImage.Text.Basic
import OrbitImage.Text.Numeral
/-!
From the text of an equation to its tokens. A text without blanks is cut into lexemes, so that
nothing is lost between them; what a lexeme says is decided afterwards. Two checks come first:
letters a to f belong to hexadecimal literals, and only the characters of the language occur.
-/
namespace OrbitImage
open Text

inductive Lexeme
  | rotation (op : BinaryOp) (spelling : List Char)
  /-- A literal in base sixteen; its spelling is 0x and the digits. -/
  | hex (digits : List Char)
  | decimal (digits : List Char)
  | shift (op : BinaryOp) (bracket : Char)
  | single (c : Char)
  deriving DecidableEq, Repr

namespace Lexeme

def spelling : Lexeme → List Char
  | rotation _ cs => cs
  | hex digits => '0' :: 'x' :: digits
  | decimal digits => digits
  | shift _ c => [c, c]
  | single c => [c]

/-- The rotation keyword at the start of a text, in any letter case. -/
def rotation? (cs : List Char) : Option BinaryOp :=
  match (cs.take 3).map Char.toUpper with
  | ['R', 'O', 'L'] => some .rol
  | ['R', 'O', 'R'] => some .ror
  | _ => none

/-- The digits of the hexadecimal literal at the start of a text. -/
def hexDigits? : List Char → Option (List Char)
  | '0' :: 'x' :: cs =>
    match cs.takeWhile isHexDigit with
    | [] => none
    | digits => some digits
  | _ => none

/-- The lexeme at the start of a text that is not empty. -/
def first (c : Char) (cs : List Char) : Lexeme :=
  match rotation? (c :: cs) with
  | some op => rotation op ((c :: cs).take 3)
  | none =>
    match hexDigits? (c :: cs) with
    | some digits => hex digits
    | none =>
      if c.isDigit then decimal (c :: cs.takeWhile Char.isDigit)
      else
        match c, cs with
        | '<', '<' :: _ => shift .shl '<'
        | '>', '>' :: _ => shift .shr '>'
        | _, _ => single c

theorem length_spelling_first_pos (c : Char) (cs : List Char) :
    0 < (first c cs).spelling.length := by
  unfold first
  split
  · simp [spelling]
  · split
    · simp [spelling]
    · split
      · simp [spelling]
      · split <;> simp [spelling]

/-- A text cut into lexemes, each the longest there is at its place. -/
def cut : List Char → List Lexeme
  | [] => []
  | c :: cs => first c cs :: cut ((c :: cs).drop (first c cs).spelling.length)
termination_by cs => cs.length
decreasing_by
  have := length_spelling_first_pos c cs
  simp only [List.length_drop, List.length_cons]
  omega

/-- A literal, if its value is a 32-bit word. -/
def literal (base : Nat) (digits spelling : List Char) : Except EquationFault Token :=
  let value := valueIn base digits
  if value < UInt32.size then .ok (.number value.toUInt32)
  else .error (.numberTooLarge (String.ofList spelling))

/-- The token a lexeme stands for; a comma or a lone angle bracket stands for none. -/
def token? : Lexeme → Except EquationFault (Option Token)
  | rotation op _ => .ok (some (.operator (.binary op)))
  | hex digits => some <$> literal 16 digits (hex digits).spelling
  | decimal digits => some <$> literal 10 digits digits
  | shift op _ => .ok (some (.operator (.binary op)))
  | single '(' => .ok (some .leftParen)
  | single ')' => .ok (some .rightParen)
  | single 'x' => .ok (some .x)
  | single c => .ok ((Operator.ofSymbol? c.toString).map .operator)

end Lexeme

namespace Token

/-- A text without its hexadecimal literals, which are removed from left to right. -/
def withoutHex : List Char → List Char
  | [] => []
  | c :: cs =>
    match Lexeme.hexDigits? (c :: cs) with
    | some digits => withoutHex (cs.drop (digits.length + 1))
    | none => c :: withoutHex cs
termination_by cs => cs.length
decreasing_by all_goals simp only [List.length_drop, List.length_cons]; omega

/-- The maximal runs of letters a to f in a text. -/
def letterRuns (cs : List Char) : List (List Char) :=
  (cs.splitBy fun a b => isHexLetter a == isHexLetter b).filter (·.all isHexLetter)

/-- Letters that the keywords are made of. -/
def isKeywordRun (run : List Char) : Bool :=
  ["x", "rol", "ror", "r", "o", "l"].contains (String.ofList (run.map Char.toLower))

/-- The runs of letters a to f outside hexadecimal literals, each named once. -/
def strayLetters (cs : List Char) : List (List Char) :=
  ((letterRuns (withoutHex cs)).filter (!isKeywordRun ·)).eraseDups

def isAllowed (c : Char) : Bool :=
  isHexDigit c || ['x', '+', '-', '*', '^', '&', '|', '~', '(', ')', '<', '>', ','].contains c

/-- The characters that are neither allowed nor part of a rotation keyword. -/
def disallowed : List Char → List Char
  | [] => []
  | c :: cs =>
    match Lexeme.rotation? (c :: cs) with
    | some _ => disallowed (cs.drop 2)
    | none => if isAllowed c then disallowed cs else c :: disallowed cs
termination_by cs => cs.length
decreasing_by all_goals simp only [List.length_drop, List.length_cons]; omega

def ofChars (cs : List Char) : Except EquationFault (List Token) := do
  let letters := strayLetters cs
  unless letters.isEmpty do throw (.strayLetters (letters.map String.ofList))
  let characters := (disallowed cs).eraseDups
  unless characters.isEmpty do throw (.strayCharacters characters)
  let tokens := (← (Lexeme.cut cs).mapM Lexeme.token?).filterMap id
  if tokens.isEmpty then throw .noTokens
  return tokens

/-- The tokens of an equation; blanks separate nothing. -/
def scan (equation : String) : Except EquationFault (List Token) :=
  ofChars (strip equation)

end Token

end OrbitImage
