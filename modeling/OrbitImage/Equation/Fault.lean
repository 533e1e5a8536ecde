import OrbitImage.Equation.Token
import OrbitImage.FaultKind
/-!
What can be wrong with an equation, with the message and the advice for each cause.
-/
namespace OrbitImage

inductive EquationFault
  | division
  | point
  /-- Letters a to f stand outside every hexadecimal literal. -/
  | strayLetters (runs : List String)
  | strayCharacters (found : List Char)
  | numberTooLarge (spelling : String)
  | noTokens
  | unbalanced
  | missingOperand (op : Operator)
  | tooDeep
  | noValue
  | manyValues (count : Nat)
  /-- A parenthesis is left in postfix order. -/
  | parenthesis (token : Token)
  deriving DecidableEq, Repr

namespace EquationFault

def kind : EquationFault → FaultKind
  | division | point => .policy
  | strayLetters _ | strayCharacters _ | numberTooLarge _ => .lexical
  | noTokens | unbalanced | missingOperand _ | tooDeep | noValue | manyValues _ => .grammar
  | parenthesis _ => .internal

/-- The message without the words of its kind. -/
def detail : EquationFault → String
  | division => "Division (/) and Modulo (%) are forbidden."
  | point => "Floating points are forbidden."
  | strayLetters runs => "Invalid hex notation: " ++ ", ".intercalate runs
  | strayCharacters found =>
    "Invalid characters in equation: " ++ ", ".intercalate (found.map Char.toString)
  | numberTooLarge spelling => "Number out of range: " ++ spelling
  | noTokens | noValue => "Empty or invalid equation"
  | unbalanced => "Mismatched parentheses"
  | missingOperand op => "Operator '" ++ op.symbol ++ "' is missing an operand"
  | tooDeep => "Equation is nested too deeply"
  | manyValues count => "Equation leaves " ++ toString count ++ " values instead of one"
  | parenthesis token => "unexpected token '" ++ token.text ++ "' in compiled program"

def advice : EquationFault → Option String
  | division | point =>
    some "Only integer bitwise arithmetic is supported: + - * ~ & | ^ << >> ROL ROR"
  | strayLetters _ => some "Hex numbers must use 0x prefix (e.g., 0xFF not FF)"
  | strayCharacters _ =>
    some "Only these are allowed: 0-9, x, +, -, *, ^, &, |, ~, <<, >>, (, ), ROL, ROR"
  | numberTooLarge _ =>
    some "Literals must fit in 32 bits (at most 4294967295 or 0xFFFFFFFF)"
  | noTokens => some "Try an equation such as: x ^ (x << 13)"
  | unbalanced => some "Check that every '(' has a matching ')'"
  | missingOperand _ => some "Every binary operator needs a value on both sides"
  | tooDeep => some "At most 64 pending operands are supported"
  | manyValues _ => some "Operands must be joined by operators, e.g. x ^ 13"
  | noValue | parenthesis _ => none

end EquationFault

end OrbitImage
