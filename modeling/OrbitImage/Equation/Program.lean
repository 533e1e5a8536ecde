import OrbitImage.Equation.Lexeme
import OrbitImage.Equation.Postfix
import OrbitImage.Equation.Stack
/-!
Programs: tokens in postfix order that are known to leave exactly one value and to need no more
than 64 pending operands. Main definition: `Program.compile`, from the text of an equation.
-/
namespace OrbitImage

namespace Token

/-- How many operands are pending after the tokens, when `pending` were before. -/
def pendingAfter : List Token → Nat → Except EquationFault Nat
  | [], pending => .ok pending
  | number _ :: ts, pending | x :: ts, pending =>
    if pending < 64 then pendingAfter ts (pending + 1) else .error .tooDeep
  | operator .complement :: ts, pending =>
    if 1 ≤ pending then pendingAfter ts pending else .error (.missingOperand .complement)
  | operator (.binary op) :: ts, pending =>
    if 2 ≤ pending then pendingAfter ts (pending - 1)
    else .error (.missingOperand (.binary op))
  | leftParen :: _, _ => .error (.parenthesis leftParen)
  | rightParen :: _, _ => .error (.parenthesis rightParen)

end Token

structure Program where
  tokens : List Token
  single : Token.pendingAfter tokens 0 = .ok 1
  deriving DecidableEq

namespace Program

def ofPostfix (tokens : List Token) : Except EquationFault Program :=
  match h : Token.pendingAfter tokens 0 with
  | .error fault => .error fault
  | .ok 0 => .error .noValue
  | .ok 1 => .ok ⟨tokens, h⟩
  | .ok count => .error (.manyValues count)

def text (p : Program) : String :=
  Token.row p.tokens

def eval (p : Program) (x : UInt32) : UInt32 :=
  match Stack.empty.run x p.tokens with
  | some s => s.bottom
  | none => 0

/-- Division, remainder and points are refused before anything else is read. -/
def policyFault? (equation : String) : Option EquationFault :=
  let cs := equation.toList
  if cs.contains '/' || cs.contains '%' then some .division
  else if cs.contains '.' then some .point
  else none

def compile (equation : String) : Except EquationFault Program :=
  match policyFault? equation with
  | some fault => .error fault
  | none => do ofPostfix (← Token.toPostfix (← Token.scan equation))

end Program

end OrbitImage
