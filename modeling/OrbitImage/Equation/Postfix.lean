import OrbitImage.Equation.Fault
/-!
Infix order to postfix order with a stack of operators that wait for their right operand. Binary
operators group to the left, so an operator lets every waiting one of at least its precedence go
first; the complement has no left operand and waits at once.
-/
namespace OrbitImage

inductive Pending
  | operator (op : Operator)
  | paren
  deriving DecidableEq, Repr

namespace Pending

/-- The operators on top that bind at least as tightly as `precedence`, and the stack below. -/
def release (precedence : Nat) : List Pending → List Token × List Pending
  | operator top :: rest =>
    if top.precedence < precedence then ([], operator top :: rest)
    else
      let (out, left) := release precedence rest
      (.operator top :: out, left)
  | stack => ([], stack)

/-- The operators down to the nearest open parenthesis, and the stack below it. -/
def close : List Pending → Option (List Token × List Pending)
  | [] => none
  | paren :: rest => some ([], rest)
  | operator op :: rest => (close rest).map fun (out, left) => (.operator op :: out, left)

/-- All operators of a stack without parentheses. -/
def flush : List Pending → Option (List Token)
  | [] => some []
  | paren :: _ => none
  | operator op :: rest => (flush rest).map (.operator op :: ·)

end Pending

namespace Token

/-- The postfix order of tokens that follow a given stack, unless parentheses do not match. -/
def arrange : List Token → List Pending → Option (List Token)
  | [], stack => Pending.flush stack
  | number n :: ts, stack => (number n :: ·) <$> arrange ts stack
  | x :: ts, stack => (x :: ·) <$> arrange ts stack
  | operator .complement :: ts, stack => arrange ts (.operator .complement :: stack)
  | operator (.binary op) :: ts, stack =>
    let (out, left) := Pending.release op.precedence stack
    (out ++ ·) <$> arrange ts (.operator (.binary op) :: left)
  | leftParen :: ts, stack => arrange ts (.paren :: stack)
  | rightParen :: ts, stack =>
    match Pending.close stack with
    | none => none
    | some (out, left) => (out ++ ·) <$> arrange ts left

def toPostfix (tokens : List Token) : Except EquationFault (List Token) :=
  match arrange tokens [] with
  | some out => .ok out
  | none => .error .unbalanced

end Token

end OrbitImage
