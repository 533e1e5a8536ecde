/-!
Tokens of an equation in the variable x, and the operators among them. Main definitions:
`BinaryOp.apply`, arithmetic modulo 2^32 with shift amounts modulo 32, and `Operator.precedence`, how
tightly an operator binds.
-/
namespace OrbitImage

inductive BinaryOp
  | add
  | sub
  | mul
  | and
  | or
  | xor
  | shl
  | shr
  | rol
  | ror
  deriving DecidableEq, Repr

/-- The complement takes one operand, every other operator two. -/
inductive Operator
  | complement
  | binary (op : BinaryOp)
  deriving DecidableEq, Repr

def BinaryOp.symbol : BinaryOp → String
  | .add => "+"
  | .sub => "-"
  | .mul => "*"
  | .and => "&"
  | .or => "|"
  | .xor => "^"
  | .shl => "<<"
  | .shr => ">>"
  | .rol => "ROL"
  | .ror => "ROR"

def BinaryOp.all : List BinaryOp :=
  [.add, .sub, .mul, .and, .or, .xor, .shl, .shr, .rol, .ror]

/-- Bits that a left shift drops come in again at the right. -/
def rotateLeft (a n : UInt32) : UInt32 :=
  (a <<< n) ||| (a >>> (32 - n))

def rotateRight (a n : UInt32) : UInt32 :=
  (a >>> n) ||| (a <<< (32 - n))

/-- Sums, differences and products are modulo 2^32; amounts of shifts and rotations modulo 32. -/
def BinaryOp.apply : BinaryOp → UInt32 → UInt32 → UInt32
  | .add, a, b => a + b
  | .sub, a, b => a - b
  | .mul, a, b => a * b
  | .and, a, b => a &&& b
  | .or, a, b => a ||| b
  | .xor, a, b => a ^^^ b
  | .shl, a, b => a <<< b
  | .shr, a, b => a >>> b
  | .rol, a, b => rotateLeft a b
  | .ror, a, b => rotateRight a b

def BinaryOp.precedence : BinaryOp → Nat
  | .mul => 5
  | .add | .sub => 4
  | .shl | .shr | .rol | .ror => 3
  | .and => 2
  | .xor => 1
  | .or => 0

namespace Operator

def symbol : Operator → String
  | complement => "~"
  | binary op => op.symbol

def all : List Operator :=
  complement :: BinaryOp.all.map binary

def ofSymbol? (s : String) : Option Operator :=
  all.find? (·.symbol = s)

/-- Operators of higher precedence bind tighter. -/
def precedence : Operator → Nat
  | complement => 6
  | binary op => op.precedence

def isUnary : Operator → Bool
  | complement => true
  | binary _ => false

/-- The complement looks at its first argument alone. -/
def apply : Operator → UInt32 → UInt32 → UInt32
  | complement, a, _ => ~~~a
  | binary op, a, b => op.apply a b

end Operator

inductive Token
  | number (value : UInt32)
  | x
  | operator (op : Operator)
  | leftParen
  | rightParen
  deriving DecidableEq, Repr

namespace Token

def text : Token → String
  | number n => toString n.toNat
  | x => "x"
  | operator op => op.symbol
  | leftParen => "("
  | rightParen => ")"

/-- Tokens in a row, one space between neighbours. -/
def row (tokens : List Token) : String :=
  " ".intercalate (tokens.map text)

end Token

end OrbitImage
