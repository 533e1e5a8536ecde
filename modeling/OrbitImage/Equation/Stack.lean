import OrbitImage.Equation.Token
/-!
A value stack of fixed size. An operation that would leave the slots in use gives no stack.
-/
namespace OrbitImage

structure Stack where
  slots : Vector UInt32 64
  size : Nat
  size_le : size ≤ 64

namespace Stack

def empty : Stack :=
  ⟨Vector.replicate 64 0, 0, Nat.zero_le _⟩

def push? (s : Stack) (value : UInt32) : Option Stack :=
  if h : s.size < 64 then some ⟨s.slots.set s.size value, s.size + 1, h⟩ else none

/-- The operator takes its operands from the top, the right one first, and leaves its result. -/
def operate? (s : Stack) : Operator → Option Stack
  | .complement =>
    match s with
    | ⟨slots, size, le⟩ =>
      if h : 0 < size then
        have top : size - 1 < 64 := Nat.lt_of_lt_of_le (Nat.sub_lt h Nat.one_pos) le
        let a := slots[size - 1]
        some ⟨slots.set (size - 1) (~~~a), size, le⟩
      else none
  | .binary op =>
    match s with
    | ⟨slots, size, le⟩ =>
      if h : 1 < size then
        have top : size - 1 < 64 :=
          Nat.lt_of_lt_of_le (Nat.sub_lt (Nat.zero_lt_of_lt h) Nat.one_pos) le
        have second : size - 2 < 64 :=
          Nat.lt_of_lt_of_le (Nat.sub_lt (Nat.zero_lt_of_lt h) Nat.two_pos) le
        let a := slots[size - 2]
        let b := slots[size - 1]
        some ⟨slots.set (size - 2) (op.apply a b), size - 1, Nat.le_trans (Nat.sub_le size 1) le⟩
      else none

/-- Runs tokens in postfix order at the value `x`; parentheses do nothing. -/
def run (x : UInt32) : List Token → Stack → Option Stack
  | [], s => some s
  | .number n :: ts, s => (s.push? n).bind (run x ts)
  | .x :: ts, s => (s.push? x).bind (run x ts)
  | .operator op :: ts, s => (s.operate? op).bind (run x ts)
  | .leftParen :: ts, s => run x ts s
  | .rightParen :: ts, s => run x ts s

def bottom (s : Stack) : UInt32 :=
  s.slots[0]

end Stack

end OrbitImage
