/-!
Left and right.
-/
namespace OrbitImage

inductive Side
  | left
  | right
  deriving DecidableEq, Repr

def Side.name : Side → String
  | left => "left"
  | right => "right"

structure Both (α : Type) where
  left : α
  right : α
  deriving DecidableEq, Repr

namespace Both

variable {α : Type}

def on (b : Both α) : Side → α
  | .left => b.left
  | .right => b.right

def set (b : Both α) (side : Side) (a : α) : Both α :=
  match side with
  | .left => { b with left := a }
  | .right => { b with right := a }

end Both

end OrbitImage
