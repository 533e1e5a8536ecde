import OrbitImage.Fault
import OrbitImage.Text.Numeral
/-!
The side lengths an image may have.
-/
namespace OrbitImage

inductive Resolution
  | r256
  | r512
  | r1024
  deriving DecidableEq, Repr

namespace Resolution

def side : Resolution → UInt32
  | r256 => 256
  | r512 => 512
  | r1024 => 1024

/-- The number of pixels, which is also the number of steps of the generator. -/
def pixels (r : Resolution) : Nat :=
  r.side.toNat * r.side.toNat

def ofSide (side : UInt32) : Except Fault Resolution :=
  match side with
  | 256 => .ok r256
  | 512 => .ok r512
  | 1024 => .ok r1024
  | _ => .error (.setting (.unsupportedResolution side))

def parse (text : String) : Except Fault Resolution :=
  match Text.unsigned? UInt32.size (Text.trim text) with
  | some n => ofSide n.toUInt32
  | none => .error (.setting (.invalidResolution text))

def text (r : Resolution) : String :=
  toString r.side ++ "x" ++ toString r.side

end Resolution

end OrbitImage
