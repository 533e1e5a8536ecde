import OrbitImage.Generator
import OrbitImage.Request.Mode
import OrbitImage.Request.Resolution
/-!
Requests for one image: what to generate, and how to draw it.
-/
namespace OrbitImage

def defaultEquation : String :=
  "x ^ (x << 13)"

def defaultSeed : UInt32 :=
  12345

/-- Whether grey levels are stretched, and from which bounds. -/
structure Contrast where
  enabled : Bool := false
  /-- The bounds are those observed in the image, and not `min` and `max`. -/
  auto : Bool := true
  min : UInt8 := 0
  max : UInt8 := 255
  deriving DecidableEq, Repr

namespace Contrast

def observed : Contrast :=
  { enabled := true }

def fixed (min max : UInt8) : Contrast :=
  { enabled := true, auto := false, min, max }

end Contrast

structure Request where
  equation : String := defaultEquation
  seed : UInt32 := defaultSeed
  resolution : Resolution := .r256
  mode : Mode := .raw
  /-- The bit shown in bit-plane mode. -/
  bitPlane : UInt8 := 0
  contrast : Contrast := {}
  useBuiltIn : Bool := false
  /-- The name of a built-in generator, empty if none is chosen. -/
  builtInName : String := ""
  pairScale : PairScale := .log
  deriving DecidableEq, Repr

namespace Request

def withBuiltIn (r : Request) (b : BuiltIn) : Request :=
  { r with useBuiltIn := true, builtInName := b.id }

/-- A bit plane implies the mode that shows it. -/
def withBitPlane (r : Request) (index : UInt8) : Request :=
  { r with mode := .bitPlane, bitPlane := index }

def ofBuiltIn (b : BuiltIn) : Request :=
  withBuiltIn { equation := "" } b

/-- Checks what does not concern the generator. -/
def validate (r : Request) : Except Fault Unit :=
  if r.bitPlane > 31 then .error (.setting (.bitOutOfRange r.bitPlane)) else .ok ()

/-- Whether a built-in generator is chosen, and the equation is not looked at. -/
def selectsBuiltIn (r : Request) : Bool :=
  r.useBuiltIn && !r.builtInName.isEmpty

def generator (r : Request) : Except Fault Generator := do
  r.validate
  if r.selectsBuiltIn then return .builtIn (← BuiltIn.parse r.builtInName)
  else
    match Program.compile r.equation with
    | .ok program => return .custom program
    | .error fault => throw (.equation fault)

def sourceLabel (r : Request) : String :=
  if r.selectsBuiltIn then "built-in " ++ r.builtInName else Text.trim r.equation

end Request

end OrbitImage
