import OrbitImage.Request.Basic
/-!
Grey levels of single values, the range of grey levels that an image shows, and the contrast
stretch, which spreads the grey levels between two bounds over all of 0 to 255.
-/
namespace OrbitImage

/-- The grey level floor(x * 255 / 2^32). -/
def scaleWord (x : UInt32) : UInt8 :=
  ((x.toUInt64 * 255) >>> 32).toUInt8

def bitOf (x : UInt32) (bit : Nat) : UInt32 :=
  (x >>> bit.toUInt32) &&& 1

/-- The number of set bits among the lowest. -/
def setBits (x : UInt32) : Nat → UInt32
  | 0 => 0
  | bit + 1 => setBits x bit + bitOf x bit

def popCount (x : UInt32) : UInt32 :=
  setBits x 32

/-- The grey level of a value in a mode that paints values; `previous` is the value before it. -/
def Mode.gray (mode : Mode) (bitPlane : UInt8) (previous x : UInt32) : UInt8 :=
  match mode with
  | .raw => scaleWord x
  | .bitPlane => (bitOf x bitPlane.toNat * 255).toUInt8
  | .hamming => (popCount x * 255 / 32).toUInt8
  | .transition => scaleWord (x ^^^ previous)
  | .pair => 0

/-- The darkest and the brightest grey level seen; before the first the bounds are crossed. -/
structure GrayRange where
  min : UInt8 := 255
  max : UInt8 := 0
  deriving DecidableEq, Repr

namespace GrayRange

def observe (range : GrayRange) (gray : UInt8) : GrayRange :=
  { min := Min.min range.min gray, max := Max.max range.max gray }

def ofArray (grays : Array UInt8) : GrayRange :=
  grays.foldl observe {}

end GrayRange

/-- The bounds of a stretch: those observed, or those configured. -/
def Contrast.bounds (c : Contrast) (observed : GrayRange) : UInt8 × UInt8 :=
  if c.auto then (observed.min, observed.max) else (c.min, c.max)

/-- A grey level after the stretch; what lies outside the bounds saturates. -/
def stretchLevel (low high gray : UInt8) : UInt8 :=
  let distance : Int := gray.toNat - low.toNat
  let level := Int.tdiv (distance * 255) (high.toNat - low.toNat)
  (min level.toNat 255).toUInt8

/-- Stretches all grey levels; bounds that leave no room change nothing. -/
def stretch (low high : UInt8) (grays : Array UInt8) : Array UInt8 :=
  if low < high then grays.map (stretchLevel low high) else grays

end OrbitImage
