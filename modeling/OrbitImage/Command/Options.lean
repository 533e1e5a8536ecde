import OrbitImage.Session.Panel
/-!
Options that override the settings of panels. What is not given keeps its value.
-/
namespace OrbitImage

structure Options where
  seed : Option UInt32 := none
  randomSeed : Bool := false
  resolution : Option Resolution := none
  mode : Option Mode := none
  bitPlane : Option UInt8 := none
  contrast : Bool := false
  contrastMin : Option UInt8 := none
  contrastMax : Option UInt8 := none
  pairScale : Option PairScale := none
  deriving DecidableEq, Repr

namespace Options

/-- The options with a drawn number for their seed, if one is to be drawn. -/
def roll (o : Options) (drawn : UInt32) : Options × Option UInt32 :=
  if o.randomSeed then ({ o with seed := some drawn, randomSeed := false }, some drawn)
  else (o, none)

/-- The contrast of the options: fixed if a bound is given, else observed if asked for. -/
def contrastOver (o : Options) (contrast : Contrast) : Contrast :=
  match o.contrastMin, o.contrastMax with
  | none, none => if o.contrast then .observed else contrast
  | low, high => .fixed (low.getD 0) (high.getD 255)

/-- The panel with the options applied; a bit plane implies the mode that shows it. -/
def apply (o : Options) (p : Panel) : Panel :=
  { p with
    seed := o.seed.getD p.seed
    resolution := o.resolution.getD p.resolution
    mode := if o.bitPlane.isSome then .bitPlane else o.mode.getD p.mode
    bitPlane := o.bitPlane.getD p.bitPlane
    contrast := o.contrastOver p.contrast
    pairScale := o.pairScale.getD p.pairScale }

end Options

/-- A panel whose request is known to be valid. -/
def Panel.checked (p : Panel) : Except Fault Panel := do
  let _ ← p.toRequest
  return p

/-- A short description: what generates, and how it is drawn. -/
def Panel.text (p : Panel) : String :=
  let source := if p.builtInName.isEmpty then p.equation else "built-in " ++ p.builtInName
  let mode := match p.mode with
    | .bitPlane => "bit " ++ toString p.bitPlane
    | mode => mode.id
  source ++ " (" ++ p.resolution.text ++ ", " ++ mode ++
    (if p.contrast.enabled then ", contrast" else "") ++ ")"

end OrbitImage
