import OrbitImage.Request.Basic
/-!
Panels: the settings of one image as they are kept in a session. Unlike a request, a panel names
its built-in generator or none.
-/
namespace OrbitImage

structure Panel where
  equation : String := defaultEquation
  seed : UInt32 := defaultSeed
  resolution : Resolution := .r256
  mode : Mode := .raw
  bitPlane : UInt8 := 0
  /-- The name of a built-in generator, empty for the equation. -/
  builtInName : String := ""
  contrast : Contrast := {}
  pairScale : PairScale := .log
  deriving DecidableEq, Repr

namespace Panel

/-- The request of a panel whose generator is known and whose bit plane exists. -/
def toRequest (p : Panel) : Except Fault Request := do
  let r : Request :=
    { equation := p.equation
      seed := p.seed
      resolution := p.resolution
      mode := p.mode
      bitPlane := p.bitPlane
      contrast := p.contrast
      pairScale := p.pairScale }
  let r ← if p.builtInName.isEmpty then pure r
    else do pure (r.withBuiltIn (← BuiltIn.parse p.builtInName))
  r.validate
  return r

/-- The panel that keeps a request; the name of a generator that is not used is dropped. -/
def ofRequest (r : Request) : Panel :=
  { equation := r.equation
    seed := r.seed
    resolution := r.resolution
    mode := r.mode
    bitPlane := r.bitPlane
    builtInName := if r.useBuiltIn then r.builtInName else ""
    contrast := r.contrast
    pairScale := r.pairScale }

end Panel

/-- The settings of one image, and when they were saved. -/
structure Session where
  panel : Panel := {}
  timestamp : Option String := none
  deriving DecidableEq, Repr

structure SplitSession where
  left : Panel := {}
  right : Panel := {}
  timestamp : Option String := none
  deriving DecidableEq, Repr

end OrbitImage
