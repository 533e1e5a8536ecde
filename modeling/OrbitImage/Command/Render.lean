import OrbitImage.Command.Options
import OrbitImage.Host.Basic
import OrbitImage.Image.Painting
import OrbitImage.Image.Record
import OrbitImage.Image.Summary
/-!
The command that makes one image. Main definitions: `RenderArguments.panel`, the settings that the
arguments and a saved panel come to, and `RenderArguments.run`.
-/
namespace OrbitImage

structure RenderArguments where
  equation : Option String := none
  builtIn : Option BuiltIn := none
  preset : Option String := none
  /-- A session file to start from. -/
  session : Option String := none
  options : Options := {}
  output : String := "bitviz.png"
  scale : UInt32 := 1
  /-- Whether the outcome is put out as a message. -/
  stats : Bool := false
  /-- A session file for the settings used. -/
  saveTo : Option String := none
  deriving DecidableEq, Repr

/-- A line for each thing worth knowing about an image. -/
def Image.report (image : Image) (contrast : Contrast) : List (String × String) :=
  (match image.stats with
    | .bits entries => [("Bits", BitStat.summary entries)]
    | .pairs most => [("Density", "busiest cell hit " ++ toString most ++ " times")]) ++
  match image.darkest, image.brightest with
  | some min, some max => [("Contrast", contrast.summary ⟨min, max⟩)]
  | _, _ => []

namespace Host

variable {m : Type → Type} [Host m]

def reportImage (image : Image) (contrast : Contrast) : Command m Unit :=
  (image.report contrast).forM fun (verb, message) => status verb message

/-- Draws a seed if one is asked for, and tells it. -/
def rollSeed (options : Options) : Command m Options := do
  if options.randomSeed then
    let (options, drawn) := options.roll (← (randomWord : m _))
    if let some seed := drawn then status "Seed" ("random seed " ++ toString seed)
    return options
  else return options

end Host

namespace RenderArguments

/-- The panel with the source of the arguments: a preset, an equation and a built-in generator, of
which each takes the place of what comes before it. -/
def withSource (a : RenderArguments) (p : Panel) : Except Fault Panel := do
  let p ← match a.preset with
    | some name =>
      match Preset.find? name with
      | some preset => pure { p with equation := preset.equation, builtInName := "" }
      | none => throw (.setting (.unknownPreset name))
    | none => pure p
  let p := match a.equation with
    | some equation => { p with equation, builtInName := "" }
    | none => p
  return match a.builtIn with
    | some b => { p with builtInName := b.id }
    | none => p

/-- The panel to render, when `start` is the saved one or the default. -/
def panel (a : RenderArguments) (start : Panel) : Except Fault Panel := do
  (a.options.apply (← a.withSource start)).checked

variable {m : Type → Type} [Host m]

/-- The panel to render, with the saved panel read from its file. -/
def resolve (a : RenderArguments) : Command m Panel := do
  let start ← match a.session with
    | some path => do pure (← Host.load (α := Session) path).panel
    | none => pure {}
  a.panel start

def run (a : RenderArguments) : Command m Unit := do
  let a := { a with options := ← Host.rollSeed a.options }
  let panel ← a.resolve
  let request ← panel.toRequest
  if let some path := a.saveTo then
    Host.save path ({ panel, timestamp := some (← (Host.clock : m _)) } : Session)
    Host.status "Exported" (← Host.shown path)
  Host.status "Generating" panel.text
  let generation := request.generate Float
  if a.stats then (Host.print (outcomeMessage generation.outcome).render : m Unit)
  let image ← generation.outcome
  Host.reportImage image panel.contrast
  Host.saveImage a.output image a.scale
  Host.status "Wrote" (← Host.shown a.output)

end RenderArguments

end OrbitImage
