import OrbitImage.Command.Render
import OrbitImage.Side
/-!
The command that makes two images for comparison, each of its own generator or seed.
-/
namespace OrbitImage

structure SplitArguments where
  /-- What generates on the left: an equation, or the name of a built-in generator. -/
  left : Option String := none
  right : Option String := none
  /-- A session file to start from. -/
  session : Option String := none
  options : Options := {}
  rightSeed : Option UInt32 := none
  output : String := "split.png"
  scale : UInt32 := 1
  /-- A session file for the settings used. -/
  saveTo : Option String := none
  deriving DecidableEq, Repr

/-- The panel with another source; names of built-in generators come before equations. -/
def Panel.withSource (p : Panel) (source : String) : Panel :=
  match BuiltIn.find? source with
  | some b => { p with builtInName := b.id }
  | none => { p with equation := source, builtInName := "" }

namespace SplitArguments

/-- The panels without a session file: equal but for their seeds. -/
def defaultPanels : Both Panel :=
  ⟨{}, { seed := defaultSeed + 1 }⟩

/-- The seed on the right: as given for the right side, else the one after a given seed. -/
def seedOnRight (a : SplitArguments) (seed : UInt32) : UInt32 :=
  match a.rightSeed, a.options.seed with
  | some seed, _ => seed
  | none, some seed => seed + 1
  | none, none => seed

/-- The two panels to render, from the saved ones or the default ones. -/
def panels (a : SplitArguments) (start : Both Panel) : Except Fault (Both Panel) := do
  let withSource (p : Panel) (source : Option String) : Panel :=
    match source with
    | some source => p.withSource source
    | none => p
  let left := a.options.apply (withSource start.left a.left)
  let right := a.options.apply (withSource start.right a.right)
  let right := { right with seed := a.seedOnRight right.seed }
  return ⟨← left.checked, ← right.checked⟩

variable {m : Type → Type} [Host m]

/-- The two panels to render, with the saved panels read from their file. -/
def resolve (a : SplitArguments) : Command m (Both Panel) := do
  let start ← match a.session with
    | some path => do
      let saved ← Host.load (α := SplitSession) path
      pure ⟨saved.left, saved.right⟩
    | none => pure defaultPanels
  a.panels start

/-- Reports and writes the image of a side; the fault of a side without one is told and kept. -/
def finish (a : SplitArguments) (side : Side) (panel : Panel) :
    Except Fault Image → Command m (Option Fault)
  | .ok image => do
    Host.reportImage image panel.contrast
    let path := Path.suffixed a.output side.name
    Host.saveImage path image a.scale
    Host.status "Wrote" (← Host.shown path)
    return none
  | .error fault => do
    Host.status "Failed" (side.name ++ " side: " ++ fault.message)
    return some fault

/-- Makes both images. A generator that fails on one side leaves the other side alone; the first
such fault is the outcome. -/
def run (a : SplitArguments) : Command m Unit := do
  let a := { a with options := ← Host.rollSeed a.options }
  let ⟨left, right⟩ ← a.resolve
  if let some path := a.saveTo then
    Host.save path ({ left, right, timestamp := some (← (Host.clock : m _)) } : SplitSession)
    Host.status "Exported" (← Host.shown path)
  Host.status "Left" left.text
  Host.status "Right" right.text
  let onLeft := (← left.toRequest).generate Float
  let onRight := (← right.toRequest).generate Float
  let leftFault ← a.finish .left left onLeft.outcome
  let rightFault ← a.finish .right right onRight.outcome
  match leftFault <|> rightFault with
  | some fault => throw fault
  | none => return ()

end SplitArguments

end OrbitImage
