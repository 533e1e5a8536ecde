import OrbitImage.Document.Json
import OrbitImage.Document.JsonReader
import OrbitImage.Document.Record
import OrbitImage.Request.Basic
/-!
Requests as records of JSON documents. Every field is required but the name of the built-in
generator and the scale of pairs; of a contrast record any field may be missing.
-/
namespace OrbitImage

namespace Contrast

def members (c : Contrast) : List (String × Json) :=
  [("enabled", .bool c.enabled), ("auto", .bool c.auto), ("min", .int c.min.toNat),
    ("max", .int c.max.toNat)]

def toJson (c : Contrast) : Json :=
  .map c.members

end Contrast

structure ContrastFields where
  enabled : Option Bool := none
  auto : Option Bool := none
  min : Option UInt8 := none
  max : Option UInt8 := none

namespace ContrastFields

def slots : List (Slot ContrastFields) :=
  [.of "enabled" (·.enabled) (fun v f => { f with enabled := some v }) Node.readBool,
   .of "auto" (·.auto) (fun v f => { f with auto := some v }) Node.readBool,
   .of "min" (·.min) (fun v f => { f with min := some v }) Node.readByte,
   .of "max" (·.max) (fun v f => { f with max := some v }) Node.readByte]

/-- What is not given is as in the default contrast. -/
def complete (f : ContrastFields) : Contrast :=
  let c : Contrast := {}
  { enabled := f.enabled.getD c.enabled
    auto := f.auto.getD c.auto
    min := f.min.getD c.min
    max := f.max.getD c.max }

end ContrastFields

namespace Node

def readContrast (origin : Origin) (node : Node) : Except Refusal Contrast :=
  ContrastFields.complete <$> node.readRecord origin ContrastFields.slots {}

/-- A side length; a 32-bit word that no image has for a side is named in the refusal. -/
def readResolution (node : Node) : Except Refusal Resolution := do
  let side ← node.readWord
  match Resolution.ofSide side with
  | .ok resolution => return resolution
  | .error _ => throw (.side side)

end Node

namespace Request

def members (r : Request) : List (String × Json) :=
  [("equation", .text r.equation), ("seed", .int r.seed.toNat),
    ("resolution", .int r.resolution.side.toNat), ("mode", .text r.mode.id),
    ("bitPlaneIndex", .int r.bitPlane.toNat), ("contrastStretch", r.contrast.toJson),
    ("useBuiltIn", .bool r.useBuiltIn), ("builtInType", .text r.builtInName),
    ("pairScale", .text r.pairScale.id)]

def toJson (r : Request) : Json :=
  .map r.members

structure Fields where
  equation : Option String := none
  seed : Option UInt32 := none
  resolution : Option Resolution := none
  mode : Option Mode := none
  bitPlane : Option UInt8 := none
  contrast : Option Contrast := none
  useBuiltIn : Option Bool := none
  builtInName : Option String := none
  pairScale : Option PairScale := none

namespace Fields

def slots (origin : Origin) : List (Slot Fields) :=
  [.of "equation" (·.equation) (fun v f => { f with equation := some v }) Node.readText,
   .of "seed" (·.seed) (fun v f => { f with seed := some v }) Node.readWord,
   .of "resolution" (·.resolution) (fun v f => { f with resolution := some v })
     Node.readResolution,
   .of "mode" (·.mode) (fun v f => { f with mode := some v })
     (Node.readNamed origin Mode.all Mode.id),
   .of "bitPlaneIndex" (·.bitPlane) (fun v f => { f with bitPlane := some v }) Node.readByte,
   .of "contrastStretch" (·.contrast) (fun v f => { f with contrast := some v })
     (Node.readContrast origin),
   .of "useBuiltIn" (·.useBuiltIn) (fun v f => { f with useBuiltIn := some v }) Node.readBool,
   .of "builtInType" (·.builtInName) (fun v f => { f with builtInName := some v })
     Node.readText,
   .of "pairScale" (·.pairScale) (fun v f => { f with pairScale := some v })
     (Node.readNamed origin PairScale.all PairScale.id)]

/-- The request, if no required field is missing. -/
def complete? (f : Fields) : Option Request := do
  return { equation := ← f.equation
           seed := ← f.seed
           resolution := ← f.resolution
           mode := ← f.mode
           bitPlane := ← f.bitPlane
           contrast := ← f.contrast
           useBuiltIn := ← f.useBuiltIn
           builtInName := f.builtInName.getD ""
           pairScale := f.pairScale.getD .log }

end Fields

def ofNode (origin : Origin) (node : Node) : Except Refusal Request := do
  match (← node.readRecord origin (Fields.slots origin) {}).complete? with
  | some r => return r
  | none => throw .invalid

def ofJson (text : String) : Except Refusal Request :=
  (Reading.ofJson text).value (ofNode .json)

end Request

end OrbitImage
