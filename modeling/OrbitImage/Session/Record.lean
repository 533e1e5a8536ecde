import OrbitImage.Document.Yaml.Reader
import OrbitImage.Request.Record
import OrbitImage.Session.Panel
/-!
Sessions as records of JSON and YAML documents. Of a panel any field may be missing. A session has
the fields of its panel as its own; so its values are looked through one by one before it is known
which of them the panel takes, and only the timestamp is read at once.
-/
namespace OrbitImage

namespace Panel

def members (p : Panel) : List (String × Json) :=
  [("equation", .text p.equation), ("seed", .int p.seed.toNat),
    ("resolution", .int p.resolution.side.toNat), ("mode", .text p.mode.id),
    ("bitIndex", .int p.bitPlane.toNat), ("builtInGenerator", .text p.builtInName),
    ("contrastStretch", p.contrast.toJson), ("pairScale", .text p.pairScale.id)]

def toJson (p : Panel) : Json :=
  .map p.members

structure Fields where
  equation : Option String := none
  seed : Option UInt32 := none
  resolution : Option Resolution := none
  mode : Option Mode := none
  bitPlane : Option UInt8 := none
  builtInName : Option String := none
  contrast : Option Contrast := none
  pairScale : Option PairScale := none

namespace Fields

def slots (origin : Origin) : List (Slot Fields) :=
  [.of "equation" (·.equation) (fun v f => { f with equation := some v }) Node.readText,
   .of "seed" (·.seed) (fun v f => { f with seed := some v }) Node.readWord,
   .of "resolution" (·.resolution) (fun v f => { f with resolution := some v })
     Node.readResolution,
   .of "mode" (·.mode) (fun v f => { f with mode := some v })
     (Node.readNamed origin Mode.all Mode.id),
   .of "bitIndex" (·.bitPlane) (fun v f => { f with bitPlane := some v }) Node.readByte,
   .of "builtInGenerator" (·.builtInName) (fun v f => { f with builtInName := some v })
     Node.readText,
   .of "contrastStretch" (·.contrast) (fun v f => { f with contrast := some v })
     (Node.readContrast origin),
   .of "pairScale" (·.pairScale) (fun v f => { f with pairScale := some v })
     (Node.readNamed origin PairScale.all PairScale.id)]

/-- What is not given is as in the default panel. -/
def complete (f : Fields) : Panel :=
  let p : Panel := {}
  { equation := f.equation.getD p.equation
    seed := f.seed.getD p.seed
    resolution := f.resolution.getD p.resolution
    mode := f.mode.getD p.mode
    bitPlane := f.bitPlane.getD p.bitPlane
    builtInName := f.builtInName.getD p.builtInName
    contrast := f.contrast.getD p.contrast
    pairScale := f.pairScale.getD p.pairScale }

end Fields

def ofNode (origin : Origin) (node : Node) : Except Refusal Panel :=
  Fields.complete <$> node.readRecord origin (Fields.slots origin) {}

end Panel

/-- The time as a member, left out if there is none. -/
def timestampMember : Option String → List (String × Json)
  | some time => [("timestamp", .text time)]
  | none => []

namespace Session

def toJson (s : Session) : Json :=
  .map (s.panel.members ++ timestampMember s.timestamp)

/-- How deep lists and maps may lie in a value of a session. -/
def depthLimit : Nat :=
  126

/-- The members other than the timestamp, looked through. Their keys are names, with quotes or
without. -/
def siftMember (seen : Option (Option String) × List (Node × Node)) (member : Node × Node) :
    Except Refusal (Option (Option String) × List (Node × Node)) := do
  let (key, node) := member
  let name ← key.readText
  if name = "timestamp" then
    match seen.1 with
    | some _ => throw .invalid
    | none => return (some (← node.readOptionalText), seen.2)
  else return (seen.1, (.scalar (.text name), ← node.sift depthLimit) :: seen.2)

def ofMembers (members : List (Node × Node)) : Except Refusal Session := do
  let (timestamp, sifted) ← members.foldlM siftMember (none, [])
  let panel ← Panel.ofNode .sifted (.map sifted.reverse)
  return { panel, timestamp := timestamp.join }

def ofNode : Node → Except Refusal Session
  | .map members => ofMembers members
  | .scalar (.plain "") => ofMembers []
  | _ => .error .invalid

end Session

namespace SplitSession

def members (s : SplitSession) : List (String × Json) :=
  [("leftPanel", s.left.toJson), ("rightPanel", s.right.toJson)] ++ timestampMember s.timestamp

def toJson (s : SplitSession) : Json :=
  .map s.members

structure Fields where
  left : Option Panel := none
  right : Option Panel := none
  timestamp : Option (Option String) := none

def slots (origin : Origin) : List (Slot Fields) :=
  [.of "leftPanel" (·.left) (fun v f => { f with left := some v }) (Panel.ofNode origin),
   .of "rightPanel" (·.right) (fun v f => { f with right := some v }) (Panel.ofNode origin),
   .of "timestamp" (·.timestamp) (fun v f => { f with timestamp := some v })
     Node.readOptionalText]

def ofNode (origin : Origin) (node : Node) : Except Refusal SplitSession := do
  let f ← node.readRecord origin (slots origin) {}
  return { left := f.left.getD {}, right := f.right.getD {}, timestamp := f.timestamp.join }

end SplitSession

/-- What is kept in a file as a document. -/
class Saved (α : Type) where
  toJson : α → Json
  ofNode : Origin → Node → Except Refusal α

instance : Saved Session where
  toJson := Session.toJson
  ofNode _ := Session.ofNode

instance : Saved SplitSession where
  toJson := SplitSession.toJson
  ofNode := SplitSession.ofNode

namespace Saved

variable {α : Type} [Saved α]

/-- What a refusal says about a document. -/
def sideOf : Refusal → Option UInt32
  | .invalid => none
  | .side length => some length

def ofJson (text : String) : Except Fault α :=
  match (Reading.ofJson text).value (ofNode .json) with
  | .ok a => .ok a
  | .error refusal => .error (.setting (.invalidJson (sideOf refusal)))

/-- A YAML document, which is named in a refusal. -/
def ofYaml (path text : String) : Except Fault α :=
  match (Reading.ofYaml text).value (ofNode .yaml) with
  | .ok a => .ok a
  | .error refusal => .error (.setting (.invalidYaml path (sideOf refusal)))

def text (a : α) : String :=
  (toJson a).renderIndented ++ "\n"

end Saved

end OrbitImage
