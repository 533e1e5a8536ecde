import OrbitImage.Document.Json
import OrbitImage.Document.JsonReader
import OrbitImage.Document.Record
import OrbitImage.Image.Painting
/-!
Images as records of JSON documents, without their pixels, and the messages about generations.
A message lists its keys in alphabetical order.
-/
namespace OrbitImage

/-- An optional number as a member, left out if there is none. -/
def optionalByte (key : String) : Option UInt8 → List (String × Json)
  | some n => [(key, .int n.toNat)]
  | none => []

def BitStat.toJson (s : BitStat) : Json :=
  .map [("bit", .int s.bit.toNat), ("proportion", .float s.proportion),
    ("imbalance", .float s.imbalance)]

def Stats.toJson : Stats → Json
  | .bits entries => .map [("bitStats", .list (entries.map BitStat.toJson))]
  | .pairs maxHits => .map [("maxHits", .int maxHits.toNat)]

def Image.toJson (image : Image) : Json :=
  .map ([("resolution", .int image.side.toNat), ("stats", image.stats.toJson)] ++
    optionalByte "minVal" image.darkest ++ optionalByte "maxVal" image.brightest)

/-- The statistics with keys in alphabetical order. -/
def Stats.messageJson : Stats → Json
  | .bits entries =>
    .map [("bitStats", .list (entries.map fun s =>
      .map [("bit", .int s.bit.toNat), ("imbalance", .float s.imbalance),
        ("proportion", .float s.proportion)]))]
  | .pairs maxHits => .map [("maxHits", .int maxHits.toNat)]

def outcomeMessage : Except Fault Image → Json
  | .ok image =>
    .map (optionalByte "maxVal" image.brightest ++ optionalByte "minVal" image.darkest ++
      [("resolution", .int image.side.toNat), ("stats", image.stats.messageJson),
        ("success", .bool true)])
  | .error fault => .map [("error", .text fault.message), ("success", .bool false)]

namespace Node

/-- Any number; its value is not kept. -/
def readNumber : Node → Except Refusal Unit
  | .scalar (.number _) => .ok ()
  | _ => .error .invalid

def readOptionalByte : Node → Except Refusal (Option UInt8)
  | .scalar .null => .ok none
  | node => some <$> node.readByte

end Node

/-- What is read back of an image: of the statistics the bit numbers or the hits. -/
structure ImageOutline where
  side : UInt32
  bits : Option (List UInt8)
  maxHits : Option UInt32
  darkest : Option UInt8
  brightest : Option UInt8
  deriving DecidableEq, Repr

namespace ImageOutline

structure StatFields where
  bit : Option UInt8 := none
  proportion : Option Unit := none
  imbalance : Option Unit := none

def statSlots : List (Slot StatFields) :=
  [.of "bit" (·.bit) (fun v f => { f with bit := some v }) Node.readByte,
   .of "proportion" (·.proportion) (fun v f => { f with proportion := some v })
     Node.readNumber,
   .of "imbalance" (·.imbalance) (fun v f => { f with imbalance := some v }) Node.readNumber]

def readBit (node : Node) : Except Refusal UInt8 := do
  match ← node.readRecord .sifted statSlots {} with
  | ⟨some bit, some (), some ()⟩ => return bit
  | _ => throw .invalid

def readBits : Node → Except Refusal (List UInt8)
  | .list items => items.mapM readBit
  | _ => .error .invalid

/-- The statistics of bits if they can be read as such, else of pairs. -/
def readStats (node : Node) : Except Refusal (Option (List UInt8) × Option UInt32) := do
  let sifted ← node.sift 126
  let bitSlots : List (Slot (Option (List UInt8))) :=
    [.of "bitStats" id (fun v _ => some v) readBits]
  let pairSlots : List (Slot (Option UInt32)) :=
    [.of "maxHits" id (fun v _ => some v) Node.readWord]
  match sifted.readRecord .sifted bitSlots none with
  | .ok (some bits) => return (some bits, none)
  | _ =>
    match ← sifted.readRecord .sifted pairSlots none with
    | some maxHits => return (none, some maxHits)
    | none => throw .invalid

structure Fields where
  side : Option UInt32 := none
  stats : Option (Option (List UInt8) × Option UInt32) := none
  darkest : Option (Option UInt8) := none
  brightest : Option (Option UInt8) := none

def slots : List (Slot Fields) :=
  [.of "resolution" (·.side) (fun v f => { f with side := some v }) Node.readWord,
   .of "stats" (·.stats) (fun v f => { f with stats := some v }) readStats,
   .of "minVal" (·.darkest) (fun v f => { f with darkest := some v }) Node.readOptionalByte,
   .of "maxVal" (·.brightest) (fun v f => { f with brightest := some v })
     Node.readOptionalByte]

def ofNode (node : Node) : Except Refusal ImageOutline := do
  match ← node.readRecord .json slots {} with
  | ⟨some side, some (bits, maxHits), darkest, brightest⟩ =>
    return ⟨side, bits, maxHits, darkest.join, brightest.join⟩
  | _ => throw .invalid

def ofJson (text : String) : Except Refusal ImageOutline :=
  (Reading.ofJson text).value ofNode

end ImageOutline

end OrbitImage
