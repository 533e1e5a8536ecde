import OrbitImage.Fault
/-!
How values become grey levels: the modes, and the scale of a density map.
-/
namespace OrbitImage

inductive Mode
  /-- The value, scaled. -/
  | raw
  /-- One bit of the value. -/
  | bitPlane
  /-- The number of set bits, scaled. -/
  | hamming
  /-- The density of pairs of a value and the next. -/
  | pair
  /-- The bits that change from a value to the next, scaled. -/
  | transition
  deriving DecidableEq, Repr

/-- How the hits of a cell compare with those of the densest. -/
inductive PairScale
  | log
  | linear
  deriving DecidableEq, Repr

namespace Mode

def all : List Mode :=
  [raw, bitPlane, hamming, pair, transition]

/-- The name used in requests and session files. -/
def id : Mode → String
  | raw => "raw"
  | bitPlane => "bit"
  | hamming => "hamming"
  | pair => "pair"
  | transition => "transition"

def label : Mode → String
  | raw => "Raw Value"
  | bitPlane => "Bit Plane"
  | hamming => "Hamming Weight"
  | pair => "Successive Pair"
  | transition => "Transition"

def description : Mode → String
  | raw => "Each value scaled to a grey level; structure shows as bands or gradients"
  | bitPlane => "One bit position per pixel; stuck or periodic bits show as stripes"
  | hamming => "Number of set bits per value; should look like uniform mid-grey noise"
  | pair => "Density of (previous, next) pairs; lattices reveal correlated outputs"
  | transition => "XOR of successive values; shows which bits flip between steps"

def ofId? (id : String) : Option Mode :=
  all.find? (·.id = id)

/-- The mode a user names; blanks around the name and letter case do not matter. -/
def parse (name : String) : Except Fault Mode :=
  match Text.lower (Text.trim name) with
  | "raw" => .ok raw
  | "bit" | "bitplane" | "bit-plane" => .ok bitPlane
  | "hamming" => .ok hamming
  | "pair" => .ok pair
  | "transition" => .ok transition
  | _ => .error (.setting (.unknownMode name))

end Mode

namespace PairScale

def all : List PairScale :=
  [log, linear]

def id : PairScale → String
  | log => "log"
  | linear => "linear"

def ofId? (id : String) : Option PairScale :=
  all.find? (·.id = id)

def parse (name : String) : Except Fault PairScale :=
  match Text.lower (Text.trim name) with
  | "log" => .ok log
  | "linear" => .ok linear
  | _ => .error (.setting (.unknownPairScale name))

end PairScale

end OrbitImage
