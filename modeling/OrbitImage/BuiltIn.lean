import OrbitImage.Fault
/-!
The generators that are built in, with their names.
-/
namespace OrbitImage

inductive BuiltIn
  | lcg
  | xorshift32
  | splitMix
  | plusFour
  | timesTwo
  deriving DecidableEq, Repr

namespace BuiltIn

def all : List BuiltIn :=
  [lcg, xorshift32, splitMix, plusFour, timesTwo]

/-- The name used in requests and session files. -/
def id : BuiltIn → String
  | lcg => "lcg"
  | xorshift32 => "xorshift32"
  | splitMix => "splitmix"
  | plusFour => "bad1"
  | timesTwo => "bad2"

def label : BuiltIn → String
  | lcg => "LCG"
  | xorshift32 => "Xorshift32"
  | splitMix => "SplitMix"
  | plusFour => "Bad: +4"
  | timesTwo => "Bad: x2"

def description : BuiltIn → String
  | lcg => "Linear Congruential Generator"
  | xorshift32 => "Fast XOR-shift based generator"
  | splitMix => "High-quality hash-based generator"
  | plusFour => "Intentionally poor: x+4"
  | timesTwo => "Intentionally poor: x*2"

/-- One step on a 32-bit word, with arithmetic modulo 2^32. -/
def step : BuiltIn → UInt32 → UInt32
  | lcg, x => x * 1664525 + 1013904223
  | xorshift32, x =>
    let x := x ^^^ (x <<< 13)
    let x := x ^^^ (x >>> 17)
    x ^^^ (x <<< 5)
  | splitMix, x =>
    let x := (x ^^^ (x >>> 16)) * 0x85ebca6b
    let x := (x ^^^ (x >>> 13)) * 0xc2b2ae35
    x ^^^ (x >>> 16)
  | plusFour, x => x + 4
  | timesTwo, x => x * 2

def ofId? (id : String) : Option BuiltIn :=
  all.find? (·.id = id)

/-- The generator a user names, by its id or a longer name; blanks around the name and letter case
do not matter. -/
def find? (name : String) : Option BuiltIn :=
  match Text.lower (Text.trim name) with
  | "lcg" => some lcg
  | "xorshift32" | "xorshift" => some xorshift32
  | "splitmix" => some splitMix
  | "bad1" | "bad-plus-four" => some plusFour
  | "bad2" | "bad-times-two" => some timesTwo
  | _ => none

def parse (name : String) : Except Fault BuiltIn :=
  match find? name with
  | some b => .ok b
  | none => .error (.setting (.unknownBuiltIn name))

end BuiltIn

end OrbitImage
