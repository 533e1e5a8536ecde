import OrbitImage.Host.Basic
import OrbitImage.Generator
/-!
The commands that make no image: one shows what an equation compiles to and its first values, the
other lists all names.
-/
namespace OrbitImage

structure CheckArguments where
  equation : String
  seed : UInt32 := defaultSeed
  steps : UInt64 := 0
  deriving DecidableEq, Repr

namespace CheckArguments

def program (a : CheckArguments) : Except Fault Program :=
  match Program.compile a.equation with
  | .ok p => .ok p
  | .error fault => .error (.equation fault)

def sample (a : CheckArguments) : Except Fault (Array UInt32) := do
  return (Generator.custom (← a.program)).sample a.seed a.steps.toNat

/-- A value in both notations. -/
def line (x : UInt32) : String :=
  "0x" ++ Text.hex 8 x.toNat ++ " " ++ toString x

variable {m : Type → Type} [Host m]

def run (a : CheckArguments) : Command m Unit := do
  let p ← a.program
  let tokens ← match Token.scan a.equation with
    | .ok tokens => pure tokens
    | .error fault => throw (.equation fault)
  Host.status "Compiled" a.equation
  Host.status "Tokens" (Token.row tokens)
  Host.status "Postfix" p.text
  if a.steps > 0 then
    Host.status "Sampling"
      (toString a.steps ++ " values from seed " ++ toString a.seed)
    (← a.sample).forM fun x => (Host.print (line x) : m Unit)

end CheckArguments

structure ListingArguments where
  json : Bool := false
  deriving DecidableEq, Repr

namespace Listing

/-- All names with their texts; keys are in alphabetical order. -/
def toJson : Json :=
  .map
    [("builtIns", .list (BuiltIn.all.map fun b =>
        .map [("description", .text b.description), ("id", .text b.id),
          ("label", .text b.label)])),
     ("modes", .list (Mode.all.map fun mode =>
        .map [("description", .text mode.description), ("id", .text mode.id),
          ("label", .text mode.label)])),
     ("presets", .list (Preset.all.map fun p =>
        .map [("equation", .text p.equation), ("name", .text p.name), ("slug", .text p.slug)]))]

/-- A name, left-aligned to twenty characters, and its text. -/
def line (name text : String) : String :=
  "  " ++ name.pushn ' ' (20 - name.length) ++ " " ++ text

variable {m : Type → Type} [Host m]

def lines (heading : String) (entries : List (String × String)) : Command m Unit := do
  Host.status heading ""
  entries.forM fun (name, text) => (Host.print (line name text) : m Unit)

def run (a : ListingArguments) : Command m Unit := do
  if a.json then (Host.print toJson.render : m Unit)
  else
    lines "Presets" (Preset.all.map fun p => (p.slug, p.equation))
    lines "Built-ins" (BuiltIn.all.map fun b => (b.id, b.description))
    lines "Modes" (Mode.all.map fun mode => (mode.id, mode.description))

end Listing

end OrbitImage
