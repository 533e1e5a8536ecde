import OrbitImage.Command.Usage
import OrbitImage.Text.Numeral
/-!
The grammar of command lines. An argument that starts with a dash names a flag, or several of one
letter; a flag with a value takes it after an equals sign, attached to its letter, or as the next
argument. Two dashes end the flags. A value that is an argument of its own is read only when the
next argument has been seen to be one that can follow.
-/
namespace OrbitImage

/-- A value among the arguments, which may be given once. -/
structure Parameter (ρ : Type) where
  isGiven : ρ → Bool
  fill : String → ρ → Except UsageFault ρ

/-- A parameter that the record holds as an option. -/
def Parameter.of {ρ α : Type} (get : ρ → Option α) (set : α → ρ → ρ)
    (read : String → Except UsageFault α) : Parameter ρ where
  isGiven r := (get r).isSome
  fill s r := do return set (← read s) r

inductive Effect (ρ : Type)
  | take (parameter : Parameter ρ)
  /-- A switch, which may be given once. -/
  | turn (isOn : ρ → Bool) (on : ρ → ρ)
  | verbose
  /-- Asks for something other than a command. -/
  | stop (fault : UsageFault)

structure Flag (ρ : Type) where
  long : String
  short : Option Char
  effect : Effect ρ

/-- The flag for a part of a record. -/
def Flag.within {ρ σ : Type} (get : ρ → σ) (set : σ → ρ → ρ) (flag : Flag σ) : Flag ρ where
  long := flag.long
  short := flag.short
  effect := match flag.effect with
    | .take p => .take
      { isGiven := fun r => p.isGiven (get r)
        fill := fun s r => do return set (← p.fill s (get r)) r }
    | .turn isOn on => .turn (fun r => isOn (get r)) (fun r => set (on (get r)) r)
    | .verbose => .verbose
    | .stop fault => .stop fault

/-- An argument by its first characters. -/
inductive Word
  | endOfFlags
  | long (name : String) (value : Option String)
  | short (letters : List Char)
  | plain
  deriving DecidableEq, Repr

def Word.of (argument : String) : Word :=
  match argument.toList with
  | ['-', '-'] => endOfFlags
  | '-' :: '-' :: cs =>
    long (String.ofList (cs.takeWhile (· ≠ '=')))
      (match cs.dropWhile (· ≠ '=') with
        | [] => none
        | _ :: value => some (String.ofList value))
  | '-' :: c :: cs => short (c :: cs)
  | _ => plain

/-- What has been read of a command line. -/
structure Draft (ρ : Type) where
  record : ρ
  verbosity : UInt8 := 0
  /-- A parameter that was named, with its value once that has come. -/
  pending : Option (Parameter ρ × Option String) := none
  /-- Whether the next argument may be the value that is pending. -/
  awaiting : Bool := false

namespace Draft

variable {ρ : Type}

def give (d : Draft ρ) (p : Parameter ρ) (value : String) : Except UsageFault (Draft ρ) := do
  if p.isGiven d.record then throw .conflict
  return { d with record := ← p.fill value d.record }

def settle (d : Draft ρ) : Except UsageFault (Draft ρ) :=
  let rest := { d with pending := none, awaiting := false }
  match d.pending with
  | none => .ok rest
  | some (_, none) => .error .invalidValue
  | some (p, some value) => rest.give p value

/-- A flag with or without an attached value. -/
def apply (d : Draft ρ) : Effect ρ → Option String → Except UsageFault (Draft ρ)
  | .take p, some value => do (← d.settle).give p value
  | .take p, none => do return { ← d.settle with pending := some (p, none), awaiting := true }
  | _, some _ => .error .surplusValue
  | .turn isOn on, none => do
    let d ← d.settle
    if isOn d.record then throw .conflict
    return { d with record := on d.record }
  | .verbose, none => do
    let d ← d.settle
    return { d with verbosity := if d.verbosity < 255 then d.verbosity + 1 else 255 }
  | .stop fault, none => do
    let _ ← d.settle
    throw fault

/-- The flags of one letter each; what follows the letter of a flag with a value is the value. -/
def letters (flags : List (Flag ρ)) : List Char → Draft ρ → Except UsageFault (Draft ρ)
  | [], d => .ok d
  | c :: cs, d =>
    match flags.find? (·.short = some c) with
    | none => .error .unknownArgument
    | some flag =>
      match flag.effect, cs with
      | .take p, [] => d.apply (.take p) none
      | .take p, '=' :: value => d.apply (.take p) (some (String.ofList value))
      | .take p, value => d.apply (.take p) (some (String.ofList value))
      | effect, cs => do letters flags cs (← d.apply effect none)

def long (flags : List (Flag ρ)) (name : String) (value : Option String) (d : Draft ρ) :
    Except UsageFault (Draft ρ) :=
  match flags.find? (·.long = name) with
  | none => .error .unknownArgument
  | some flag => d.apply flag.effect value

/-- An argument that is no flag, with the parameters that are still open. -/
def plain (d : Draft ρ) (argument : String) :
    List (Parameter ρ) → Except UsageFault (Draft ρ × List (Parameter ρ))
  | [] => .error .unknownArgument
  | p :: ps => do return ({ ← d.settle with pending := some (p, some argument) }, ps)

def read (flags : List (Flag ρ)) :
    List String → List (Parameter ρ) → Draft ρ → Except UsageFault (Draft ρ)
  | [], _, d => d.settle
  | argument :: rest, ps, d =>
    match Word.of argument with
    | .endOfFlags => readPlain rest ps d
    | .long name value => do read flags rest ps (← d.long flags name value)
    | .short cs => do read flags rest ps (← d.letters flags cs)
    | .plain =>
      match d.awaiting, d.pending with
      | true, some (p, _) =>
        read flags rest ps { d with pending := some (p, some argument), awaiting := false }
      | _, _ => do
        let (d, ps) ← d.plain argument ps
        read flags rest ps d
where
  readPlain : List String → List (Parameter ρ) → Draft ρ → Except UsageFault (Draft ρ)
    | [], _, d => d.settle
    | argument :: rest, ps, d => do
      let (d, ps) ← d.plain argument ps
      readPlain rest ps d

end Draft

/-! Readers of values. -/

namespace Value

def text (s : String) : Except UsageFault String :=
  .ok s

def path (s : String) : Except UsageFault String :=
  if s.isEmpty then .error .invalidValue else .ok s

def integer (low high : Nat) (s : String) : Except UsageFault Nat :=
  match Text.signed? s with
  | some (.ofNat n) => if low ≤ n ∧ n ≤ high then .ok n else .error .refusedValue
  | _ => .error .refusedValue

def word (s : String) : Except UsageFault UInt32 := do
  return (← integer 0 4294967295 s).toUInt32

def byte (s : String) : Except UsageFault UInt8 := do
  return (← integer 0 255 s).toUInt8

def count (s : String) : Except UsageFault UInt64 :=
  match Text.unsigned? UInt64.size s with
  | some n => .ok n.toUInt64
  | none => .error .refusedValue

/-- A value with a reader of its own. -/
def parsed {α ε : Type} (parse : String → Except ε α) (s : String) : Except UsageFault α :=
  (parse s).mapError fun _ => .refusedValue

end Value

end OrbitImage
