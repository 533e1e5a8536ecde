import OrbitImage.Command.Check
import OrbitImage.Command.Split
import OrbitImage.Command.Words
/-!
From the arguments of a command line to what is to be done, and to what is done. Main definitions:
`Invocation.parse` and `Task.run`.
-/
namespace OrbitImage

inductive Shell
  | bash
  | elvish
  | fish
  | powershell
  | zsh
  deriving DecidableEq, Repr

def Shell.name : Shell → String
  | bash => "bash"
  | elvish => "elvish"
  | fish => "fish"
  | powershell => "powershell"
  | zsh => "zsh"

def Shell.ofName? (name : String) : Option Shell :=
  [bash, elvish, fish, powershell, zsh].find? (·.name = name)

inductive Task
  | render (arguments : RenderArguments)
  | split (arguments : SplitArguments)
  | check (arguments : CheckArguments)
  | listing (arguments : ListingArguments)
  | completions (shell : Shell)
  deriving DecidableEq

/-- A task, and how much is to be told about it. -/
structure Invocation where
  task : Task
  verbosity : UInt8
  deriving DecidableEq

def verboseFlag {ρ : Type} : Flag ρ :=
  ⟨"verbose", some 'v', .verbose⟩

def helpFlag {ρ : Type} : Flag ρ :=
  ⟨"help", some 'h', .stop .help⟩

namespace Options

def flags : List (Flag Options) :=
  [⟨"seed", none, .take (.of (·.seed) (fun v o => { o with seed := some v }) Value.word)⟩,
   ⟨"random-seed", none, .turn (·.randomSeed) fun o => { o with randomSeed := true }⟩,
   ⟨"resolution", some 'r', .take (.of (·.resolution)
      (fun v o => { o with resolution := some v }) (Value.parsed Resolution.parse))⟩,
   ⟨"mode", some 'm', .take (.of (·.mode)
      (fun v o => { o with mode := some v }) (Value.parsed Mode.parse))⟩,
   ⟨"bit", none, .take (.of (·.bitPlane) (fun v o => { o with bitPlane := some v }) Value.byte)⟩,
   ⟨"contrast", none, .turn (·.contrast) fun o => { o with contrast := true }⟩,
   ⟨"manual-min", none, .take (.of (·.contrastMin)
      (fun v o => { o with contrastMin := some v }) Value.byte)⟩,
   ⟨"manual-max", none, .take (.of (·.contrastMax)
      (fun v o => { o with contrastMax := some v }) Value.byte)⟩,
   ⟨"pair-scale", none, .take (.of (·.pairScale)
      (fun v o => { o with pairScale := some v }) (Value.parsed PairScale.parse))⟩]

/-- A seed is given or drawn, but not both. -/
def conflict (o : Options) : Bool :=
  o.seed.isSome && o.randomSeed

end Options

/-- The arguments of the command for one image, as far as they are given. -/
structure RenderFields where
  equation : Option String := none
  builtIn : Option BuiltIn := none
  preset : Option String := none
  session : Option String := none
  options : Options := {}
  output : Option String := none
  scale : Option UInt32 := none
  stats : Bool := false
  saveTo : Option String := none

def scaleValue (s : String) : Except UsageFault UInt32 := do
  return (← Value.integer 1 Raster.maxScale.toNat s).toUInt32

namespace RenderFields

def flags : List (Flag RenderFields) :=
  [⟨"builtin", some 'b', .take (.of (·.builtIn)
      (fun v f => { f with builtIn := some v }) (Value.parsed BuiltIn.parse))⟩,
   ⟨"preset", some 'p', .take (.of (·.preset)
      (fun v f => { f with preset := some v }) Value.text)⟩,
   ⟨"config", some 'c', .take (.of (·.session)
      (fun v f => { f with session := some v }) Value.path)⟩,
   ⟨"output", some 'o', .take (.of (·.output)
      (fun v f => { f with output := some v }) Value.path)⟩,
   ⟨"scale", none, .take (.of (·.scale) (fun v f => { f with scale := some v }) scaleValue)⟩,
   ⟨"stats", none, .turn (·.stats) fun f => { f with stats := true }⟩,
   ⟨"export-config", none, .take (.of (·.saveTo)
      (fun v f => { f with saveTo := some v }) Value.path)⟩,
   verboseFlag, helpFlag] ++
  Options.flags.map (.within (·.options) fun options f => { f with options })

def parameters : List (Parameter RenderFields) :=
  [.of (·.equation) (fun v f => { f with equation := some v }) Value.text]

/-- The arguments, if there is one source at most. -/
def complete (f : RenderFields) : Except UsageFault RenderArguments :=
  let d : RenderArguments := {}
  let isTwice := f.builtIn.isSome && (f.equation.isSome || f.preset.isSome) ||
    f.preset.isSome && f.equation.isSome
  if isTwice || f.options.conflict then .error .conflict
  else
    .ok
      { equation := f.equation
        builtIn := f.builtIn
        preset := f.preset
        session := f.session
        options := f.options
        output := f.output.getD d.output
        scale := f.scale.getD d.scale
        stats := f.stats
        saveTo := f.saveTo }

end RenderFields

structure SplitFields where
  left : Option String := none
  right : Option String := none
  session : Option String := none
  options : Options := {}
  rightSeed : Option UInt32 := none
  output : Option String := none
  scale : Option UInt32 := none
  saveTo : Option String := none

namespace SplitFields

def flags : List (Flag SplitFields) :=
  [⟨"left", some 'l', .take (.of (·.left) (fun v f => { f with left := some v }) Value.text)⟩,
   ⟨"right", some 'R', .take (.of (·.right) (fun v f => { f with right := some v }) Value.text)⟩,
   ⟨"config", some 'c', .take (.of (·.session)
      (fun v f => { f with session := some v }) Value.path)⟩,
   ⟨"right-seed", none, .take (.of (·.rightSeed)
      (fun v f => { f with rightSeed := some v }) Value.word)⟩,
   ⟨"output", some 'o', .take (.of (·.output)
      (fun v f => { f with output := some v }) Value.path)⟩,
   ⟨"scale", none, .take (.of (·.scale) (fun v f => { f with scale := some v }) scaleValue)⟩,
   ⟨"export-config", none, .take (.of (·.saveTo)
      (fun v f => { f with saveTo := some v }) Value.path)⟩,
   verboseFlag, helpFlag] ++
  Options.flags.map (.within (·.options) fun options f => { f with options })

def complete (f : SplitFields) : Except UsageFault SplitArguments :=
  let d : SplitArguments := {}
  if f.options.conflict then .error .conflict
  else
    .ok
      { left := f.left
        right := f.right
        session := f.session
        options := f.options
        rightSeed := f.rightSeed
        output := f.output.getD d.output
        scale := f.scale.getD d.scale
        saveTo := f.saveTo }

end SplitFields

structure CheckFields where
  equation : Option String := none
  seed : Option UInt32 := none
  steps : Option UInt64 := none

namespace CheckFields

def flags : List (Flag CheckFields) :=
  [⟨"seed", none, .take (.of (·.seed) (fun v f => { f with seed := some v }) Value.word)⟩,
   ⟨"steps", some 'n', .take (.of (·.steps) (fun v f => { f with steps := some v }) Value.count)⟩,
   verboseFlag, helpFlag]

def parameters : List (Parameter CheckFields) :=
  [.of (·.equation) (fun v f => { f with equation := some v }) Value.text]

def complete (f : CheckFields) : Except UsageFault CheckArguments :=
  match f.equation with
  | some equation => .ok { equation, seed := f.seed.getD defaultSeed, steps := f.steps.getD 0 }
  | none => .error .missingArgument

end CheckFields

namespace ListingArguments

def flags : List (Flag ListingArguments) :=
  [⟨"json", none, .turn (·.json) fun a => { a with json := true }⟩, verboseFlag, helpFlag]

end ListingArguments

namespace Shell

def parameters : List (Parameter (Option Shell)) :=
  [.of id (fun v _ => some v) fun s =>
    match ofName? s with
    | some shell => .ok shell
    | none => .error .invalidValue]

end Shell

namespace Invocation

def names : List String :=
  ["render", "split", "check", "presets", "completions", "help"]

/-- Reads the arguments of a command; what is said before and behind its name about verbosity
counts only once, and then from behind. -/
def ofFields {ρ : Type} (verbosity : UInt8) (flags : List (Flag ρ))
    (parameters : List (Parameter ρ)) (empty : ρ) (complete : ρ → Except UsageFault Task)
    (arguments : List String) : Except UsageFault Invocation := do
  let d ← Draft.read flags arguments parameters { record := empty }
  return { task := ← complete d.record
           verbosity := if d.verbosity = 0 then verbosity else d.verbosity }

def help : List String → UsageFault
  | [] => .help
  | [name] => if names.contains name then .help else .unknownCommand
  | _ => .unknownCommand

def command (verbosity : UInt8) (name : String) (arguments : List String) :
    Except UsageFault Invocation :=
  match name with
  | "render" =>
    ofFields verbosity RenderFields.flags RenderFields.parameters {}
      (fun f => .render <$> f.complete) arguments
  | "split" =>
    ofFields verbosity SplitFields.flags [] {} (fun f => .split <$> f.complete) arguments
  | "check" =>
    ofFields verbosity CheckFields.flags CheckFields.parameters {}
      (fun f => .check <$> f.complete) arguments
  | "presets" =>
    ofFields verbosity ListingArguments.flags [] {} (fun a => .ok (.listing a)) arguments
  | "completions" =>
    ofFields verbosity [verboseFlag, helpFlag] Shell.parameters none
      (fun shell =>
        match shell with
        | some shell => .ok (.completions shell)
        | none => .error .missingArgument)
      arguments
  | "help" => .error (help arguments)
  | _ => .error .unknownCommand

def flags : List (Flag Unit) :=
  [verboseFlag, helpFlag, ⟨"version", some 'V', .stop .version⟩]

def withoutCommand (d : Draft Unit) : UsageFault :=
  if d.verbosity = 0 then .nothingGiven else .missingCommand

/-- The arguments from a place in front of the command on. -/
def read : List String → Draft Unit → Except UsageFault Invocation
  | [], d => .error (withoutCommand d)
  | argument :: rest, d =>
    match Word.of argument with
    | .long name value => do read rest (← d.long flags name value)
    | .short cs => do read rest (← d.letters flags cs)
    | .plain => command d.verbosity argument rest
    | .endOfFlags =>
      match rest with
      | [] => .error (withoutCommand d)
      | name :: _ => .error (if names.contains name then .unknownArgument else .unknownCommand)

def parse (arguments : List String) : Except UsageFault Invocation :=
  read arguments { record := () }

end Invocation

/-- A script that completes the names of the commands in a shell. -/
def Shell.script (shell : Shell) : String :=
  let names := " ".intercalate Invocation.names
  match shell with
  | .bash => "complete -W '" ++ names ++ "' bitviz"
  | .elvish =>
    "set edit:completion:arg-completer[bitviz] = \x7b|@words| put " ++ names ++ " \x7d"
  | .fish => "complete -c bitviz -f -a '" ++ names ++ "'"
  | .powershell =>
    "Register-ArgumentCompleter -Native -CommandName bitviz -ScriptBlock \x7b '" ++ names ++
      "'.Split(' ') \x7d"
  | .zsh => "compdef '_arguments \"1:command:(" ++ names ++ ")\"' bitviz"

def Task.run {m : Type → Type} [Host m] : Task → Command m Unit
  | render a => a.run
  | split a => a.run
  | check a => a.run
  | listing a => Listing.run a
  | completions shell => (Host.print shell.script : m Unit)

end OrbitImage
