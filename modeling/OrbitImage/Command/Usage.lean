/-!
Why a command line does not say what to do.
-/
namespace OrbitImage

inductive UsageFault
  | unknownArgument
  /-- No value where one is needed, or a word that is not in the list of words. -/
  | invalidValue
  /-- A value that cannot be read. -/
  | refusedValue
  | surplusValue
  /-- Arguments that exclude each other, or an argument given twice. -/
  | conflict
  | missingArgument
  | unknownCommand
  | missingCommand
  | nothingGiven
  | help
  | version
  deriving DecidableEq, Repr

namespace UsageFault

def message : UsageFault → String
  | unknownArgument => "unexpected argument"
  | invalidValue => "missing or invalid value"
  | refusedValue => "value out of range or not understood"
  | surplusValue => "unexpected value for a switch"
  | conflict => "arguments cannot be used together"
  | missingArgument => "a required argument is missing"
  | unknownCommand => "unrecognized command"
  | missingCommand | nothingGiven => "a command is needed"
  | help => "usage: bitviz [-v] render | split | check | presets | completions [ARGUMENTS]"
  | version => "bitviz 0.4.1"

/-- What is asked for is no failure. -/
def exitCode : UsageFault → UInt32
  | help | version => 0
  | _ => 2

end UsageFault

end OrbitImage
