import OrbitImage.Equation.Fault
import OrbitImage.Preset
/-!
Everything that can go wrong, by cause, with its message and the advice that goes with it; and
courses, which come to something good or to a fault.
-/
namespace OrbitImage

inductive SettingFault
  | unknownBuiltIn (name : String)
  | unknownMode (name : String)
  | unknownPairScale (name : String)
  | unknownPreset (name : String)
  | invalidResolution (text : String)
  | unsupportedResolution (side : UInt32)
  | bitOutOfRange (index : UInt8)
  | scaleTooLarge (scale : UInt32)
  /-- A JSON document that does not describe the settings; `side` is set if a side length is all
  that is wrong with it. -/
  | invalidJson (side : Option UInt32)
  | invalidYaml (path : String) (side : Option UInt32)
  deriving DecidableEq, Repr

inductive FileFault
  | unreadable (reason : String)
  | unwritable (reason : String)
  | noImageWritten (reason : String)
  deriving DecidableEq, Repr

inductive Fault
  | equation (fault : EquationFault)
  | setting (fault : SettingFault)
  | file (path : String) (fault : FileFault)
  /-- The pixels do not fill a square of the side. -/
  | pixelCount (held expected : UInt64) (side : UInt32)
  /-- An image that has no address for one of its pixels: there is no way on, and no answer. -/
  | unaddressable (side : UInt32)
  | busy
  | gone
  deriving DecidableEq, Repr

namespace SettingFault

def unsupported (side : UInt32) : String :=
  "Unsupported resolution: " ++ toString side

/-- The cause behind a message, where there is one to name. -/
def behind : Option UInt32 → String
  | some side => ": " ++ unsupported side
  | none => ""

def detail : SettingFault → String
  | unknownBuiltIn name => "Unknown built-in generator: " ++ name
  | unknownMode name => "Unknown mode: '" ++ name ++ "'"
  | unknownPairScale name => "Unknown pair scale: '" ++ name ++ "'"
  | unknownPreset name => "Unknown preset: " ++ name
  | invalidResolution text => "Invalid resolution: '" ++ text ++ "'"
  | unsupportedResolution side => unsupported side
  | bitOutOfRange index => "Bit plane index out of range: " ++ toString index
  | scaleTooLarge scale => "Scale factor too large: " ++ toString scale
  | invalidJson side => "Invalid config" ++ behind side
  | invalidYaml path side => "Invalid config " ++ path ++ behind side

def advice : SettingFault → String
  | unknownBuiltIn _ => "Available built-ins: lcg, xorshift32, splitmix, bad1, bad2"
  | unknownMode _ => "Available modes: raw, bit, hamming, pair, transition"
  | unknownPairScale _ => "Use 'log' or 'linear'"
  | unknownPreset _ => "Available presets: " ++ ", ".intercalate (Preset.all.map Preset.slug)
  | invalidResolution _ | unsupportedResolution _ => "Use 256, 512, or 1024"
  | bitOutOfRange _ => "Bit planes are numbered 0 to 31"
  | scaleTooLarge _ => "Use a scale between 1 and 32"
  | invalidJson _ => "Check JSON syntax"
  | invalidYaml _ _ => "Check YAML syntax"

end SettingFault

def FileFault.detail : FileFault → String
  | unreadable reason => "Failed to read config: " ++ reason
  | unwritable reason => "Failed to write config: " ++ reason
  | noImageWritten reason => "Failed to write PNG: " ++ reason

namespace Fault

def kind : Fault → FaultKind
  | equation fault => fault.kind
  | setting _ => .setting
  | file _ _ => .file
  | pixelCount _ _ _ => .internal
  | unaddressable _ => .abort
  | busy => .busy
  | gone => .gone

/-- The message without the words of its kind. -/
def detail : Fault → String
  | equation fault => fault.detail
  | setting fault => fault.detail
  | file path fault => path ++ ": " ++ fault.detail
  | pixelCount held expected side =>
    "buffer holds " ++ toString held ++ " bytes, expected " ++ toString expected ++ " for " ++
      toString side ++ "x" ++ toString side
  | unaddressable side =>
    "no buffer holds the pixels of " ++ toString side ++ "x" ++ toString side
  | busy => "Worker is busy with another generation"
  | gone => "Worker thread is no longer running"

def message (fault : Fault) : String :=
  fault.kind.heading ++ fault.detail

def advice : Fault → Option String
  | equation fault => fault.advice
  | setting fault => some fault.advice
  | busy => some "Wait for the in-flight job to finish or use a separate worker"
  | file _ _ | pixelCount _ _ _ | unaddressable _ | gone => none

end Fault

/-- What is notified on the way to an end, and the end. -/
structure Course (π α : Type) where
  notices : Array π
  outcome : Except Fault α

end OrbitImage
