import OrbitImage.Command.Line
import OrbitImage.Image.Png
import Std.Time.DateTime.Timestamp
/-!
The program: commands run on the real system.
-/
namespace OrbitImage

/-- The reason behind an error number, with the text for those that have no reason of their own. -/
def numberedReason (code : UInt32) (text : String) : String :=
  let number := if code < 0x80000000 then code else 0 - code
  match number with
  | 2 => FileRefusal.missing.reason
  | 20 => FileRefusal.notDirectory.reason
  | 21 => FileRefusal.isDirectory.reason
  | _ => text.capitalize ++ " (os error " ++ toString number ++ ")"

def systemReason : IO.Error → String
  | .alreadyExists _ code text | .otherError code text | .resourceBusy code text
  | .resourceVanished code text | .unsupportedOperation code text | .hardwareFault code text
  | .unsatisfiedConstraints code text | .illegalOperation code text | .protocolError code text
  | .timeExpired code text | .interrupted _ code text | .noFileOrDirectory _ code text
  | .invalidArgument _ code text | .permissionDenied _ code text
  | .resourceExhausted _ code text | .inappropriateType _ code text
  | .noSuchThing _ code text => numberedReason code text
  | .unexpectedEof => "unexpected end of file"
  | .userError text => text

/-- The outcome of an action on a file, or the system's reason against it. -/
def attempt {α : Type} (action : IO α) : IO (Except String α) := do
  try return .ok (← action)
  catch error => return .error (systemReason error)

/-- The real system, with an encoder for its images. -/
@[reducible]
def Host.system (encoder : Encoder) : Host IO where
  readText path := do
    match ← attempt (IO.FS.readBinFile path) with
    | .error reason => return .error reason
    | .ok bytes =>
      match String.fromUTF8? bytes with
      | some text => return .ok text
      | none => return .error FileRefusal.notText.reason
  writeText path text := attempt (IO.FS.writeFile path text)
  writeImage path raster := do
    let extension := Path.extension? path
    if let some reason := encoder.refusal? extension then return .error reason
    let encoded := encoder.encode extension raster
    match ← attempt (IO.FS.writeBinFile path encoded.bytes) with
    | .error reason => return .error reason
    | .ok () => return encoded.outcome
  print line := do (← IO.getStdout).putStrLn line
  note line := do (← IO.getStderr).putStrLn line
  clock := do return toString (← Std.Time.Timestamp.now).toSecondsSinceUnixEpoch.val
  randomWord := do
    let bytes ← IO.getRandomBytes 4
    return bytes.foldl (fun x b => (x <<< 8) ||| b.toUInt32) 0
  directory := do return (← IO.currentDir).toString

def execute (encoder : Encoder) (arguments : List String) : IO UInt32 := do
  let _ := Host.system encoder
  match Invocation.parse arguments with
  | .error fault =>
    if fault.exitCode = 0 then IO.println fault.message else IO.eprintln fault.message
    return fault.exitCode
  | .ok invocation =>
    match ← invocation.task.run.run with
    | .ok () => return 0
    | .error fault =>
      IO.eprintln (fault.kind.code ++ "\n  " ++ fault.message)
      if let some advice := fault.advice then IO.eprintln ("  help: " ++ advice)
      return 1

end OrbitImage

def main (arguments : List String) : IO UInt32 :=
  OrbitImage.execute .png arguments
