import OrbitImage.Fault
import OrbitImage.Image.Raster
import OrbitImage.Session.Record
import OrbitImage.Text.Path
/-!
What commands need of the system they run on: files, two outputs, a clock and random numbers. The
library holds two hosts: a value with which commands are pure functions, and the real system.
-/
namespace OrbitImage

inductive FileRefusal
  | missing
  | notDirectory
  | isDirectory
  | notText
  deriving DecidableEq, Repr

def FileRefusal.reason : FileRefusal → String
  | missing => "No such file or directory (os error 2)"
  | notDirectory => "Not a directory (os error 20)"
  | isDirectory => "Is a directory (os error 21)"
  | notText => "stream did not contain valid UTF-8"

class Host (m : Type → Type) extends Monad m where
  /-- The text of a file, or why there is none. -/
  readText (path : String) : m (Except String String)
  /-- Replaces a file by a text, or says why it cannot. -/
  writeText (path text : String) : m (Except String Unit)
  /-- Replaces a file by an image, or says why it cannot. -/
  writeImage (path : String) (raster : Raster) : m (Except String Unit)
  print (line : String) : m Unit
  /-- Puts a line beside the output. -/
  note (line : String) : m Unit
  /-- The seconds since a fixed time, in decimal. -/
  clock : m String
  randomWord : m UInt32
  directory : m String

abbrev Command (m : Type → Type) :=
  ExceptT Fault m

namespace Host

variable {m : Type → Type} [Host m]

/-- A line about what a command does: a verb, right-aligned to twelve characters, and a message. -/
def statusLine (verb message : String) : String :=
  "".pushn ' ' (12 - verb.length) ++ verb ++ " " ++ message

def status (verb message : String) : Command m Unit :=
  (note (statusLine verb message) : m Unit)

/-- The files with these extensions are read as YAML, all others as JSON. -/
def isYaml (path : String) : Bool :=
  Path.extension? path = some "yaml" || Path.extension? path = some "yml"

def load {α : Type} [Saved α] (path : String) : Command m α := do
  match ← (readText path : m _) with
  | .error reason => throw (.file path (.unreadable reason))
  | .ok text =>
    if isYaml path then Saved.ofYaml path text else Saved.ofJson text

def save {α : Type} [Saved α] (path : String) (a : α) : Command m Unit := do
  match ← (writeText path (Saved.text a) : m _) with
  | .error reason => throw (.file path (.unwritable reason))
  | .ok () => return ()

def saveImage (path : String) (image : Image) (scale : UInt32) : Command m Unit := do
  let raster ← image.enlarge scale
  match ← (writeImage path raster : m _) with
  | .error reason => throw (.file path (.noImageWritten reason))
  | .ok () => return ()

def shown (path : String) : Command m String := do
  return Path.shown (← (directory : m _)) path

end Host

end OrbitImage
