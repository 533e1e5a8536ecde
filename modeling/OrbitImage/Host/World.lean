import OrbitImage.Host.Basic
import OrbitImage.Image.Png
/-!
A host as a value: directories and files by their places, what was put out so far, a clock that
stands still and the random numbers to come. Paths are resolved step by step; every step but the
last must lead to a directory. Which files can hold an image is up to the encoder of the host.
-/
namespace OrbitImage

inductive Entry
  | directory
  | text (s : String)
  | binary
  /-- The bytes that the encoder of the host makes of a raster. -/
  | image (raster : Raster)

/-- A file with any bytes. -/
def Entry.ofBytes (bytes : ByteArray) : Entry :=
  match String.fromUTF8? bytes with
  | some s => text s
  | none => binary

/-- Where an entry is: the names on the way from the root, the last one first. -/
abbrev Location :=
  List String

structure World where
  /-- All entries but the root. -/
  entries : List (Location × Entry)
  here : Location
  encoder : Encoder
  output : Array String := #[]
  notes : Array String := #[]
  now : Nat := 0
  random : List UInt32 := []

namespace World

def entry? (w : World) : Location → Option Entry
  | [] => some .directory
  | location => (w.entries.find? (·.1 = location)).map Prod.snd

def put (w : World) (location : Location) (entry : Entry) : World :=
  { w with entries := (location, entry) :: w.entries.filter (·.1 ≠ location) }

/-- The place that a step leads to from a directory. -/
def follow (w : World) (location : Location) (step : String) : Except FileRefusal Location :=
  match w.entry? location with
  | some .directory =>
    if step = "" ∨ step = "." then .ok location
    else if step = ".." then .ok (location.drop 1)
    else .ok (step :: location)
  | some _ => .error .notDirectory
  | none => .error .missing

/-- The place of a path; nothing needs to be there. -/
def locate (w : World) (path : List String) : Except FileRefusal Location :=
  match path with
  | [""] => .error .missing
  | "" :: steps => steps.foldlM w.follow []
  | steps => steps.foldlM w.follow w.here

/-- The steps of a path, with an empty one at the end behind a slash. -/
def stepsOf (path : String) : List String :=
  (Path.split path.toList).map String.ofList

def readText (w : World) (path : String) : Except FileRefusal String := do
  let location ← w.locate (stepsOf path)
  match w.entry? location with
  | some (.text s) => return s
  | some .directory => throw .isDirectory
  | some .binary | some (.image _) => throw .notText
  | none => throw .missing

/-- A place as that of a file: there is no directory. -/
def fileAt (w : World) (location : Location) : Except FileRefusal Location :=
  match w.entry? location with
  | some .directory => .error .isDirectory
  | _ => .ok location

/-- The place of a file to write; a path with a slash at its end is that of a directory. -/
def place (w : World) (path : String) : Except FileRefusal Location := do
  let steps := stepsOf path
  let named := (steps.reverse.dropWhile (· = "")).reverse
  let location ← w.fileAt (← w.locate (if named.isEmpty then steps else named))
  if steps = named then return location else throw .isDirectory

def write (w : World) (path : String) (entry : Entry) : Except FileRefusal World := do
  return w.put (← w.place path) entry

/-- Puts an image at the place of a path. Nothing is put there if the name tells no format; of an
image that the format does not take, there is as much as was encoded. -/
def writeImage (w : World) (path : String) (raster : Raster) : Except String Unit × World :=
  match w.encoder.refusal? (Path.extension? path) with
  | some reason => (.error reason, w)
  | none =>
    match w.place path with
    | .error refusal => (.error refusal.reason, w)
    | .ok location =>
      match w.encoder.encode (Path.extension? path) raster with
      | .whole _ => (.ok (), w.put location (.image raster))
      | .part bytes reason => (.error reason, w.put location (.ofBytes bytes))

end World

instance : Host (StateM World) where
  readText path := do return ((← get).readText path).mapError FileRefusal.reason
  writeText path text := do
    match (← get).write path (.text text) with
    | .ok w => set w; return .ok ()
    | .error refusal => return .error refusal.reason
  writeImage path raster := do
    let (outcome, w) := (← get).writeImage path raster
    set w
    return outcome
  print line := modify fun w => { w with output := w.output.push line }
  note line := modify fun w => { w with notes := w.notes.push line }
  clock := do return toString (← get).now
  randomWord := do
    let w ← get
    set { w with random := w.random.drop 1 }
    return w.random.headD 0
  directory := do return "/" ++ "/".intercalate (← get).here.reverse

end OrbitImage
