/-!
Paths as texts. A path is a row of segments between slashes; empty segments and single dots say
nothing, but for a slash or a dot at the very start. Main definitions: `fileName?` and its parts,
`withName` and `suffixed`, which change the file name, and `shown`, a path as a user sees it.
-/
namespace OrbitImage.Path

/-- The texts between slashes, at least one. -/
def split : List Char → List (List Char)
  | [] => [[]]
  | c :: cs =>
    if c = '/' then [] :: split cs
    else
      match split cs with
      | [] => [[c]]
      | segment :: segments => (c :: segment) :: segments

def join : List (List Char) → List Char
  | [] => []
  | [segment] => segment
  | segment :: segments => segment ++ '/' :: join segments

/-- A segment that says nothing inside a path. -/
def isIdle (segment : List Char) : Bool :=
  segment = [] || segment = ['.']

/-- The first segment, if it says something as such, and all others. -/
def anchored (path : List Char) : List (List Char) × List (List Char) :=
  match path, split path with
  | [], _ => ([], [])
  | _, segment :: segments =>
    if isIdle segment then ([segment], segments) else ([], segment :: segments)
  | _, [] => ([], [])

def dropIdleEnd (segments : List (List Char)) : List (List Char) :=
  (segments.reverse.dropWhile isIdle).reverse

/-- The last segment that says something, unless it leads up, with what stands before it. -/
def fileName? (path : String) : Option (List (List Char) × List Char) :=
  let (start, segments) := anchored path.toList
  match (dropIdleEnd segments).reverse with
  | [] => none
  | name :: before =>
    if name = ['.', '.'] then none else some (start ++ dropIdleEnd before.reverse, name)

/-- A name at its last dot, unless that is its first character. -/
def splitName (name : List Char) : List Char × Option (List Char) :=
  let extension := (name.reverse.takeWhile (· ≠ '.')).reverse
  match (name.reverse.drop (extension.length + 1)).reverse with
  | [] => (name, none)
  | stem => (stem, some extension)

def stem? (path : String) : Option String :=
  (fileName? path).map fun (_, name) => String.ofList (splitName name).1

def extension? (path : String) : Option String :=
  (fileName? path).bind fun (_, name) => (splitName name).2.map String.ofList

/-- The path with another file name, which is added to a path without one. -/
def withName (path name : String) : String :=
  match fileName? path with
  | some (before, _) => String.ofList (join (before ++ [name.toList]))
  | none =>
    if path.isEmpty ∨ path.toList.getLast? = some '/' then path ++ name else path ++ "/" ++ name

/-- The path with a suffix between the stem and the extension of its file name. -/
def suffixed (path suffix : String) : String :=
  let stem := (stem? path).getD "bitviz"
  let extension := (extension? path).getD "png"
  withName path (stem ++ "-" ++ suffix ++ "." ++ extension)

def steps (path : String) : List (List Char) :=
  (split path.toList).filter (!isIdle ·)

/-- What is left of segments behind given steps. -/
def behind : List (List Char) → List (List Char) → Option (List (List Char))
  | [], segments => some segments
  | _ :: _, [] => none
  | step :: steps, segment :: segments =>
    if isIdle segment then behind (step :: steps) segments
    else if step = segment then behind steps segments
    else none

/-- An absolute path inside a directory. -/
def relative? (directory path : String) : Option String :=
  match path.toList with
  | '/' :: rest =>
    (behind (steps directory) (split rest)).map fun segments =>
      String.ofList (join (dropIdleEnd (segments.dropWhile isIdle)))
  | _ => none

/-- A path as a user sees it who works in a directory: relative to the directory if it is inside,
and a dot for the directory itself. -/
def shown (directory path : String) : String :=
  match relative? directory path with
  | some "" => "."
  | some inside => inside
  | none => path

end OrbitImage.Path
