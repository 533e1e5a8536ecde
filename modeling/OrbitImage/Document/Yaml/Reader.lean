import OrbitImage.Document.Yaml.Layout
/-!
From the marks of a YAML document to its tree. As in JSON a document that breaks the grammar has a
tree as well, damaged where it breaks. What is not written is a plain text without characters.
-/
namespace OrbitImage
open Yaml (Mark)

namespace Node

def empty : Node :=
  .scalar (.plain "")

/-- A node of marks, and the marks after it unless the node is damaged. -/
abbrev Partial :=
  Node × Option (List Mark)

mutual

/-- The node at the start of marks. A list may stand directly behind a key without an indentation
of its own; inside brackets there are no blocks. Of three calls one inside the other at least one
passes over a mark, so thrice the number of marks is enough fuel. -/
def ofYamlMarks (inBlock behindKey : Bool) (fuel : Nat) (marks : List Mark) : Partial :=
  match fuel with
  | 0 => (.damaged, none)
  | fuel + 1 =>
    match marks with
    | .scalar s :: rest => (.scalar s, some rest)
    | .openList :: rest =>
      let (items, rest) := flowItems fuel true rest
      (.list items, rest)
    | .openMap :: rest =>
      let (members, rest) := flowMembers fuel true rest
      (.map members, rest)
    | .entry :: _ =>
      if behindKey then
        let (items, rest) := blockItems fuel false marks
        (.list items, rest)
      else (.damaged, none)
    | .openBlockList :: rest =>
      if inBlock then
        let (items, rest) := blockItems fuel true rest
        (.list items, rest)
      else (.damaged, none)
    | .openBlockMap :: rest =>
      if inBlock then
        let (members, rest) := blockMembers fuel rest
        (.map members, rest)
      else (.damaged, none)
    | _ => (.damaged, none)

/-- The node at the start of marks, or nothing written if `isEnd` says so of the first mark. -/
def ofYamlMarksOr (isEnd : Mark → Bool) (inBlock behindKey : Bool) (fuel : Nat)
    (marks : List Mark) : Partial :=
  match fuel with
  | 0 => (.damaged, none)
  | fuel + 1 =>
    if marks.head?.any isEnd then (empty, some marks)
    else ofYamlMarks inBlock behindKey fuel marks

/-- The items of a list with a dash in front of each; an indented list is closed by a mark. -/
def blockItems (fuel : Nat) (closed : Bool) (marks : List Mark) :
    List Node × Option (List Mark) :=
  match fuel, marks with
  | fuel + 1, .entry :: rest =>
    let isEnd (mark : Mark) : Bool :=
      mark = .entry || mark = .closeBlock || (!closed && (mark = .key || mark = .value))
    match ofYamlMarksOr isEnd true false fuel rest with
    | (item, some rest) =>
      let (items, rest) := blockItems fuel closed rest
      (item :: items, rest)
    | (item, none) => ([item], none)
  | _ + 1, .closeBlock :: rest => ([], some (if closed then rest else marks))
  | _, _ => if closed then ([.damaged], none) else ([], some marks)

/-- The members up to the end of a block. A colon alone is no member. -/
def blockMembers (fuel : Nat) (marks : List Mark) : List (Node × Node) × Option (List Mark) :=
  let isEnd (mark : Mark) : Bool := mark = .key || mark = .value || mark = .closeBlock
  match fuel with
  | 0 => ([(.damaged, .damaged)], none)
  | fuel + 1 =>
    match marks with
    | .closeBlock :: rest => ([], some rest)
    | .key :: rest =>
      match ofYamlMarksOr isEnd true true fuel rest with
      | (key, none) => ([(key, .damaged)], none)
      | (key, some rest) =>
        let value := match rest with
          | .value :: rest => ofYamlMarksOr isEnd true true fuel rest
          | _ => (empty, some rest)
        match value with
        | (value, none) => ([(key, value)], none)
        | (value, some rest) =>
          let (members, rest) := blockMembers fuel rest
          ((key, value) :: members, rest)
    | _ => ([(.damaged, .damaged)], none)

/-- The items up to the closing bracket; a comma stands in front of each but the first. An item may
be a single member, whose key has to be written. -/
def flowItems (fuel : Nat) (isFirst : Bool) (marks : List Mark) :
    List Node × Option (List Mark) :=
  match fuel, marks with
  | _, .closeList :: rest => ([], some rest)
  | fuel + 1, _ =>
    let marks? := match isFirst, marks with
      | true, _ => some marks
      | false, .comma :: rest => some rest
      | false, _ => none
    match marks? with
    | none => ([.damaged], none)
    | some (.closeList :: rest) => ([], some rest)
    | some (.key :: rest) =>
      match flowMember (fun _ => false) .closeList fuel rest with
      | (member, none) => ([.map [member]], none)
      | (member, some rest) =>
        let (items, rest) := flowItems fuel false rest
        (.map [member] :: items, rest)
    | some marks =>
      match ofYamlMarks false false fuel marks with
      | (item, none) => ([item], none)
      | (item, some rest) =>
        let (items, rest) := flowItems fuel false rest
        (item :: items, rest)
  | 0, _ => ([.damaged], none)

/-- A key, where `isEnd` says what may follow it, and its value. -/
def flowMember (isEnd : Mark → Bool) (close : Mark) (fuel : Nat) (marks : List Mark) :
    (Node × Node) × Option (List Mark) :=
  match fuel with
  | 0 => ((.damaged, .damaged), none)
  | fuel + 1 =>
    match ofYamlMarksOr isEnd false false fuel marks with
    | (key, none) => ((key, .damaged), none)
    | (key, some (.value :: rest)) =>
      let (value, rest) :=
        ofYamlMarksOr (fun mark => mark = .comma || mark = close) false false fuel rest
      ((key, value), rest)
    | (key, some rest) => ((key, empty), some rest)

/-- The members up to the closing brace; a comma stands in front of each but the first. -/
def flowMembers (fuel : Nat) (isFirst : Bool) (marks : List Mark) :
    List (Node × Node) × Option (List Mark) :=
  match fuel, marks with
  | _, .closeMap :: rest => ([], some rest)
  | fuel + 1, _ =>
    let marks? := match isFirst, marks with
      | true, _ => some marks
      | false, .comma :: rest => some rest
      | false, _ => none
    match marks? with
    | none => ([(.damaged, .damaged)], none)
    | some (.closeMap :: rest) => ([], some rest)
    | some marks =>
      let member := match marks with
        | .key :: rest =>
          let isEnd (mark : Mark) : Bool := mark = .value || mark = .comma || mark = .closeMap
          flowMember isEnd .closeMap fuel rest
        | _ =>
          match ofYamlMarks false false fuel marks with
          | (key, rest) => ((key, if rest.isNone then .damaged else empty), rest)
      match member with
      | (member, none) => ([member], none)
      | (member, some rest) =>
        let (members, rest) := flowMembers fuel false rest
        (member :: members, rest)
  | 0, _ => ([(.damaged, .damaged)], none)

end

end Node

/-- The tree of the first document of a YAML text. -/
def Reading.ofYaml (text : String) : Reading :=
  let marks := Yaml.marks text
  let isEnd (mark : Mark) : Bool := mark = .startDocument || mark = .endDocument
  let fuel := 3 * marks.length + 3
  let (root, rest) := match marks with
    | [] => (Node.empty, some [])
    | .startDocument :: [] => (Node.empty, some [])
    | .startDocument :: rest => Node.ofYamlMarksOr isEnd true false fuel rest
    | _ => Node.ofYamlMarks true false fuel marks
  match rest with
  | some rest => ⟨root, (rest.dropWhile (· = .endDocument)).isEmpty⟩
  | none => ⟨root, false⟩

end OrbitImage
