import OrbitImage.Document.PlainScalar
/-!
Records read from documents. A record is described by its slots in order. A map fills the slots
that its keys choose, a list all of them in order; a slot is filled once at most, and keys that
choose none are passed over. The first thing wrong in the order of the document decides how the
reading ends.
-/
namespace OrbitImage

/-- Why a document does not describe a value: a side length that no image has, or anything else. -/
inductive Refusal
  | invalid
  | side (length : UInt32)
  deriving DecidableEq, Repr

/-- What a node was read from: JSON or YAML text, or a map whose values were looked through before
their slots were known; a key within such a value is a value as well. -/
inductive Origin
  | json
  | yaml
  | sifted
  deriving DecidableEq, Repr

structure Slot (ρ : Type) where
  name : String
  isFilled : ρ → Bool
  fill : Node → ρ → Except Refusal ρ

/-- A slot for a value that the record holds as an option. -/
def Slot.of {ρ α : Type} (name : String) (get : ρ → Option α) (set : α → ρ → ρ)
    (read : Node → Except Refusal α) : Slot ρ where
  name
  isFilled r := (get r).isSome
  fill node r := do return set (← read node) r

/-- How one of a row of things is chosen: by its name, or by its place counted from zero. -/
inductive Choice
  | name (s : String)
  | place (index : Nat)
  deriving DecidableEq, Repr

def Choice.find? {α : Type} (choice : Choice) (all : List α) (nameOf : α → String) : Option α :=
  match choice with
  | name s => all.find? (nameOf · = s)
  | place index => all[index]?

namespace Node

/-- What a key chooses. Without quotes it is a name until it is looked through. -/
def choice? : Node → Option Choice
  | .scalar (.text s) | .scalar (.plain s) => some (.name s)
  | .scalar (.number n) => n.position?.map .place
  | _ => none

/-- The text of a scalar that is a text or is not quoted. -/
def readText : Node → Except Refusal String
  | .scalar (.text s) | .scalar (.plain s) => .ok s
  | _ => .error .invalid

def readNatural (bound : Nat) : Node → Except Refusal Nat
  | .scalar (.number n) =>
    match n.natural? bound with
    | some n => .ok n
    | none => .error .invalid
  | .scalar (.plain s) =>
    match PlainScalar.natural? s with
    | some n => if n < bound then .ok n else .error .invalid
    | none => .error .invalid
  | _ => .error .invalid

def readWord (node : Node) : Except Refusal UInt32 := do
  return (← node.readNatural UInt32.size).toUInt32

def readByte (node : Node) : Except Refusal UInt8 := do
  return (← node.readNatural UInt8.size).toUInt8

def readBool : Node → Except Refusal Bool
  | .scalar (.bool b) => .ok b
  | .scalar (.plain s) =>
    match PlainScalar.bool? s with
    | some b => .ok b
    | none => .error .invalid
  | _ => .error .invalid

def readOptionalText : Node → Except Refusal (Option String)
  | .scalar .null => .ok none
  | .scalar (.plain s) => .ok (if PlainScalar.isNull s then none else some s)
  | .scalar (.text s) => .ok (some s)
  | _ => .error .invalid

/-- Whether a node stands for nothing beside a name that carries no value. -/
def isUnit (origin : Origin) : Node → Bool
  | .scalar .null => origin ≠ .yaml
  | .map [] => origin = .sifted
  | _ => false

/-- One of several named things: its name alone, or a map with nothing for the value of the key
that chooses it. -/
def readNamed {α : Type} (origin : Origin) (all : List α) (nameOf : α → String) (node : Node) :
    Except Refusal α :=
  let choice : Option Choice := match node with
    | .scalar (.text s) | .scalar (.plain s) => some (.name s)
    | .map [(key, value)] => if value.isUnit origin then key.choice? else none
    | _ => none
  match choice.bind (·.find? all nameOf) with
  | some a => .ok a
  | none => .error .invalid

mutual

/-- Whether a node that is passed over is nowhere damaged. -/
def isIntact : Node → Bool
  | .scalar _ => true
  | .list items => areIntact items
  | .map members => membersAreIntact members
  | .damaged => false

def areIntact : List Node → Bool
  | [] => true
  | n :: ns => n.isIntact && areIntact ns

def membersAreIntact : List (Node × Node) → Bool
  | [] => true
  | (key, n) :: ms => key.isIntact && n.isIntact && membersAreIntact ms

end

mutual

/-- A node looked through: every scalar is of a definite kind and every number in range, and maps
and lists are at most `depth` deep. -/
def sift (depth : Nat) : Node → Except Refusal Node
  | .scalar (.number n) => if n.isTooLarge then .error .invalid else .ok (.scalar (.number n))
  | .scalar .unpaired => .error .invalid
  | .scalar (.plain s) =>
    match PlainScalar.scalar? s with
    | some s => .ok (.scalar s)
    | none => .error .invalid
  | .scalar s => .ok (.scalar s)
  | .list items =>
    match depth with
    | 0 => .error .invalid
    | depth + 1 => .list <$> siftItems depth items
  | .map members =>
    match depth with
    | 0 => .error .invalid
    | depth + 1 => .map <$> siftMembers depth members
  | .damaged => .error .invalid

def siftItems (depth : Nat) : List Node → Except Refusal (List Node)
  | [] => .ok []
  | n :: ns => do
    let n ← n.sift depth
    let ns ← siftItems depth ns
    return n :: ns

def siftMembers (depth : Nat) : List (Node × Node) → Except Refusal (List (Node × Node))
  | [] => .ok []
  | (key, n) :: ms => do
    let key ← key.sift depth
    let n ← n.sift depth
    let ms ← siftMembers depth ms
    return (key, n) :: ms

end

variable {ρ : Type}

/-- A member of a map goes into the slot that its key chooses. -/
def fillMember (slots : List (Slot ρ)) (r : ρ) (member : Node × Node) : Except Refusal ρ :=
  let (key, node) := member
  match key.choice? with
  | none => .error .invalid
  | some choice =>
    match choice.find? slots Slot.name with
    | some slot => if slot.isFilled r then .error .invalid else slot.fill node r
    | none => if node.isIntact then .ok r else .error .invalid

/-- Items of a list go into the slots in order; there may be fewer of them, but not more. -/
def fillItems (r : ρ) : List (Slot ρ) → List Node → Except Refusal ρ
  | _, [] => .ok r
  | slot :: slots, node :: nodes => do fillItems (← slot.fill node r) slots nodes
  | [], _ :: _ => .error .invalid

/-- A record. In YAML nothing at all is a record without members, and a list is no record. -/
def readRecord (origin : Origin) (slots : List (Slot ρ)) (empty : ρ) : Node → Except Refusal ρ
  | .map members => members.foldlM (fillMember slots) empty
  | .list items => if origin = .yaml then .error .invalid else fillItems empty slots items
  | .scalar (.plain "") => .ok empty
  | _ => .error .invalid

end Node

/-- The value of a document with nothing behind its root. -/
def Reading.value {α : Type} (r : Reading) (read : Node → Except Refusal α) :
    Except Refusal α := do
  let a ← read r.root
  if r.ended then return a else throw .invalid

end OrbitImage
