import OrbitImage.Document.Record
import OrbitImage.Proofs.Document.Json
/-!
Records read from the trees of written values. If every member of a map fills the slot with its
name, and no name comes twice, then the record is the one in which just these slots are filled,
whatever the order of the members is. Values that are written stay the same when they are looked
through.
-/
namespace OrbitImage

namespace Slot

variable {ρ : Type}

/-- A value, if the slot with the name is among those that are filled. -/
def given {α : Type} (seen : List String) (name : String) (a : α) : Option α :=
  if name ∈ seen then some a else none

@[simp]
theorem isSome_given {α : Type} (seen : List String) (name : String) (a : α) :
    (given seen name a).isSome = decide (name ∈ seen) := by
  unfold given
  split <;> simp_all

@[simp]
theorem given_nil {α : Type} (name : String) (a : α) : given [] name a = none :=
  rfl

@[simp]
theorem given_cons {α : Type} (other : String) (seen : List String) (name : String) (a : α) :
    given (other :: seen) name a = if name = other then some a else given seen name a := by
  unfold given
  by_cases h : name = other <;> simp [h]

theorem getD_given {α : Type} {seen : List String} {name : String} {keep : Bool}
    (h : name ∈ seen ↔ keep) (a other : α) :
    (given seen name a).getD other = if keep then a else other := by
  unfold given
  cases keep <;> simp_all

/-- In a family of records, which are told apart by the names of the slots that are filled, the
node fills the slot. -/
structure Takes (slot : Slot ρ) (record : List String → ρ) (node : Node) : Prop where
  isFilled : ∀ seen, slot.isFilled (record seen) = decide (slot.name ∈ seen)
  fill : ∀ seen, slot.fill node (record seen) = .ok (record (slot.name :: seen))

theorem takes_of {α : Type} {name : String} {get : ρ → Option α} {set : α → ρ → ρ}
    {read : Node → Except Refusal α} {record : List String → ρ} {node : Node} {a : α}
    (hread : read node = .ok a) (hget : ∀ seen, (get (record seen)).isSome = decide (name ∈ seen))
    (hset : ∀ seen, set a (record seen) = record (name :: seen)) :
    (Slot.of name get set read).Takes record node where
  isFilled := hget
  fill seen := by
    change (do return set (← read node) (record seen)) = Except.ok (record (name :: seen))
    rw [hread, ← hset]
    rfl

end Slot

namespace Node

section Record

variable {ρ : Type} {slots : List (Slot ρ)} {record : List String → ρ}

theorem fillMember_of_takes {slot : Slot ρ} {node : Node} {seen : List String}
    (hfind : slots.find? (·.name = slot.name) = some slot) (hslot : slot.Takes record node)
    (hseen : slot.name ∉ seen) :
    fillMember slots (record seen) (.scalar (.text slot.name), node) =
      .ok (record (slot.name :: seen)) := by
  simp only [fillMember, choice?, Choice.find?, hfind, hslot.isFilled, hseen, decide_false,
    Bool.false_eq_true, if_false, hslot.fill]

/-- Every member fills a slot. -/
def TakenBy (slots : List (Slot ρ)) (record : List String → ρ) (members : List (String × Json)) :
    Prop :=
  ∀ member ∈ members, ∃ slot, slots.find? (·.name = member.1) = some slot ∧
    slot.Takes record member.2.node

theorem foldlM_fillMember {members : List (String × Json)} (h : TakenBy slots record members)
    {seen : List String} (hnodup : (members.map Prod.fst).Nodup)
    (hseen : ∀ name ∈ members.map Prod.fst, name ∉ seen) :
    (Json.memberNodes members).foldlM (fillMember slots) (record seen) =
      .ok (record ((members.map Prod.fst).reverse ++ seen)) := by
  induction members generalizing seen with
  | nil => rfl
  | cons member members ih =>
      obtain ⟨name, j⟩ := member
      obtain ⟨⟨slot, hfind, hslot⟩, hrest⟩ := List.forall_mem_cons.mp h
      obtain rfl : slot.name = name := by simpa using List.find?_some hfind
      rw [List.map_cons, List.nodup_cons] at hnodup
      obtain ⟨hhead, hseen⟩ := List.forall_mem_cons.mp hseen
      have hstep := fillMember_of_takes hfind hslot hhead
      rw [Json.memberNodes, List.foldlM_cons, hstep]
      change (Json.memberNodes members).foldlM (fillMember slots) (record (slot.name :: seen)) = _
      rw [ih hrest hnodup.2 ?_]
      · simp
      · intro name hname
        rw [List.mem_cons, not_or]
        exact ⟨fun heq => hnodup.1 (heq ▸ hname), hseen name hname⟩

theorem readRecord_map {members : List (String × Json)} (h : TakenBy slots record members)
    (hnodup : (members.map Prod.fst).Nodup) (origin : Origin) :
    (Json.map members).node.readRecord origin slots (record []) =
      .ok (record (members.map Prod.fst).reverse) := by
  have hnew : ∀ name ∈ members.map Prod.fst, name ∉ ([] : List String) := by simp
  have hread := foldlM_fillMember h hnodup hnew
  rwa [List.append_nil] at hread

end Record

/-! ### Reading single values -/

theorem readNatural_int {n bound : Nat} (h : n < bound) :
    (Json.int n).node.readNatural bound = .ok n := by
  simp [Json.node, readNatural, Numeral.natural?, Numeral.ofInt, h]

theorem readWord_int (x : UInt32) : (Json.int x.toNat).node.readWord = .ok x := by
  rw [readWord, readNatural_int x.toNat_lt]
  exact congrArg Except.ok UInt32.ofNat_toNat

theorem readByte_int (x : UInt8) : (Json.int x.toNat).node.readByte = .ok x := by
  rw [readByte, readNatural_int x.toNat_lt]
  exact congrArg Except.ok UInt8.ofNat_toNat

theorem readNamed_text {α : Type} {all : List α} {nameOf : α → String} {a : α}
    (h : all.find? (nameOf · = nameOf a) = some a) (origin : Origin) :
    (Json.text (nameOf a)).node.readNamed origin all nameOf = .ok a := by
  simp only [Json.node, readNamed, Option.bind_some, Choice.find?, h]

/-! ### Values looked through -/

theorem isTooLarge_ofInt {n : Int} (h : n.natAbs < UInt64.size) :
    (Numeral.ofInt n).isTooLarge = false := by
  have hlength : (toString n.natAbs).length ≤ 20 := by
    rw [← String.length_toList, Nat.toString_eq_repr, Nat.toList_repr,
      Nat.length_toDigits_le_iff (by decide) (by decide)]
    exact Nat.lt_trans h (by decide)
  have hsize : ((toString n.natAbs).length : Int) + 0 ≤ 308 := by omega
  exact if_pos (.inr hsize)

theorem sift_int {n : Int} (h : n.natAbs < UInt64.size) (depth : Nat) :
    (Json.int n).node.sift depth = .ok (Json.int n).node := by
  rw [Json.node, sift, isTooLarge_ofInt h]
  rfl

theorem siftMembers_memberNodes {depth : Nat} {members : List (String × Json)}
    (h : ∀ member ∈ members, member.2.node.sift depth = .ok member.2.node) :
    siftMembers depth (Json.memberNodes members) = .ok (Json.memberNodes members) := by
  induction members with
  | nil => rfl
  | cons member members ih =>
      obtain ⟨hmember, hrest⟩ := List.forall_mem_cons.mp h
      simp only [Json.memberNodes, siftMembers, hmember, ih hrest]
      rfl

theorem sift_map {depth : Nat} {members : List (String × Json)}
    (h : ∀ member ∈ members, member.2.node.sift depth = .ok member.2.node) :
    (Json.map members).node.sift (depth + 1) = .ok (Json.map members).node := by
  rw [Json.node, sift, siftMembers_memberNodes h]
  rfl

end Node

end OrbitImage
