import Mathlib.Algebra.Group.Int.Defs
import OrbitImage.Proofs.Document.Record
/-!
Maps in which members are missing or have moved, or stand among others of unknown names. A record
read from such a map is the one in which just the slots of the members left are filled.
-/
namespace OrbitImage

namespace Json

/-- A value that is neither a list nor a map; a number is an integer of 64 bits, with a sign or
without. -/
inductive Simple : Json → Prop
  | null : Simple .null
  | bool (b : Bool) : Simple (.bool b)
  | text (s : String) : Simple (.text s)
  | int {n : Int} (hlow : -2 ^ 63 ≤ n) (hhigh : n < 2 ^ 64) : Simple (.int n)

/-- A map of the members that are kept, in any order and among others. Those have simple values and
names that are not known. -/
def Retains (j : Json) (members : List (String × Json)) (known : List String)
    (keep : String → Bool) : Prop :=
  ∃ ms added, j = .map ms ∧ ms.Perm (members.filter (fun member => keep member.1) ++ added) ∧
    ∀ member ∈ added, member.1 ∉ known ∧ member.2.Simple

namespace Simple

variable {j : Json}

theorem isExact (h : j.Simple) : j.isExact := by
  cases h <;> rfl

theorem isIntact (h : j.Simple) : j.node.isIntact := by
  cases h <;> rfl

theorem sift (h : j.Simple) (depth : Nat) : j.node.sift depth = .ok j.node := by
  cases h with
  | null => rfl
  | bool b => rfl
  | text s => rfl
  | int hlow hhigh => exact Node.sift_int (by simp only [UInt64.size]; omega) depth

end Simple

/-- The part of a rearranged list that passes a test. -/
theorem perm_filter_of_append {α : Type} {p : α → Bool} {l passed others : List α}
    (h : l.Perm (passed ++ others)) (hpassed : ∀ a ∈ passed, p a) (hothers : ∀ a ∈ others, ¬p a) :
    (l.filter p).Perm passed := by
  have hfilter := h.filter p
  rwa [List.filter_append, List.filter_eq_self.mpr hpassed, List.filter_eq_nil_iff.mpr hothers,
    List.append_nil] at hfilter

theorem membersAreExact_iff {members : List (String × Json)} :
    membersAreExact members ↔ ∀ member ∈ members, member.2.isExact := by
  induction members with
  | nil => simp [membersAreExact]
  | cons member members ih => simp [membersAreExact, ih]

namespace Retains

variable {j : Json} {members : List (String × Json)} {known : List String} {keep : String → Bool}

theorem refl (members : List (String × Json)) (known : List String) :
    (Json.map members).Retains members known fun _ => true := by
  refine ⟨members, [], rfl, ?_, by simp⟩
  rw [List.append_nil, List.filter_eq_self.mpr fun _ _ => rfl]

/-- What all members and all simple values have in common. -/
theorem forall_mem (h : j.Retains members known keep) {P : Json → Prop}
    (hmembers : ∀ member ∈ members, P member.2) (hsimple : ∀ k : Json, k.Simple → P k) :
    ∃ ms, j = .map ms ∧ ∀ member ∈ ms, P member.2 := by
  obtain ⟨ms, added, hj, hperm, hadded⟩ := h
  refine ⟨ms, hj, fun member hmember => ?_⟩
  rcases List.mem_append.mp (hperm.mem_iff.mp hmember) with hmember | hmember
  · exact hmembers member (List.mem_filter.mp hmember).1
  · exact hsimple member.2 (hadded member hmember).2

theorem isExact (h : j.Retains members known keep)
    (hmembers : ∀ member ∈ members, member.2.isExact) : j.isExact := by
  obtain ⟨ms, rfl, hms⟩ := h.forall_mem (P := (·.isExact)) hmembers fun _ => Simple.isExact
  exact membersAreExact_iff.mpr hms

theorem sift (h : j.Retains members known keep) {depth : Nat}
    (hmembers : ∀ member ∈ members, member.2.node.sift depth = .ok member.2.node) :
    j.node.sift (depth + 1) = .ok j.node := by
  obtain ⟨ms, rfl, hms⟩ := h.forall_mem (P := fun k => k.node.sift depth = .ok k.node) hmembers
    fun _ hk => hk.sift depth
  exact Node.sift_map hms

end Retains

end Json

namespace Node

variable {ρ : Type} {slots : List (Slot ρ)} {record : List String → ρ}

/-- Members of unknown names are passed over, if they are intact. -/
theorem foldlM_fillMember_known {members : List (String × Json)}
    (h : ∀ member ∈ members, member.1 ∉ slots.map Slot.name → member.2.node.isIntact) (r : ρ) :
    (Json.memberNodes members).foldlM (fillMember slots) r =
      (Json.memberNodes (members.filter fun member => member.1 ∈ slots.map Slot.name)).foldlM
        (fillMember slots) r := by
  induction members generalizing r with
  | nil => rfl
  | cons member members ih =>
      obtain ⟨hmember, hrest⟩ := List.forall_mem_cons.mp h
      by_cases hname : member.1 ∈ slots.map Slot.name
      · rw [List.filter_cons_of_pos (by simpa only [decide_eq_true_eq] using hname)]
        simp only [Json.memberNodes, List.foldlM_cons, ih hrest]
      · have hfind : slots.find? (·.name = member.1) = none := by
          rw [List.find?_eq_none]
          intro slot hslot heq
          exact hname (List.mem_map.mpr ⟨slot, hslot, of_decide_eq_true heq⟩)
        have hpassed : fillMember slots r (.scalar (.text member.1), member.2.node) = .ok r := by
          simp only [fillMember, choice?, Choice.find?, hfind, hmember hname, if_true]
        rw [List.filter_cons_of_neg (by simpa only [decide_eq_true_eq] using hname), ← ih hrest]
        simp only [Json.memberNodes, List.foldlM_cons, hpassed]
        rfl

theorem TakenBy.mem_slots {members : List (String × Json)} (h : TakenBy slots record members)
    {member : String × Json} (hmember : member ∈ members) : member.1 ∈ slots.map Slot.name := by
  obtain ⟨slot, hfind, -⟩ := h member hmember
  exact List.mem_map.mpr ⟨slot, List.mem_of_find?_eq_some hfind,
    by simpa using List.find?_some hfind⟩

end Node

namespace Json.Retains

variable {ρ : Type} {slots : List (Slot ρ)} {record : List String → ρ}
  {members : List (String × Json)} {keep : String → Bool}

/-- The slots that are filled are those of the members that are kept. -/
theorem exists_readRecord {j : Json} (h : j.Retains members (slots.map Slot.name) keep)
    (htaken : Node.TakenBy slots record members) (hnodup : (members.map Prod.fst).Nodup)
    (origin : Origin) :
    ∃ seen, j.node.readRecord origin slots (record []) = .ok (record seen) ∧
      ∀ name ∈ members.map Prod.fst, name ∈ seen ↔ keep name := by
  obtain ⟨ms, added, rfl, hperm, hadded⟩ := h
  have hknown : ∀ member ∈ members.filter (fun member => keep member.1),
      member.1 ∈ slots.map Slot.name := by
    intro member hmember
    exact htaken.mem_slots (List.mem_filter.mp hmember).1
  have hkept : (ms.filter fun member => member.1 ∈ slots.map Slot.name).Perm
      (members.filter fun member => keep member.1) := by
    refine perm_filter_of_append hperm (fun member hmember => ?_) fun member hmember => ?_
    · exact decide_eq_true (hknown member hmember)
    · rw [decide_eq_true_eq]
      exact (hadded member hmember).1
  have hintact : ∀ member ∈ ms, member.1 ∉ slots.map Slot.name → member.2.node.isIntact := by
    intro member hmember hname
    rcases List.mem_append.mp (hperm.mem_iff.mp hmember) with hmember | hmember
    · exact absurd (hknown member hmember) hname
    · exact (hadded member hmember).2.isIntact
  have hread := Node.readRecord_map
    (fun member hmember => htaken member (List.mem_filter.mp (hkept.mem_iff.mp hmember)).1)
    ((hkept.map Prod.fst).nodup_iff.mpr (hnodup.sublist (List.filter_sublist.map Prod.fst))) origin
  refine ⟨_, (Node.foldlM_fillMember_known hintact _).trans hread, fun name hname => ?_⟩
  have hnames : (members.filter fun member => keep member.1).map Prod.fst =
      (members.map Prod.fst).filter keep := List.filter_map.symm
  rw [List.mem_reverse, (hkept.map Prod.fst).mem_iff, hnames, List.mem_filter, and_iff_right hname]

end Json.Retains

end OrbitImage
