import OrbitImage.Proofs.Document.Marks
/-!
Written JSON is read back. The marks of a value do not depend on the layout; the tree read from
them holds the same texts, integers and truth values in the same places. Nothing is said of numbers
that are no integers.
-/
namespace OrbitImage

namespace Json
open JsonMark

mutual

/-- A value without numbers that are no integers. -/
def isExact : Json → Bool
  | float _ => false
  | list items => areExact items
  | map members => membersAreExact members
  | _ => true

def areExact : List Json → Bool
  | [] => true
  | j :: js => j.isExact && areExact js

def membersAreExact : List (String × Json) → Bool
  | [] => true
  | (_, j) :: ms => j.isExact && membersAreExact ms

end

mutual

/-- The tree that the text of a value is read as. -/
def node : Json → Node
  | null => .scalar .null
  | bool b => .scalar (.bool b)
  | int n => .scalar (.number (.ofInt n))
  | float _ => .damaged
  | text s => .scalar (.text s)
  | list items => .list (nodes items)
  | map members => .map (memberNodes members)

def nodes : List Json → List Node
  | [] => []
  | j :: js => j.node :: nodes js

def memberNodes : List (String × Json) → List (Node × Node)
  | [] => []
  | (key, j) :: ms => (.scalar (.text key), j.node) :: memberNodes ms

end

mutual

/-- The marks that the text of a value is cut into. -/
def marks : Json → List JsonMark
  | null => [.scalar .null]
  | bool b => [.scalar (.bool b)]
  | int n => [.scalar (.number (.ofInt n))]
  | float _ => [.broken]
  | text s => [.scalar (.text s)]
  | list items => .openList :: (itemMarks items ++ [.closeList])
  | map members => .openMap :: (memberMarks members ++ [.closeMap])

def itemMarks : List Json → List JsonMark
  | [] => []
  | [j] => j.marks
  | j :: js => j.marks ++ .comma :: itemMarks js

def memberMarks : List (String × Json) → List JsonMark
  | [] => []
  | [(key, j)] => .scalar (.text key) :: .colon :: j.marks
  | (key, j) :: ms => .scalar (.text key) :: .colon :: (j.marks ++ .comma :: memberMarks ms)

end

theorem memberNodes_append (ms ns : List (String × Json)) :
    memberNodes (ms ++ ns) = memberNodes ms ++ memberNodes ns := by
  induction ms with
  | nil => rfl
  | cons m ms ih => exact congrArg (_ :: ·) ih

/-! ### From texts to marks -/

theorem endsNumber_newline (depth : Nat) (cs : List Char) : EndsNumber (newline depth ++ cs) :=
  endsNumber_cons (by decide) (by decide) _

mutual

theorem cutsInto_compact {cs : List Char} {ms : List JsonMark} (hcs : EndsNumber cs)
    (h : CutsInto cs ms) :
    ∀ j : Json, j.isExact → CutsInto (j.compact ++ cs) (j.marks ++ ms)
  | null, _ => h.null
  | bool b, _ => h.bool b
  | int n, _ => h.int hcs n
  | text s, _ => h.quoted s
  | list items, hj => by
      rw [compact, marks, List.cons_append, List.cons_append, List.append_assoc, List.append_assoc]
      exact (cutsInto_compactItems (endsNumber_cons (by decide) (by decide) _)
        (h.sign .closeList) items hj).sign .openList
  | map members, hj => by
      rw [compact, marks, List.cons_append, List.cons_append, List.append_assoc, List.append_assoc]
      exact (cutsInto_compactMembers (endsNumber_cons (by decide) (by decide) _)
        (h.sign .closeMap) members hj).sign .openMap

theorem cutsInto_compactItems {cs : List Char} {ms : List JsonMark} (hcs : EndsNumber cs)
    (h : CutsInto cs ms) :
    ∀ js : List Json, areExact js → CutsInto (compactItems js ++ cs) (itemMarks js ++ ms)
  | [], _ => h
  | [j], hjs => by
      simp only [areExact, Bool.and_true] at hjs
      exact cutsInto_compact hcs h j hjs
  | j :: k :: js, hjs => by
      rw [areExact, Bool.and_eq_true] at hjs
      have hrest := (cutsInto_compactItems hcs h (k :: js) hjs.2).sign .comma
      simp only [compactItems, itemMarks, List.append_assoc, List.cons_append]
      exact cutsInto_compact (endsNumber_cons (by decide) (by decide) _) hrest j hjs.1

theorem cutsInto_compactMembers {cs : List Char} {ms : List JsonMark} (hcs : EndsNumber cs)
    (h : CutsInto cs ms) :
    ∀ members : List (String × Json), membersAreExact members →
      CutsInto (compactMembers members ++ cs) (memberMarks members ++ ms)
  | [], _ => h
  | [(key, j)], hj => by
      simp only [membersAreExact, Bool.and_true] at hj
      have hvalue := ((cutsInto_compact hcs h j hj).sign .colon).quoted key
      simpa only [compactMembers, memberMarks, List.append_assoc, List.cons_append] using hvalue
  | (key, j) :: member :: members, hj => by
      rw [membersAreExact, Bool.and_eq_true] at hj
      have hrest := (cutsInto_compactMembers hcs h (member :: members) hj.2).sign .comma
      have hvalue := ((cutsInto_compact (endsNumber_cons (by decide) (by decide) _) hrest j
        hj.1).sign .colon).quoted key
      simpa only [compactMembers, memberMarks, List.append_assoc, List.cons_append] using hvalue

end

mutual

theorem cutsInto_indented {cs : List Char} {ms : List JsonMark} (hcs : EndsNumber cs)
    (h : CutsInto cs ms) (depth : Nat) :
    ∀ j : Json, j.isExact → CutsInto (j.indented depth ++ cs) (j.marks ++ ms)
  | null, _ => h.null
  | bool b, _ => h.bool b
  | int n, _ => h.int hcs n
  | text s, _ => h.quoted s
  | list [], _ => (h.sign .closeList).sign .openList
  | list (j :: js), hj => by
      have hitems := cutsInto_indentedItems (endsNumber_newline depth _)
        ((h.sign .closeList).newline depth) (depth + 1) (j :: js) hj
      simpa only [indented, marks, List.append_assoc, List.cons_append, List.nil_append] using
        hitems.sign .openList
  | map [], _ => (h.sign .closeMap).sign .openMap
  | map (m :: members), hj => by
      have hmembers := cutsInto_indentedMembers (endsNumber_newline depth _)
        ((h.sign .closeMap).newline depth) (depth + 1) (m :: members) hj
      simpa only [indented, marks, List.append_assoc, List.cons_append, List.nil_append] using
        hmembers.sign .openMap

theorem cutsInto_indentedItems {cs : List Char} {ms : List JsonMark} (hcs : EndsNumber cs)
    (h : CutsInto cs ms) (depth : Nat) :
    ∀ js : List Json, areExact js → CutsInto (indentedItems depth js ++ cs) (itemMarks js ++ ms)
  | [], _ => h
  | [j], hjs => by
      simp only [areExact, Bool.and_true] at hjs
      simpa only [indentedItems, itemMarks, List.append_assoc] using
        (cutsInto_indented hcs h depth j hjs).newline depth
  | j :: k :: js, hjs => by
      rw [areExact, Bool.and_eq_true] at hjs
      have hrest := (cutsInto_indentedItems hcs h depth (k :: js) hjs.2).sign .comma
      have hitem := (cutsInto_indented (endsNumber_cons (by decide) (by decide) _) hrest depth j
        hjs.1).newline depth
      simpa only [indentedItems, itemMarks, List.append_assoc, List.cons_append] using hitem

theorem cutsInto_indentedMembers {cs : List Char} {ms : List JsonMark} (hcs : EndsNumber cs)
    (h : CutsInto cs ms) (depth : Nat) :
    ∀ members : List (String × Json), membersAreExact members →
      CutsInto (indentedMembers depth members ++ cs) (memberMarks members ++ ms)
  | [], _ => h
  | [(key, j)], hj => by
      simp only [membersAreExact, Bool.and_true] at hj
      have hvalue := (((cutsInto_indented hcs h depth j hj).blank (c := ' ') (by decide)).sign
        .colon).quoted key
      simpa only [indentedMembers, memberMarks, List.append_assoc, List.cons_append] using
        hvalue.newline depth
  | (key, j) :: member :: members, hj => by
      rw [membersAreExact, Bool.and_eq_true] at hj
      have hrest := (cutsInto_indentedMembers hcs h depth (member :: members) hj.2).sign .comma
      have hvalue := (((cutsInto_indented (endsNumber_cons (by decide) (by decide) _) hrest depth j
        hj.1).blank (c := ' ') (by decide)).sign .colon).quoted key
      simpa only [indentedMembers, memberMarks, List.append_assoc, List.cons_append] using
        hvalue.newline depth

end

/-! ### From marks to trees -/

/-- A list that is not empty is read item by item. -/
theorem ofMarks_openList {fuel : Nat} {m : JsonMark} {ms : List JsonMark} (hm : m ≠ .closeList) :
    Node.ofMarks (fuel + 1) (.openList :: m :: ms) =
      (.list (Node.itemsOfMarks fuel (m :: ms)).1, (Node.itemsOfMarks fuel (m :: ms)).2) := by
  rw [Node.ofMarks]
  exact fun _ h => hm (List.cons.inj h).1

theorem ofMarks_openMap {fuel : Nat} {m : JsonMark} {ms : List JsonMark} (hm : m ≠ .closeMap) :
    Node.ofMarks (fuel + 1) (.openMap :: m :: ms) =
      (.map (Node.membersOfMarks fuel (m :: ms)).1, (Node.membersOfMarks fuel (m :: ms)).2) := by
  rw [Node.ofMarks]
  exact fun _ h => hm (List.cons.inj h).1

theorem exists_itemMarks (j : Json) (js : List Json) :
    ∃ m ms, itemMarks (j :: js) = m :: ms ∧ m ≠ .closeList := by
  have hj : ∃ m ms, j.marks = m :: ms ∧ m ≠ .closeList := by
    cases j <;> exact ⟨_, _, rfl, by simp⟩
  obtain ⟨m, ms, hj, hm⟩ := hj
  cases js with
  | nil => exact ⟨m, ms, hj, hm⟩
  | cons k js => exact ⟨m, ms ++ .comma :: itemMarks (k :: js), by simp [itemMarks, hj], hm⟩

theorem exists_memberMarks (member : String × Json) (members : List (String × Json)) :
    ∃ m ms, memberMarks (member :: members) = m :: ms ∧ m ≠ .closeMap := by
  cases members <;> exact ⟨_, _, rfl, by simp⟩

mutual

theorem ofMarks_marks (rest : List JsonMark) :
    ∀ (j : Json) (fuel : Nat), j.isExact → 2 * j.marks.length ≤ fuel + 1 →
      Node.ofMarks fuel (j.marks ++ rest) = (j.node, some rest)
  | null, fuel + 1, _, _ => rfl
  | bool b, fuel + 1, _, _ => rfl
  | int n, fuel + 1, _, _ => rfl
  | text s, fuel + 1, _, _ => rfl
  | list [], fuel + 1, _, _ => rfl
  | list (j :: js), fuel + 1, hj, hfuel => by
      simp only [marks, List.length_cons, List.length_append, List.length_nil] at hfuel
      have hitems := itemsOfMarks_itemMarks rest j js fuel hj (by omega)
      obtain ⟨m, ms, hmarks, hm⟩ := exists_itemMarks j js
      rw [hmarks, List.cons_append] at hitems
      rw [marks, hmarks, List.cons_append, List.cons_append, List.cons_append, List.append_assoc,
        List.singleton_append, ofMarks_openList hm, hitems]
      rfl
  | map [], fuel + 1, _, _ => rfl
  | map (member :: members), fuel + 1, hj, hfuel => by
      simp only [marks, List.length_cons, List.length_append, List.length_nil] at hfuel
      have hmembers := membersOfMarks_memberMarks rest member members fuel hj (by omega)
      obtain ⟨m, ms, hmarks, hm⟩ := exists_memberMarks member members
      rw [hmarks, List.cons_append] at hmembers
      rw [marks, hmarks, List.cons_append, List.cons_append, List.cons_append, List.append_assoc,
        List.singleton_append, ofMarks_openMap hm, hmembers]
      rfl
  | j, 0, _, hfuel => by
      have hpos : 0 < j.marks.length := by cases j <;> simp [marks]
      omega

theorem itemsOfMarks_itemMarks (rest : List JsonMark) :
    ∀ (j : Json) (js : List Json) (fuel : Nat), areExact (j :: js) →
      2 * (itemMarks (j :: js)).length ≤ fuel →
      Node.itemsOfMarks fuel (itemMarks (j :: js) ++ .closeList :: rest) =
        (nodes (j :: js), some rest)
  | j, [], fuel + 1, hj, hfuel => by
      simp only [areExact, Bool.and_true] at hj
      rw [itemMarks] at hfuel ⊢
      rw [Node.itemsOfMarks, ofMarks_marks _ j fuel hj hfuel]
      rfl
  | j, k :: js, fuel + 1, hj, hfuel => by
      rw [areExact, Bool.and_eq_true] at hj
      simp only [itemMarks, List.length_cons, List.length_append] at hfuel
      have hrest := itemsOfMarks_itemMarks rest k js fuel hj.2 (by omega)
      have hmarks : itemMarks (j :: k :: js) = j.marks ++ .comma :: itemMarks (k :: js) := rfl
      rw [hmarks, List.append_assoc, List.cons_append, Node.itemsOfMarks,
        ofMarks_marks _ j fuel hj.1 (by omega)]
      simp only [hrest]
      rfl
  | j, js, 0, _, hfuel => by
      obtain ⟨m, ms, hmarks, -⟩ := exists_itemMarks j js
      simp [hmarks] at hfuel

theorem membersOfMarks_memberMarks (rest : List JsonMark) :
    ∀ (member : String × Json) (members : List (String × Json)) (fuel : Nat),
      membersAreExact (member :: members) →
      2 * (memberMarks (member :: members)).length ≤ fuel →
      Node.membersOfMarks fuel (memberMarks (member :: members) ++ .closeMap :: rest) =
        (memberNodes (member :: members), some rest)
  | (key, j), [], fuel + 1, hj, hfuel => by
      simp only [membersAreExact, Bool.and_true] at hj
      simp only [memberMarks, List.length_cons] at hfuel
      rw [memberMarks, List.cons_append, List.cons_append, Node.membersOfMarks,
        ofMarks_marks _ j fuel hj (by omega)]
      rfl
  | (key, j), member :: members, fuel + 1, hj, hfuel => by
      rw [membersAreExact, Bool.and_eq_true] at hj
      simp only [memberMarks, List.length_cons, List.length_append] at hfuel
      have hrest := membersOfMarks_memberMarks rest member members fuel hj.2 (by omega)
      have hmarks : memberMarks ((key, j) :: member :: members) =
          .scalar (.text key) :: .colon :: (j.marks ++ .comma :: memberMarks (member :: members)) :=
        rfl
      rw [hmarks, List.cons_append, List.cons_append, List.append_assoc, List.cons_append,
        Node.membersOfMarks, ofMarks_marks _ j fuel hj.1 (by omega)]
      simp only [hrest]
      rfl
  | member, members, 0, _, hfuel => by
      obtain ⟨m, ms, hmarks, -⟩ := exists_memberMarks member members
      simp [hmarks] at hfuel

end

/-! ### Reading what is written -/

/-- A text that is cut into the marks of a value is read as the value. -/
theorem ofJson_of_cutsInto {j : Json} (hj : j.isExact) {cs : List Char}
    (h : CutsInto cs j.marks) : Reading.ofJson (String.ofList cs) = ⟨j.node, true⟩ := by
  have hmarks := ofMarks_marks [] j (2 * j.marks.length) hj (Nat.le_succ _)
  rw [List.append_nil] at hmarks
  simp only [Reading.ofJson, String.toList_ofList, h cs.length (Nat.le_refl _), hmarks]

/-- The texts that a value is written as: compact, or with an indentation, and then perhaps with a
line feed at the end. -/
def texts (j : Json) : List String :=
  [j.render, j.renderIndented, j.renderIndented ++ "\n"]

theorem ofJson_texts {j : Json} (hj : j.isExact) {s : String} (hs : s ∈ j.texts) :
    Reading.ofJson s = ⟨j.node, true⟩ := by
  have hline : CutsInto ['\n'] [] := cutsInto_nil.blank (by decide)
  have hcompact := cutsInto_compact endsNumber_nil cutsInto_nil j hj
  have hindented := cutsInto_indented endsNumber_nil cutsInto_nil 0 j hj
  have hended := cutsInto_indented (endsNumber_cons (by decide) (by decide) _) hline 0 j hj
  rw [List.append_nil, List.append_nil] at hcompact hindented
  rw [List.append_nil] at hended
  simp only [texts, List.mem_cons, List.not_mem_nil, or_false] at hs
  rcases hs with rfl | rfl | rfl
  · exact ofJson_of_cutsInto hj hcompact
  · exact ofJson_of_cutsInto hj hindented
  · rw [renderIndented, show "\n" = String.ofList ['\n'] from rfl, ← String.ofList_append]
    exact ofJson_of_cutsInto hj hended

end Json

end OrbitImage
