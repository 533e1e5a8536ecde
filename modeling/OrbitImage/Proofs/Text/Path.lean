import OrbitImage.Text.Path
import OrbitImage.Side
/-!
The segments of paths. A path with another file name ends in a segment of that name, whatever the
path was; so the paths for two suffixes differ in their last segments, and in nothing else.
-/
namespace OrbitImage.Path

theorem split_ne_nil (path : List Char) : split path ≠ [] := by
  cases path with
  | nil => exact List.cons_ne_nil _ _
  | cons c cs =>
      rw [split]
      split
      · exact List.cons_ne_nil _ _
      · split <;> exact List.cons_ne_nil _ _

theorem split_append_slash (start rest : List Char) :
    split (start ++ '/' :: rest) = split start ++ split rest := by
  induction start with
  | nil => rfl
  | cons c cs ih =>
      rw [List.cons_append, split, split, ih]
      by_cases hc : c = '/'
      · rw [if_pos hc, if_pos hc, List.cons_append]
      · rw [if_neg hc, if_neg hc]
        cases hcs : split cs with
        | nil => exact absurd hcs (split_ne_nil cs)
        | cons segment segments => rfl

theorem split_of_notMem {name : List Char} (h : '/' ∉ name) : split name = [name] := by
  induction name with
  | nil => rfl
  | cons c cs ih =>
      rw [List.mem_cons, not_or] at h
      rw [split, if_neg (Ne.symm h.1), ih h.2]

theorem notMem_of_mem_split {path segment : List Char} (h : segment ∈ split path) :
    '/' ∉ segment := by
  induction path generalizing segment with
  | nil =>
      rw [List.mem_singleton.mp h]
      exact List.not_mem_nil
  | cons c cs ih =>
      rw [split] at h
      by_cases hc : c = '/'
      · rw [if_pos hc] at h
        obtain rfl | h := List.mem_cons.mp h
        · exact List.not_mem_nil
        · exact ih h
      · rw [if_neg hc] at h
        cases hcs : split cs with
        | nil => exact absurd hcs (split_ne_nil cs)
        | cons first segments =>
            rw [hcs] at h ih
            obtain rfl | h := List.mem_cons.mp h
            · exact List.not_mem_cons_of_ne_of_not_mem (Ne.symm hc) (ih List.mem_cons_self)
            · exact ih (List.mem_cons_of_mem _ h)

/-! ### File names -/

theorem mem_of_mem_dropIdleEnd {segments : List (List Char)} {segment : List Char}
    (h : segment ∈ dropIdleEnd segments) : segment ∈ segments := by
  have hreverse := (List.dropWhile_sublist isIdle).subset (List.mem_reverse.mp h)
  exact List.mem_reverse.mp hreverse

theorem mem_split_of_mem_anchored {path segment : List Char} (h : segment ∈ (anchored path).2) :
    segment ∈ split path := by
  cases path with
  | nil => exact absurd h List.not_mem_nil
  | cons c cs =>
      cases hsplit : split (c :: cs) with
      | nil => exact absurd hsplit (split_ne_nil _)
      | cons first segments =>
          simp only [anchored, hsplit] at h
          split at h
          · exact List.mem_cons_of_mem _ h
          · exact h

theorem mem_split_of_fileName? {path : String} {before : List (List Char)} {name : List Char}
    (h : fileName? path = some (before, name)) : name ∈ split path.toList := by
  simp only [fileName?] at h
  cases hsegments : (dropIdleEnd (anchored path.toList).2).reverse with
  | nil => simp [hsegments] at h
  | cons last rest =>
      have hlast : last ∈ dropIdleEnd (anchored path.toList).2 := by
        rw [← List.mem_reverse, hsegments]
        exact List.mem_cons_self
      simp only [hsegments, Option.ite_none_left_eq_some, Option.some.injEq, Prod.mk.injEq] at h
      obtain ⟨-, -, rfl⟩ := h
      exact mem_split_of_mem_anchored (mem_of_mem_dropIdleEnd hlast)

theorem splitName_fst_subset (name : List Char) : (splitName name).1 ⊆ name := by
  simp only [splitName]
  split
  · exact List.Subset.refl name
  · next stem _ =>
      intro c hc
      have hdrop := (List.drop_sublist _ _).subset (List.mem_reverse.mp hc)
      exact List.mem_reverse.mp hdrop

theorem splitName_snd_subset {name extension : List Char}
    (h : (splitName name).2 = some extension) : extension ⊆ name := by
  simp only [splitName] at h
  split at h
  · cases h
  · cases h
    intro c hc
    have htake := (List.takeWhile_sublist _).subset (List.mem_reverse.mp hc)
    exact List.mem_reverse.mp htake

theorem notMem_stem? {path stem : String} (h : stem? path = some stem) : '/' ∉ stem.toList := by
  obtain ⟨⟨before, name⟩, hname, rfl⟩ := Option.map_eq_some_iff.mp h
  intro hslash
  rw [String.toList_ofList] at hslash
  exact notMem_of_mem_split (mem_split_of_fileName? hname) (splitName_fst_subset name hslash)

theorem notMem_extension? {path extension : String} (h : extension? path = some extension) :
    '/' ∉ extension.toList := by
  obtain ⟨⟨before, name⟩, hname, h⟩ := Option.bind_eq_some_iff.mp h
  obtain ⟨chars, hchars, rfl⟩ := Option.map_eq_some_iff.mp h
  intro hslash
  rw [String.toList_ofList] at hslash
  exact notMem_of_mem_split (mem_split_of_fileName? hname) (splitName_snd_subset hchars hslash)

/-! ### Paths with another file name -/

theorem exists_split_join (before : List (List Char)) :
    ∃ segments, ∀ name : List Char, '/' ∉ name →
      split (join (before ++ [name])) = segments ++ [name] := by
  induction before with
  | nil => exact ⟨[], fun name => split_of_notMem⟩
  | cons first rest ih =>
      obtain ⟨segments, ih⟩ := ih
      refine ⟨split first ++ segments, fun name h => ?_⟩
      have hjoin : join (first :: rest ++ [name]) = first ++ '/' :: join (rest ++ [name]) := by
        cases rest <;> rfl
      rw [hjoin, split_append_slash, ih name h, List.append_assoc]

/-- A path with another file name ends in a segment of that name, behind the same segments whatever
the name is. -/
theorem exists_split_withName (path : String) :
    ∃ segments, ∀ name : String, '/' ∉ name.toList →
      split (withName path name).toList = segments ++ [name.toList] := by
  unfold withName
  cases hname : fileName? path with
  | some found =>
      obtain ⟨segments, hsegments⟩ := exists_split_join found.1
      refine ⟨segments, fun name h => ?_⟩
      rw [String.toList_ofList]
      exact hsegments name.toList h
  | none =>
      by_cases hend : path.isEmpty ∨ path.toList.getLast? = some '/'
      · simp only [if_pos hend]
        obtain hempty | hslash := hend
        · refine ⟨[], fun name h => ?_⟩
          rw [String.isEmpty_iff.mp hempty, String.empty_append]
          exact split_of_notMem h
        · obtain ⟨start, hstart⟩ := List.getLast?_eq_some_iff.mp hslash
          refine ⟨split start, fun name h => ?_⟩
          rw [String.toList_append, hstart, List.append_assoc, List.singleton_append,
            split_append_slash, split_of_notMem h]
      · simp only [if_neg hend]
        refine ⟨split path.toList, fun name h => ?_⟩
        rw [String.append_assoc, String.toList_append, String.toList_append,
          ← split_of_notMem h, ← split_append_slash]
        rfl

/-- The file name of a path with a suffix. -/
def suffixedName (path suffix : String) : String :=
  (stem? path).getD "bitviz" ++ "-" ++ suffix ++ "." ++ (extension? path).getD "png"

theorem notMem_suffixedName (path : String) {suffix : String} (h : '/' ∉ suffix.toList) :
    '/' ∉ (suffixedName path suffix).toList := by
  have hstem : '/' ∉ ((stem? path).getD "bitviz").toList := by
    cases hs : stem? path with
    | none => decide
    | some stem => exact notMem_stem? hs
  have hextension : '/' ∉ ((extension? path).getD "png").toList := by
    cases he : extension? path with
    | none => decide
    | some extension => exact notMem_extension? he
  simp [suffixedName, h, hstem, hextension]

theorem exists_split_suffixed (path : String) :
    ∃ segments, ∀ suffix : String, '/' ∉ suffix.toList →
      split (suffixed path suffix).toList = segments ++ [(suffixedName path suffix).toList] := by
  obtain ⟨segments, hsegments⟩ := exists_split_withName path
  exact ⟨segments, fun suffix h => hsegments _ (notMem_suffixedName path h)⟩

theorem suffixedName_left_ne_right (path : String) :
    suffixedName path Side.left.name ≠ suffixedName path Side.right.name := by
  intro h
  have hlength := congrArg String.length h
  simp only [suffixedName, Side.name, String.length_append, Nat.add_right_cancel_iff,
    Nat.add_left_cancel_iff] at hlength
  exact absurd hlength (by decide)

/-- A segment that leads neither nowhere nor up. -/
structure Ordinary (name : String) : Prop where
  ne_empty : name ≠ ""
  ne_dot : name ≠ "."
  ne_up : name ≠ ".."

/-- A name with a dash is ordinary. -/
theorem ordinary_suffixedName (path suffix : String) : Ordinary (suffixedName path suffix) := by
  have hdash : '-' ∈ (suffixedName path suffix).toList := by simp [suffixedName]
  constructor
  all_goals
    intro h
    rw [h] at hdash
    exact absurd hdash (by decide)

end OrbitImage.Path
