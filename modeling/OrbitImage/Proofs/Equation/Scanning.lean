import Mathlib.Data.List.SplitBy
import OrbitImage.Proofs.Equation.Cutting
/-!
What a scan does. The two checks pass exactly if no letter a to f is left when the hexadecimal
literals are removed, and every lexeme of a single character is an allowed one; then the lexemes
are read one by one. A scan ends in a fault of spelling or of grammar and in no other.
-/
namespace OrbitImage
open Text

namespace Token

/-! ### The check of letters -/

/-- No keyword starts with a letter a to f. -/
theorem isKeywordRun_eq_false {c : Char} (h : isHexLetter c) (run : List Char) :
    isKeywordRun (c :: run) = false := by
  have hheads : ∀ word ∈ ["x", "rol", "ror", "r", "o", "l"],
      word.toList.head? ∈ ['x', 'r', 'o', 'l'].map some := by decide
  have hlower : c.toLower ∉ ['x', 'r', 'o', 'l'] :=
    ascii_cases (P := fun c => isHexLetter c → c.toLower ∉ ['x', 'r', 'o', 'l']) (by decide)
      (lt_of_isHexDigit (by simp [isHexDigit, h])) h
  rw [isKeywordRun, Bool.eq_false_iff]
  intro hword
  have hhead := hheads _ (List.contains_iff_mem.mp hword)
  rw [String.toList_ofList] at hhead
  obtain ⟨d, hd, hdc⟩ := List.mem_map.mp hhead
  exact hlower (Option.some.inj hdc ▸ hd)

theorem isHexLetter_of_isChain {a : Char} {run : List Char}
    (h : (a :: run).IsChain fun b c => isHexLetter b == isHexLetter c) :
    ∀ c ∈ a :: run, isHexLetter c = isHexLetter a := by
  induction run generalizing a with
  | nil => simp
  | cons b run ih =>
      obtain ⟨hab, hrun⟩ := List.isChain_cons_cons.mp h
      intro c hc
      rcases List.mem_cons.mp hc with rfl | hc
      · rfl
      · exact (ih hrun c hc).trans (beq_iff_eq.mp hab).symm

/-- The check of letters passes over no run: none of them is made of the letters of keywords. -/
theorem strayLetters_eq (cs : List Char) :
    strayLetters cs = (letterRuns (withoutHex cs)).eraseDups := by
  rw [strayLetters]
  congr 1
  refine List.filter_eq_self.mpr fun run hrun => ?_
  obtain ⟨hsplit, hletters⟩ := List.mem_filter.mp hrun
  obtain ⟨c, run, rfl⟩ := List.exists_cons_of_ne_nil (List.ne_nil_of_mem_splitBy hsplit)
  rw [isKeywordRun_eq_false (List.all_eq_true.mp hletters c (List.mem_cons_self ..))]
  rfl

/-- A letter a to f is found in one of the runs. -/
theorem exists_letterRun {cs : List Char} {c : Char} (hc : c ∈ cs) (h : isHexLetter c) :
    ∃ run, run ∈ letterRuns cs := by
  rw [← List.flatten_splitBy (fun a b => isHexLetter a == isHexLetter b) cs] at hc
  obtain ⟨run, hrun, hc⟩ := List.mem_flatten.mp hc
  obtain ⟨a, rest, rfl⟩ := List.exists_cons_of_ne_nil (List.ne_nil_of_mem_splitBy hrun)
  have hsame := isHexLetter_of_isChain (List.isChain_of_mem_splitBy hrun)
  have ha : isHexLetter a := (hsame c hc).symm.trans h
  refine ⟨a :: rest, List.mem_filter.mpr ⟨hrun, ?_⟩⟩
  exact List.all_eq_true.mpr fun d hd => (hsame d hd).trans ha

/-- The check of letters passes if only hexadecimal literals hold letters a to f. -/
theorem strayLetters_eq_nil_iff {cs : List Char} :
    strayLetters cs = [] ↔ ∀ c ∈ withoutHex cs, isHexLetter c = false := by
  rw [strayLetters_eq]
  constructor
  · intro h c hc
    by_contra hletter
    obtain ⟨run, hrun⟩ := exists_letterRun hc (by simpa using hletter)
    rw [← List.mem_eraseDups, h] at hrun
    cases hrun
  · intro h
    rw [letterRuns_eq_nil h]
    rfl

/-! ### The check of characters -/

/-- A text that passes the check of characters has only characters of equations. -/
theorem isWritten_of_disallowed {cs : List Char} (h : disallowed cs = []) :
    ∀ c ∈ cs, IsWritten c := by
  fun_induction disallowed cs with
  | case1 => simp
  | case2 c cs op hrot ih =>
      obtain ⟨-, hpiece⟩ := Lexeme.rotation?_eq_some hrot
      have hsymbol : (c :: cs.take 2).map Char.toUpper = (Operator.binary op).symbol.toList :=
        hpiece
      intro d hd
      rw [← List.take_append_drop 2 cs, ← List.cons_append] at hd
      rcases List.mem_append.mp hd with hd | hd
      · exact .inr (operatorChar_of_mem hsymbol hd)
      · exact ih h d hd
  | case3 c cs hrot hc ih => exact List.forall_mem_cons.mpr ⟨.inl hc, ih h⟩
  | case4 => cases h

/-! ### The scan -/

/-- The checks and the reading, one after the other. -/
theorem ofChars_eq (cs : List Char) :
    ofChars cs =
      if strayLetters cs ≠ [] then .error (.strayLetters ((strayLetters cs).map String.ofList))
      else if disallowed cs ≠ [] then .error (.strayCharacters (disallowed cs).eraseDups)
      else match (Lexeme.cut cs).mapM Lexeme.token? with
        | .error fault => .error fault
        | .ok found =>
          if found.filterMap id = [] then .error .noTokens else .ok (found.filterMap id) := by
  unfold ofChars
  cases strayLetters cs with
  | cons run runs => rfl
  | nil =>
      cases disallowed cs with
      | cons c rest =>
          rw [List.eraseDups_cons]
          rfl
      | nil =>
          cases (Lexeme.cut cs).mapM Lexeme.token? with
          | error fault => rfl
          | ok found =>
              change (if (found.filterMap id).isEmpty then _ else _) =
                if found.filterMap id = [] then _ else _
              cases found.filterMap id <;> rfl

/-- A text that passes the checks and is read as the tokens, of which there may be none. -/
structure Reads (cs : List Char) (ts : List Token) : Prop where
  letters : ∀ c ∈ withoutHex cs, isHexLetter c = false
  characters : disallowed cs = []
  tokens : ∃ found, (Lexeme.cut cs).mapM Lexeme.token? = .ok found ∧ found.filterMap id = ts

theorem ofChars_eq_ok_iff {cs : List Char} {ts : List Token} :
    ofChars cs = .ok ts ↔ Reads cs ts ∧ ts ≠ [] := by
  rw [ofChars_eq]
  constructor
  · intro h
    split at h
    case isTrue => cases h
    case isFalse hletters =>
      split at h
      case isTrue => cases h
      case isFalse hcharacters =>
        split at h
        case h_1 => cases h
        case h_2 found hfound =>
          split at h
          case isTrue => cases h
          case isFalse hne =>
            cases h
            exact ⟨⟨strayLetters_eq_nil_iff.mp (not_not.mp hletters), not_not.mp hcharacters,
              found, hfound, rfl⟩, hne⟩
  · rintro ⟨⟨hletters, hcharacters, found, hfound, rfl⟩, hne⟩
    rw [strayLetters_eq_nil_iff.mpr hletters, hcharacters, hfound]
    exact if_neg hne

end Token

/-! ### Faults of a scan -/

namespace Lexeme

theorem kind_of_literal {base : Nat} {digits spelling : List Char} {fault : EquationFault}
    (h : literal base digits spelling = .error fault) : fault.kind = .lexical := by
  dsimp only [literal] at h
  split at h
  · cases h
  · cases h
    rfl

/-- Only the value of a literal can be wrong with a lexeme. -/
theorem kind_of_token? {l : Lexeme} {fault : EquationFault} (h : l.token? = .error fault) :
    fault.kind = .lexical := by
  have of_literal : ∀ {base digits spelling},
      some <$> literal base digits spelling = .error fault → fault.kind = .lexical := by
    intro base digits spelling hmap
    cases hlit : literal base digits spelling with
    | ok t =>
        rw [hlit] at hmap
        cases hmap
    | error cause =>
        rw [hlit] at hmap
        cases hmap
        exact kind_of_literal hlit
  unfold token? at h
  split at h
  case h_2 => exact of_literal h
  case h_3 => exact of_literal h
  all_goals cases h

theorem kind_of_mapM {ls : List Lexeme} {fault : EquationFault}
    (h : ls.mapM token? = .error fault) : fault.kind = .lexical := by
  induction ls with
  | nil => cases h
  | cons l ls ih =>
      rw [List.mapM_cons] at h
      cases hl : l.token? with
      | error cause =>
          rw [hl] at h
          cases h
          exact kind_of_token? hl
      | ok t =>
          rw [hl] at h
          cases hls : ls.mapM token? with
          | error cause =>
              rw [hls] at h
              cases h
              exact ih hls
          | ok ts =>
              rw [hls] at h
              cases h

end Lexeme

theorem Token.kind_of_ofChars {cs : List Char} {fault : EquationFault}
    (h : Token.ofChars cs = .error fault) : fault.kind = .lexical ∨ fault.kind = .grammar := by
  rw [ofChars_eq] at h
  split at h
  · cases h
    exact .inl rfl
  · split at h
    · cases h
      exact .inl rfl
    · split at h
      case h_1 hfault =>
        cases h
        exact .inl (Lexeme.kind_of_mapM hfault)
      case h_2 =>
        split at h
        · cases h
          exact .inr rfl
        · cases h

end OrbitImage
