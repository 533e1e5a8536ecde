import OrbitImage.Proofs.Equation.Composition
import OrbitImage.Proofs.Text.Runs
/-!
Which fault is found in an equation. Five checks look at the text one after the other and each in
its own way; `Diagnosis` says of every text which of them speaks, and in which words. The pieces
that a check takes out of the text (`Text.Deletes`) and the runs it names (`Text.Runs`) are
described by what they are, without the functions that look for them.
-/
namespace OrbitImage
open Text

namespace Text

/-- Pieces are taken out of a text from left to right: a piece that starts at the first character
goes as a whole, and what is left is read behind it. `Piece piece rest` says that `piece` is to go
when `rest` stands behind it. -/
inductive Deletes (Piece : List Char → List Char → Prop) : List Char → List Char → Prop
  | nil : Deletes Piece [] []
  | drop {piece rest left} : Piece piece rest → Deletes Piece rest left →
      Deletes Piece (piece ++ rest) left
  | keep {c rest left} : (∀ piece after, Piece piece after → piece ++ after ≠ c :: rest) →
      Deletes Piece rest left → Deletes Piece (c :: rest) (c :: left)

theorem exists_deletes {Piece : List Char → List Char → Prop}
    (hne : ∀ piece rest, Piece piece rest → piece ≠ []) (cs : List Char) :
    ∃ left, Deletes Piece cs left := by
  induction hlen : cs.length using Nat.strong_induction_on generalizing cs with
  | _ n ih =>
      cases cs with
      | nil => exact ⟨[], .nil⟩
      | cons c rest =>
          by_cases h : ∃ piece after, Piece piece after ∧ piece ++ after = c :: rest
          · obtain ⟨piece, after, hpiece, hcs⟩ := h
            have hshort : after.length < n := by
              have hlength := congrArg List.length hcs
              rw [List.length_append, hlen] at hlength
              have := List.length_pos_of_ne_nil (hne piece after hpiece)
              omega
            obtain ⟨left, hleft⟩ := ih _ hshort after rfl
            exact ⟨left, hcs ▸ .drop hpiece hleft⟩
          · have hshort : rest.length < n := by
              rw [← hlen]
              exact Nat.lt_succ_self _
            obtain ⟨left, hleft⟩ := ih _ hshort rest rfl
            exact ⟨c :: left, .keep (fun piece after hp hcs => h ⟨piece, after, hp, hcs⟩) hleft⟩

end Text

/-! ### What the checks take out -/

/-- A literal in base sixteen, with all the digits there are. -/
def Literal (piece rest : List Char) : Prop :=
  ∃ digits, piece = '0' :: 'x' :: digits ∧ digits ≠ [] ∧ (∀ d ∈ digits, isHexDigit d) ∧
    ∀ c ∈ rest.head?, isHexDigit c = false

/-- A rotation keyword in any letter case. -/
def Keyword (piece _rest : List Char) : Prop :=
  piece.map Char.toUpper = "ROL".toList ∨ piece.map Char.toUpper = "ROR".toList

/-- The characters that may stand anywhere in an equation. -/
def alphabet : List Char :=
  "0123456789abcdefABCDEFx+-*^&|~()<>,".toList

theorem Literal.ne_nil {piece rest : List Char} (h : Literal piece rest) : piece ≠ [] := by
  obtain ⟨digits, rfl, -⟩ := h
  simp

theorem Literal.hexDigits? {piece rest : List Char} (h : Literal piece rest) :
    ∃ digits, piece = '0' :: 'x' :: digits ∧
      Lexeme.hexDigits? (piece ++ rest) = some digits := by
  obtain ⟨digits, rfl, hne, hdigits, hrest⟩ := h
  refine ⟨digits, rfl, ?_⟩
  simp only [List.cons_append, Lexeme.hexDigits?]
  rw [takeWhile_append hdigits hrest]
  cases digits with
  | nil => exact absurd rfl hne
  | cons d ds => rfl

theorem Keyword.exists_rotation {piece rest : List Char} (h : Keyword piece rest) :
    ∃ op : BinaryOp, piece.map Char.toUpper = op.symbol.toList ∧ (op = .rol ∨ op = .ror) :=
  h.elim (fun h => ⟨.rol, h, .inl rfl⟩) fun h => ⟨.ror, h, .inr rfl⟩

theorem Keyword.ne_nil {piece rest : List Char} (h : Keyword piece rest) : piece ≠ [] := by
  rintro rfl
  rcases h with h | h <;> cases h

theorem mem_alphabet_iff {c : Char} : c ∈ alphabet ↔ Token.isAllowed c := by
  constructor
  · exact forall_mem_of_all (P := fun c => Token.isAllowed c) (by decide) c
  · intro h
    exact ascii_cases (P := fun c => Token.isAllowed c → c ∈ alphabet) (by decide)
      (Token.lt_of_isAllowed h) h

namespace Token

theorem withoutHex_eq {cs left : List Char} (h : Deletes Literal cs left) :
    withoutHex cs = left := by
  induction h with
  | nil => exact withoutHex.eq_1
  | @drop piece rest left hpiece hrest ih =>
      obtain ⟨digits, rfl, hhex⟩ := hpiece.hexDigits?
      simp only [List.cons_append] at hhex ⊢
      rw [withoutHex, hhex]
      simpa using ih
  | @keep c rest left hnone hrest ih =>
      have hhex : Lexeme.hexDigits? (c :: rest) = none := by
        rw [Option.eq_none_iff_forall_ne_some]
        intro digits hsome
        obtain ⟨after, hcs, hleads⟩ := Lexeme.hexDigits?_eq_some hsome
        cases hleads with
        | hex hne hdigits hafter => exact hnone _ after ⟨digits, rfl, hne, hdigits, hafter⟩ hcs.symm
      rw [withoutHex, hhex]
      simp only [ih]

theorem deletes_withoutHex (cs : List Char) : Deletes Literal cs (withoutHex cs) := by
  obtain ⟨left, hleft⟩ := exists_deletes (fun _ _ => Literal.ne_nil) cs
  rwa [withoutHex_eq hleft]

theorem disallowed_eq_filter {cs kept : List Char} (h : Deletes Keyword cs kept) :
    disallowed cs = kept.filter (· ∉ alphabet) := by
  induction h with
  | nil => exact disallowed.eq_1
  | @drop piece rest left hpiece hrest ih =>
      obtain ⟨op, hsymbol, hop⟩ := hpiece.exists_rotation
      rw [disallowed_rotation hsymbol hop, ih]
  | @keep c rest left hnone hrest ih =>
      have hrot : Lexeme.rotation? (c :: rest) = none := by
        rw [Option.eq_none_iff_forall_ne_some]
        intro op hsome
        obtain ⟨hop, hpiece⟩ := Lexeme.rotation?_eq_some hsome
        refine hnone _ _ ?_ (List.take_append_drop 3 (c :: rest))
        rcases hop with rfl | rfl
        · exact .inl hpiece
        · exact .inr hpiece
      rw [disallowed, hrot]
      simp only [List.filter_cons, mem_alphabet_iff, decide_not, ih]
      cases isAllowed c <;> rfl

theorem exists_deletes_keyword (cs : List Char) : ∃ kept, Deletes Keyword cs kept :=
  exists_deletes (fun _ _ h => h.ne_nil) cs

/-! ### Runs of letters -/

/-- Where a text changes from letters a to f to others, or back, its runs can be taken apart. -/
theorem letterRuns_append {piece rest : List Char} {b : Bool} (hne : piece ≠ [])
    (hpiece : ∀ c ∈ piece, isHexLetter c = b) (hrest : ∀ c ∈ rest.head?, isHexLetter c = !b) :
    letterRuns (piece ++ rest) = (if b then [piece] else []) ++ letterRuns rest := by
  have hsplit : ∀ c ∈ piece.getLast?, ∀ d ∈ rest.head?,
      (isHexLetter c == isHexLetter d) = false := by
    intro c hc d hd
    rw [hpiece c (List.mem_of_getLast? hc), hrest d hd]
    cases b <;> rfl
  have hwhole : piece.IsChain fun c d => isHexLetter c == isHexLetter d := by
    refine (List.pairwise_of_forall_mem_list fun c hc d hd => ?_).isChain
    rw [hpiece c hc, hpiece d hd]
    exact beq_self_eq_true b
  rw [letterRuns, List.splitBy_append hsplit, List.splitBy_of_isChain hne hwhole,
    List.filter_append, ← letterRuns]
  congr 1
  have hall : piece.all isHexLetter = b := by
    cases b with
    | true => exact List.all_eq_true.mpr hpiece
    | false =>
        obtain ⟨c, cs, rfl⟩ := List.exists_cons_of_ne_nil hne
        simp [hpiece c (List.mem_cons_self ..)]
  cases b <;> simp [hall]

theorem letterRuns_cons {c : Char} (hc : isHexLetter c = false) (cs : List Char) :
    letterRuns (c :: cs) = letterRuns cs := by
  -- The character joins the others in front of the next letter.
  have hrest := Lexeme.head?_dropWhile (p := (!isHexLetter ·)) cs
  have hgap : ∀ d ∈ cs.takeWhile (!isHexLetter ·), isHexLetter d = false := fun d hd => by
    simpa using List.mem_takeWhile_imp hd
  have hlong : letterRuns (c :: cs) = letterRuns (cs.dropWhile (!isHexLetter ·)) := by
    have := letterRuns_append (b := false) (List.cons_ne_nil _ _)
      (List.forall_mem_cons.mpr ⟨hc, hgap⟩) (by simpa using hrest)
    simpa using this
  rw [hlong]
  by_cases hne : cs.takeWhile (!isHexLetter ·) = []
  · conv_rhs => rw [← List.takeWhile_append_dropWhile (p := (!isHexLetter ·)) (l := cs), hne]
    rfl
  · have := letterRuns_append (b := false) hne hgap (by simpa using hrest)
    simpa using this.symm

theorem letterRuns_eq {cs : List Char} {runs : List (List Char)} (h : Runs isHexLetter cs runs) :
    letterRuns cs = runs := by
  induction h with
  | nil => rfl
  | gap hc hrest ih => rw [letterRuns_cons hc, ih]
  | run hne hall hcs hrest ih =>
      rw [letterRuns_append hne hall hcs, ih]
      rfl

theorem runs_letterRuns (cs : List Char) : Runs isHexLetter cs (letterRuns cs) := by
  obtain ⟨runs, hruns⟩ := exists_runs isHexLetter cs
  rwa [letterRuns_eq hruns]

end Token

/-! ### Literals that are too large -/

namespace Lexeme

/-- The value of a literal. -/
def value? : Lexeme → Option Nat
  | hex digits => some (valueIn 16 digits)
  | decimal digits => some (valueIn 10 digits)
  | _ => none

/-- A literal of 2^32 or more, which no word holds. -/
def TooLarge (l : Lexeme) : Prop :=
  ∃ value ∈ l.value?, 4294967296 ≤ value

instance (l : Lexeme) : Decidable l.TooLarge :=
  inferInstanceAs (Decidable (∃ value ∈ l.value?, _))

theorem literal_of_large {base : Nat} {digits spelling : List Char}
    (h : UInt32.size ≤ valueIn base digits) :
    literal base digits spelling = .error (.numberTooLarge (String.ofList spelling)) :=
  if_neg (Nat.not_lt.mpr h)

theorem literal_of_small {base : Nat} {digits : List Char} (h : ¬UInt32.size ≤ valueIn base digits)
    (spelling : List Char) : ∃ t, literal base digits spelling = .ok t :=
  ⟨_, if_pos (Nat.lt_of_not_le h)⟩

theorem token?_of_tooLarge {l : Lexeme} (h : l.TooLarge) :
    l.token? = .error (.numberTooLarge (String.ofList l.spelling)) := by
  obtain ⟨value, hvalue, hlarge⟩ := h
  cases l with
  | hex | decimal =>
      obtain rfl := Option.some.inj hvalue
      rw [token?, literal_of_large hlarge]
      rfl
  | rotation | shift | single => cases hvalue

theorem exists_token? {l : Lexeme} (h : ¬l.TooLarge) : ∃ o, l.token? = .ok o := by
  cases l with
  | hex digits =>
      obtain ⟨t, ht⟩ := literal_of_small (fun hlarge => h ⟨_, rfl, hlarge⟩) (hex digits).spelling
      exact ⟨some t, by rw [token?, ht]; rfl⟩
  | decimal digits =>
      obtain ⟨t, ht⟩ := literal_of_small (fun hlarge => h ⟨_, rfl, hlarge⟩) digits
      exact ⟨some t, by rw [token?, ht]; rfl⟩
  | rotation | shift => exact ⟨_, rfl⟩
  | single c =>
      unfold token?
      split <;> first | exact ⟨_, rfl⟩ | (rename_i hc; cases hc)

/-- The first literal that is too large ends the reading of a text. -/
theorem mapM_eq_error_iff {ls : List Lexeme} {fault : EquationFault} :
    ls.mapM token? = .error fault ↔ ∃ before l after, ls = before ++ l :: after ∧
      (∀ m ∈ before, ¬m.TooLarge) ∧ l.TooLarge ∧
        fault = .numberTooLarge (String.ofList l.spelling) := by
  induction ls with
  | nil => simp [pure, Except.pure]
  | cons l ls ih =>
      rw [List.mapM_cons]
      by_cases hl : l.TooLarge
      · rw [token?_of_tooLarge hl]
        constructor
        · intro h
          cases h
          exact ⟨[], l, ls, rfl, by simp, hl, rfl⟩
        · rintro ⟨_ | ⟨m, before⟩, l', after, hls, hbefore, -, rfl⟩
          · cases hls
            rfl
          · cases hls
            exact absurd hl (hbefore l (List.mem_cons_self ..))
      · obtain ⟨o, ho⟩ := exists_token? hl
        have hrest : (l.token? >>= fun o => ls.mapM token? >>= fun os => pure (o :: os)) =
            .error fault ↔ ls.mapM token? = .error fault := by
          rw [ho]
          cases ls.mapM token? <;> simp [bind, Except.bind, pure, Except.pure]
        rw [hrest, ih]
        constructor
        · rintro ⟨before, l', after, rfl, hbefore, hl', hfault⟩
          exact ⟨l :: before, l', after, rfl, List.forall_mem_cons.mpr ⟨hl, hbefore⟩, hl', hfault⟩
        · rintro ⟨_ | ⟨m, before⟩, l', after, hls, hbefore, hl', hfault⟩
          · cases hls
            exact absurd hl' hl
          · cases hls
            exact ⟨before, l', after, rfl, (List.forall_mem_cons.mp hbefore).2, hl', hfault⟩

end Lexeme

/-! ### The diagnosis -/

/-- All letters a to f belong to literals in base sixteen. -/
def LettersInLiterals (cs : List Char) : Prop :=
  ∃ left, Deletes Literal cs left ∧ ∀ c ∈ left, isHexLetter c = false

/-- All characters outside the keywords are in the alphabet. -/
def InAlphabet (cs : List Char) : Prop :=
  ∃ kept, Deletes Keyword cs kept ∧ ∀ c ∈ kept, c ∈ alphabet

theorem lettersInLiterals_iff {cs : List Char} :
    LettersInLiterals cs ↔ Token.strayLetters cs = [] := by
  rw [Token.strayLetters_eq_nil_iff]
  constructor
  · rintro ⟨left, hleft, hnone⟩
    rwa [Token.withoutHex_eq hleft]
  · exact fun hnone => ⟨_, Token.deletes_withoutHex cs, hnone⟩

theorem inAlphabet_iff {cs : List Char} : InAlphabet cs ↔ Token.disallowed cs = [] := by
  constructor
  · rintro ⟨kept, hkept, hall⟩
    rw [Token.disallowed_eq_filter hkept]
    simpa using hall
  · intro hnone
    obtain ⟨kept, hkept⟩ := Token.exists_deletes_keyword cs
    rw [Token.disallowed_eq_filter hkept] at hnone
    exact ⟨kept, hkept, by simpa using hnone⟩

namespace Program

/-- Nothing that is refused outright occurs in an equation. -/
def Lawful (s : String) : Prop :=
  ∀ c ∈ s.toList, c ≠ '/' ∧ c ≠ '%' ∧ c ≠ '.'

/-- What is wrong with an equation that breaks a rule or is not spelled right, and the message. A
check speaks only if those in front of it have nothing to say. -/
inductive Diagnosis (s : String) : FaultKind → String → Prop
  | division : '/' ∈ s.toList ∨ '%' ∈ s.toList →
      Diagnosis s .policy "Division (/) and Modulo (%) are forbidden."
  | point : '/' ∉ s.toList → '%' ∉ s.toList → '.' ∈ s.toList →
      Diagnosis s .policy "Floating points are forbidden."
  | letters {left runs} : Lawful s → Deletes Literal (strip s) left →
      Runs isHexLetter left runs → runs ≠ [] → Diagnosis s .lexical
        ("Invalid hex notation: " ++ ", ".intercalate (runs.eraseDups.map String.ofList))
  | characters {kept strays} : Lawful s → LettersInLiterals (strip s) →
      Deletes Keyword (strip s) kept → strays = kept.filter (· ∉ alphabet) → strays ≠ [] →
      Diagnosis s .lexical ("Invalid characters in equation: " ++
        ", ".intercalate (strays.eraseDups.map Char.toString))
  | number {before l after} : Lawful s → LettersInLiterals (strip s) → InAlphabet (strip s) →
      Lexeme.cut (strip s) = before ++ l :: after → (∀ m ∈ before, ¬m.TooLarge) → l.TooLarge →
      Diagnosis s .lexical ("Number out of range: " ++ String.ofList l.spelling)

theorem policyFault?_eq (s : String) :
    policyFault? s =
      if '/' ∈ s.toList ∨ '%' ∈ s.toList then some .division
      else if '.' ∈ s.toList then some .point else none := by
  simp [policyFault?]

theorem compile_of_policyFault? {s : String} {fault : EquationFault}
    (h : policyFault? s = some fault) : compile s = .error fault := by
  rw [compile, h]

theorem compile_of_scan_error {s : String} {fault : EquationFault} (hs : Lawful s)
    (h : Token.scan s = .error fault) : compile s = .error fault := by
  rw [compile, policyFault?_eq_none_iff.mpr hs, h]
  rfl

theorem eraseDups_ne_nil {α : Type} [BEq α] {as : List α} (h : as ≠ []) : as.eraseDups ≠ [] := by
  obtain ⟨a, as, rfl⟩ := List.exists_cons_of_ne_nil h
  simp [List.eraseDups_cons]

namespace Diagnosis

variable {s : String}

/-- Whatever is diagnosed is the fault of the equation. -/
theorem exists_fault {kind : FaultKind} {message : String} (h : Diagnosis s kind message) :
    ∃ fault, compile s = .error fault ∧ fault.kind = kind ∧ kind ≠ .grammar ∧
      fault.detail = message := by
  cases h with
  | division h =>
      have hpolicy : policyFault? s = some .division := by rw [policyFault?_eq, if_pos h]
      exact ⟨_, compile_of_policyFault? hpolicy, rfl, by decide, rfl⟩
  | point hdiv hmod hpoint =>
      have hpolicy : policyFault? s = some .point := by
        rw [policyFault?_eq, if_neg (not_or.mpr ⟨hdiv, hmod⟩), if_pos hpoint]
      exact ⟨_, compile_of_policyFault? hpolicy, rfl, by decide, rfl⟩
  | @letters left runs hs hleft hruns hne =>
      have hstray : Token.strayLetters (strip s) = runs.eraseDups := by
        rw [Token.strayLetters_eq, Token.withoutHex_eq hleft, Token.letterRuns_eq hruns]
      have hscan : Token.scan s = .error (.strayLetters (runs.eraseDups.map String.ofList)) := by
        rw [Token.scan, Token.ofChars_eq, hstray, if_pos (eraseDups_ne_nil hne)]
      exact ⟨_, compile_of_scan_error hs hscan, rfl, by decide, rfl⟩
  | @characters kept strays hs hletters hkept hstrays hne =>
      have hscan : Token.scan s = .error (.strayCharacters strays.eraseDups) := by
        rw [Token.scan, Token.ofChars_eq, lettersInLiterals_iff.mp hletters,
          Token.disallowed_eq_filter hkept, ← hstrays, if_neg (not_not.mpr rfl), if_pos hne]
      exact ⟨_, compile_of_scan_error hs hscan, rfl, by decide, rfl⟩
  | @number before l after hs hletters hcharacters hcut hbefore hl =>
      have hread := Lexeme.mapM_eq_error_iff.mpr ⟨before, l, after, hcut, hbefore, hl, rfl⟩
      have hscan : Token.scan s = .error (.numberTooLarge (String.ofList l.spelling)) := by
        rw [Token.scan, Token.ofChars_eq, lettersInLiterals_iff.mp hletters,
          inAlphabet_iff.mp hcharacters, hread]
        rfl
      exact ⟨_, compile_of_scan_error hs hscan, rfl, by decide, rfl⟩

theorem of_scan {fault : EquationFault} (hs : Lawful s) (h : Token.scan s = .error fault)
    (hkind : fault.kind ≠ .grammar) : Diagnosis s fault.kind fault.detail := by
  rw [Token.scan, Token.ofChars_eq] at h
  split at h
  case isTrue hstray =>
    rw [Token.strayLetters_eq] at h hstray
    cases h
    refine .letters hs (Token.deletes_withoutHex _) (Token.runs_letterRuns _) fun hnone => ?_
    rw [hnone] at hstray
    exact hstray rfl
  case isFalse hstray =>
    have hletters := lettersInLiterals_iff.mpr (not_not.mp hstray)
    split at h
    case isTrue hdisallowed =>
      obtain ⟨kept, hkept⟩ := Token.exists_deletes_keyword (strip s)
      cases h
      exact .characters hs hletters hkept (Token.disallowed_eq_filter hkept) hdisallowed
    case isFalse hdisallowed =>
      have hcharacters := inAlphabet_iff.mpr (not_not.mp hdisallowed)
      split at h
      case h_1 cause hread =>
        cases h
        obtain ⟨before, l, after, hcut, hbefore, hl, rfl⟩ := Lexeme.mapM_eq_error_iff.mp hread
        exact .number hs hletters hcharacters hcut hbefore hl
      case h_2 =>
        split at h
        · cases h
          exact absurd rfl hkind
        · cases h

/-- A fault that is not one of grammar is diagnosed. -/
theorem of_compile {fault : EquationFault} (h : compile s = .error fault)
    (hkind : fault.kind ≠ .grammar) : Diagnosis s fault.kind fault.detail := by
  cases hpolicy : policyFault? s with
  | some cause =>
      rw [compile_of_policyFault? hpolicy] at h
      cases h
      rw [policyFault?_eq] at hpolicy
      split at hpolicy
      case isTrue hdiv =>
        cases hpolicy
        exact .division hdiv
      case isFalse hdiv =>
        split at hpolicy
        case isTrue hpoint =>
          cases hpolicy
          exact .point (not_or.mp hdiv).1 (not_or.mp hdiv).2 hpoint
        case isFalse => cases hpolicy
  | none =>
      cases hscan : Token.scan s with
      | ok ts => exact absurd (kind_of_compile_of_scan hpolicy hscan h) hkind
      | error cause =>
          have hs : Lawful s := policyFault?_eq_none_iff.mp hpolicy
          rw [compile_of_scan_error hs hscan] at h
          cases h
          exact .of_scan hs hscan hkind

theorem policy_iff : (∃ message, Diagnosis s .policy message) ↔
    '/' ∈ s.toList ∨ '%' ∈ s.toList ∨ '.' ∈ s.toList := by
  constructor
  · rintro ⟨message, h⟩
    cases h with
    | division h => exact h.imp_right .inl
    | point hdiv hmod hpoint => exact .inr (.inr hpoint)
  · intro h
    by_cases hdiv : '/' ∈ s.toList ∨ '%' ∈ s.toList
    · exact ⟨_, .division hdiv⟩
    · obtain ⟨hdiv, hmod⟩ := not_or.mp hdiv
      exact ⟨_, .point hdiv hmod ((h.resolve_left hdiv).resolve_left hmod)⟩

end Diagnosis

/-- Which fault is found in an equation, and with which message: that of the diagnosis, if there is
one. Else the equation is accepted, or the fault is one of grammar. No run of letters is passed
over by the check of letters. -/
theorem compile_diagnosis (s : String) :
    (∀ kind message, (∃ fault, compile s = .error fault ∧ fault.kind = kind ∧ kind ≠ .grammar ∧
      fault.detail = message) ↔ Diagnosis s kind message) ∧
    ((∃ fault, compile s = .error fault ∧ fault.kind = .policy) ↔
      '/' ∈ s.toList ∨ '%' ∈ s.toList ∨ '.' ∈ s.toList) ∧
    ((∀ kind message, ¬Diagnosis s kind message) ↔
      (∃ p, compile s = .ok p) ∨ ∃ fault, compile s = .error fault ∧ fault.kind = .grammar) ∧
    Token.strayLetters (strip s) =
      (Token.letterRuns (Token.withoutHex (strip s))).eraseDups := by
  have hdiagnosis : ∀ kind message, (∃ fault, compile s = .error fault ∧ fault.kind = kind ∧
      kind ≠ .grammar ∧ fault.detail = message) ↔ Diagnosis s kind message := by
    refine fun kind message => ⟨?_, Diagnosis.exists_fault⟩
    rintro ⟨fault, hfault, rfl, hkind, rfl⟩
    exact .of_compile hfault hkind
  refine ⟨hdiagnosis, ?_, ?_, Token.strayLetters_eq _⟩
  · rw [← Diagnosis.policy_iff]
    constructor
    · rintro ⟨fault, hfault, hkind⟩
      exact ⟨_, (hdiagnosis _ _).mp ⟨fault, hfault, hkind, by decide, rfl⟩⟩
    · rintro ⟨message, h⟩
      obtain ⟨fault, hfault, hkind, -⟩ := h.exists_fault
      exact ⟨fault, hfault, hkind⟩
  · constructor
    · intro hnone
      cases hcompile : compile s with
      | ok p => exact .inl ⟨p, rfl⟩
      | error fault =>
          refine .inr ⟨fault, rfl, ?_⟩
          by_contra hkind
          exact hnone _ _ (.of_compile hcompile hkind)
    · intro hend kind message h
      obtain ⟨fault, hfault, rfl, hkind, -⟩ := h.exists_fault
      rcases hend with ⟨p, hp⟩ | ⟨cause, hcause, hgrammar⟩
      · rw [hp] at hfault
        cases hfault
      · rw [hcause] at hfault
        cases hfault
        exact hkind hgrammar

-- A literal divides a run of letters, and a keyword is taken where it is met first.
example : Token.scan "FF0x1ab + FF - c" = .error (.strayLetters ["FF", "c"]) := by decide +kernel

example : Token.scan "1 ROROL 2" = .error (.strayCharacters ['O', 'L']) := by decide +kernel

end Program

end OrbitImage
