import OrbitImage.Proofs.Equation.Letters
/-!
What a scan leaves out. The tokens of an accepted equation are spelled in it one after the other,
and between them stand commas, lone angle brackets and now and then a letter a to f. Such a letter
is left over where the 0 of a literal in base sixteen is taken for the end of the number before it:
the check of letters still sees the literal, the cut does not. Elsewhere no letter is left out.
-/
namespace OrbitImage
open Text

namespace Token

def isNumber : Token → Bool
  | number _ => true
  | _ => false

/-- Whether a numeral goes on in the text behind it. -/
def goesOn : List Char → List Char → Bool
  | '0' :: 'x' :: _, c :: _ => isHexDigit c
  | ['0'], 'x' :: c :: _ => isHexDigit c
  | _, c :: _ => c.isDigit
  | _, [] => false

/-- The text spells the tokens from left to right. Between them stand commas, angle brackets that
form no shift, and characters that may be passed over. -/
inductive Fills (passed : Char → Prop) : List Token → List Char → Prop
  | nil : Fills passed [] []
  | token {t ts piece cs} : Spelling t piece → (t.isNumber → goesOn piece cs = false) →
      Fills passed ts cs → Fills passed (t :: ts) (piece ++ cs)
  | comma {ts cs} : Fills passed ts cs → Fills passed ts (',' :: cs)
  | angle {c ts cs} : c = '<' ∨ c = '>' → cs.head? ≠ some c → Fills passed ts cs →
      Fills passed ts (c :: cs)
  | pass {c ts cs} : passed c → Fills passed ts cs → Fills passed ts (c :: cs)

/-! ### Literals -/

theorem spelling_decimal {digits : List Char} {n : UInt32} (hne : digits ≠ [])
    (hdigits : ∀ d ∈ digits, d.isDigit) (hvalue : valueIn 10 digits = n.toNat) :
    Spelling (.number n) digits := by
  have hds : ∀ d ∈ digits, ∃ k < 10, d = k.digitChar := by
    intro d hd
    exact ascii_cases (P := fun d => d.isDigit → ∃ k < 10, d = k.digitChar) (by decide)
      (lt_of_isHexDigit (isHexDigit_of_isDigit (hdigits d hd))) (hdigits d hd)
  obtain ⟨zeros, hzeros⟩ := exists_zeros_append_toDigits (by decide) (by decide) hne hds
  rw [hzeros, hvalue]
  exact .decimal zeros

theorem spelling_hex {digits : List Char} {n : UInt32} (hne : digits ≠ [])
    (hdigits : ∀ d ∈ digits, isHexDigit d) (hvalue : valueIn 16 digits = n.toNat) :
    Spelling (.number n) ('0' :: 'x' :: digits) := by
  have hds : ∀ d ∈ digits.map Char.toLower, ∃ k < 16, d = k.digitChar := by
    intro d hd
    obtain ⟨c, hc, rfl⟩ := List.mem_map.mp hd
    exact ascii_cases (P := fun c => isHexDigit c → ∃ k < 16, c.toLower = k.digitChar) (by decide)
      (lt_of_isHexDigit (hdigits c hc)) (hdigits c hc)
  obtain ⟨zeros, hzeros⟩ :=
    exists_zeros_append_toDigits (by decide) (by decide) (by simpa using hne) hds
  rw [valueIn_map_toLower hdigits, hvalue] at hzeros
  exact .hex hzeros

end Token

namespace Lexeme
open Token

theorem literal_eq_ok {base : Nat} {digits spelling : List Char} {t : Token}
    (h : literal base digits spelling = .ok t) :
    ∃ n, t = .number n ∧ valueIn base digits = n.toNat := by
  dsimp only [literal] at h
  split at h
  case isTrue hlt =>
    cases h
    exact ⟨_, rfl, by simp [UInt32.toNat_ofNat_of_lt' hlt]⟩
  case isFalse => cases h

/-! ### Lexemes and their tokens -/

theorem of_map_literal {base : Nat} {digits spelling : List Char} {o : Option Token}
    (h : some <$> literal base digits spelling = .ok o) :
    ∃ n, o = some (.number n) ∧ valueIn base digits = n.toNat := by
  cases hlit : literal base digits spelling with
  | error fault =>
      rw [hlit] at h
      cases h
  | ok t =>
      rw [hlit] at h
      cases h
      obtain ⟨n, rfl, hvalue⟩ := literal_eq_ok hlit
      exact ⟨n, rfl, hvalue⟩

theorem goesOn_decimal {digits rest : List Char} (hdigits : ∀ d ∈ digits, d.isDigit)
    (hrest : ∀ c ∈ rest.head?, c.isDigit = false) (hhex : hexDigits? (digits ++ rest) = none) :
    goesOn digits rest = false := by
  unfold goesOn
  split
  case h_1 => exact absurd (hdigits 'x' (by simp)) (by decide)
  case h_2 c cs =>
    by_contra hc
    simp [hexDigits?, List.takeWhile_cons, hc] at hhex
  case h_3 => exact hrest _ rfl
  case h_4 => rfl

theorem spelling_single {c : Char} {t : Token} (h : token? (.single c) = .ok (some t)) :
    Spelling t [c] ∧ t.isNumber = false := by
  unfold token? at h
  split at h
  case h_5 hc =>
    cases hc
    cases h
    exact ⟨.leftParen, rfl⟩
  case h_6 hc =>
    cases hc
    cases h
    exact ⟨.rightParen, rfl⟩
  case h_7 hc =>
    cases hc
    cases h
    exact ⟨.x, rfl⟩
  case h_8 hc =>
    cases hc
    obtain ⟨op, hop, rfl⟩ := Option.map_eq_some_iff.mp (Except.ok.inj h)
    have hsymbol : op.symbol = c.toString := by simpa using List.find?_some hop
    have hspelling := spelling_symbol op
    rw [hsymbol] at hspelling
    exact ⟨by simpa using hspelling, rfl⟩
  all_goals rename_i hc; cases hc

theorem single_cases {c : Char} (hallowed : isAllowed c) (hdigit : c.isDigit = false)
    (h : token? (.single c) = .ok none) : isHexLetter c ∨ c = ',' ∨ c = '<' ∨ c = '>' := by
  have hcases : isHexLetter c ∨ c ∈ [',', '<', '>'] :=
    ascii_cases (P := fun c => isAllowed c ∧ c.isDigit = false ∧
      (token? (.single c)).toOption = some none → isHexLetter c ∨ c ∈ [',', '<', '>']) (by decide)
      (lt_of_isAllowed hallowed) ⟨hallowed, hdigit, by rw [h]; rfl⟩
  simpa using hcases

/-- The token of a lexeme is spelled by it, and as far as it goes. -/
theorem Leads.spells {l : Lexeme} {rest : List Char} {t : Token} (h : Leads l rest)
    (ht : l.token? = .ok (some t)) :
    Spelling t l.spelling ∧ (t.isNumber → goesOn l.spelling rest = false) := by
  cases h with
  | rotation hop hpiece =>
      cases ht
      exact ⟨.operator hpiece, nofun⟩
  | hex hne hdigits hrest =>
      obtain ⟨n, ⟨⟩, hvalue⟩ := of_map_literal ht
      refine ⟨spelling_hex hne hdigits hvalue, fun _ => ?_⟩
      cases rest with
      | nil => rfl
      | cons c cs => exact hrest c rfl
  | decimal hne hdigits hrest hhex =>
      obtain ⟨n, ⟨⟩, hvalue⟩ := of_map_literal ht
      exact ⟨spelling_decimal hne hdigits hvalue, fun _ => goesOn_decimal hdigits hrest hhex⟩
  | shl | shr =>
      cases ht
      exact ⟨.operator rfl, nofun⟩
  | single =>
      obtain ⟨hspelling, hnumber⟩ := spelling_single ht
      exact ⟨hspelling, fun hn => absurd hn (by simp [hnumber])⟩

/-- A lexeme without a token is a comma, a lone angle bracket or a letter a to f. -/
theorem Leads.passed {l : Lexeme} {rest : List Char} (h : Leads l rest) (hl : refused? l = none)
    (ht : l.token? = .ok none) :
    ∃ c, l = .single c ∧
      (c = ',' ∨ ((c = '<' ∨ c = '>') ∧ rest.head? ≠ some c) ∨ isHexLetter c) := by
  cases h with
  | rotation | shl | shr => cases ht
  | hex | decimal => obtain ⟨n, ⟨⟩, -⟩ := of_map_literal ht
  | @single c rest hrot hdigit hangle =>
      have hallowed : isAllowed c := by
        by_contra hc
        simp [refused?, hc] at hl
      rcases single_cases hallowed hdigit ht with hc | rfl | hc
      · exact ⟨c, rfl, .inr (.inr hc)⟩
      · exact ⟨_, rfl, .inl rfl⟩
      · exact ⟨c, rfl, .inr (.inl ⟨hc, hangle hc⟩)⟩

theorem mapM_cons_eq_ok {l : Lexeme} {ls : List Lexeme} {found : List (Option Token)}
    (h : (l :: ls).mapM token? = .ok found) :
    ∃ o os, l.token? = .ok o ∧ ls.mapM token? = .ok os ∧ found = o :: os := by
  rw [List.mapM_cons] at h
  cases hl : l.token? with
  | error fault =>
      rw [hl] at h
      cases h
  | ok o =>
      cases hls : ls.mapM token? with
      | error fault =>
          rw [hl, hls] at h
          cases h
      | ok os =>
          rw [hl, hls] at h
          cases h
          exact ⟨o, os, rfl, rfl, rfl⟩

theorem WellCut.fills {passed : Char → Prop} {ls : List Lexeme} (h : WellCut ls)
    (hallowed : ls.filterMap refused? = [])
    (hpassed : ∀ c, .single c ∈ ls → isHexLetter c → passed c) {found : List (Option Token)}
    (hfound : ls.mapM token? = .ok found) : Fills passed (found.filterMap id) (text ls) := by
  induction ls generalizing found with
  | nil =>
      cases hfound
      exact .nil
  | cons l ls ih =>
      obtain ⟨hleads, hls⟩ := h
      obtain ⟨o, os, ho, hos, rfl⟩ := mapM_cons_eq_ok hfound
      have hl : refused? l = none := by
        cases hl : refused? l with
        | none => rfl
        | some c => simp [hl] at hallowed
      rw [List.filterMap_cons, hl] at hallowed
      have hrest := ih hls hallowed (fun c hc => hpassed c (List.mem_cons_of_mem _ hc)) hos
      cases o with
      | some t =>
          obtain ⟨hspelling, hend⟩ := hleads.spells ho
          exact .token hspelling hend hrest
      | none =>
          obtain ⟨c, rfl, rfl | ⟨hc, hhead⟩ | hc⟩ := hleads.passed hl ho
          · exact .comma hrest
          · exact .angle hc hhead hrest
          · exact .pass (hpassed c (List.mem_cons_self ..) hc) hrest

/-! ### Fillings and cuts -/

/-- A character that starts no keyword, number or shift is a lexeme by itself. -/
theorem leads_single {c : Char} (hrot : c.toUpper ≠ 'R') (hdigit : c.isDigit = false)
    (hangle : c ≠ '<' ∧ c ≠ '>') (rest : List Char) : Leads (.single c) rest :=
  .single (rotation?_of_ne hrot rest) hdigit fun hc => (hc.elim hangle.1 hangle.2).elim

/-- A decimal numeral that does not go on is no part of a longer one. -/
theorem decimal_of_goesOn {c : Char} {ds cs : List Char} (hdigits : ∀ d ∈ c :: ds, d.isDigit)
    (hend : goesOn (c :: ds) cs = false) :
    (∀ e ∈ cs.head?, e.isDigit = false) ∧ hexDigits? (c :: ds ++ cs) = none := by
  have hsecond : ∀ d ∈ ds.head?, d ≠ 'x' := by
    rintro d hd rfl
    exact absurd (hdigits 'x' (List.mem_cons_of_mem _ (List.mem_of_mem_head? hd))) (by decide)
  generalize hpiece : c :: ds = piece at hend
  unfold goesOn at hend
  split at hend
  case h_1 =>
    obtain ⟨-, rfl⟩ := List.cons.inj hpiece
    exact absurd rfl (hsecond 'x' rfl)
  case h_2 e es =>
    obtain ⟨rfl, rfl⟩ := List.cons.inj hpiece
    exact ⟨by simp, by simp [hexDigits?, hend]⟩
  case h_3 e es _ hzero =>
    refine ⟨fun d hd => Option.some.inj hd ▸ hend, ?_⟩
    subst hpiece
    cases ds with
    | cons d ds => exact hexDigits?_of_second c fun f hf => hsecond f hf
    | nil =>
        by_cases hc : c = '0'
        · subst hc
          by_cases he : e = 'x'
          · -- Nothing stands behind the x.
            subst he
            cases es with
            | nil => rfl
            | cons f fs => exact (hzero f fs rfl rfl rfl).elim
          · exact hexDigits?_of_second '0' (by simpa using he)
        · exact hexDigits?_of_ne hc _
  case h_4 =>
    refine ⟨by simp, ?_⟩
    rw [← hpiece, List.append_nil]
    exact hexDigits?_of_second c hsecond

/-- A spelling that does not go on is a lexeme, and it is read as the token. -/
theorem leads_of_spelling {t : Token} {piece cs : List Char} (h : Spelling t piece)
    (hend : t.isNumber → goesOn piece cs = false) :
    ∃ l : Lexeme, l.spelling = piece ∧ Leads l cs ∧ l.isLetter = false ∧
      l.token? = .ok (some t) := by
  have hmark : ∀ {c : Char}, token? (.single c) = .ok (some t) → c.toUpper ≠ 'R' ∧
      c.isDigit = false ∧ (c ≠ '<' ∧ c ≠ '>') ∧ isHexLetter c = false →
      ∃ l : Lexeme, l.spelling = [c] ∧ Leads l cs ∧ l.isLetter = false ∧
        l.token? = .ok (some t) :=
    fun htoken ⟨hrot, hdigit, hangle, hletter⟩ =>
      ⟨_, rfl, leads_single hrot hdigit hangle cs, hletter, htoken⟩
  cases h with
  | @decimal n zeros =>
      obtain ⟨c, ds, hcs, hdigits, hvalue⟩ := decimal_digits n zeros
      rw [hcs] at hend ⊢
      obtain ⟨hrest, hhex⟩ := decimal_of_goesOn hdigits (hend rfl)
      refine ⟨.decimal (c :: ds), rfl, .decimal (by simp) hdigits hrest hhex, rfl, ?_⟩
      rw [token?, literal_of_value hvalue]
      rfl
  | @hex n zeros digits h =>
      obtain ⟨hne, hdigits, hvalue⟩ := hex_digits h
      refine ⟨.hex digits, rfl, .hex hne hdigits fun c hc => ?_, rfl, ?_⟩
      · cases cs with
        | nil => cases hc
        | cons d cs =>
            obtain rfl := Option.some.inj hc
            exact hend rfl
      · rw [token?, literal_of_value hvalue]
        rfl
  | x | leftParen | rightParen => exact hmark rfl (by decide)
  | @operator op piece h =>
      rcases operator_cases h with ⟨rfl, -⟩ | ⟨rot, rfl, hrot⟩
      · rcases op with _ | op
        · exact hmark rfl (by decide)
        · cases op with
          | shl => exact ⟨.shift .shl '<', rfl, .shl, rfl, rfl⟩
          | shr => exact ⟨.shift .shr '>', rfl, .shr, rfl, rfl⟩
          | rol => exact ⟨.rotation .rol _, rfl, .rotation (.inl rfl) rfl, rfl, rfl⟩
          | ror => exact ⟨.rotation .ror _, rfl, .rotation (.inr rfl) rfl, rfl, rfl⟩
          | add | sub | mul | and | or | xor => exact hmark rfl (by decide)
      · exact ⟨.rotation rot piece, rfl, .rotation hrot h, rfl, rfl⟩

/-- A filling that passes nothing over is a cut without letters. -/
theorem exists_wellCut {ts : List Token} {cs : List Char} (h : Fills (fun _ => False) ts cs) :
    ∃ ls, WellCut ls ∧ text ls = cs ∧ ∀ l ∈ ls, l.isLetter = false := by
  induction h with
  | nil => exact ⟨[], trivial, rfl, by simp⟩
  | token hspelling hend hrest ih =>
      obtain ⟨ls, hls, rfl, hnone⟩ := ih
      obtain ⟨l, rfl, hl, hletter, -⟩ := leads_of_spelling hspelling hend
      exact ⟨l :: ls, ⟨hl, hls⟩, rfl, List.forall_mem_cons.mpr ⟨hletter, hnone⟩⟩
  | comma hrest ih =>
      obtain ⟨ls, hls, rfl, hnone⟩ := ih
      have hcomma := leads_single (c := ',') (by decide) rfl (by decide) (text ls)
      exact ⟨_ :: ls, ⟨hcomma, hls⟩, rfl, List.forall_mem_cons.mpr ⟨rfl, hnone⟩⟩
  | @angle c ts cs hc hhead hrest ih =>
      obtain ⟨ls, hls, rfl, hnone⟩ := ih
      have hmark : c.toUpper ≠ 'R' ∧ c.isDigit = false ∧ isHexLetter c = false := by
        rcases hc with rfl | rfl <;> decide
      have hangle : Leads (.single c) (text ls) :=
        .single (rotation?_of_ne hmark.1 _) hmark.2.1 fun _ => hhead
      exact ⟨_ :: ls, ⟨hangle, hls⟩, rfl, List.forall_mem_cons.mpr ⟨hmark.2.2, hnone⟩⟩
  | pass hc => exact hc.elim

end Lexeme

namespace Token

/-! ### Letters of literals -/

/-- The letter stands in a literal in base sixteen whose value is one of the numbers. -/
def InLiteral (ts : List Token) (before : List Char) (c : Char) (after : List Char) : Prop :=
  ∃ u ds es w n, before = u ++ '0' :: 'x' :: ds ∧ after = es ++ w ∧ .number n ∈ ts ∧
    Spelling (.number n) ('0' :: 'x' :: (ds ++ c :: es)) ∧ ∀ d ∈ w.head?, isHexDigit d = false

/-- No token but a number in base sixteen is spelled with a letter a to f. -/
theorem number_of_letter {t : Token} {piece before after : List Char} {c : Char}
    (h : Spelling t piece) (hpiece : piece = before ++ c :: after) (hc : isHexLetter c) :
    t.isNumber ∧ ∃ ds, before = '0' :: 'x' :: ds := by
  have hmem : c ∈ piece := by simp [hpiece]
  cases h with
  | @decimal n zeros =>
      obtain ⟨d, ds, hds, hdigits, -⟩ := decimal_digits n zeros
      rw [not_isHexLetter_of_isDigit (hdigits c (hds ▸ hmem))] at hc
      cases hc
  | hex h =>
      obtain ⟨-, hdigits, -⟩ := hex_digits h
      obtain ⟨ds, hds, -⟩ := prefixed_literal hdigits hpiece hc
      exact ⟨rfl, ds, hds⟩
  | x | leftParen | rightParen =>
      obtain rfl := List.mem_singleton.mp hmem
      cases hc
  | operator h =>
      have hdigit := (operatorChar_ends_operand (operatorChar_of_mem h hmem)).1
      simp [isHexDigit, hc] at hdigit

theorem InLiteral.append {ts us : List Token} {before after : List Char} {c : Char}
    (h : InLiteral ts before c after) (hts : ts ⊆ us) (piece : List Char) :
    InLiteral us (piece ++ before) c after := by
  obtain ⟨u, ds, es, w, n, rfl, hafter, hn, hspelling, hend⟩ := h
  exact ⟨piece ++ u, ds, es, w, n, by simp, hafter, hts hn, hspelling, hend⟩

theorem InLiteral.of_cons {ts : List Token} {cs before after : List Char} {c d : Char}
    (hd : isHexLetter d = false) (hcs : d :: cs = before ++ c :: after) (hc : isHexLetter c)
    (ih : ∀ {before}, cs = before ++ c :: after → InLiteral ts before c after) :
    InLiteral ts before c after := by
  cases before with
  | nil =>
      obtain ⟨rfl, -⟩ := List.cons.inj hcs
      rw [hd] at hc
      cases hc
  | cons e before =>
      obtain ⟨rfl, hrest⟩ := List.cons.inj hcs
      exact (ih hrest).append (List.Subset.refl ts) [d]

/-- Where nothing is passed over, letters stand in literals. -/
theorem Fills.inLiteral {ts : List Token} {cs before after : List Char} {c : Char}
    (h : Fills (fun _ => False) ts cs) (hcs : cs = before ++ c :: after) (hc : isHexLetter c) :
    InLiteral ts before c after := by
  induction h generalizing before with
  | nil => simp at hcs
  | @token t ts piece cs hspelling hend hrest ih =>
      have hlater : ∀ u, before = piece ++ u → cs = u ++ c :: after →
          InLiteral (t :: ts) before c after := by
        rintro u rfl hu
        exact (ih hu).append (List.subset_cons_self t ts) piece
      rcases List.append_eq_append_iff.mp hcs with ⟨u, hbefore, hu⟩ | ⟨u, hpiece, hu⟩
      · exact hlater u hbefore hu
      · cases u with
        | nil => exact hlater [] (by simpa using hpiece.symm) (by simpa using hu.symm)
        | cons e es =>
            obtain ⟨rfl, rfl⟩ := List.cons.inj hu
            obtain ⟨hnumber, ds, rfl⟩ := number_of_letter hspelling hpiece hc
            obtain ⟨n, rfl⟩ : ∃ n, t = .number n := by
              cases t with
              | number n => exact ⟨n, rfl⟩
              | _ => cases hnumber
            rw [hpiece] at hspelling hend
            refine ⟨[], ds, es, cs, n, rfl, rfl, List.mem_cons_self .., hspelling, fun d hd => ?_⟩
            cases cs with
            | nil => cases hd
            | cons f fs =>
                obtain rfl := Option.some.inj hd
                exact hend rfl
  | comma hrest ih => exact .of_cons (by decide) hcs hc ih
  | angle hmark hhead hrest ih =>
      exact .of_cons (by rcases hmark with rfl | rfl <;> decide) hcs hc ih
  | pass hpass => exact hpass.elim

/-- Nothing but commas, lone angle brackets and letters a to f is left out of a scan. Letters are
left out exactly if a number tears a literal, and otherwise each of them is a digit of a literal
that is read in full. -/
theorem scan_fills (s : String) (ts : List Token) (h : scan s = .ok ts) :
    Fills (fun c => isHexLetter c) ts (strip s) ∧
    (Fills (fun _ => False) ts (strip s) ↔ ¬Lexeme.Torn (Lexeme.cut (strip s))) ∧
    (¬Lexeme.Torn (Lexeme.cut (strip s)) → ∀ before c after, strip s = before ++ c :: after →
      isHexLetter c → InLiteral ts before c after) := by
  obtain ⟨⟨hletters, hcharacters, found, hfound, rfl⟩, -⟩ := ofChars_eq_ok_iff.mp h
  obtain ⟨htext, hcut⟩ := Lexeme.cut_spec (strip s)
  rw [disallowed_eq] at hcharacters
  have hfills : ∀ {passed : Char → Prop},
      (∀ c, .single c ∈ Lexeme.cut (strip s) → isHexLetter c → passed c) →
        Fills passed (found.filterMap id) (strip s) := by
    intro passed hpassed
    have := hcut.fills hcharacters hpassed hfound
    rwa [htext] at this
  have hwhole : ¬Lexeme.Torn (Lexeme.cut (strip s)) →
      Fills (fun _ => False) (found.filterMap id) (strip s) := fun htorn =>
    hfills fun c hc hletter =>
      htorn (Lexeme.torn_of_letter (prefixed_of_withoutHex hletters) hc hletter)
  refine ⟨hfills fun c _ hc => hc, ⟨fun hclean htorn => ?_, hwhole⟩, ?_⟩
  · obtain ⟨ls, hls, hcs, hnone⟩ := Lexeme.exists_wellCut hclean
    rw [← hcs, hls.cut_text] at htorn
    obtain ⟨l, hl, hletter⟩ := hls.letter_of_torn htorn
    rw [hnone l hl] at hletter
    cases hletter
  · intro htorn before c after hcs hc
    exact (hwhole htorn).inLiteral hcs hc

theorem scan_fills_literal :
    ∃ ts, scan "(0x1F,<x)+0xab" = .ok ts ∧
      Fills (fun _ => False) ts (strip "(0x1F,<x)+0xab") ∧
      InLiteral ts "(0x1".toList 'F' ",<x)+0xab".toList := by
  have hscan : scan "(0x1F,<x)+0xab" =
      .ok [.leftParen, .number 31, .x, .rightParen, .operator (.binary .add), .number 171] := by
    decide +kernel
  have hwhole : ¬Lexeme.Torn (Lexeme.cut (strip "(0x1F,<x)+0xab")) := by
    intro htorn
    obtain ⟨l, hl, hletter⟩ := (Lexeme.cut_spec _).2.letter_of_torn htorn
    have hnone : ∀ l ∈ Lexeme.cut (strip "(0x1F,<x)+0xab"), l.isLetter = false := by
      decide +kernel
    rw [hnone l hl] at hletter
    cases hletter
  obtain ⟨-, hfills, hliterals⟩ := scan_fills _ _ hscan
  exact ⟨_, hscan, hfills.mpr hwhole, hliterals hwhole _ 'F' _ (by decide) (by decide)⟩

/-- The literal in `10xFF` is torn, and its letters are left out. -/
theorem scan_tears_literal :
    scan "10xFF" = .ok [.number 10, .x] ∧
      ¬Fills (fun _ => False) [.number 10, .x] (strip "10xFF") := by
  refine ⟨by decide +kernel, fun hclean => ?_⟩
  obtain ⟨ls, hls, hcs, hnone⟩ := Lexeme.exists_wellCut hclean
  have hcut : ls = [.decimal ['1', '0'], .single 'x', .single 'F', .single 'F'] := by
    rw [← hls.cut_text, hcs]
    decide +kernel
  have hletter := hnone (.single 'F') (by simp [hcut])
  cases hletter

end Token

end OrbitImage
