import OrbitImage.Proofs.Equation.Scanning
/-!
Letters a to f. The check of letters and the cut both look for literals in base sixteen, but the cut
takes whole numbers off first: in `10xFF` it takes the 0 for the end of a number, and the letters
of the literal are left over. They are left over in no other way.
-/
namespace OrbitImage
open Text

namespace Token

/-- Each letter a to f stands behind 0x and nothing but hexadecimal digits. -/
def Prefixed (cs : List Char) : Prop :=
  ∀ u c w, cs = u ++ c :: w → isHexLetter c →
    ∃ v ds, u = v ++ '0' :: 'x' :: ds ∧ ∀ d ∈ ds, isHexDigit d

/-- The letters in a literal are digits behind its 0x. -/
theorem prefixed_literal {digits u w : List Char} {c : Char}
    (hdigits : ∀ d ∈ digits, isHexDigit d) (hcs : '0' :: 'x' :: digits = u ++ c :: w)
    (hc : isHexLetter c) : ∃ ds, u = '0' :: 'x' :: ds ∧ ∀ d ∈ ds, isHexDigit d := by
  match u with
  | [] =>
      obtain ⟨rfl, -⟩ := List.cons.inj hcs
      cases hc
  | [a] =>
      obtain ⟨-, hx⟩ := List.cons.inj hcs
      obtain ⟨rfl, -⟩ := List.cons.inj hx
      cases hc
  | a :: b :: ds =>
      simp only [List.cons_append, List.cons.injEq] at hcs
      obtain ⟨rfl, rfl, rfl⟩ := hcs
      exact ⟨ds, rfl, fun d hd => hdigits d (List.mem_append_left _ hd)⟩

theorem prefixed_of_withoutHex {cs : List Char}
    (h : ∀ c ∈ withoutHex cs, isHexLetter c = false) : Prefixed cs := by
  fun_induction withoutHex cs with
  | case1 =>
      intro u c w hcs
      simp at hcs
  | case2 c cs digits hhex ih =>
      obtain ⟨rest, hcs, hleads⟩ := Lexeme.hexDigits?_eq_some hhex
      have hrest : cs.drop (digits.length + 1) = rest := by
        obtain ⟨-, rfl⟩ := List.cons.inj hcs
        simp
      rw [hrest] at ih h
      intro u d w hu hd
      rw [hcs, List.append_eq_append_iff] at hu
      rcases hu with ⟨u', rfl, hu'⟩ | ⟨w', hlit, hw'⟩
      · obtain ⟨v, ds, rfl, hds⟩ := ih h u' d w hu' hd
        exact ⟨'0' :: 'x' :: digits ++ v, ds, by simp, hds⟩
      · have hdigits : ∀ d ∈ digits, isHexDigit d := by
          cases hleads with
          | hex hne hdigits hrest => exact hdigits
        cases w' with
        | nil => exact ⟨[], digits, by simpa using hlit.symm, hdigits⟩
        | cons e w' =>
            obtain ⟨rfl, -⟩ := List.cons.inj hw'
            obtain ⟨ds, rfl, hds⟩ := prefixed_literal hdigits hlit hd
            exact ⟨[], ds, rfl, hds⟩
  | case3 c cs hhex ih =>
      obtain ⟨hc, hrest⟩ := List.forall_mem_cons.mp h
      intro u d w hu hd
      cases u with
      | nil =>
          obtain ⟨rfl, -⟩ := List.cons.inj hu
          rw [hc] at hd
          cases hd
      | cons a u =>
          obtain ⟨rfl, hcs⟩ := List.cons.inj hu
          obtain ⟨v, ds, rfl, hds⟩ := ih hrest u d w hcs hd
          exact ⟨c :: v, ds, rfl, hds⟩

end Token

namespace Lexeme
open Token

/-! ### Literals that are torn -/

def isNumeral : Lexeme → Bool
  | decimal _ => true
  | hex _ => true
  | _ => false

def isLetter : Lexeme → Bool
  | single c => isHexLetter c
  | _ => false

/-- A letter a to f comes ahead, with nothing but hexadecimal digits in front of it. -/
def LetterAhead (cs : List Char) : Prop :=
  ∃ c ∈ cs.takeWhile isHexDigit, isHexLetter c

/-- A number ends in the 0 that would start a literal with letters a to f. -/
def Torn (ls : List Lexeme) : Prop :=
  ∃ before l after, ls = before ++ l :: .single 'x' :: after ∧ l.isNumeral ∧
    l.spelling.getLast? = some '0' ∧ LetterAhead (text after)

theorem letterAhead_append_iff {ds cs : List Char} (hds : ∀ d ∈ ds, isHexDigit d) :
    LetterAhead (ds ++ cs) ↔ (∃ d ∈ ds, isHexLetter d) ∨ LetterAhead cs := by
  simp only [LetterAhead, List.takeWhile_append_of_pos hds, List.mem_append, or_and_right,
    exists_or]

theorem not_letterAhead {cs : List Char} (h : ∀ c ∈ cs.head?, isHexDigit c = false) :
    ¬LetterAhead cs := by
  rintro ⟨c, hmem, -⟩
  cases cs with
  | nil => cases hmem
  | cons d ds => simp [h d rfl] at hmem

theorem WellCut.right {ls ms : List Lexeme} (h : WellCut (ls ++ ms)) : WellCut ms := by
  induction ls with
  | nil => exact h
  | cons l ls ih => exact ih h.2

/-- A numeral, the variable, a letter a to f, or nothing of what numerals consist of. -/
theorem Leads.kinds {l : Lexeme} {rest : List Char} (h : Leads l rest) :
    l.isNumeral ∨ l = .single 'x' ∨ (∃ c, isHexLetter c ∧ l = .single c) ∨
      ∀ c ∈ l.spelling, isHexDigit c = false ∧ c ≠ 'x' := by
  cases h with
  | @rotation op piece rest hop hpiece =>
      have hsymbol : piece.map Char.toUpper = (Operator.binary op).symbol.toList := hpiece
      exact .inr (.inr (.inr fun c hc =>
        operatorChar_ends_operand (operatorChar_of_mem hsymbol hc)))
  | hex | decimal => exact .inl rfl
  | shl | shr => exact .inr (.inr (.inr (forall_mem_of_all (by decide))))
  | @single c rest hrot hdigit hangle =>
      by_cases hx : c = 'x'
      · exact .inr (.inl (by rw [hx]))
      · by_cases hc : isHexLetter c
        · exact .inr (.inr (.inl ⟨c, hc, rfl⟩))
        · refine .inr (.inr (.inr fun d hd => ?_))
          obtain rfl := List.mem_singleton.mp hd
          exact ⟨by simp [isHexDigit, hdigit, hc], hx⟩

/-- A letter that comes ahead is a lexeme by itself. -/
theorem WellCut.exists_letter {ls : List Lexeme} (h : WellCut ls) (hahead : LetterAhead (text ls)) :
    ∃ l ∈ ls, l.isLetter := by
  induction ls with
  | nil => exact absurd hahead (not_letterAhead (by simp))
  | cons l ls ih =>
      obtain ⟨hleads, hls⟩ := h
      rw [text_cons] at hahead
      have hother : (∀ c ∈ l.spelling, isHexDigit c = false) → False := by
        intro hnone
        refine not_letterAhead (fun c hc => hnone c ?_) hahead
        rw [List.head?_append_of_ne_nil _ hleads.ne_nil] at hc
        exact List.mem_of_mem_head? hc
      rcases hleads.kinds with hnumeral | rfl | ⟨c, hc, rfl⟩ | hnone
      · cases hleads with
        | rotation | shl | shr | single => cases hnumeral
        | @hex digits rest hne hdigits hrest =>
            -- The text starts with 0 and goes on with x, which is no digit.
            have h0 : LetterAhead (['0'] ++ 'x' :: (digits ++ text ls)) := hahead
            rcases (letterAhead_append_iff (forall_mem_of_all (by decide))).mp h0 with
              ⟨d, hd, hletter⟩ | hx
            · obtain rfl := List.mem_singleton.mp hd
              cases hletter
            · exact absurd hx (not_letterAhead (by simp; decide))
        | @decimal digits rest hne hdigits hrest hhex =>
            have hhexdigits : ∀ d ∈ digits, isHexDigit d := fun d hd =>
              isHexDigit_of_isDigit (hdigits d hd)
            rcases (letterAhead_append_iff hhexdigits).mp hahead with ⟨d, hd, hletter⟩ | hmore
            · rw [not_isHexLetter_of_isDigit (hdigits d hd)] at hletter
              cases hletter
            · obtain ⟨l, hl, hletter⟩ := ih hls hmore
              exact ⟨l, List.mem_cons_of_mem _ hl, hletter⟩
      · exact (hother (forall_mem_of_all (by decide))).elim
      · exact ⟨_, List.mem_cons_self .., hc⟩
      · exact (hother fun c hc => (hnone c hc).1).elim

theorem WellCut.letter_of_torn {ls : List Lexeme} (h : WellCut ls) (htorn : Torn ls) :
    ∃ l ∈ ls, l.isLetter := by
  obtain ⟨before, m, after, rfl, -, -, hahead⟩ := htorn
  obtain ⟨l, hl, hletter⟩ := h.right.2.2.exists_letter hahead
  exact ⟨l, by simp [hl], hletter⟩

/-! ### Letters that are left over -/

/-- Hexadecimal digits at the end of a text that ends in a literal are digits of the literal. -/
theorem digits_of_append_eq {cs piece u ds : List Char}
    (h : cs ++ piece = u ++ '0' :: 'x' :: ds) (hpiece : ∀ c ∈ piece, isHexDigit c) :
    ∃ ds', ds = ds' ++ piece ∧ cs = u ++ '0' :: 'x' :: ds' := by
  have h' : cs ++ piece = (u ++ ['0', 'x']) ++ ds := by simpa using h
  rcases List.append_eq_append_iff.mp h' with ⟨as, hu, hp⟩ | ⟨bs, hcs, hds⟩
  · -- What the two have in common is no more than the end of 0x, and x is no digit.
    rcases List.eq_nil_or_concat' as with rfl | ⟨as, a, rfl⟩
    · exact ⟨[], by simpa using hp.symm, by simpa using hu.symm⟩
    · have hlast := congrArg List.getLast? hu
      obtain rfl : 'x' = a := by simpa using hlast
      exact absurd (hpiece 'x' (by simp [hp])) (by decide)
  · exact ⟨bs, hds, by simpa using hcs⟩

theorem getLast?_literal {u ds : List Char} (hds : ∀ d ∈ ds, isHexDigit d) {c : Char}
    (hc : (u ++ '0' :: 'x' :: ds).getLast? = some c) : ds = [] ∧ c = 'x' ∨ isHexDigit c := by
  rcases List.eq_nil_or_concat' ds with rfl | ⟨ds, d, rfl⟩
  · left
    have hx : 'x' = c := by simpa using hc
    exact ⟨rfl, hx.symm⟩
  · right
    rw [show u ++ '0' :: 'x' :: (ds ++ [d]) = u ++ '0' :: 'x' :: ds ++ [d] by simp,
      List.getLast?_concat] at hc
    obtain rfl := Option.some.inj hc
    exact hds d (by simp)

/-- Only a number ends in 0. -/
theorem Leads.isNumeral {l : Lexeme} {rest : List Char} (h : Leads l rest)
    (h0 : l.spelling.getLast? = some '0') : l.isNumeral := by
  rcases h.kinds with hnumeral | rfl | ⟨c, hc, rfl⟩ | hnone
  · exact hnumeral
  · cases h0
  · cases h0
    cases hc
  · exact absurd (hnone '0' (List.mem_of_getLast? h0)).1 (by decide)

/-- An x that the variable is read for, behind a 0, tears a literal if a letter comes ahead. -/
theorem WellCut.torn_of_zero {before rest : List Lexeme}
    (h : WellCut (before ++ .single 'x' :: rest)) {u : List Char}
    (hbefore : text before = u ++ ['0']) (hahead : LetterAhead (text rest)) :
    Torn (before ++ .single 'x' :: rest) := by
  rcases List.eq_nil_or_concat' before with rfl | ⟨before, l, rfl⟩
  · simp at hbefore
  · rw [List.append_assoc, List.singleton_append] at h ⊢
    obtain ⟨hl, -⟩ := h.right
    have h0 : l.spelling.getLast? = some '0' := by
      have hzero := congrArg List.getLast? hbefore
      rw [List.getLast?_concat, text_append, text_cons, text_nil, List.append_nil,
        List.getLast?_append_of_ne_nil _ hl.ne_nil] at hzero
      exact hzero
    exact ⟨before, l, rest, rfl, hl.isNumeral h0, h0, hahead⟩

/-- If the digits of a literal end in front of a letter, the literal is torn. -/
theorem WellCut.torn {before rest : List Lexeme} (h : WellCut (before ++ rest))
    {u ds : List Char} (hbefore : text before = u ++ '0' :: 'x' :: ds)
    (hds : ∀ d ∈ ds, isHexDigit d) (hahead : LetterAhead (text rest)) : Torn (before ++ rest) := by
  -- Back from the letter: lexemes of digits go over to `rest`, until one of them is the x of 0x.
  induction before using List.reverseRecOn generalizing rest ds with
  | nil => simp at hbefore
  | append_singleton before m ih =>
      rw [List.append_assoc, List.singleton_append] at h ⊢
      obtain ⟨hleads, hrest⟩ := h.right
      rw [text_append, text_cons, text_nil, List.append_nil] at hbefore
      have hmore : (∀ c ∈ m.spelling, isHexDigit c) → Torn (before ++ m :: rest) := by
        intro hm
        obtain ⟨ds', rfl, hbefore'⟩ := digits_of_append_eq hbefore hm
        refine ih h hbefore' (fun d hd => hds d (List.mem_append_left _ hd)) ?_
        exact (letterAhead_append_iff hm).mpr (.inr hahead)
      have hlast : ∀ c, m.spelling.getLast? = some c → ds = [] ∧ c = 'x' ∨ isHexDigit c := by
        intro c hc
        apply getLast?_literal hds
        rw [← hbefore, List.getLast?_append, hc]
        rfl
      rcases hleads.kinds with hnumeral | rfl | ⟨c, hc, rfl⟩ | hnone
      · cases hleads with
        | hex hne hdigits hend => exact absurd hahead (not_letterAhead hend)
        | decimal hne hdigits hend hhex =>
            exact hmore fun d hd => isHexDigit_of_isDigit (hdigits d hd)
        | rotation | shl | shr | single => cases hnumeral
      · obtain rfl : ds = [] := (hlast 'x' rfl).elim And.left nofun
        have hzero : text before = u ++ ['0'] :=
          List.append_cancel_right (hbefore.trans (by simp [spelling]))
        exact h.torn_of_zero hzero hahead
      · refine hmore fun d hd => ?_
        obtain rfl := List.mem_singleton.mp hd
        simp [isHexDigit, hc]
      · obtain ⟨c, hc⟩ := Option.ne_none_iff_exists'.mp
          (mt List.getLast?_eq_none_iff.mp hleads.ne_nil)
        obtain ⟨hdigit, hx⟩ := hnone c (List.mem_of_getLast? hc)
        rcases hlast c hc with ⟨-, rfl⟩ | hd
        · exact absurd rfl hx
        · rw [hdigit] at hd
          cases hd

/-- A letter is a lexeme by itself only if a literal is torn. -/
theorem torn_of_letter {cs : List Char} (h : Prefixed cs) {l : Lexeme} (hl : l ∈ cut cs)
    (hletter : l.isLetter) : Torn (cut cs) := by
  obtain ⟨htext, hcut⟩ := cut_spec cs
  obtain ⟨before, after, hls⟩ := List.append_of_mem hl
  cases l with
  | single c =>
      rw [hls] at htext hcut ⊢
      rw [text_append] at htext
      obtain ⟨v, ds, hbefore, hds⟩ := h (text before) c (text after) htext.symm hletter
      have hhex : isHexDigit c := Bool.or_eq_true_iff.mpr (.inr hletter)
      exact hcut.torn hbefore hds ⟨c, by simp [spelling, hhex], hletter⟩
  | _ => cases hletter

end Lexeme

end OrbitImage
