import Mathlib.Data.List.TakeWhile
import OrbitImage.Proofs.Equation.Spelling
/-!
How a text is cut. `Lexeme.Leads` says which lexeme stands at the start of a text; a row of lexemes
in which each one leads what follows it is the cut of its own text, and the only one. What is said
of a cut here is proved from this description alone.
-/
namespace OrbitImage
open Text

namespace Lexeme

/-- The lexeme is the one that is cut off when its spelling stands in front of `rest`. -/
inductive Leads : Lexeme → List Char → Prop
  | rotation {op piece rest} : op = .rol ∨ op = .ror →
      piece.map Char.toUpper = op.symbol.toList → Leads (.rotation op piece) rest
  | hex {digits rest} : digits ≠ [] → (∀ d ∈ digits, isHexDigit d) →
      (∀ c ∈ rest.head?, isHexDigit c = false) → Leads (.hex digits) rest
  | decimal {digits rest} : digits ≠ [] → (∀ d ∈ digits, d.isDigit) →
      (∀ c ∈ rest.head?, c.isDigit = false) → hexDigits? (digits ++ rest) = none →
      Leads (.decimal digits) rest
  | shl {rest} : Leads (.shift .shl '<') rest
  | shr {rest} : Leads (.shift .shr '>') rest
  | single {c rest} : rotation? (c :: rest) = none → c.isDigit = false →
      (c = '<' ∨ c = '>' → rest.head? ≠ some c) → Leads (.single c) rest

/-! ### The first lexeme -/

theorem rotation?_eq_some {cs : List Char} {op : BinaryOp} (h : rotation? cs = some op) :
    (op = .rol ∨ op = .ror) ∧ (cs.take 3).map Char.toUpper = op.symbol.toList := by
  unfold rotation? at h
  split at h
  case h_1 htake =>
    cases h
    exact ⟨.inl rfl, htake⟩
  case h_2 htake =>
    cases h
    exact ⟨.inr rfl, htake⟩
  case h_3 => cases h

theorem head?_dropWhile {p : Char → Bool} (cs : List Char) :
    ∀ c ∈ (cs.dropWhile p).head?, p c = false := by
  intro c hc
  have := List.head?_dropWhile_not p cs
  rw [hc] at this
  simpa using this

theorem hexDigits?_eq_some {cs digits : List Char} (h : hexDigits? cs = some digits) :
    ∃ rest, cs = '0' :: 'x' :: digits ++ rest ∧ Leads (.hex digits) rest := by
  unfold hexDigits? at h
  split at h
  case h_1 cs =>
    split at h
    case h_1 => cases h
    case h_2 hne =>
      cases h
      refine ⟨cs.dropWhile isHexDigit, by simp, .hex hne ?_ (head?_dropWhile cs)⟩
      exact fun d hd => List.mem_takeWhile_imp hd
  case h_2 => cases h

theorem leads_first (c : Char) (cs : List Char) :
    ∃ rest, (first c cs).spelling ++ rest = c :: cs ∧ Leads (first c cs) rest := by
  unfold first
  split
  case h_1 op hrot =>
    obtain ⟨hop, hpiece⟩ := rotation?_eq_some hrot
    exact ⟨_, List.take_append_drop 3 (c :: cs), .rotation hop hpiece⟩
  case h_2 hrot =>
    split
    case h_1 digits hhex =>
      obtain ⟨rest, hcs, hleads⟩ := hexDigits?_eq_some hhex
      exact ⟨rest, hcs.symm, hleads⟩
    case h_2 hhex =>
      split
      case isTrue hc =>
        have hcs : c :: cs = c :: cs.takeWhile Char.isDigit ++ cs.dropWhile Char.isDigit := by
          simp
        refine ⟨cs.dropWhile Char.isDigit, hcs.symm, .decimal (by simp) ?_ (head?_dropWhile cs) ?_⟩
        · rintro d (_ | ⟨_, hd⟩)
          · exact hc
          · exact List.mem_takeWhile_imp hd
        · rwa [← hcs]
      case isFalse hc =>
        split
        case h_1 => exact ⟨_, rfl, .shl⟩
        case h_2 => exact ⟨_, rfl, .shr⟩
        case h_3 hl hr =>
          refine ⟨cs, rfl, .single hrot (by simpa using hc) ?_⟩
          rintro (rfl | rfl) hhead
          · obtain ⟨rest, rfl⟩ := List.head?_eq_some_iff.mp hhead
            exact hl rest rfl rfl
          · obtain ⟨rest, rfl⟩ := List.head?_eq_some_iff.mp hhead
            exact hr rest rfl rfl

/-- What the first lexeme is follows from that. -/
theorem Leads.first_eq {l : Lexeme} {rest : List Char} (h : Leads l rest) {c : Char}
    {cs : List Char} (hcs : l.spelling ++ rest = c :: cs) : first c cs = l := by
  unfold first
  cases h with
  | @rotation op piece rest hop hpiece =>
      obtain ⟨hlen, hrot⟩ := rotation?_append hpiece hop rest
      simp only [spelling] at hcs
      rw [← hcs, hrot]
      simp only [List.take_left' hlen]
  | @hex digits rest hne hdigits hrest =>
      simp only [spelling, List.cons_append] at hcs
      obtain ⟨rfl, rfl⟩ := List.cons.inj hcs
      have hhex : hexDigits? ('0' :: 'x' :: (digits ++ rest)) = some digits := by
        simp only [hexDigits?]
        rw [takeWhile_append hdigits hrest]
        cases digits with
        | nil => exact absurd rfl hne
        | cons d ds => rfl
      rw [rotation?_of_ne (by decide)]
      simp only [hhex]
  | @decimal digits rest hne hdigits hrest hhex =>
      obtain ⟨d, ds, rfl⟩ := List.exists_cons_of_ne_nil hne
      obtain ⟨hd, hds⟩ := List.forall_mem_cons.mp hdigits
      simp only [spelling, List.cons_append] at hcs hhex
      obtain ⟨rfl, rfl⟩ := List.cons.inj hcs
      rw [rotation?_of_ne (toUpper_ne_of_isDigit hd), hhex]
      simp only [hd, if_true]
      rw [takeWhile_append hds hrest]
  | shl | shr =>
      cases hcs
      rfl
  | @single d rest hrot hdigit hangle =>
      simp only [spelling, List.cons_append, List.nil_append] at hcs
      obtain ⟨rfl, rfl⟩ := List.cons.inj hcs
      have hne : d ≠ '0' := by
        rintro rfl
        cases hdigit
      rw [hrot, hexDigits?_of_ne hne]
      simp only [hdigit, Bool.false_eq_true, if_false]
      split
      case h_1 => exact absurd rfl (hangle (.inl rfl))
      case h_2 => exact absurd rfl (hangle (.inr rfl))
      case h_3 => rfl

theorem Leads.ne_nil {l : Lexeme} {rest : List Char} (h : Leads l rest) : l.spelling ≠ [] := by
  cases h with
  | rotation hop hpiece =>
      have hlen := (rotation?_append hpiece hop []).1
      exact List.ne_nil_of_length_pos (by rw [spelling, hlen]; decide)
  | decimal hne => exact hne
  | hex | shl | shr | single => simp [spelling]

/-! ### Rows of lexemes -/

/-- The text that lexemes spell one after the other. -/
def text (ls : List Lexeme) : List Char :=
  ls.flatMap spelling

/-- Each lexeme leads the text of those behind it. -/
def WellCut : List Lexeme → Prop
  | [] => True
  | l :: ls => Leads l (text ls) ∧ WellCut ls

@[simp] theorem text_nil : text [] = [] := rfl

@[simp] theorem text_cons (l : Lexeme) (ls : List Lexeme) :
    text (l :: ls) = l.spelling ++ text ls := rfl

@[simp] theorem text_append (ls ms : List Lexeme) : text (ls ++ ms) = text ls ++ text ms :=
  List.flatMap_append ..

/-- Nothing is lost between the lexemes of a cut, and each is the one that its place asks for. -/
theorem cut_spec (cs : List Char) : text (cut cs) = cs ∧ WellCut (cut cs) := by
  fun_induction cut cs with
  | case1 => exact ⟨rfl, trivial⟩
  | case2 c cs ih =>
      obtain ⟨rest, hcs, hleads⟩ := leads_first c cs
      have hrest : (c :: cs).drop (first c cs).spelling.length = rest := by
        rw [← hcs, List.drop_left]
      rw [hrest] at ih ⊢
      obtain ⟨htext, hcut⟩ := ih
      refine ⟨?_, ?_, hcut⟩
      · rw [text_cons, htext, hcs]
      · rwa [htext]

theorem WellCut.cut_text {ls : List Lexeme} (h : WellCut ls) : cut (text ls) = ls := by
  induction ls with
  | nil => exact cut.eq_1
  | cons l ls ih =>
      obtain ⟨hleads, hls⟩ := h
      obtain ⟨c, cs, hcs⟩ := List.exists_cons_of_ne_nil
        (List.append_ne_nil_of_left_ne_nil hleads.ne_nil (text ls))
      rw [text_cons, hcs, cut, hleads.first_eq hcs, ← hcs, List.drop_left, ih hls]

/-! ### Closing parentheses -/

theorem rotation?_append_paren (cs rest : List Char) :
    rotation? (cs ++ ')' :: rest) = rotation? cs := by
  unfold rotation?
  match cs with
  | [] => simp
  | [a] => simp
  | [a, b] => simp
  | a :: b :: c :: ds => simp

theorem hexDigits?_append_paren (cs rest : List Char) :
    hexDigits? (cs ++ ')' :: rest) = hexDigits? cs := by
  match cs with
  | [] => rfl
  | [a] => rw [List.singleton_append, hexDigits?_of_second a (by simp),
      hexDigits?_of_second a (by simp)]
  | a :: b :: ds =>
      by_cases ha : a = '0'
      · by_cases hb : b = 'x'
        · have hrun : (ds ++ ')' :: rest).takeWhile isHexDigit = ds.takeWhile isHexDigit := by
            induction ds with
            | nil => rfl
            | cons d ds ih =>
                rw [List.cons_append, List.takeWhile_cons, List.takeWhile_cons, ih]
          subst ha hb
          simp only [List.cons_append, hexDigits?, hrun]
        · rw [List.cons_append, hexDigits?_of_second a (by simpa using hb),
            hexDigits?_of_second a (by simpa using hb)]
      · rw [List.cons_append, hexDigits?_of_ne ha, hexDigits?_of_ne ha]

/-- No lexeme goes on into a closing parenthesis. -/
theorem Leads.append_paren {l : Lexeme} {cs : List Char} (h : Leads l cs) (rest : List Char) :
    Leads l (cs ++ ')' :: rest) := by
  have hhead : ∀ {p : Char → Bool}, p ')' = false → (∀ c ∈ cs.head?, p c = false) →
      ∀ c ∈ (cs ++ ')' :: rest).head?, p c = false := by
    intro p hp hcs
    cases cs with
    | nil => simpa using hp
    | cons d ds => simpa using hcs
  cases h with
  | rotation hop hpiece => exact .rotation hop hpiece
  | hex hne hdigits hrest => exact .hex hne hdigits (hhead (by decide) hrest)
  | decimal hne hdigits hrest hhex =>
      refine .decimal hne hdigits (hhead (by decide) hrest) ?_
      rw [← List.append_assoc, hexDigits?_append_paren, hhex]
  | shl => exact .shl
  | shr => exact .shr
  | single hrot hdigit hangle =>
      refine .single ?_ hdigit ?_
      · rw [← List.cons_append, rotation?_append_paren, hrot]
      · intro hc
        cases cs with
        | nil => rcases hc with rfl | rfl <;> simp
        | cons d ds => exact hangle hc

theorem WellCut.append_paren {ls ms : List Lexeme} (hls : WellCut ls) (hms : WellCut ms) :
    WellCut (ls ++ .single ')' :: ms) := by
  induction ls with
  | nil => exact ⟨.single (rotation?_of_ne (by decide) _) rfl (by simp), hms⟩
  | cons l ls ih =>
      rw [List.cons_append]
      refine ⟨?_, ih hls.2⟩
      rw [text_append]
      exact hls.1.append_paren _

theorem cut_append_paren (cs rest : List Char) :
    cut (cs ++ ')' :: rest) = cut cs ++ .single ')' :: cut rest := by
  obtain ⟨hcs, hcut⟩ := cut_spec cs
  obtain ⟨hrest, hcut'⟩ := cut_spec rest
  have htext : text (cut cs ++ .single ')' :: cut rest) = cs ++ ')' :: rest := by
    rw [text_append, text_cons, hcs, hrest]
    rfl
  rw [← htext, (hcut.append_paren hcut').cut_text]

end Lexeme

namespace Token

/-! ### Characters that are not allowed -/

/-- The character a lexeme consists of, if the check of characters refuses it. -/
def refused? : Lexeme → Option Char
  | .single c => if isAllowed c then none else some c
  | _ => none

/-- The check of characters, lexeme by lexeme. -/
theorem disallowed_text {ls : List Lexeme} (h : Lexeme.WellCut ls) :
    disallowed (Lexeme.text ls) = ls.filterMap refused? := by
  induction ls with
  | nil => exact disallowed.eq_1
  | cons l ls ih =>
      obtain ⟨hleads, hls⟩ := h
      rw [Lexeme.text_cons]
      cases hleads with
      | rotation hop hpiece => exact (disallowed_rotation hpiece hop _).trans (ih hls)
      | hex hne hdigits hrest =>
          refine (disallowed_append ?_ _).trans (ih hls)
          rintro d (_ | ⟨_, _ | ⟨_, hd⟩⟩)
          · decide
          · decide
          · exact isAllowed_of_isHexDigit (hdigits d hd)
      | decimal hne hdigits hrest hhex =>
          refine (disallowed_append ?_ _).trans (ih hls)
          exact fun d hd => isAllowed_of_isHexDigit (isHexDigit_of_isDigit (hdigits d hd))
      | shl | shr => exact (disallowed_append (forall_mem_of_all (by decide)) _).trans (ih hls)
      | @single c rest hrot hdigit hangle =>
          simp only [Lexeme.spelling, List.cons_append, List.nil_append]
          rw [disallowed, hrot, List.filterMap_cons, refused?]
          simp only [ih hls]
          split <;> rfl

theorem disallowed_eq (cs : List Char) : disallowed cs = (Lexeme.cut cs).filterMap refused? := by
  obtain ⟨htext, hcut⟩ := Lexeme.cut_spec cs
  rw [← disallowed_text hcut, htext]

end Token

end OrbitImage
