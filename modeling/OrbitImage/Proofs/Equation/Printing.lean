import OrbitImage.Proofs.Equation.Coverage
import OrbitImage.Proofs.Equation.Grammar
/-!
Tokens that are printed and scanned again. Blanks separate nothing, so the texts of neighbours may
run into each other: two numbers become one, and a 0 takes the variable and a number behind it for a
literal in base sixteen. Nothing else is lost in print, and no other literal can take the place of
what is lost: no spelling of a token is shorter than its text.
-/
namespace OrbitImage
open Text

namespace Token

/-- The texts of tokens, one after the other. -/
def printed (ts : List Token) : List Char :=
  ts.flatMap (·.text.toList)

/-- No two numbers are neighbours, and no 0 stands in front of the variable and a number. -/
structure Legible (ts : List Token) : Prop where
  numbers : ∀ m n, ¬[.number m, .number n] <:+: ts
  literals : ∀ n, ¬[.number 0, .x, .number n] <:+: ts

@[simp] theorem printed_nil : printed [] = [] := rfl

@[simp] theorem printed_cons (t : Token) (ts : List Token) :
    printed (t :: ts) = t.text.toList ++ printed ts := rfl

/-- A space between neighbours is one way of putting blanks into what is printed. -/
theorem spaced_row (ts : List Token) : Spaced (printed ts) (row ts).toList := by
  have of_append : ∀ {cs ds : List Char} (piece : List Char), Spaced cs ds →
      Spaced (piece ++ cs) (piece ++ ds) := by
    intro cs ds piece h
    induction piece with
    | nil => exact h
    | cons c piece ih => exact .keep ih
  induction ts with
  | nil => exact .nil
  | cons t ts ih =>
      rw [printed_cons]
      cases ts with
      | nil => simpa [row] using spaced_refl t.text.toList
      | cons u us =>
          have hrow : (row (t :: u :: us)).toList =
              t.text.toList ++ ' ' :: (row (u :: us)).toList := by
            simp [row, String.intercalate_cons_cons]
          rw [hrow]
          exact of_append _ (.blank (by decide) ih)

/-! ### Texts of tokens -/

theorem text_number (n : UInt32) : (number n).text.toList = Nat.toDigits 10 n.toNat :=
  Nat.toList_repr

theorem spelling_text (t : Token) : Spelling t t.text.toList := by
  cases t with
  | number n =>
      rw [text_number]
      exact .decimal 0
  | x => exact .x
  | operator op => exact spelling_symbol op
  | leftParen => exact .leftParen
  | rightParen => exact .rightParen

theorem spelled_printed (ts : List Token) : Spelled ts (printed ts) := by
  induction ts with
  | nil => exact .nil
  | cons t ts ih => exact .cons (spelling_text t) ih

/-- The text of a token starts with a digit if it is a number, and else with no digit of any base;
only the variable starts with an x. -/
theorem exists_text_eq_cons (t : Token) : ∃ c cs, t.text.toList = c :: cs ∧
    c.isDigit = t.isNumber ∧ isHexDigit c = t.isNumber ∧ (c = 'x' → t = .x) := by
  cases t with
  | number n =>
      obtain ⟨c, cs, hcs, hdigits, -⟩ := decimal_digits n 0
      have hc : c.isDigit := hdigits c (List.mem_cons_self ..)
      refine ⟨c, cs, by simpa [text_number] using hcs, hc, isHexDigit_of_isDigit hc, ?_⟩
      rintro rfl
      cases hc
  | x => exact ⟨'x', [], rfl, rfl, rfl, fun _ => rfl⟩
  | leftParen => exact ⟨'(', [], rfl, rfl, rfl, by decide⟩
  | rightParen => exact ⟨')', [], rfl, rfl, rfl, by decide⟩
  | operator op =>
      obtain ⟨c, cs, hcs⟩ := List.exists_cons_of_ne_nil (spelling_text (.operator op)).ne_nil
      have hhead := (spelling_text (.operator op)).head rfl c (by rw [hcs]; rfl)
      have hdigit : c.isDigit = false := by
        have := hhead.1
        simp_all [isHexDigit]
      exact ⟨c, cs, hcs, hdigit, hhead.1, fun hx => absurd hx hhead.2⟩

theorem not_isHexLetter_of_mem_text {t : Token} {c : Char} (hc : c ∈ t.text.toList) :
    isHexLetter c = false := by
  cases t with
  | number n =>
      rw [text_number] at hc
      exact not_isHexLetter_of_isDigit (Nat.isDigit_of_mem_toDigits (by decide) (by decide) hc)
  | x | leftParen | rightParen =>
      obtain rfl := List.mem_singleton.mp hc
      decide
  | operator op =>
      have hall : ∀ op ∈ Operator.all, op.symbol.toList.all (!isHexLetter ·) := by decide
      simpa using List.all_eq_true.mp (Operator.forall_of_all hall op) c hc

/-! ### Numbers that go on -/

/-- A numeral goes on into a digit, and 0 alone goes on into an x with a digit in base sixteen. -/
theorem goesOn_iff {piece cs : List Char} (hpiece : ∀ d ∈ piece, d.isDigit) :
    goesOn piece cs ↔ (∃ c rest, cs = c :: rest ∧ c.isDigit) ∨
      piece = ['0'] ∧ ∃ c rest, cs = 'x' :: c :: rest ∧ isHexDigit c := by
  unfold goesOn
  split
  case h_1 => exact absurd (hpiece 'x' (by simp)) (by decide)
  case h_2 c rest => simp [show 'x'.isDigit = false from rfl]
  case h_3 c rest _ hzero =>
    constructor
    · exact fun hc => .inl ⟨c, rest, rfl, hc⟩
    · rintro (⟨d, ds, hcons, hd⟩ | ⟨rfl, d, ds, hcons, -⟩)
      · cases hcons
        exact hd
      · cases hcons
        exact (hzero d ds rfl rfl rfl).elim
  case h_4 => simp

/-- What is printed starts with a digit exactly if the first token is a number. -/
theorem printed_digit_iff {p : Char → Bool}
    (hp : ∀ t : Token, ∃ c cs, t.text.toList = c :: cs ∧ p c = t.isNumber) (ts : List Token) :
    (∃ c rest, printed ts = c :: rest ∧ p c) ↔ ∃ n, [.number n] <+: ts := by
  cases ts with
  | nil => simp
  | cons t ts =>
      obtain ⟨c, cs, hcs, hc⟩ := hp t
      have hfirst : (∃ d rest, printed (t :: ts) = d :: rest ∧ p d) ↔ t.isNumber := by
        simp [hcs, hc]
      rw [hfirst]
      cases t <;> simp [isNumber, List.cons_prefix_cons]

/-- In print a number goes on into the next one, and 0 into the variable with a number behind it. -/
theorem goesOn_printed_iff (k : UInt32) (ts : List Token) :
    goesOn (number k).text.toList (printed ts) ↔
      (∃ n, [.number n] <+: ts) ∨ k = 0 ∧ ∃ n, [.x, .number n] <+: ts := by
  have hdigits : ∀ d ∈ (number k).text.toList, d.isDigit := by
    rw [text_number]
    exact fun d => Nat.isDigit_of_mem_toDigits (by decide) (by decide)
  have hzero : (number k).text.toList = ['0'] ↔ k = 0 := by
    rw [text_number]
    constructor
    · intro hk
      have hvalue : valueIn 10 (Nat.toDigits 10 k.toNat) = k.toNat :=
        valueIn_toDigits (by decide) (by decide) _
      rw [hk] at hvalue
      exact UInt32.toNat_inj.mp hvalue.symm
    · rintro rfl
      rfl
  have hdecimal := printed_digit_iff (p := Char.isDigit) (fun t => by
    obtain ⟨c, cs, hcs, hc, -⟩ := exists_text_eq_cons t
    exact ⟨c, cs, hcs, hc⟩)
  have hhex := printed_digit_iff (p := isHexDigit) (fun t => by
    obtain ⟨c, cs, hcs, -, hc, -⟩ := exists_text_eq_cons t
    exact ⟨c, cs, hcs, hc⟩)
  have hliteral : (∃ c rest, printed ts = 'x' :: c :: rest ∧ isHexDigit c) ↔
      ∃ n, [.x, .number n] <+: ts := by
    cases ts with
    | nil => simp
    | cons t ts =>
        by_cases ht : t = .x
        · subst ht
          have hx : (Token.x).text.toList = ['x'] := rfl
          simpa [hx, List.cons_prefix_cons] using hhex ts
        · obtain ⟨d, cs, hcs, -, -, hd⟩ := exists_text_eq_cons t
          have hne : d ≠ 'x' := fun h => ht (hd h)
          simp [hcs, hne, List.cons_prefix_cons, Ne.symm ht]
  rw [goesOn_iff hdigits, hdecimal, hzero, hliteral]

/-- A row is legible if no number of it goes on in what is printed behind it. -/
theorem legible_cons_iff (t : Token) (ts : List Token) :
    Legible (t :: ts) ↔ (t.isNumber → goesOn t.text.toList (printed ts) = false) ∧ Legible ts := by
  have hfirst : (t.isNumber → goesOn t.text.toList (printed ts) = false) ↔
      (∀ m n, ¬[.number m, .number n] <+: t :: ts) ∧
        ∀ n, ¬[.number 0, .x, .number n] <+: t :: ts := by
    cases t with
    | number k =>
        rw [← Bool.not_eq_true, goesOn_printed_iff]
        simp only [isNumber, List.cons_prefix_cons, number.injEq, not_or, not_exists, not_and,
          forall_const]
        constructor
        · rintro ⟨hnumbers, hliterals⟩
          exact ⟨fun m n _ => hnumbers n, fun n hk => hliterals hk.symm n⟩
        · rintro ⟨hnumbers, hliterals⟩
          exact ⟨fun n => hnumbers k n rfl, fun hk n => hliterals n hk.symm⟩
    | _ => simp [isNumber, List.cons_prefix_cons]
  rw [hfirst]
  constructor
  · intro h
    exact ⟨⟨fun m n hp => h.numbers m n hp.isInfix, fun n hp => h.literals n hp.isInfix⟩,
      fun m n hi => h.numbers m n (List.infix_cons hi),
      fun n hi => h.literals n (List.infix_cons hi)⟩
  · rintro ⟨⟨hnumbers, hliterals⟩, h⟩
    exact ⟨fun m n hi => (List.infix_cons_iff.mp hi).elim (hnumbers m n) (h.numbers m n),
      fun n hi => (List.infix_cons_iff.mp hi).elim (hliterals n) (h.literals n)⟩

/-! ### From print to tokens -/

/-- Each text is a lexeme, and is read as its token. -/
theorem Legible.exists_wellCut {ts : List Token} (h : Legible ts) :
    ∃ ls, Lexeme.WellCut ls ∧ Lexeme.text ls = printed ts ∧
      ls.mapM Lexeme.token? = .ok (ts.map some) := by
  induction ts with
  | nil => exact ⟨[], trivial, rfl, rfl⟩
  | cons t ts ih =>
      obtain ⟨hend, hts⟩ := (legible_cons_iff t ts).mp h
      obtain ⟨ls, hls, htext, hread⟩ := ih hts
      obtain ⟨l, hspelling, hl, -, htoken⟩ := Lexeme.leads_of_spelling (spelling_text t) hend
      refine ⟨l :: ls, ⟨htext ▸ hl, hls⟩, ?_, ?_⟩
      · rw [Lexeme.text_cons, hspelling, htext, printed_cons]
      · rw [List.mapM_cons, htoken, hread]
        rfl

theorem mem_of_mem_withoutHex {cs : List Char} {c : Char} (hc : c ∈ withoutHex cs) : c ∈ cs := by
  fun_induction withoutHex cs with
  | case1 => exact hc
  | case2 d cs digits hhex ih => exact List.mem_cons_of_mem _ (List.mem_of_mem_drop (ih hc))
  | case3 d cs hhex ih =>
      rcases List.mem_cons.mp hc with rfl | hc
      · exact List.mem_cons_self ..
      · exact List.mem_cons_of_mem _ (ih hc)

theorem disallowed_printed (ts : List Token) : disallowed (printed ts) = [] := by
  induction ts with
  | nil => exact disallowed.eq_1
  | cons t ts ih => rw [printed_cons, (spelling_text t).disallowed, ih]

theorem Legible.reads {ts : List Token} (h : Legible ts) : Reads (printed ts) ts where
  letters := by
    intro c hc
    obtain ⟨t, -, hct⟩ := List.mem_flatMap.mp (mem_of_mem_withoutHex hc)
    exact not_isHexLetter_of_mem_text hct
  characters := disallowed_printed ts
  tokens := by
    obtain ⟨ls, hls, htext, hread⟩ := h.exists_wellCut
    rw [← htext, hls.cut_text]
    exact ⟨_, hread, by simp⟩

/-! ### From tokens to print -/

/-- Below 2^32 the numeral in base ten is longer by two digits at most. -/
theorem length_toDigits_le {n : Nat} (h : n < UInt32.size) :
    (Nat.toDigits 10 n).length ≤ (Nat.toDigits 16 n).length + 2 := by
  have hlength : 0 < (Nat.toDigits 16 n).length := List.length_pos_of_ne_nil Nat.toDigits_ne_nil
  have hn : n < 16 ^ (Nat.toDigits 16 n).length :=
    (Nat.length_toDigits_le_iff (by decide) hlength).mp (Nat.le_refl _)
  rw [Nat.length_toDigits_le_iff (by decide) (Nat.add_pos_right _ (by decide))]
  generalize (Nat.toDigits 16 n).length = k at hn
  rcases Nat.lt_or_ge k 9 with hk | hk
  · have hpow : ∀ k < 9, 16 ^ k ≤ 10 ^ (k + 2) := by decide
    exact Nat.lt_of_lt_of_le hn (hpow k hk)
  · calc n < UInt32.size := h
      _ ≤ 10 ^ (9 + 2) := by decide
      _ ≤ 10 ^ (k + 2) := Nat.pow_le_pow_right (by decide) (Nat.add_le_add_right hk 2)

/-- No spelling of a token is shorter than its text. -/
theorem Spelling.length_text_le {t : Token} {piece : List Char} (h : Spelling t piece) :
    t.text.toList.length ≤ piece.length := by
  cases h with
  | @decimal n zeros =>
      rw [text_number, List.length_append]
      exact Nat.le_add_left ..
  | @hex n zeros digits h =>
      have hlength := congrArg List.length h
      rw [List.length_map, List.length_append] at hlength
      have hshort := length_toDigits_le n.toNat_lt
      rw [text_number, List.length_cons, List.length_cons]
      omega
  | x | leftParen | rightParen => exact Nat.le_refl _
  | @operator op piece h =>
      have hlength := congrArg List.length h
      rw [List.length_map] at hlength
      exact Nat.le_of_eq hlength.symm

theorem Fills.length_printed_le {passed : Char → Prop} {ts : List Token} {cs : List Char}
    (h : Fills passed ts cs) : (printed ts).length ≤ cs.length := by
  induction h with
  | nil => exact Nat.le_refl _
  | token hspelling hend hrest ih =>
      rw [printed_cons, List.length_append, List.length_append]
      exact Nat.add_le_add hspelling.length_text_le ih
  | comma hrest ih | angle hc hhead hrest ih | pass hc hrest ih => exact Nat.le_succ_of_le ih

/-- In what is printed there is room for the tokens and for nothing else, so each of them is spelled
by its text. -/
theorem Fills.legible {passed : Char → Prop} {ts : List Token} {cs : List Char}
    (h : Fills passed ts cs) (hcs : cs = printed ts) : Legible ts := by
  have no_room : ∀ {c : Char} {ts : List Token} {cs : List Char}, Fills passed ts cs →
      c :: cs ≠ printed ts := by
    intro c ts cs hrest hcs
    have hle := hrest.length_printed_le
    rw [← hcs] at hle
    exact Nat.not_succ_le_self _ hle
  induction h with
  | nil => exact ⟨by simp, by simp⟩
  | @token t ts piece cs hspelling hend hrest ih =>
      rw [printed_cons] at hcs
      have hlength : piece.length = t.text.toList.length := by
        have htotal := congrArg List.length hcs
        rw [List.length_append, List.length_append] at htotal
        have hpiece := hspelling.length_text_le
        have hcs := hrest.length_printed_le
        omega
      obtain ⟨rfl, rfl⟩ := List.append_inj hcs hlength
      exact (legible_cons_iff t ts).mpr ⟨hend, ih rfl⟩
  | comma hrest ih | angle hc hhead hrest ih | pass hc hrest ih => exact absurd hcs (no_room hrest)

theorem Reads.legible {ts : List Token} (h : Reads (printed ts) ts) : Legible ts := by
  obtain ⟨hletters, hcharacters, found, hfound, rfl⟩ := h
  obtain ⟨htext, hcut⟩ := Lexeme.cut_spec (printed (found.filterMap id))
  rw [disallowed_eq] at hcharacters
  have hfills : Fills (fun c => isHexLetter c) (found.filterMap id)
      (Lexeme.text (Lexeme.cut (printed (found.filterMap id)))) :=
    hcut.fills hcharacters (fun c _ hc => hc) hfound
  exact hfills.legible htext

/-! ### Printing and scanning -/

theorem strip_printed {ts : List Token} {s : String} (hs : Spaced (printed ts) s.toList) :
    strip s = printed ts :=
  hs.filter fun c hc => (plain_of_isWritten ((spelled_printed ts).isWritten c hc)).1

/-- Neighbours that are not both operands are legible. -/
theorem legible_of_isChain {ts : List Token} (h : ts.IsChain Apart) : Legible ts where
  numbers := by
    intro m n hi
    have hpair : [Token.number m, .number n].IsChain Apart := List.IsChain.infix h hi
    exact (List.isChain_cons_cons.mp hpair).1 ⟨rfl, rfl⟩
  literals := by
    intro n hi
    have htriple : [Token.number 0, .x, .number n].IsChain Apart := List.IsChain.infix h hi
    exact (List.isChain_cons_cons.mp htriple).1 ⟨rfl, rfl⟩

theorem apart_of_fits {a b : Token} (h : Fits a b) : Apart a b := by
  rintro ⟨ha, hb⟩
  have hends : a.ends := by
    cases a with
    | number | x => rfl
    | _ => cases ha
  have hopens : b.opens := by
    cases b with
    | number | x => rfl
    | _ => cases hb
  rw [Fits, hends, hopens] at h
  cases h

/-- A row of tokens is printed, with blanks anywhere, and scanned. It comes back exactly if it is
not empty and legible; no two operands are neighbours in an expression, so expressions come back. -/
theorem scan_printed (ts : List Token) (s : String) (hs : Spaced (printed ts) s.toList) :
    (scan s = .ok ts ↔ ts ≠ [] ∧ (∀ m n, ¬[.number m, .number n] <:+: ts) ∧
      ∀ n, ¬[.number 0, .x, .number n] <:+: ts) ∧
    (ts ≠ [] → ts.IsChain Apart → scan s = .ok ts) ∧
    (Grammar.Derives .expression ts → scan s = .ok ts) := by
  have hlegible : scan s = .ok ts ↔ Legible ts ∧ ts ≠ [] := by
    rw [scan, strip_printed hs, ofChars_eq_ok_iff]
    exact ⟨fun h => ⟨h.1.legible, h.2⟩, fun h => ⟨h.1.reads, h.2⟩⟩
  refine ⟨?_, fun hne hchain => hlegible.mpr ⟨legible_of_isChain hchain, hne⟩, fun h => ?_⟩
  · rw [hlegible]
    exact ⟨fun h => ⟨h.2, h.1.numbers, h.1.literals⟩, fun h => ⟨⟨h.2.1, h.2.2⟩, h.1⟩⟩
  · have hne : ts ≠ [] := by
      rintro rfl
      cases h.follows
    have hchain : ts.IsChain Apart := h.follows.isChain.imp fun _ _ => apart_of_fits
    exact hlegible.mpr ⟨legible_of_isChain hchain, hne⟩

/-- In print `5 rol x` is read back, blanks or none; `0 x 5` is read as the literal 0x5. -/
theorem scan_printed_rotation :
    (scan "5ROLx" = .ok [.number 5, .operator (.binary .rol), .x] ∧
      scan (row [.number 5, .operator (.binary .rol), .x]) =
        .ok [.number 5, .operator (.binary .rol), .x]) ∧
    (scan (row [.number 10, .x, .number 5]) = .ok [.number 10, .x, .number 5] ∧
      scan (row [.number 0, .x, .number 5]) ≠ .ok [.number 0, .x, .number 5]) := by
  have hderives : Grammar.Derives .expression [.number 5, .operator (.binary .rol), .x] :=
    .binary (.operand (.number 5)) (.operand .x)
  refine ⟨⟨?_, ?_⟩, ?_, ?_⟩
  · exact (scan_printed _ "5ROLx" (spaced_refl _)).2.2 hderives
  · exact (scan_printed _ _ (spaced_row _)).2.2 hderives
  · exact (scan_printed _ _ (spaced_row _)).1.mpr ⟨by simp, by simp [List.infix_cons_iff], by
      simp [List.infix_cons_iff]⟩
  · intro h
    exact ((scan_printed _ _ (spaced_row _)).1.mp h).2.2 5 (List.infix_refl _)

end Token

end OrbitImage
