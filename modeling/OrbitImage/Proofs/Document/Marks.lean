import OrbitImage.Document.Json
import OrbitImage.Document.JsonReader
import OrbitImage.Proofs.Text.Numeral
/-!
From written JSON back to marks. A quoted text is read as the text, whatever its characters are; an
integer is read as the integer, if nothing behind it goes on a number; blanks are passed over.
-/
namespace OrbitImage

/-- The numeral of an integer. -/
def Numeral.ofInt (n : Int) : Numeral :=
  { negative := decide (n < 0), digits := n.natAbs, exponent := 0, whole := true }

namespace JsonMark
open Text

/-! ### Quoted texts -/

/-- The piece that a character is read as: controls without a letter of their own are given by
their number. -/
def pieceOf (c : Char) : Piece :=
  if c ∈ ['\n', '\r', '\t', '\x08', '\x0c'] then .char c
  else if c.toNat < 0x20 then .unit c.toNat
  else .char c

theorem hex_control {n : Nat} (h : n < 0x20) :
    ∃ a b c d, (hex 4 n).toList = [a, b, c, d] ∧ [a, b, c, d].all isHexDigit ∧
      valueIn 16 [a, b, c, d] = n := by
  let digit (k : Nat) : Char := Nat.digitChar ((n >>> (4 * k)) % 16)
  have hdigits : ∀ n < 0x20,
      let digit (k : Nat) : Char := Nat.digitChar ((n >>> (4 * k)) % 16)
      [digit 3, digit 2, digit 1, digit 0].all isHexDigit ∧
        valueIn 16 [digit 3, digit 2, digit 1, digit 0] = n := by
    decide
  refine ⟨digit 3, digit 2, digit 1, digit 0, ?_, hdigits n h⟩
  rw [hex, String.toList_ofList]
  rfl

/-- A character is written by a letter, by its number, or as it is. -/
inductive Escapes (c : Char) : List Char → Piece → Prop
  | letter {e} : unescape? e = some c → Escapes c ['\\', e] (.char c)
  | number : c.toNat < 0x20 → Escapes c ('\\' :: 'u' :: (hex 4 c.toNat).toList) (.unit c.toNat)
  | plain : c ≠ '"' → c ≠ '\\' → 0x20 ≤ c.toNat → Escapes c [c] (.char c)

theorem escapes (c : Char) : Escapes c (Json.escape c) (pieceOf c) := by
  unfold Json.escape
  -- Seven characters are written by a letter.
  iterate 7
    split
    · next h => subst h; exact .letter rfl
  rename_i hquote hbackslash hn hr ht hb hf
  have hother : c ∉ ['\n', '\r', '\t', '\x08', '\x0c'] := by simp [hn, hr, ht, hb, hf]
  rw [pieceOf, if_neg hother]
  split
  · next h => exact .number h
  · next h => exact .plain hquote hbackslash (Nat.not_lt.mp h)

theorem Escapes.quoted? {c : Char} {text : List Char} {piece : Piece} (h : Escapes c text piece)
    (cs : List Char) :
    quoted? (text ++ cs) = (quoted? cs).map fun (ps, rest) => (piece :: ps, rest) := by
  cases h with
  | @letter e he =>
      have hu : e ≠ 'u' := by
        rintro rfl
        cases he
      simp [JsonMark.quoted?, he, hu]
  | number hc =>
      obtain ⟨x, y, z, w, hhex, hdigits, hvalue⟩ := hex_control hc
      simp [JsonMark.quoted?, hhex, hdigits, hvalue]
  | plain hquote hbackslash hc =>
      rw [List.singleton_append, JsonMark.quoted?, if_neg (Nat.not_lt.mpr hc)]
      · exact hquote
      · exact fun _ _ _ _ _ h _ => hbackslash h
      · exact fun _ _ h _ => hbackslash h

theorem quoted?_flatMap_escape (s rest : List Char) :
    quoted? (s.flatMap Json.escape ++ '"' :: rest) = some (s.map pieceOf, rest) := by
  induction s with
  | nil => rfl
  | cons c s ih =>
      rw [List.flatMap_cons, List.append_assoc, (escapes c).quoted?, ih]
      rfl

/-- A number below those of the surrogates stands for its character. -/
theorem pair?_unit {u : Nat} (h : u < 0xD800) (ps : List Piece) :
    pair? (.unit u :: ps) = (pair? ps).map (Char.ofNat u :: ·) := by
  have hhigh : ¬(0xD800 ≤ u) := Nat.not_le.mpr h
  have hlow : ¬(0xDC00 ≤ u) := fun hu => hhigh (Nat.le_trans (by decide) hu)
  rcases ps with _ | ⟨c | v, ps⟩ <;> simp [pair?, hhigh, hlow]

theorem pair?_map_pieceOf (s : List Char) : pair? (s.map pieceOf) = some s := by
  induction s with
  | nil => rfl
  | cons c s ih =>
      rw [List.map_cons]
      have hpiece := escapes c
      generalize pieceOf c = piece, Json.escape c = text at hpiece
      cases hpiece with
      | letter | plain => simp [pair?, ih]
      | number hc => rw [pair?_unit (Nat.lt_trans hc (by decide)), ih, Char.ofNat_toNat]; rfl

theorem ofPieces_map_pieceOf (s : String) :
    ofPieces (s.toList.map pieceOf) = scalar (.text s) := by
  rw [ofPieces, pair?_map_pieceOf]
  simp

/-! ### Integers -/

/-- What may stand behind a number: nothing that would go on it. -/
def EndsNumber (rest : List Char) : Prop :=
  ∀ c ∈ rest.head?, c.isDigit = false ∧ c ∉ ['.', 'e', 'E']

theorem endsNumber_nil : EndsNumber [] := by
  rintro c ⟨⟩

theorem endsNumber_cons {c : Char} (hdigit : c.isDigit = false) (hother : c ∉ ['.', 'e', 'E'])
    (rest : List Char) : EndsNumber (c :: rest) := by
  rintro _ ⟨⟩
  exact ⟨hdigit, hother⟩

theorem takeWhile_digits {digits rest : List Char} (h : ∀ c ∈ digits, c.isDigit)
    (hrest : EndsNumber rest) : (digits ++ rest).takeWhile Char.isDigit = digits :=
  takeWhile_append h fun c hc => (hrest c hc).1

theorem dropWhile_digits {digits rest : List Char} (h : ∀ c ∈ digits, c.isDigit)
    (hrest : EndsNumber rest) : (digits ++ rest).dropWhile Char.isDigit = rest :=
  dropWhile_append h fun c hc => (hrest c hc).1

theorem head?_toDigits {n : Nat} (h : 0 < n) : (Nat.toDigits 10 n).head? ≠ some '0' := by
  induction n using Nat.base_induction 10 (by decide) with
  | single m hm =>
      have hdigits : ∀ m < 10, 0 < m → m.digitChar ≠ '0' := by decide
      rw [Nat.toDigits_of_lt_base hm]
      exact fun h0 => hdigits m hm h (Option.some.inj h0)
  | digit m k hk hm ih =>
      obtain ⟨d, ds, hds⟩ := List.exists_cons_of_ne_nil (Nat.toDigits_ne_nil (n := m) (b := 10))
      rw [← Nat.toDigits_append_toDigits (by decide) hm hk, hds]
      rw [hds] at ih
      exact ih hm

theorem integral?_toDigits (n : Nat) {rest : List Char} (hrest : EndsNumber rest) :
    integral? (Nat.toDigits 10 n ++ rest) = some (Nat.toDigits 10 n, rest) := by
  have hdigits : ∀ c ∈ Nat.toDigits 10 n, c.isDigit :=
    fun c => Nat.isDigit_of_mem_toDigits (by decide) (by decide)
  rcases Nat.eq_zero_or_pos n with rfl | hpos
  · cases rest with
    | nil => rfl
    | cons c rest => simp [integral?, (hrest c rfl).1]
  · obtain ⟨d, ds, hds⟩ := List.exists_cons_of_ne_nil (Nat.toDigits_ne_nil (n := n) (b := 10))
    have hd : d ≠ '0' := by
      rintro rfl
      exact head?_toDigits hpos (by rw [hds]; rfl)
    rw [hds] at hdigits ⊢
    rw [List.cons_append, integral?]
    · rw [← List.cons_append, takeWhile_digits hdigits hrest, dropWhile_digits hdigits hrest]
    · exact fun cs h => hd (List.cons.inj h).1

theorem fraction?_of_ends {rest : List Char} (h : EndsNumber rest) :
    fraction? rest = some ([], rest) := by
  cases rest with
  | nil => rfl
  | cons c rest =>
      have hc : c ≠ '.' := by
        rintro rfl
        exact absurd (h '.' rfl).2 (by decide)
      simp [fraction?, hc]

theorem exponent?_of_ends {rest : List Char} (h : EndsNumber rest) :
    exponent? rest = some (none, rest) := by
  cases rest with
  | nil => rfl
  | cons c rest =>
      have hc : ¬(c = 'e' ∨ c = 'E') := by
        rintro (rfl | rfl)
        · exact absurd (h 'e' rfl).2 (by decide)
        · exact absurd (h 'E' rfl).2 (by decide)
      simp [exponent?, hc]

theorem toList_toString (n : Int) :
    (toString n).toList = (if n < 0 then ['-'] else []) ++ Nat.toDigits 10 n.natAbs := by
  cases n with
  | ofNat n => exact Nat.toList_repr
  | negSucc n =>
      rw [if_pos (Int.negSucc_lt_zero n)]
      change ("-" ++ n.succ.repr).toList = _
      rw [String.toList_append, Nat.toList_repr]
      rfl

/-- The number of a row of digits, behind a minus or not. -/
theorem number?_digits (negative : Bool) (n : Nat) {rest : List Char} (hrest : EndsNumber rest) :
    number? ((if negative then ['-'] else []) ++ (Nat.toDigits 10 n ++ rest)) =
      some ({ negative, digits := n, exponent := 0, whole := !(negative && n = 0) }, rest) := by
  have hvalue : valueIn 10 (Nat.toDigits 10 n) = n :=
    valueIn_toDigits (by decide) (by decide) n
  have hintegral := integral?_toDigits n hrest
  cases negative with
  | true =>
      simp [number?, hintegral, fraction?_of_ends hrest, exponent?_of_ends hrest, hvalue]
  | false =>
      obtain ⟨d, ds, hds⟩ := List.exists_cons_of_ne_nil (Nat.toDigits_ne_nil (n := n) (b := 10))
      have hd : d ≠ '-' := by
        rintro rfl
        exact absurd (Nat.isDigit_of_mem_toDigits (by decide) (by decide)
          (show '-' ∈ Nat.toDigits 10 n by simp [hds])) (by decide)
      rw [hds, List.cons_append] at hintegral
      rw [hds] at hvalue
      simp [number?, hds, hd, hintegral, fraction?_of_ends hrest, exponent?_of_ends hrest, hvalue]

theorem number?_toString (n : Int) {rest : List Char} (hrest : EndsNumber rest) :
    number? ((toString n).toList ++ rest) = some (Numeral.ofInt n, rest) := by
  have hsign := number?_digits (decide (n < 0)) n.natAbs hrest
  rw [toList_toString, List.append_assoc, Numeral.ofInt]
  simp only [decide_eq_true_eq] at hsign
  rw [hsign]
  have hwhole : (!(decide (n < 0) && decide (n.natAbs = 0))) = true := by
    simp only [Bool.not_eq_true', Bool.and_eq_false_iff, decide_eq_false_iff_not]
    omega
  rw [hwhole]

/-! ### Texts and their marks -/

/-- The text is cut into the marks, whatever bound on its length is given. -/
def CutsInto (cs : List Char) (ms : List JsonMark) : Prop :=
  ∀ length, cs.length ≤ length → marks length cs = ms

theorem cutsInto_nil : CutsInto [] [] := by
  intro length _
  cases length <;> rfl

namespace CutsInto

variable {cs rest : List Char} {ms : List JsonMark}

theorem blank (h : CutsInto cs ms) {c : Char} (hc : isBlank c) : CutsInto (c :: cs) ms := by
  intro length hlength
  cases length with
  | zero => cases hlength
  | succ length =>
      rw [marks, if_pos hc]
      exact h length (Nat.le_of_succ_le_succ hlength)

theorem newline (h : CutsInto cs ms) (depth : Nat) : CutsInto (Json.newline depth ++ cs) ms := by
  have hspaces : ∀ n, CutsInto (List.replicate n ' ' ++ cs) ms := by
    intro n
    induction n with
    | zero => exact h
    | succ n ih => exact ih.blank (by decide)
  exact (hspaces (2 * depth)).blank (by decide)

theorem mark (h : CutsInto rest ms) {c : Char} {m : JsonMark} (hc : isBlank c = false)
    (hfirst : first c cs = (m, rest)) (hrest : rest.length ≤ cs.length) :
    CutsInto (c :: cs) (m :: ms) := by
  intro length hlength
  cases length with
  | zero => cases hlength
  | succ length =>
      rw [marks, hc, if_neg Bool.false_ne_true, hfirst]
      exact congrArg (m :: ·) (h length (Nat.le_trans hrest (Nat.le_of_succ_le_succ hlength)))

/-- The characters that are marks by themselves. -/
inductive Sign : Char → JsonMark → Prop
  | openList : Sign '[' .openList
  | closeList : Sign ']' .closeList
  | openMap : Sign '{' .openMap
  | closeMap : Sign '}' .closeMap
  | comma : Sign ',' .comma
  | colon : Sign ':' .colon

theorem sign (h : CutsInto cs ms) {c : Char} {m : JsonMark} (hc : Sign c m) :
    CutsInto (c :: cs) (m :: ms) := by
  cases hc <;> exact h.mark rfl rfl (Nat.le_refl _)

theorem null (h : CutsInto cs ms) : CutsInto ("null".toList ++ cs) (scalar .null :: ms) :=
  h.mark rfl rfl (by simp; omega)

theorem bool (h : CutsInto cs ms) (b : Bool) :
    CutsInto ((Json.bool b).compact ++ cs) (scalar (.bool b) :: ms) := by
  cases b with
  | false => exact h.mark rfl rfl (by simp; omega)
  | true => exact h.mark rfl rfl (by simp; omega)

theorem quoted (h : CutsInto cs ms) (s : String) :
    CutsInto (Json.quoted s ++ cs) (scalar (.text s) :: ms) := by
  have hquoted := quoted?_flatMap_escape s.toList cs
  rw [Json.quoted, List.cons_append, List.append_assoc]
  refine h.mark rfl ?_ (by simp; omega)
  simp only [first, List.singleton_append, hquoted, ofPieces_map_pieceOf]

end CutsInto

theorem first_of_number {c : Char} (hc : c = '-' ∨ c.isDigit) (cs : List Char) :
    first c cs = match number? (c :: cs) with
      | some (n, rest) => (scalar (.number n), rest)
      | none => (broken, []) := by
  unfold first
  split
  all_goals first
    | rfl
    | exact absurd hc (by decide)

theorem exists_toString (n : Int) :
    ∃ c text, (toString n).toList = c :: text ∧ (c = '-' ∨ c.isDigit) := by
  rw [toList_toString]
  split
  · exact ⟨'-', _, rfl, .inl rfl⟩
  · obtain ⟨d, ds, hds⟩ :=
      List.exists_cons_of_ne_nil (Nat.toDigits_ne_nil (n := n.natAbs) (b := 10))
    refine ⟨d, ds, hds, .inr (Nat.isDigit_of_mem_toDigits (b := 10) (n := n.natAbs) ?_ ?_ ?_)⟩
    · decide
    · decide
    · simp [hds]

theorem CutsInto.int {cs : List Char} {ms : List JsonMark} (h : CutsInto cs ms)
    (hcs : EndsNumber cs) (n : Int) :
    CutsInto ((toString n).toList ++ cs) (scalar (.number (.ofInt n)) :: ms) := by
  have hnumber := number?_toString n hcs
  obtain ⟨c, text, htext, hc⟩ := exists_toString n
  have hblank : isBlank c = false := by
    by_contra hblank
    simp only [isBlank, Bool.not_eq_false, Bool.or_eq_true, decide_eq_true_eq] at hblank
    rcases hblank with ((rfl | rfl) | rfl) | rfl <;> exact absurd hc (by decide)
  rw [htext, List.cons_append] at hnumber
  rw [htext, List.cons_append]
  refine h.mark hblank ?_ (by simp)
  rw [first_of_number hc, hnumber]

end JsonMark

end OrbitImage
