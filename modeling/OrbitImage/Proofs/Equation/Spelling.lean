import Mathlib.Data.List.Chain
import Mathlib.Data.List.SplitBy
import OrbitImage.Equation.Program
import OrbitImage.Proofs.Text.Numeral
/-!
Spellings of tokens. A number is written in decimal or, behind 0x, in hexadecimal with digits in
either case, and zeros may lead; a keyword is written in any letter case. A row of tokens in which
no two operands are neighbours is read back from every way of writing it, whatever blanks are
scattered over it.
-/
namespace OrbitImage
open Text

namespace Token

inductive Spelling : Token → List Char → Prop
  | decimal {n : UInt32} (zeros : Nat) :
      Spelling (.number n) (List.replicate zeros '0' ++ Nat.toDigits 10 n.toNat)
  | hex {n : UInt32} {zeros : Nat} {digits : List Char} :
      digits.map Char.toLower = List.replicate zeros '0' ++ Nat.toDigits 16 n.toNat →
      Spelling (.number n) ('0' :: 'x' :: digits)
  | x : Spelling .x ['x']
  | operator {op : Operator} {cs : List Char} :
      cs.map Char.toUpper = op.symbol.toList → Spelling (.operator op) cs
  | leftParen : Spelling .leftParen ['(']
  | rightParen : Spelling .rightParen [')']

/-- Spellings of tokens, one after the other. -/
inductive Spelled : List Token → List Char → Prop
  | nil : Spelled [] []
  | cons {t ts piece cs} : Spelling t piece → Spelled ts cs → Spelled (t :: ts) (piece ++ cs)

def isOperand : Token → Bool
  | number _ => true
  | x => true
  | _ => false

/-- Not both are operands. -/
def Apart (a b : Token) : Prop :=
  ¬(a.isOperand ∧ b.isOperand)

end Token

/-- Blanks are put anywhere into a text. -/
inductive Text.Spaced : List Char → List Char → Prop
  | nil : Spaced [] []
  | blank {c cs ds} : isBlank c → Spaced cs ds → Spaced cs (c :: ds)
  | keep {c cs ds} : Spaced cs ds → Spaced (c :: cs) (c :: ds)

theorem Text.spaced_filter (ds : List Char) : Spaced (ds.filter (!isBlank ·)) ds := by
  induction ds with
  | nil => exact .nil
  | cons d ds ih =>
      by_cases hd : isBlank d
      · simpa [hd] using Spaced.blank hd ih
      · simpa [hd] using Spaced.keep ih

theorem Text.spaced_refl (cs : List Char) : Spaced cs cs := by
  induction cs with
  | nil => exact .nil
  | cons c cs ih => exact .keep ih

theorem Text.Spaced.filter {cs ds : List Char} (h : Spaced cs ds)
    (hcs : ∀ c ∈ cs, isBlank c = false) : ds.filter (!isBlank ·) = cs := by
  induction h with
  | nil => rfl
  | blank hc h ih => simp [hc, ih hcs]
  | keep h ih =>
      obtain ⟨hc, hcs⟩ := List.forall_mem_cons.mp hcs
      simp [hc, ih hcs]

theorem Text.Spaced.mem {cs ds : List Char} (h : Spaced cs ds) {d : Char} (hd : d ∈ ds) :
    isBlank d ∨ d ∈ cs := by
  induction h with
  | nil => cases hd
  | blank hc h ih =>
      rcases List.mem_cons.mp hd with rfl | hd
      · exact .inl hc
      · exact ih hd
  | keep h ih =>
      rcases List.mem_cons.mp hd with rfl | hd
      · exact .inr (List.mem_cons_self ..)
      · exact (ih hd).imp_right (List.mem_cons_of_mem _)

/-! ### Characters of equations -/

/-- What holds of all operators is checked operator by operator. -/
theorem Operator.forall_of_all {P : Operator → Prop} (h : ∀ op ∈ Operator.all, P op)
    (op : Operator) : P op := by
  apply h
  rcases op with _ | op
  · decide
  · cases op <;> decide

namespace Token

/-- An operator can be spelled as its symbol. -/
theorem spelling_symbol (op : Operator) : Spelling (.operator op) op.symbol.toList :=
  .operator (Operator.forall_of_all
    (P := fun op => op.symbol.toList.map Char.toUpper = op.symbol.toList) (by decide) op)

theorem lt_of_isAllowed {c : Char} (h : isAllowed c) : c.toNat < 128 := by
  rcases Bool.or_eq_true_iff.mp h with h | h
  · exact lt_of_isHexDigit h
  · have marks : ∀ c ∈ ['x', '+', '-', '*', '^', '&', '|', '~', '(', ')', '<', '>', ','],
        c.toNat < 128 := forall_mem_of_all (by decide)
    exact marks c (List.contains_iff_mem.mp h)

theorem isAllowed_of_isHexDigit {c : Char} (h : isHexDigit c) : isAllowed c := by
  simp [isAllowed, h]

theorem isHexDigit_of_isDigit {c : Char} (h : c.isDigit) : isHexDigit c := by
  simp [isHexDigit, h]

theorem not_isHexLetter_of_isDigit {c : Char} (h : c.isDigit) : isHexLetter c = false :=
  ascii_cases (P := fun c => c.isDigit → isHexLetter c = false) (by decide)
    (lt_of_isHexDigit (isHexDigit_of_isDigit h)) h

/-- The characters of the operators, keywords in upper case. -/
def operatorChars : List Char :=
  Operator.all.flatMap (·.symbol.toList)

theorem lt_of_operatorChar {c : Char} (h : c.toUpper ∈ operatorChars) : c.toNat < 128 := by
  have marks : ∀ d ∈ operatorChars, d.toNat < 128 ∧ d.toLower.toNat < 128 :=
    forall_mem_of_all (by decide)
  rcases eq_or_eq_toLower_toUpper c with hc | hc
  · rw [hc]
    exact (marks _ h).1
  · rw [hc]
    exact (marks _ h).2

/-- No operator starts or goes on like an operand. -/
theorem operatorChar_ends_operand {c : Char} (h : c.toUpper ∈ operatorChars) :
    isHexDigit c = false ∧ c ≠ 'x' :=
  ascii_cases (P := fun c => c.toUpper ∈ operatorChars → isHexDigit c = false ∧ c ≠ 'x')
    (by decide) (lt_of_operatorChar h) h

/-- Characters of an equation: those allowed by themselves, and those of operators in any case. -/
def IsWritten (c : Char) : Prop :=
  isAllowed c ∨ c.toUpper ∈ operatorChars

instance (c : Char) : Decidable (IsWritten c) :=
  inferInstanceAs (Decidable (_ ∨ _))

theorem lt_of_isWritten {c : Char} (h : IsWritten c) : c.toNat < 128 :=
  h.elim lt_of_isAllowed lt_of_operatorChar

theorem plain_of_isWritten {c : Char} (h : IsWritten c) :
    isBlank c = false ∧ c ≠ '/' ∧ c ≠ '%' ∧ c ≠ '.' :=
  ascii_cases (P := fun c => IsWritten c → isBlank c = false ∧ c ≠ '/' ∧ c ≠ '%' ∧ c ≠ '.')
    (by decide) (lt_of_isWritten h) h

theorem toUpper_ne_of_isAllowed {c : Char} (h : isAllowed c) : c.toUpper ≠ 'R' :=
  ascii_cases (P := fun c => isAllowed c → c.toUpper ≠ 'R') (by decide) (lt_of_isAllowed h) h

end Token

/-! ### Lexemes of single pieces -/

namespace Lexeme

/-- What follows a number cannot be taken for more of it. -/
def Fresh (rest : List Char) : Prop :=
  ∀ c ∈ rest.head?, isHexDigit c = false ∧ c ≠ 'x'

theorem rotation?_of_ne {c : Char} (h : c.toUpper ≠ 'R') (cs : List Char) :
    rotation? (c :: cs) = none := by
  unfold rotation?
  split
  · simp_all
  · simp_all
  · rfl

theorem hexDigits?_of_ne {c : Char} (h : c ≠ '0') (cs : List Char) :
    hexDigits? (c :: cs) = none := by
  unfold hexDigits?
  split <;> simp_all

theorem hexDigits?_of_second (c : Char) {cs : List Char} (h : ∀ d ∈ cs.head?, d ≠ 'x') :
    hexDigits? (c :: cs) = none := by
  unfold hexDigits?
  split <;> simp_all

theorem hexDigits?_append {digits rest : List Char} (h : ∀ c ∈ digits, isHexDigit c)
    (hne : digits ≠ []) (hr : Fresh rest) :
    hexDigits? ('0' :: 'x' :: (digits ++ rest)) = some digits := by
  simp only [hexDigits?]
  rw [takeWhile_append h fun c hc => (hr c hc).1]
  cases digits with
  | nil => exact absurd rfl hne
  | cons d ds => rfl

theorem cut_of_first {c : Char} {piece rest : List Char} {l : Lexeme}
    (h : first c (piece ++ rest) = l) (hs : l.spelling = c :: piece) :
    cut (c :: piece ++ rest) = l :: cut rest := by
  rw [List.cons_append, cut, h, hs]
  simp

theorem toUpper_ne_of_isDigit {c : Char} (h : c.isDigit) : c.toUpper ≠ 'R' :=
  Token.toUpper_ne_of_isAllowed (Token.isAllowed_of_isHexDigit (Token.isHexDigit_of_isDigit h))

/-- A second digit, or what follows the only one, is no x. -/
theorem second_ne_x {ds rest : List Char} (h : ∀ d ∈ ds, d.isDigit) (hr : Fresh rest) :
    ∀ d ∈ (ds ++ rest).head?, d ≠ 'x' := by
  cases ds with
  | nil => exact fun d hd => (hr d hd).2
  | cons c ds =>
      intro d hd
      obtain rfl : c = d := by simpa using hd
      rintro rfl
      exact absurd (h 'x' (List.mem_cons_self ..)) (by decide)

theorem cut_decimal {c : Char} {ds rest : List Char} (h : ∀ d ∈ c :: ds, d.isDigit)
    (hr : Fresh rest) : cut (c :: ds ++ rest) = decimal (c :: ds) :: cut rest := by
  obtain ⟨hc, hds⟩ := List.forall_mem_cons.mp h
  refine cut_of_first ?_ rfl
  have hrest : ∀ d ∈ rest.head?, d.isDigit = false := by
    intro d hd
    have := (hr d hd).1
    simp_all [isHexDigit]
  unfold first
  rw [rotation?_of_ne (toUpper_ne_of_isDigit hc), hexDigits?_of_second c (second_ne_x hds hr)]
  simp only [hc, if_true]
  rw [takeWhile_append hds hrest]

theorem cut_hex {digits rest : List Char} (h : ∀ c ∈ digits, isHexDigit c) (hne : digits ≠ [])
    (hr : Fresh rest) :
    cut ('0' :: 'x' :: digits ++ rest) = hex digits :: cut rest := by
  refine cut_of_first ?_ rfl
  unfold first
  rw [rotation?_of_ne (by decide)]
  have := hexDigits?_append h hne hr
  simp only [List.cons_append]
  rw [this]

theorem literal_of_value {base : Nat} {digits spelling : List Char} {n : UInt32}
    (h : valueIn base digits = n.toNat) : literal base digits spelling = .ok (.number n) := by
  rw [literal]
  simp only [h]
  rw [if_pos n.toNat_lt]
  simp

theorem rotation?_append {cs : List Char} {op : BinaryOp}
    (h : cs.map Char.toUpper = op.symbol.toList) (hop : op = .rol ∨ op = .ror)
    (rest : List Char) : cs.length = 3 ∧ rotation? (cs ++ rest) = some op := by
  have hlen : cs.length = 3 := by
    have := congrArg List.length h
    rw [List.length_map] at this
    rcases hop with rfl | rfl <;> exact this
  refine ⟨hlen, ?_⟩
  rw [rotation?, List.take_left' hlen, h]
  rcases hop with rfl | rfl <;> rfl

theorem cut_rotation {cs : List Char} {op : BinaryOp}
    (h : cs.map Char.toUpper = op.symbol.toList) (hop : op = .rol ∨ op = .ror)
    (rest : List Char) : cut (cs ++ rest) = rotation op cs :: cut rest := by
  obtain ⟨hlen, hrot⟩ := rotation?_append h hop rest
  cases cs with
  | nil => cases hlen
  | cons c piece =>
      refine cut_of_first ?_ rfl
      unfold first
      rw [← List.cons_append, hrot]
      simp only [List.take_left' hlen]

end Lexeme

namespace Token

/-- The decimal numeral of a number behind zeros is a row of digits with its value. -/
theorem decimal_digits (n : UInt32) (zeros : Nat) :
    ∃ c ds, List.replicate zeros '0' ++ Nat.toDigits 10 n.toNat = c :: ds ∧
      (∀ d ∈ c :: ds, d.isDigit) ∧ valueIn 10 (c :: ds) = n.toNat := by
  have hne : List.replicate zeros '0' ++ Nat.toDigits 10 n.toNat ≠ [] := by
    simp [Nat.toDigits_ne_nil]
  obtain ⟨c, ds, hcs⟩ := List.exists_cons_of_ne_nil hne
  refine ⟨c, ds, hcs, fun d hd => ?_, ?_⟩
  · rcases List.mem_append.mp (hcs ▸ hd) with h0 | hd
    · exact (List.mem_replicate.mp h0).2 ▸ by decide
    · exact Nat.isDigit_of_mem_toDigits (by decide) (by decide) hd
  · rw [← hcs, valueIn_zeros_append, valueIn_toDigits (by decide) (by decide)]

/-- So is the hexadecimal numeral, in either letter case. -/
theorem hex_digits {n : UInt32} {zeros : Nat} {digits : List Char}
    (h : digits.map Char.toLower = List.replicate zeros '0' ++ Nat.toDigits 16 n.toNat) :
    digits ≠ [] ∧ (∀ c ∈ digits, isHexDigit c) ∧ valueIn 16 digits = n.toNat := by
  have hdigits : ∀ c ∈ digits, isHexDigit c := by
    intro c hc
    apply isHexDigit_of_toLower
    rcases List.mem_append.mp (h ▸ List.mem_map_of_mem (f := Char.toLower) hc) with h0 | hd
    · exact (List.mem_replicate.mp h0).2 ▸ by decide
    · exact isHexDigit_of_mem_toDigits hd
  refine ⟨?_, hdigits, ?_⟩
  · rintro rfl
    simp [Nat.toDigits_ne_nil] at h
  · rw [← valueIn_map_toLower hdigits, h, valueIn_zeros_append,
      valueIn_toDigits (by decide) (by decide)]

/-- An operator is spelled as its symbol, or it is a keyword. -/
theorem operator_cases {op : Operator} {cs : List Char}
    (h : cs.map Char.toUpper = op.symbol.toList) :
    (cs = op.symbol.toList ∧ ∀ c ∈ op.symbol.toList, isAllowed c) ∨
      ∃ rot, op = .binary rot ∧ (rot = .rol ∨ rot = .ror) := by
  cases op with
  | complement => exact .inl ⟨eq_of_map_toUpper h (forall_mem_of_all (by decide)),
      forall_mem_of_all (by decide)⟩
  | binary op =>
      cases op
      case rol => exact .inr ⟨_, rfl, .inl rfl⟩
      case ror => exact .inr ⟨_, rfl, .inr rfl⟩
      all_goals exact .inl ⟨eq_of_map_toUpper h (forall_mem_of_all (by decide)),
        forall_mem_of_all (by decide)⟩

theorem operatorChar_of_mem {op : Operator} {cs : List Char}
    (h : cs.map Char.toUpper = op.symbol.toList) {c : Char} (hc : c ∈ cs) :
    c.toUpper ∈ operatorChars := by
  have hall := Operator.forall_of_all (fun _ h => h) op
  exact List.mem_flatMap.mpr ⟨op, hall, h ▸ List.mem_map_of_mem hc⟩

theorem cut_symbol (op : Operator) (rest : List Char) :
    ∃ l, Lexeme.cut (op.symbol.toList ++ rest) = l :: Lexeme.cut rest ∧
      l.token? = .ok (some (.operator op)) := by
  rcases op with _ | op
  · exact ⟨.single '~', Lexeme.cut_of_first rfl rfl, rfl⟩
  · cases op with
    | shl => exact ⟨.shift .shl '<', Lexeme.cut_of_first rfl rfl, rfl⟩
    | shr => exact ⟨.shift .shr '>', Lexeme.cut_of_first rfl rfl, rfl⟩
    | rol => exact ⟨.rotation .rol _, Lexeme.cut_rotation rfl (.inl rfl) rest, rfl⟩
    | ror => exact ⟨.rotation .ror _, Lexeme.cut_rotation rfl (.inr rfl) rest, rfl⟩
    | add => exact ⟨.single '+', Lexeme.cut_of_first rfl rfl, rfl⟩
    | sub => exact ⟨.single '-', Lexeme.cut_of_first rfl rfl, rfl⟩
    | mul => exact ⟨.single '*', Lexeme.cut_of_first rfl rfl, rfl⟩
    | and => exact ⟨.single '&', Lexeme.cut_of_first rfl rfl, rfl⟩
    | or => exact ⟨.single '|', Lexeme.cut_of_first rfl rfl, rfl⟩
    | xor => exact ⟨.single '^', Lexeme.cut_of_first rfl rfl, rfl⟩

namespace Spelling

theorem cut {t : Token} {piece rest : List Char} (h : Spelling t piece)
    (hr : t.isOperand → Lexeme.Fresh rest) :
    ∃ l, Lexeme.cut (piece ++ rest) = l :: Lexeme.cut rest ∧ l.token? = .ok (some t) := by
  cases h with
  | @decimal n zeros =>
      obtain ⟨c, ds, hcs, hdigits, hv⟩ := decimal_digits n zeros
      rw [hcs]
      refine ⟨.decimal (c :: ds), Lexeme.cut_decimal hdigits (hr rfl), ?_⟩
      rw [Lexeme.token?, Lexeme.literal_of_value hv]
      rfl
  | @hex n zeros digits h =>
      obtain ⟨hne, hdigits, hv⟩ := hex_digits h
      refine ⟨.hex digits, Lexeme.cut_hex hdigits hne (hr rfl), ?_⟩
      rw [Lexeme.token?, Lexeme.literal_of_value hv]
      rfl
  | x => exact ⟨.single 'x', Lexeme.cut_of_first rfl rfl, rfl⟩
  | leftParen => exact ⟨.single '(', Lexeme.cut_of_first rfl rfl, rfl⟩
  | rightParen => exact ⟨.single ')', Lexeme.cut_of_first rfl rfl, rfl⟩
  | @operator op cs h =>
      rcases operator_cases h with ⟨rfl, -⟩ | ⟨rot, rfl, hrot⟩
      · exact cut_symbol op rest
      · exact ⟨.rotation rot piece, Lexeme.cut_rotation h hrot rest, rfl⟩

end Spelling

/-! ### The two checks -/

theorem withoutHex_append {piece : List Char} (h : ∀ c ∈ piece, c ≠ '0') (rest : List Char) :
    withoutHex (piece ++ rest) = piece ++ withoutHex rest := by
  induction piece with
  | nil => rfl
  | cons c piece ih =>
      obtain ⟨hc, h⟩ := List.forall_mem_cons.mp h
      rw [List.cons_append, withoutHex, Lexeme.hexDigits?_of_ne hc]
      simp only [ih h, List.cons_append]

theorem withoutHex_digits {ds rest : List Char} (h : ∀ d ∈ ds, d.isDigit)
    (hr : Lexeme.Fresh rest) : withoutHex (ds ++ rest) = ds ++ withoutHex rest := by
  induction ds with
  | nil => rfl
  | cons d ds ih =>
      obtain ⟨-, h⟩ := List.forall_mem_cons.mp h
      rw [List.cons_append, withoutHex, Lexeme.hexDigits?_of_second d (Lexeme.second_ne_x h hr)]
      simp only [ih h, List.cons_append]

theorem withoutHex_hex {digits rest : List Char} (h : ∀ c ∈ digits, isHexDigit c)
    (hne : digits ≠ []) (hr : Lexeme.Fresh rest) :
    withoutHex ('0' :: 'x' :: digits ++ rest) = withoutHex rest := by
  simp only [List.cons_append]
  rw [withoutHex, Lexeme.hexDigits?_append h hne hr]
  simp only [List.drop_succ_cons, List.drop_left]

theorem disallowed_append {piece : List Char} (h : ∀ c ∈ piece, isAllowed c) (rest : List Char) :
    disallowed (piece ++ rest) = disallowed rest := by
  induction piece with
  | nil => rfl
  | cons c piece ih =>
      obtain ⟨hc, h⟩ := List.forall_mem_cons.mp h
      rw [List.cons_append, disallowed, Lexeme.rotation?_of_ne (toUpper_ne_of_isAllowed hc)]
      simp only [hc, if_true, ih h]

theorem disallowed_rotation {cs : List Char} {op : BinaryOp}
    (h : cs.map Char.toUpper = op.symbol.toList) (hop : op = .rol ∨ op = .ror)
    (rest : List Char) : disallowed (cs ++ rest) = disallowed rest := by
  obtain ⟨hlen, hrot⟩ := Lexeme.rotation?_append h hop rest
  match cs with
  | [] => cases hlen
  | c :: cs =>
      rw [List.cons_append] at hrot ⊢
      rw [disallowed, hrot]
      simp only
      rw [List.drop_left' (Nat.succ.inj hlen)]

theorem letterRuns_eq_nil {cs : List Char} (h : ∀ c ∈ cs, isHexLetter c = false) :
    letterRuns cs = [] := by
  rw [letterRuns, List.filter_eq_nil_iff]
  intro run hrun hall
  obtain ⟨c, run', rfl⟩ := List.exists_cons_of_ne_nil (List.ne_nil_of_mem_splitBy hrun)
  have hc : c ∈ cs := by
    rw [← List.flatten_splitBy (fun a b => isHexLetter a == isHexLetter b) cs]
    exact List.mem_flatten_of_mem hrun (List.mem_cons_self ..)
  simp [h c hc] at hall

namespace Spelling

theorem withoutHex {t : Token} {piece rest : List Char} (h : Spelling t piece)
    (hr : t.isOperand → Lexeme.Fresh rest) :
    ∃ kept, Token.withoutHex (piece ++ rest) = kept ++ Token.withoutHex rest ∧
      ∀ c ∈ kept, isHexLetter c = false := by
  cases h with
  | @decimal n zeros =>
      obtain ⟨c, ds, hcs, hdigits, -⟩ := decimal_digits n zeros
      rw [hcs]
      exact ⟨_, withoutHex_digits hdigits (hr rfl),
        fun d hd => not_isHexLetter_of_isDigit (hdigits d hd)⟩
  | @hex n zeros digits h =>
      obtain ⟨hne, hdigits, -⟩ := hex_digits h
      exact ⟨[], withoutHex_hex hdigits hne (hr rfl), by simp⟩
  | x => exact
      ⟨['x'], withoutHex_append (forall_mem_of_all (by decide)) rest, forall_mem_of_all (by decide)⟩
  | leftParen => exact
      ⟨['('], withoutHex_append (forall_mem_of_all (by decide)) rest, forall_mem_of_all (by decide)⟩
  | rightParen => exact
      ⟨[')'], withoutHex_append (forall_mem_of_all (by decide)) rest, forall_mem_of_all (by decide)⟩
  | operator h =>
      have plain : ∀ c ∈ piece, isHexDigit c = false := fun c hc =>
        (operatorChar_ends_operand (operatorChar_of_mem h hc)).1
      refine ⟨piece, withoutHex_append ?_ rest, ?_⟩
      · rintro c hc rfl
        exact absurd (plain _ hc) (by decide)
      · intro c hc
        have := plain c hc
        simp_all [isHexDigit]

/-- All characters of a spelling are allowed by themselves, or it is a keyword. -/
theorem allowed_or_keyword {t : Token} {piece : List Char} (h : Spelling t piece) :
    (∀ c ∈ piece, isAllowed c) ∨
      ∃ rot : BinaryOp, piece.map Char.toUpper = rot.symbol.toList ∧ (rot = .rol ∨ rot = .ror) := by
  cases h with
  | @decimal n zeros =>
      obtain ⟨c, ds, hcs, hdigits, -⟩ := decimal_digits n zeros
      rw [hcs]
      exact .inl fun d hd => isAllowed_of_isHexDigit (isHexDigit_of_isDigit (hdigits d hd))
  | @hex n zeros digits h =>
      obtain ⟨-, hdigits, -⟩ := hex_digits h
      left
      intro c hc
      rcases List.mem_cons.mp hc with rfl | hc
      · decide
      · rcases List.mem_cons.mp hc with rfl | hc
        · decide
        · exact isAllowed_of_isHexDigit (hdigits c hc)
  | x => exact .inl (forall_mem_of_all (by decide))
  | leftParen => exact .inl (forall_mem_of_all (by decide))
  | rightParen => exact .inl (forall_mem_of_all (by decide))
  | operator h =>
      rcases operator_cases h with ⟨rfl, hall⟩ | ⟨rot, rfl, hrot⟩
      · exact .inl hall
      · exact .inr ⟨rot, h, hrot⟩

theorem disallowed {t : Token} {piece : List Char} (h : Spelling t piece) (rest : List Char) :
    Token.disallowed (piece ++ rest) = Token.disallowed rest := by
  rcases h.allowed_or_keyword with hall | ⟨rot, hrot, hop⟩
  · exact disallowed_append hall rest
  · exact disallowed_rotation hrot hop rest

theorem isWritten {t : Token} {piece : List Char} (h : Spelling t piece) :
    ∀ c ∈ piece, IsWritten c := by
  intro c hc
  rcases h.allowed_or_keyword with hall | ⟨rot, hrot, -⟩
  · exact .inl (hall c hc)
  · have hsymbol : piece.map Char.toUpper = (Operator.binary rot).symbol.toList := hrot
    exact .inr (operatorChar_of_mem hsymbol hc)

end Spelling

/-! ### Rows of tokens -/

theorem Spelling.head {t : Token} {piece : List Char} (h : Spelling t piece)
    (ht : t.isOperand = false) : ∀ c ∈ piece.head?, isHexDigit c = false ∧ c ≠ 'x' := by
  cases h with
  | decimal => cases ht
  | hex => cases ht
  | x => cases ht
  | leftParen =>
      rintro c ⟨⟩
      decide
  | rightParen =>
      rintro c ⟨⟩
      decide
  | operator h =>
      exact fun c hc => operatorChar_ends_operand (operatorChar_of_mem h (List.mem_of_mem_head? hc))

theorem Spelling.ne_nil {t : Token} {piece : List Char} (h : Spelling t piece) : piece ≠ [] := by
  cases h with
  | @operator op cs h =>
      rintro rfl
      exact Operator.forall_of_all (P := fun op => [] ≠ op.symbol.toList) (by decide) op h
  | _ => simp [Nat.toDigits_ne_nil]

namespace Spelled

/-- What is written behind an operand does not go on with it. -/
theorem fresh {t : Token} {ts : List Token} {cs : List Char} (h : Spelled ts cs)
    (hts : (t :: ts).IsChain Apart) (ht : t.isOperand) : Lexeme.Fresh cs := by
  cases h with
  | nil => exact fun c hc => by cases hc
  | @cons u us piece cs hpiece h =>
      have hu : u.isOperand = false :=
        Bool.eq_false_iff.mpr fun hu => (List.isChain_cons_cons.mp hts).1 ⟨ht, hu⟩
      rw [Lexeme.Fresh, List.head?_append_of_ne_nil piece hpiece.ne_nil]
      exact hpiece.head hu

theorem checks {ts : List Token} {cs : List Char} (h : Spelled ts cs) (hts : ts.IsChain Apart) :
    (Lexeme.cut cs).mapM Lexeme.token? = .ok (ts.map some) ∧
      (∀ c ∈ Token.withoutHex cs, isHexLetter c = false) ∧ Token.disallowed cs = [] := by
  induction h with
  | nil => exact ⟨by rw [Lexeme.cut]; rfl, by rw [Token.withoutHex]; simp, by rw [Token.disallowed]⟩
  | @cons t ts piece cs hpiece h ih =>
      have hr : t.isOperand → Lexeme.Fresh cs := fun ht => h.fresh hts ht
      obtain ⟨hmap, hletters, hdisallowed⟩ := ih hts.tail
      obtain ⟨l, hcut, htoken⟩ := hpiece.cut hr
      obtain ⟨kept, hkept, hplain⟩ := hpiece.withoutHex hr
      refine ⟨?_, ?_, ?_⟩
      · rw [hcut, List.mapM_cons, htoken, hmap]
        rfl
      · intro c hc
        rw [hkept] at hc
        exact (List.mem_append.mp hc).elim (hplain c) (hletters c)
      · rw [hpiece.disallowed, hdisallowed]

theorem ofChars {ts : List Token} {cs : List Char} (h : Spelled ts cs)
    (hts : ts.IsChain Apart) (hne : ts ≠ []) : Token.ofChars cs = .ok ts := by
  obtain ⟨hcut, hletters, hdisallowed⟩ := h.checks hts
  have hstray : strayLetters cs = [] := by
    rw [strayLetters, letterRuns_eq_nil hletters]
    rfl
  have hempty : ts.isEmpty = false := by simpa using hne
  simp [Token.ofChars, hstray, hdisallowed, hcut, hempty, bind, Except.bind, pure, Except.pure]

theorem isWritten {ts : List Token} {cs : List Char} (h : Spelled ts cs) :
    ∀ c ∈ cs, IsWritten c := by
  induction h with
  | nil => simp
  | cons hpiece h ih =>
      intro c hc
      exact (List.mem_append.mp hc).elim (hpiece.isWritten c) (ih c)

/-- A row of tokens is read back from its spelling, whatever blanks are put into it. -/
theorem read {ts : List Token} {cs : List Char} {s : String} (h : Spelled ts cs)
    (hts : ts.IsChain Apart) (hne : ts ≠ []) (hs : Spaced cs s.toList) :
    Token.scan s = .ok ts := by
  have hstrip : strip s = cs := hs.filter fun c hc => (plain_of_isWritten (h.isWritten c hc)).1
  rw [Token.scan, hstrip]
  exact h.ofChars hts hne

/-- Nothing that is refused outright occurs in it. -/
theorem policyFault? {ts : List Token} {cs : List Char} {s : String} (h : Spelled ts cs)
    (hs : Spaced cs s.toList) : Program.policyFault? s = none := by
  have hblank : ∀ c ∈ ['/', '%', '.'], isBlank c = false ∧ ¬IsWritten c :=
    forall_mem_of_all (by decide)
  have habsent : ∀ c ∈ ['/', '%', '.'], c ∉ s.toList := by
    intro c hc hmem
    obtain ⟨hb, hw⟩ := hblank c hc
    rcases hs.mem hmem with h' | h'
    · rw [hb] at h'
      cases h'
    · exact hw (h.isWritten c h')
  simp at habsent
  simp [Program.policyFault?, habsent]

end Spelled

end Token

end OrbitImage
