import OrbitImage.Proofs.Equation.Evaluation
import OrbitImage.Proofs.Equation.Infix
import OrbitImage.Proofs.Equation.Spelling
/-!
Compilation is correct. A rendering of an expression tree is any text that writes its tokens in
infix notation, with any spelling of each token and any blanks. Every rendering of a tree compiles
to the same program, the tree's post-order, unless the tree keeps too many operands pending.
-/
namespace OrbitImage

/-- The texts that write a tree. -/
def Expr.Rendering (e : Expr) (s : String) : Prop :=
  ∃ ts cs, Infix 0 e ts ∧ Token.Spelled ts cs ∧ Text.Spaced cs s.toList

namespace Token

theorem exists_spelling (t : Token) : ∃ piece, Spelling t piece := by
  cases t with
  | number n => exact ⟨_, .decimal 0⟩
  | x => exact ⟨_, .x⟩
  | operator op => exact ⟨_, spelling_symbol op⟩
  | leftParen => exact ⟨_, .leftParen⟩
  | rightParen => exact ⟨_, .rightParen⟩

theorem exists_spelled (ts : List Token) : ∃ cs, Spelled ts cs := by
  induction ts with
  | nil => exact ⟨_, .nil⟩
  | cons t ts ih =>
      obtain ⟨piece, hpiece⟩ := exists_spelling t
      obtain ⟨cs, hcs⟩ := ih
      exact ⟨_, .cons hpiece hcs⟩

theorem apart_of_left {a : Token} (h : a.isOperand = false) (b : Token) : Apart a b := by
  simp [Apart, h]

theorem apart_of_right (a : Token) {b : Token} (h : b.isOperand = false) : Apart a b := by
  simp [Apart, h]

end Token

namespace Infix

/-- With parentheses around every binary operator a tree can be written on any rung. -/
theorem exists_infix (e : Expr) (k : Nat) : ∃ ts, Infix k e ts := by
  induction e generalizing k with
  | number n => exact ⟨_, .number⟩
  | x => exact ⟨_, .x⟩
  | complement e ih =>
      obtain ⟨ts, hts⟩ := ih _
      exact ⟨_, .complement hts⟩
  | binary op l r ihl ihr =>
      obtain ⟨rung, hop⟩ : ∃ rung, op ∈ BinaryOp.ladder.getD rung [] :=
        ⟨op.precedence, by cases op <;> decide⟩
      obtain ⟨ts, hts⟩ := ihl rung
      obtain ⟨us, hus⟩ := ihr (rung + 1)
      exact ⟨_, .paren (.binary hop (Nat.zero_le rung) hts hus)⟩

/-- Between two operands there is an operator or a parenthesis. -/
theorem isChain_apart {k : Nat} {e : Expr} {ts : List Token} (h : Infix k e ts) :
    ts.IsChain Token.Apart := by
  induction h with
  | number => exact .singleton _
  | x => exact .singleton _
  | complement h ih => exact ih.cons fun t _ => Token.apart_of_left rfl t
  | binary hop hk hl hr ihl ihr =>
      refine ihl.append (ihr.cons fun t _ => Token.apart_of_left rfl t) fun t _ u hu => ?_
      obtain rfl := Option.some.inj hu
      exact Token.apart_of_right t rfl
  | paren h ih =>
      refine .cons (ih.append (.singleton _) fun t _ u hu => ?_) fun t _ => Token.apart_of_left rfl t
      obtain rfl := Option.some.inj hu
      exact Token.apart_of_right t rfl

end Infix

theorem Expr.exists_rendering (e : Expr) : ∃ s, e.Rendering s := by
  obtain ⟨ts, hts⟩ := Infix.exists_infix e 0
  obtain ⟨cs, hcs⟩ := Token.exists_spelled ts
  have hspaced : Text.Spaced cs (String.ofList cs).toList := by
    rw [String.toList_ofList]
    exact Text.spaced_refl cs
  exact ⟨_, ts, cs, hts, hcs, hspaced⟩

namespace Program

/-- A rendering of a tree is read as its post-order. -/
theorem compile_eq_ofPostfix {e : Expr} {s : String} (h : e.Rendering s) :
    compile s = ofPostfix e.postorder := by
  obtain ⟨ts, cs, hts, hcs, hs⟩ := h
  rw [compile, hcs.policyFault? hs]
  simp only
  rw [hcs.read hts.isChain_apart hts.ne_nil hs]
  change (Token.toPostfix ts >>= ofPostfix) = ofPostfix e.postorder
  rw [hts.toPostfix]
  rfl

/-- Every rendering of a tree whose operands fit compiles to the tree's post-order, which evaluates
to the tree's value; a tree whose operands do not fit is too deep in every rendering. -/
theorem compile_rendering (e : Expr) (s : String) (h : e.Rendering s) :
    (e.pending ≤ 64 → ∃ p, compile s = .ok p ∧ p.tokens = e.postorder ∧
      ∀ x, p.eval x = e.value x) ∧
    (64 < e.pending → compile s = .error .tooDeep) := by
  constructor
  · intro hfit
    refine ⟨ofExpr e hfit, ?_, rfl, fun x => eval_of_postorder rfl hfit x⟩
    rw [compile_eq_ofPostfix h]
    exact ofPostfix_eq_ok_iff.mpr rfl
  · intro hdeep
    rw [compile_eq_ofPostfix h]
    apply ofPostfix_eq_error
    have hcount := Token.pendingAfter_postorder e [] 0
    rwa [List.append_nil, Nat.zero_add, if_neg (Nat.not_le.mpr hdeep)] at hcount

/-- A tree that fits, with blanks inside a keyword and a number, and one that is too deep. -/
theorem compile_rendering_rotation_and_tower :
    let e : Expr := .binary .mul (.binary .rol .x (.number 7))
      (.complement (.binary .sub (.number 255) .x))
    let s := "( x r Ol\t007) *~((0 xFf - x) )"
    let tower : Expr := Nat.repeat (Expr.binary .sub .x) 64 .x
    (e.Rendering s ∧ ∃ p, compile s = .ok p ∧ p.tokens = e.postorder ∧
      ∀ x, p.eval x = e.value x) ∧
    ∃ t, tower.Rendering t ∧ compile t = .error .tooDeep := by
  intro e s tower
  have hleft : Infix 5 (.binary .rol .x (.number 7)) _ :=
    .paren (.binary (by decide : BinaryOp.rol ∈ BinaryOp.ladder.getD 3 []) (Nat.zero_le 3)
      .x .number)
  have hright : Infix 6 (.complement (.binary .sub (.number 255) .x)) _ :=
    .complement (.paren (.paren
      (.binary (by decide : BinaryOp.sub ∈ BinaryOp.ladder.getD 4 []) (Nat.zero_le 4)
        .number .x)))
  have hts : Infix 0 e _ :=
    .binary (by decide : BinaryOp.mul ∈ BinaryOp.ladder.getD 5 []) (Nat.zero_le 5) hleft hright
  have hrol : Token.Spelling (.operator (.binary .rol)) ['r', 'O', 'l'] := .operator rfl
  have h7 : Token.Spelling (.number 7) _ := .decimal 2
  have h255 : Token.Spelling (.number 255) ['0', 'x', 'F', 'f'] :=
    .hex (show ['F', 'f'].map Char.toLower = List.replicate 0 '0' ++ Nat.toDigits 16 255 from rfl)
  have hcs : Token.Spelled _ _ :=
    .cons .leftParen (.cons .x (.cons hrol (.cons h7 (.cons .rightParen
      (.cons (Token.spelling_symbol (.binary .mul)) (.cons (Token.spelling_symbol .complement)
      (.cons .leftParen (.cons .leftParen (.cons h255
      (.cons (Token.spelling_symbol (.binary .sub)) (.cons .x (.cons .rightParen
      (.cons .rightParen .nil)))))))))))))
  have hspaced := Text.spaced_filter s.toList
  rw [show s.toList.filter (!Text.isBlank ·) = "(xrOl007)*~((0xFf-x))".toList by decide] at hspaced
  have h : e.Rendering s := ⟨_, _, hts, hcs, hspaced⟩
  obtain ⟨t, ht⟩ := tower.exists_rendering
  exact ⟨⟨h, (compile_rendering e s h).1 (by decide)⟩,
    t, ht, (compile_rendering tower t ht).2 (by decide +kernel)⟩

end Program

end OrbitImage
