import OrbitImage.Proofs.Equation.Expression
/-!
Infix notation. The binary operators stand on a ladder, group to the left, and yield to the
complement; parentheses stand where they are needed and wherever else one likes. Tokens that write
a tree in this way are put in the tree's post-order.
-/
namespace OrbitImage

/-- The binary operators by how tightly they bind, the loosest on the lowest rung. -/
def BinaryOp.ladder : List (List BinaryOp) :=
  [[.or], [.xor], [.and], [.shl, .shr, .rol, .ror], [.add, .sub], [.mul]]

theorem BinaryOp.precedence_of_rung {op : BinaryOp} {k : Nat} (h : op ∈ ladder.getD k []) :
    k < 6 ∧ op.precedence = k := by
  have rungs : ∀ k < 6, ∀ op ∈ ladder.getD k [], op.precedence = k := by decide
  by_cases hk : k < 6
  · exact ⟨hk, rungs k hk op h⟩
  · rw [List.getD_eq_getElem?_getD, List.getElem?_eq_none (Nat.not_lt.mp hk)] at h
    cases h

/-- The tokens write the tree, with every operator outside parentheses on rung `k` or above. The
right operand of a binary operator stands a rung higher, so equal operators group to the left. -/
inductive Infix : Nat → Expr → List Token → Prop
  | number {k n} : Infix k (.number n) [.number n]
  | x {k} : Infix k .x [.x]
  | complement {k e ts} : Infix BinaryOp.ladder.length e ts →
      Infix k (.complement e) (.operator .complement :: ts)
  | binary {k rung op l r ts us} : op ∈ BinaryOp.ladder.getD rung [] → k ≤ rung →
      Infix rung l ts → Infix (rung + 1) r us →
      Infix k (.binary op l r) (ts ++ .operator (.binary op) :: us)
  | paren {k e ts} : Infix 0 e ts → Infix k e (.leftParen :: (ts ++ [.rightParen]))

/-! ### Operators that wait -/

namespace Pending

/-- Operators on rung `k` or above release nothing from the stack. -/
def Quiet (k : Nat) (stack : List Pending) : Prop :=
  ∀ j, k ≤ j → j < 6 → release j stack = ([], stack)

theorem Quiet.mono {j k : Nat} {stack : List Pending} (h : Quiet j stack) (hjk : j ≤ k) :
    Quiet k stack :=
  fun i hi hi6 => h i (Nat.le_trans hjk hi) hi6

theorem quiet_nil (k : Nat) : Quiet k [] :=
  fun _ _ _ => rfl

theorem quiet_paren (k : Nat) (stack : List Pending) : Quiet k (paren :: stack) :=
  fun _ _ _ => rfl

theorem quiet_operator (op : Operator) {k : Nat} (h : op.precedence < k) (stack : List Pending) :
    Quiet k (operator op :: stack) :=
  fun _ hj _ => if_pos (Nat.lt_of_lt_of_le h hj)

/-- No binary operator binds tighter than what the complement stands above. -/
theorem quiet_top (stack : List Pending) : Quiet BinaryOp.ladder.length stack :=
  fun _ hj hj6 => absurd hj (Nat.not_le.mpr hj6)

theorem release_waiting {j : Nat} {waiting : List Operator} {stack : List Pending}
    (hw : ∀ op ∈ waiting, j ≤ op.precedence) (hs : release j stack = ([], stack)) :
    release j (waiting.map operator ++ stack) = (waiting.map Token.operator, stack) := by
  induction waiting with
  | nil => exact hs
  | cons op waiting ih =>
      obtain ⟨hop, hw⟩ := List.forall_mem_cons.mp hw
      simp only [List.map_cons, List.cons_append, release]
      rw [if_neg (Nat.not_lt.mpr hop), ih hw]

theorem close_waiting (waiting : List Operator) (stack : List Pending) :
    close (waiting.map operator ++ paren :: stack) =
      some (waiting.map Token.operator, stack) := by
  induction waiting with
  | nil => rfl
  | cons op waiting ih => simp [close, ih]

theorem flush_waiting (waiting : List Operator) :
    flush (waiting.map operator) = some (waiting.map Token.operator) := by
  induction waiting with
  | nil => rfl
  | cons op waiting ih => simp [flush, ih]

end Pending

/-! ### Infix order to post-order -/

/-- Read at a stack, the tokens emit `out` and leave the operators `waiting` on the stack, which
come from rung `k` or above. Together they are the listing of the tree. -/
structure Arranges (k : Nat) (e : Expr) (ts : List Token) (stack : List Pending)
    (out : List Token) (waiting : List Operator) : Prop where
  listing : out ++ waiting.map Token.operator = e.postorder
  rungs : ∀ op ∈ waiting, k ≤ op.precedence
  run : ∀ rest, Token.arrange (ts ++ rest) stack =
    (out ++ ·) <$> Token.arrange rest (waiting.map Pending.operator ++ stack)

namespace Infix

theorem exists_arranges {k : Nat} {e : Expr} {ts : List Token} (h : Infix k e ts) (hk : k ≤ 6)
    {stack : List Pending} (hq : Pending.Quiet k stack) :
    ∃ out waiting, Arranges k e ts stack out waiting := by
  induction h generalizing stack with
  | @number k n => exact ⟨[.number n], [], rfl, by simp, fun rest => rfl⟩
  | x => exact ⟨[.x], [], rfl, by simp, fun rest => rfl⟩
  | @complement k e ts h ih =>
      obtain ⟨out, waiting, listing, rungs, run⟩ := ih (Nat.le_refl 6)
        (Pending.quiet_top (.operator .complement :: stack))
      refine ⟨out, waiting ++ [.complement], ?_, ?_, fun rest => ?_⟩
      · simp [Expr.postorder, ← listing]
      · intro op hop
        rcases List.mem_append.mp hop with hop | hop
        · exact Nat.le_trans hk (rungs op hop)
        · rwa [List.mem_singleton.mp hop]
      · simp [Token.arrange, run]
  | @binary k rung op l r ts us hop hrung hl hr ihl ihr =>
      obtain ⟨h6, hprec⟩ := BinaryOp.precedence_of_rung hop
      obtain ⟨outl, wl, listingl, rungsl, runl⟩ := ihl (Nat.le_of_lt h6) (hq.mono hrung)
      obtain ⟨outr, wr, listingr, rungsr, runr⟩ := ihr h6
        (Pending.quiet_operator (.binary op) (hprec ▸ Nat.lt_succ_self _) stack)
      -- What waits from the left operand binds as tightly and goes out before this operator; what
      -- waits from the right one binds tighter and stays on top of it.
      refine ⟨outl ++ wl.map Token.operator ++ outr, wr ++ [.binary op], ?_, ?_, fun rest => ?_⟩
      · simp [Expr.postorder, ← listingl, ← listingr]
      · intro op' hop'
        rcases List.mem_append.mp hop' with hop' | hop'
        · have := rungsr op' hop'
          omega
        · rw [List.mem_singleton.mp hop']
          exact Nat.le_trans hrung (Nat.le_of_eq hprec.symm)
      · have hrelease := Pending.release_waiting rungsl (hq rung hrung h6)
        rw [List.append_assoc, runl, List.cons_append, Token.arrange, hprec, hrelease]
        simp [runr, Function.comp_def]
  | paren h ih =>
      obtain ⟨out, waiting, listing, -, run⟩ := ih (Nat.zero_le 6) (Pending.quiet_paren 0 stack)
      refine ⟨out ++ waiting.map Token.operator, [], by simpa using listing, by simp,
        fun rest => ?_⟩
      simp [Token.arrange, run, Pending.close_waiting, Function.comp_def]

/-- Tokens that write a tree are put in its post-order. -/
theorem toPostfix {e : Expr} {ts : List Token} (h : Infix 0 e ts) :
    Token.toPostfix ts = .ok e.postorder := by
  obtain ⟨out, waiting, listing, -, run⟩ := h.exists_arranges (Nat.zero_le 6) (Pending.quiet_nil 0)
  have hts : Token.arrange ts [] = some e.postorder := by
    have hend := run []
    rw [List.append_nil, List.append_nil, Token.arrange, Pending.flush_waiting] at hend
    rw [hend, ← listing]
    rfl
  rw [Token.toPostfix, hts]

theorem ne_nil {k : Nat} {e : Expr} {ts : List Token} (h : Infix k e ts) : ts ≠ [] := by
  cases h <;> simp

end Infix

end OrbitImage
