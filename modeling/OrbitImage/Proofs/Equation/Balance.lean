import OrbitImage.Proofs.Equation.Evaluation
import OrbitImage.Proofs.Equation.Infix
import OrbitImage.Proofs.Equation.Scanning
/-!
Postfix order keeps every token but the parentheses. The conversion fails exactly where parentheses
do not match; otherwise its output is the input without parentheses in another order, with the
operands in their old order. So no parenthesis reaches a program, and no equation ends in an
internal fault.
-/
namespace OrbitImage

/-! ### Balanced tokens -/

namespace Token

/-- The tokens close `depth` parentheses that are open before them, and all that they open. -/
def Balanced : Nat → List Token → Prop
  | depth, [] => depth = 0
  | depth, number _ :: ts => Balanced depth ts
  | depth, x :: ts => Balanced depth ts
  | depth, operator _ :: ts => Balanced depth ts
  | depth, leftParen :: ts => Balanced (depth + 1) ts
  | 0, rightParen :: _ => False
  | depth + 1, rightParen :: ts => Balanced depth ts

theorem forall_prefix_cons {P : List Token → Prop} {t : Token} {ts : List Token} :
    (∀ us, us <+: t :: ts → P us) ↔ P [] ∧ ∀ us, us <+: ts → P (t :: us) := by
  constructor
  · intro h
    exact ⟨h [] List.nil_prefix, fun us hus => h (t :: us) (List.cons_prefix_cons.mpr ⟨rfl, hus⟩)⟩
  · rintro ⟨hnil, hcons⟩ us hus
    rcases List.prefix_cons_iff.mp hus with rfl | ⟨vs, rfl, hvs⟩
    · exact hnil
    · exact hcons vs hvs

/-- Balance by counting: no prefix closes more than is open, and in the end nothing is. -/
theorem balanced_iff (depth : Nat) (ts : List Token) :
    Balanced depth ts ↔
      (∀ us, us <+: ts → us.count rightParen ≤ depth + us.count leftParen) ∧
        depth + ts.count leftParen = ts.count rightParen := by
  induction ts generalizing depth with
  | nil => simp [Balanced]
  | cons t ts ih =>
      rw [forall_prefix_cons]
      cases t with
      | number n => simp [Balanced, ih]
      | x => simp [Balanced, ih]
      | operator op => simp [Balanced, ih]
      | leftParen => simp [Balanced, ih, Nat.add_assoc, Nat.add_comm 1]
      | rightParen =>
          cases depth with
          | zero =>
              simp only [Balanced, false_iff, not_and]
              intro h
              have := h.2 [] List.nil_prefix
              simp at this
          | succ depth => simp [Balanced, ih, Nat.add_right_comm]

end Token

/-! ### What the stack gives back -/

namespace Pending

/-- The open parentheses on a stack. -/
def depth (stack : List Pending) : Nat :=
  stack.count paren

def token? : Pending → Option Token
  | operator op => some (.operator op)
  | paren => none

/-- The operators on a stack, from the top. -/
def waiting (stack : List Pending) : List Token :=
  stack.filterMap token?

@[simp] theorem depth_operator (op : Operator) (stack : List Pending) :
    depth (operator op :: stack) = depth stack := by
  simp [depth]

@[simp] theorem depth_paren (stack : List Pending) : depth (paren :: stack) = depth stack + 1 := by
  simp [depth]

@[simp] theorem depth_operators (ops : List Operator) (stack : List Pending) :
    depth (ops.map operator ++ stack) = depth stack := by
  induction ops with
  | nil => rfl
  | cons op ops ih => simp [ih]

@[simp] theorem depth_map_operator (ops : List Operator) : depth (ops.map operator) = 0 := by
  simpa [depth] using depth_operators ops []

@[simp] theorem waiting_operator (op : Operator) (stack : List Pending) :
    waiting (operator op :: stack) = .operator op :: waiting stack := rfl

@[simp] theorem waiting_paren (stack : List Pending) : waiting (paren :: stack) = waiting stack :=
  rfl

@[simp] theorem waiting_operators (ops : List Operator) (stack : List Pending) :
    waiting (ops.map operator ++ stack) = ops.map Token.operator ++ waiting stack := by
  induction ops with
  | nil => rfl
  | cons op ops ih => simp [ih]

@[simp] theorem waiting_map_operator (ops : List Operator) :
    waiting (ops.map operator) = ops.map Token.operator := by
  simpa [waiting] using waiting_operators ops []

/-- A stack is a row of operators, with or without an open parenthesis below it. -/
theorem exists_top (stack : List Pending) :
    ∃ ops : List Operator, stack = ops.map operator ∨
      ∃ left, stack = ops.map operator ++ paren :: left := by
  induction stack with
  | nil => exact ⟨[], .inl rfl⟩
  | cons p stack ih =>
      cases p with
      | paren => exact ⟨[], .inr ⟨stack, rfl⟩⟩
      | operator op =>
          obtain ⟨ops, rfl | ⟨left, rfl⟩⟩ := ih
          · exact ⟨op :: ops, .inl rfl⟩
          · exact ⟨op :: ops, .inr ⟨left, rfl⟩⟩

theorem close_operators (ops : List Operator) : close (ops.map operator) = none := by
  induction ops with
  | nil => rfl
  | cons op ops ih => simp [close, ih]

theorem flush_paren (ops : List Operator) (left : List Pending) :
    flush (ops.map operator ++ paren :: left) = none := by
  induction ops with
  | nil => rfl
  | cons op ops ih => simp [flush, ih]

theorem exists_release (k : Nat) (stack : List Pending) :
    ∃ (ops : List Operator) (left : List Pending),
      release k stack = (ops.map Token.operator, left) ∧ stack = ops.map operator ++ left := by
  induction stack with
  | nil => exact ⟨[], [], rfl, rfl⟩
  | cons p stack ih =>
      cases p with
      | paren => exact ⟨[], _, rfl, rfl⟩
      | operator op =>
          by_cases h : op.precedence < k
          · exact ⟨[], _, if_pos h, rfl⟩
          · obtain ⟨ops, left, hrelease, rfl⟩ := ih
            refine ⟨op :: ops, left, ?_, rfl⟩
            simp only [release]
            rw [if_neg h, hrelease]
            rfl

end Pending

namespace Token

/-! ### The conversion -/

def isParen : Token → Bool
  | leftParen => true
  | rightParen => true
  | _ => false

/-- What comes out: all tokens that go in but parentheses, and what was waiting; the operands come
out in the order in which they went in. -/
structure Conserves (ts waiting out : List Token) : Prop where
  perm : out.Perm (ts.filter (!·.isParen) ++ waiting)
  operands : out.filter isOperand = ts.filter isOperand

theorem filter_isOperand_operators (ops : List Operator) :
    (ops.map operator).filter isOperand = [] := by
  induction ops with
  | nil => rfl
  | cons op ops ih => exact ih

theorem Conserves.operand {t : Token} {ts waiting out : List Token} (h : Conserves ts waiting out)
    (ht : t.isOperand) : Conserves (t :: ts) waiting (t :: out) := by
  have hparen : t.isParen = false := by
    cases t with
    | leftParen | rightParen => cases ht
    | _ => rfl
  constructor
  · simpa [hparen] using h.perm
  · simp [ht, h.operands]

theorem Conserves.paren {t : Token} {ts waiting out : List Token} (h : Conserves ts waiting out)
    (ht : t.isParen) : Conserves (t :: ts) waiting out := by
  have hoperand : t.isOperand = false := by
    cases t with
    | number n | x => cases ht
    | _ => rfl
  constructor
  · simpa [ht] using h.perm
  · simp [hoperand, h.operands]

/-- An operator that is read waits. -/
theorem Conserves.wait {op : Operator} {ts waiting out : List Token}
    (h : Conserves ts (operator op :: waiting) out) :
    Conserves (operator op :: ts) waiting out :=
  ⟨h.perm.trans List.perm_middle, h.operands⟩

/-- Operators that leave the stack come out. -/
theorem Conserves.release {ts waiting out : List Token} (h : Conserves ts waiting out)
    (ops : List Operator) :
    Conserves ts (ops.map operator ++ waiting) (ops.map operator ++ out) := by
  constructor
  · refine (h.perm.append_left _).trans ?_
    rw [← List.append_assoc, ← List.append_assoc]
    exact List.perm_append_comm.append_right waiting
  · rw [List.filter_append, filter_isOperand_operators, h.operands, List.nil_append]

theorem Conserves.flush (ops : List Operator) :
    Conserves [] (ops.map operator) (ops.map operator) :=
  ⟨.refl _, filter_isOperand_operators ops⟩

/-- If parentheses match, the conversion goes through and conserves the tokens. -/
theorem exists_arrange {ts : List Token} (stack : List Pending)
    (h : Balanced (Pending.depth stack) ts) :
    ∃ out, arrange ts stack = some out ∧ Conserves ts (Pending.waiting stack) out := by
  induction ts generalizing stack with
  | nil =>
      obtain ⟨ops, rfl | ⟨left, rfl⟩⟩ := Pending.exists_top stack
      · refine ⟨_, Pending.flush_waiting ops, ?_⟩
        rw [Pending.waiting_map_operator]
        exact .flush ops
      · simp [Balanced] at h
  | cons t ts ih =>
      cases t with
      | number n | x =>
          obtain ⟨out, hout, hconserves⟩ := ih stack h
          refine ⟨_, ?_, hconserves.operand rfl⟩
          rw [arrange, hout]
          rfl
      | leftParen =>
          rw [Balanced, ← Pending.depth_paren] at h
          obtain ⟨out, hout, hconserves⟩ := ih _ h
          exact ⟨out, hout, hconserves.paren rfl⟩
      | rightParen =>
          obtain ⟨ops, rfl | ⟨left, rfl⟩⟩ := Pending.exists_top stack
          · rw [Pending.depth_map_operator] at h
            exact h.elim
          · rw [Pending.depth_operators, Pending.depth_paren, Balanced] at h
            obtain ⟨out, hout, hconserves⟩ := ih _ h
            rw [Pending.waiting_operators, Pending.waiting_paren]
            refine ⟨ops.map operator ++ out, ?_, (hconserves.release ops).paren rfl⟩
            rw [arrange, Pending.close_waiting]
            simp only [hout]
            rfl
      | operator op =>
          cases op with
          | complement =>
              rw [Balanced, ← Pending.depth_operator .complement] at h
              obtain ⟨out, hout, hconserves⟩ := ih _ h
              exact ⟨out, hout, hconserves.wait⟩
          | binary op =>
              obtain ⟨ops, left, hrelease, rfl⟩ := Pending.exists_release op.precedence stack
              rw [Balanced, Pending.depth_operators, ← Pending.depth_operator (.binary op)] at h
              obtain ⟨out, hout, hconserves⟩ := ih _ h
              refine ⟨ops.map operator ++ out, ?_, ?_⟩
              · simp only [arrange, hrelease, hout]
                rfl
              · rw [Pending.waiting_operators]
                exact hconserves.wait.release ops

/-- If they do not match, it fails. -/
theorem arrange_eq_none {ts : List Token} (stack : List Pending)
    (h : ¬Balanced (Pending.depth stack) ts) : arrange ts stack = none := by
  induction ts generalizing stack with
  | nil =>
      obtain ⟨ops, rfl | ⟨left, rfl⟩⟩ := Pending.exists_top stack
      · exact absurd (Pending.depth_map_operator ops) h
      · exact Pending.flush_paren ops left
  | cons t ts ih =>
      cases t with
      | number n | x =>
          rw [arrange, ih _ h]
          rfl
      | leftParen =>
          rw [Balanced, ← Pending.depth_paren] at h
          exact ih _ h
      | rightParen =>
          obtain ⟨ops, rfl | ⟨left, rfl⟩⟩ := Pending.exists_top stack
          · rw [arrange, Pending.close_operators]
          · rw [Pending.depth_operators, Pending.depth_paren, Balanced] at h
            rw [arrange, Pending.close_waiting]
            simp only [ih _ h]
            rfl
      | operator op =>
          cases op with
          | complement =>
              rw [Balanced, ← Pending.depth_operator .complement] at h
              exact ih _ h
          | binary op =>
              obtain ⟨ops, left, hrelease, rfl⟩ := Pending.exists_release op.precedence stack
              rw [Balanced, Pending.depth_operators, ← Pending.depth_operator (.binary op)] at h
              simp only [arrange, hrelease, ih _ h]
              rfl

theorem toPostfix_eq_ok {ts out : List Token} (h : toPostfix ts = .ok out) :
    Balanced 0 ts ∧ Conserves ts [] out := by
  rw [toPostfix] at h
  by_cases hts : Balanced 0 ts
  · obtain ⟨out', hout, hconserves⟩ := exists_arrange [] hts
    rw [hout] at h
    cases h
    exact ⟨hts, hconserves⟩
  · rw [arrange_eq_none [] hts] at h
    cases h

theorem toPostfix_eq_error_iff {ts : List Token} {fault : EquationFault} :
    toPostfix ts = .error fault ↔ ¬Balanced 0 ts ∧ fault = .unbalanced := by
  rw [toPostfix]
  by_cases hts : Balanced 0 ts
  · obtain ⟨out, hout, -⟩ := exists_arrange [] hts
    simp [hout, hts]
  · rw [arrange_eq_none [] hts]
    simp [hts, eq_comm]

theorem isParen_of_mem {ts out : List Token} (h : Conserves ts [] out) {t : Token} (ht : t ∈ out) :
    t.isParen = false := by
  have hmem := h.perm.mem_iff.mp ht
  rw [List.append_nil, List.mem_filter] at hmem
  simpa using hmem.2

/-! ### Faults of programs -/

/-- The tokens are counted one by one. -/
theorem pendingAfter_cons (t : Token) (ts : List Token) (n : Nat) :
    pendingAfter (t :: ts) n = pendingAfter [t] n >>= pendingAfter ts := by
  cases t with
  | leftParen | rightParen => rfl
  | number k | x =>
      rw [pendingAfter, pendingAfter]
      split <;> rfl
  | operator op =>
      cases op with
      | complement | binary op =>
          rw [pendingAfter, pendingAfter]
          split <;> rfl

/-- A token that is no parenthesis is counted, or it is a fault of grammar. -/
theorem kind_of_pendingAfter_singleton {t : Token} {n : Nat} {fault : EquationFault}
    (ht : t.isParen = false) (h : pendingAfter [t] n = .error fault) : fault.kind = .grammar := by
  cases t with
  | leftParen | rightParen => cases ht
  | number k | x =>
      rw [pendingAfter] at h
      split at h
      · cases h
      · cases h
        rfl
  | operator op =>
      cases op with
      | complement | binary op =>
          rw [pendingAfter] at h
          split at h
          · cases h
          · cases h
            rfl

/-- Without parentheses the count of operands finds faults of grammar only. -/
theorem kind_of_pendingAfter {ts : List Token} {n : Nat} {fault : EquationFault}
    (hts : ∀ t ∈ ts, t.isParen = false) (h : pendingAfter ts n = .error fault) :
    fault.kind = .grammar := by
  induction ts generalizing n with
  | nil => cases h
  | cons t ts ih =>
      obtain ⟨ht, hrest⟩ := List.forall_mem_cons.mp hts
      rw [pendingAfter_cons] at h
      cases hone : pendingAfter [t] n with
      | error cause =>
          rw [hone] at h
          cases h
          exact kind_of_pendingAfter_singleton ht hone
      | ok k =>
          rw [hone] at h
          exact ih hrest h

end Token

namespace Program

theorem kind_of_ofPostfix {ts : List Token} {fault : EquationFault}
    (hts : ∀ t ∈ ts, t.isParen = false) (h : ofPostfix ts = .error fault) :
    fault.kind = .grammar := by
  unfold ofPostfix at h
  split at h
  · cases h
    exact Token.kind_of_pendingAfter hts (by assumption)
  · cases h
    rfl
  · cases h
  · cases h
    rfl

theorem kind_of_policyFault? {s : String} {fault : EquationFault}
    (h : policyFault? s = some fault) : fault.kind = .policy := by
  unfold policyFault? at h
  simp only at h
  split at h
  · cases h
    rfl
  · split at h
    · cases h
      rfl
    · cases h

theorem compile_of_scan {s : String} {ts : List Token} (hpolicy : policyFault? s = none)
    (hscan : Token.scan s = .ok ts) : compile s = Token.toPostfix ts >>= ofPostfix := by
  rw [compile, hpolicy, hscan]
  rfl

theorem compile_eq_ok_iff {s : String} {p : Program} :
    compile s = .ok p ↔ policyFault? s = none ∧
      ∃ ts, Token.scan s = .ok ts ∧ Token.toPostfix ts = .ok p.tokens := by
  constructor
  · intro h
    cases hpolicy : policyFault? s with
    | some fault =>
        rw [compile, hpolicy] at h
        cases h
    | none =>
        cases hscan : Token.scan s with
        | error fault =>
            rw [compile, hpolicy, hscan] at h
            cases h
        | ok ts =>
            rw [compile_of_scan hpolicy hscan] at h
            cases hpost : Token.toPostfix ts with
            | error fault =>
                rw [hpost] at h
                cases h
            | ok out =>
                rw [hpost] at h
                exact ⟨rfl, ts, rfl, by rw [hpost, ofPostfix_eq_ok_iff.mp h]⟩
  · rintro ⟨hpolicy, ts, hscan, hpost⟩
    rw [compile_of_scan hpolicy hscan, hpost]
    exact ofPostfix_eq_ok_iff.mpr rfl

/-- Tokens can only be wrong in their order or their number. -/
theorem kind_of_compile_of_scan {s : String} {ts : List Token} {fault : EquationFault}
    (hpolicy : policyFault? s = none) (hscan : Token.scan s = .ok ts)
    (h : compile s = .error fault) : fault.kind = .grammar := by
  rw [compile_of_scan hpolicy hscan] at h
  cases hpost : Token.toPostfix ts with
  | error cause =>
      rw [hpost] at h
      cases h
      rw [(Token.toPostfix_eq_error_iff.mp hpost).2]
      rfl
  | ok out =>
      rw [hpost] at h
      have hconserves := (Token.toPostfix_eq_ok hpost).2
      exact kind_of_ofPostfix (fun t ht => Token.isParen_of_mem hconserves ht) h

theorem kind_of_compile {s : String} {fault : EquationFault} (h : compile s = .error fault) :
    fault.kind = .policy ∨ fault.kind = .lexical ∨ fault.kind = .grammar := by
  cases hpolicy : policyFault? s with
  | some cause =>
      rw [compile, hpolicy] at h
      cases h
      exact .inl (kind_of_policyFault? hpolicy)
  | none =>
      right
      cases hscan : Token.scan s with
      | error cause =>
          rw [compile, hpolicy, hscan] at h
          cases h
          exact Token.kind_of_ofChars hscan
      | ok ts => exact .inr (kind_of_compile_of_scan hpolicy hscan h)

end Program

/-- The conversion fails, and with the fault of parentheses, exactly if some prefix closes more than
it opens or the numbers differ. What comes out is the input without parentheses in another order,
with the operands in their old one. No equation ends in an internal fault. -/
theorem Token.toPostfix_conserves (ts : List Token) :
    ((∃ fault, Token.toPostfix ts = .error fault) ↔
      (∃ us, us <+: ts ∧ us.count .leftParen < us.count .rightParen) ∨
        ts.count .leftParen ≠ ts.count .rightParen) ∧
    (∀ fault, Token.toPostfix ts = .error fault → fault = .unbalanced) ∧
    (∀ out, Token.toPostfix ts = .ok out →
      (∀ t ∈ out, t ≠ .leftParen ∧ t ≠ .rightParen) ∧
      out.Perm (ts.filter fun t => t ≠ .leftParen ∧ t ≠ .rightParen) ∧
      out.filter Token.isOperand = ts.filter Token.isOperand) ∧
    ∀ s fault, Program.compile s = .error fault →
      fault.kind = .policy ∨ fault.kind = .lexical ∨ fault.kind = .grammar := by
  have hplain : ∀ t : Token, t.isParen = false ↔ t ≠ .leftParen ∧ t ≠ .rightParen := by
    intro t
    cases t <;> simp [isParen]
  refine ⟨?_, ?_, ?_, fun s fault h => Program.kind_of_compile h⟩
  · have herror : (∃ fault, toPostfix ts = .error fault) ↔ ¬Balanced 0 ts := by
      simp [toPostfix_eq_error_iff]
    rw [herror, balanced_iff, not_and_or]
    simp
  · exact fun fault h => (toPostfix_eq_error_iff.mp h).2
  · intro out h
    obtain ⟨-, hconserves⟩ := toPostfix_eq_ok h
    refine ⟨fun t ht => (hplain t).mp (isParen_of_mem hconserves ht), ?_, hconserves.operands⟩
    have hfilter : ts.filter (!·.isParen) = ts.filter fun t => t ≠ .leftParen ∧ t ≠ .rightParen :=
      List.filter_congr fun t _ => by simp [← hplain t]
    have hperm := hconserves.perm
    rwa [List.append_nil, hfilter] at hperm

/-- An operator that stands alone between its operands' parentheses is kept as well. -/
theorem Token.toPostfix_conserves_lone_operator :
    let ts := [Token.x, .leftParen, .operator (.binary .add), .rightParen, .number 1]
    ∃ out, Token.toPostfix ts = .ok out ∧
      out.Perm [.x, .operator (.binary .add), .number 1] ∧
      out.filter Token.isOperand = [.x, .number 1] := by
  intro ts
  have hout : Token.toPostfix ts = .ok [.x, .operator (.binary .add), .number 1] := rfl
  obtain ⟨-, hperm, hoperands⟩ := (toPostfix_conserves ts).2.2.1 _ hout
  exact ⟨_, hout, hperm, hoperands⟩

end OrbitImage
