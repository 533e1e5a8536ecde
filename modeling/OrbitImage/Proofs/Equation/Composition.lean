import OrbitImage.Proofs.Equation.Balance
/-!
Compilation is compositional. Whatever text is accepted can be put into parentheses and used as an
operand. The parentheses keep it apart from its surroundings at each stage: no lexeme and no literal
goes on into a closing parenthesis, and the tokens between parentheses are brought into order as by
themselves, whatever waits on the stack below. The most operands that the parts keep pending decide
whether the whole fits.
-/
namespace OrbitImage
open Text

/-! ### Stacks above a parenthesis -/

namespace Pending

variable {stack : List Pending}

theorem release_append_paren {k : Nat} {out : List Token} {left : List Pending}
    (h : release k stack = (out, left)) (base : List Pending) :
    release k (stack ++ paren :: base) = (out, left ++ paren :: base) := by
  induction stack generalizing out with
  | nil =>
      cases h
      rfl
  | cons p stack ih =>
      cases p with
      | paren =>
          cases h
          rfl
      | operator op =>
          rw [List.cons_append, release]
          rw [release] at h
          split at h
          case isTrue hlt =>
            cases h
            rw [if_pos hlt]
            rfl
          case isFalse hle =>
            cases hrest : release k stack with
            | mk out' left' =>
                rw [hrest] at h
                cases h
                rw [if_neg hle, ih hrest]

theorem close_append {out : List Token} {left : List Pending} (h : close stack = some (out, left))
    (base : List Pending) : close (stack ++ base) = some (out, left ++ base) := by
  obtain ⟨ops, rfl | ⟨below, rfl⟩⟩ := exists_top stack
  · rw [close_operators] at h
    cases h
  · rw [close_waiting] at h
    cases h
    rw [List.append_assoc, List.cons_append, close_waiting]

/-- A closing parenthesis lets go what the end of the tokens would. -/
theorem close_of_flush {out : List Token} (h : flush stack = some out) (base : List Pending) :
    close (stack ++ paren :: base) = some (out, base) := by
  obtain ⟨ops, rfl | ⟨below, rfl⟩⟩ := exists_top stack
  · rw [flush_waiting] at h
    cases h
    exact close_waiting ops base
  · rw [flush_paren] at h
    cases h

end Pending

namespace Token

theorem map_append_map_append (out out' : List Token) (r : Option (List Token)) :
    (out ++ ·) <$> (out' ++ ·) <$> r = (out ++ out' ++ ·) <$> r := by
  cases r <;> simp

/-- Tokens in front of a closing parenthesis come out as they do by themselves, and leave what is
below the open one as it was. -/
theorem arrange_append_paren {ts out : List Token} (stack : List Pending)
    (h : arrange ts stack = some out) (us : List Token) (base : List Pending) :
    arrange (ts ++ rightParen :: us) (stack ++ .paren :: base) =
      (out ++ ·) <$> arrange us base := by
  induction ts generalizing stack out with
  | nil => rw [List.nil_append, arrange, Pending.close_of_flush h]
  | cons t ts ih =>
      -- What the token lets go comes out in front of what the rest lets go, here as there.
      have hstep : ∀ (out' : List Token) {stack'}, (out' ++ ·) <$> arrange ts stack' = some out →
          (out' ++ ·) <$> arrange (ts ++ rightParen :: us) (stack' ++ .paren :: base) =
            (out ++ ·) <$> arrange us base := by
        intro out' stack' hts
        obtain ⟨rest, hrest, rfl⟩ := Option.map_eq_some_iff.mp hts
        rw [ih stack' hrest, map_append_map_append]
      rw [List.cons_append]
      cases t with
      | number n => exact hstep [number n] h
      | x => exact hstep [x] h
      | leftParen => exact ih (.paren :: stack) h
      | rightParen =>
          rw [arrange] at h ⊢
          cases hclose : Pending.close stack with
          | none =>
              rw [hclose] at h
              cases h
          | some popped =>
              rw [hclose] at h
              rw [Pending.close_append hclose]
              exact hstep _ h
      | operator op =>
          cases op with
          | complement => exact ih (.operator .complement :: stack) h
          | binary op =>
              rw [arrange] at h ⊢
              rw [Pending.release_append_paren rfl]
              exact hstep _ h

theorem arrange_enclosed {ts out : List Token} (h : arrange ts [] = some out) (us : List Token)
    (base : List Pending) :
    arrange (leftParen :: (ts ++ rightParen :: us)) base = (out ++ ·) <$> arrange us base :=
  arrange_append_paren [] h us base

/-! ### Texts in parentheses -/

theorem withoutHex_append_paren (cs rest : List Char) :
    withoutHex (cs ++ ')' :: rest) = withoutHex cs ++ ')' :: withoutHex rest := by
  fun_induction withoutHex cs with
  | case1 =>
      rw [List.nil_append, withoutHex, Lexeme.hexDigits?_of_ne (by decide)]
      rfl
  | case2 c cs digits hhex ih =>
      have hlen : digits.length + 1 ≤ cs.length := by
        obtain ⟨after, hcs, -⟩ := Lexeme.hexDigits?_eq_some hhex
        have := congrArg List.length hcs
        simp at this
        omega
      rw [List.cons_append, withoutHex, ← List.cons_append, Lexeme.hexDigits?_append_paren, hhex]
      simp only
      rw [List.drop_append_of_le_length hlen, ih]
  | case3 c cs hhex ih =>
      rw [List.cons_append, withoutHex, ← List.cons_append, Lexeme.hexDigits?_append_paren, hhex]
      simp only [ih, List.cons_append]

namespace Reads

theorem nil : Reads [] [] :=
  ⟨by simp [withoutHex], disallowed.eq_1, [], by rw [Lexeme.cut]; rfl, rfl⟩

/-- A token that is no operand is read off the start of a text, whatever follows. -/
theorem cons {t : Token} {ts : List Token} {piece cs : List Char} (h : Reads cs ts)
    (hpiece : Spelling t piece) (ht : t.isOperand = false) : Reads (piece ++ cs) (t :: ts) := by
  have hfresh : t.isOperand → Lexeme.Fresh cs := by simp [ht]
  obtain ⟨hletters, hcharacters, found, hfound, rfl⟩ := h
  obtain ⟨kept, hkept, hplain⟩ := hpiece.withoutHex hfresh
  obtain ⟨l, hcut, htoken⟩ := hpiece.cut hfresh
  refine ⟨fun c hc => ?_, ?_, some t :: found, ?_, rfl⟩
  · rw [hkept] at hc
    exact (List.mem_append.mp hc).elim (hplain c) (hletters c)
  · rw [hpiece.disallowed, hcharacters]
  · rw [hcut, List.mapM_cons, htoken, hfound]
    rfl

/-- A closing parenthesis separates the texts on both sides of it. -/
theorem append_paren {ts us : List Token} {cs rest : List Char} (h : Reads cs ts)
    (hrest : Reads rest us) : Reads (cs ++ ')' :: rest) (ts ++ rightParen :: us) := by
  obtain ⟨hletters, hcharacters, found, hfound, rfl⟩ := h
  obtain ⟨hletters', hcharacters', found', hfound', rfl⟩ := hrest
  refine ⟨fun c hc => ?_, ?_, found ++ some rightParen :: found', ?_, by simp⟩
  · rw [withoutHex_append_paren] at hc
    rcases List.mem_append.mp hc with hc | hc
    · exact hletters c hc
    · rcases List.mem_cons.mp hc with rfl | hc
      · rfl
      · exact hletters' c hc
  · rw [disallowed_eq] at hcharacters hcharacters' ⊢
    rw [Lexeme.cut_append_paren, List.filterMap_append, List.filterMap_cons, hcharacters,
      hcharacters']
    rfl
  · rw [Lexeme.cut_append_paren, List.mapM_append, List.mapM_cons, hfound, hfound']
    rfl

end Reads

/-! ### The most pending operands -/

/-- How many operands are pending after a token, when `n` were before. -/
def after : Token → Nat → Nat
  | number _, n => n + 1
  | x, n => n + 1
  | operator .complement, n => n
  | operator (.binary _), n => n - 1
  | leftParen, n => n
  | rightParen, n => n

/-- The most operands that are pending at a time while tokens in postfix order are run. -/
def mostPending : List Token → Nat → Nat
  | [], n => n
  | t :: ts, n => max n (mostPending ts (t.after n))

theorem le_mostPending (ts : List Token) (n : Nat) : n ≤ mostPending ts n := by
  cases ts with
  | nil => exact Nat.le_refl n
  | cons t ts => exact Nat.le_max_left ..

theorem mostPending_postorder (e : Expr) (ts : List Token) (n : Nat) :
    mostPending (e.postorder ++ ts) n = max (n + e.pending) (mostPending ts (n + 1)) := by
  have hnext := le_mostPending ts (n + 1)
  -- By induction on the tree, for all tokens behind it: they start with one operand more.
  induction e generalizing ts n with
  | number k | x =>
      simp only [Expr.postorder, List.singleton_append, mostPending, after, Expr.pending]
      omega
  | complement e ih =>
      simp only [Expr.postorder, List.append_assoc, List.singleton_append]
      rw [ih _ _ (le_mostPending _ _)]
      simp only [mostPending, after, Expr.pending]
      omega
  | binary op l r ihl ihr =>
      simp only [Expr.postorder, List.append_assoc, List.singleton_append]
      rw [ihl _ _ (le_mostPending _ _), ihr _ _ (le_mostPending _ _)]
      have hr := r.pending_pos
      simp only [mostPending, after, Expr.pending, Nat.add_sub_cancel]
      omega

end Token

namespace Program

/-- The most operands that are pending at a time while the program runs. -/
def depth (p : Program) : Nat :=
  Token.mostPending p.tokens 0

theorem depth_of_postorder {p : Program} {e : Expr} (hp : e.postorder = p.tokens) :
    p.depth = e.pending := by
  have hmost := Token.mostPending_postorder e [] 0
  have hpos := e.pending_pos
  rw [List.append_nil, hp, Token.mostPending] at hmost
  rw [depth, hmost]
  omega

/-! ### Readings -/

theorem policyFault?_eq_none_iff {s : String} :
    policyFault? s = none ↔ ∀ c ∈ s.toList, c ≠ '/' ∧ c ≠ '%' ∧ c ≠ '.' := by
  have hnot : policyFault? s = none ↔ ('/' ∉ s.toList ∧ '%' ∉ s.toList) ∧ '.' ∉ s.toList := by
    unfold policyFault?
    by_cases hdiv : '/' ∈ s.toList <;> by_cases hmod : '%' ∈ s.toList <;>
      by_cases hpoint : '.' ∈ s.toList <;> simp [hdiv, hmod, hpoint]
  rw [hnot]
  constructor
  · rintro ⟨⟨hdiv, hmod⟩, hpoint⟩ c hc
    exact ⟨fun h => hdiv (h ▸ hc), fun h => hmod (h ▸ hc), fun h => hpoint (h ▸ hc)⟩
  · intro h
    exact ⟨⟨fun hc => (h _ hc).1 rfl, fun hc => (h _ hc).2.1 rfl⟩, fun hc => (h _ hc).2.2 rfl⟩

/-- Nothing in the text is refused outright, and it is read as the tokens. -/
structure Reading (s : String) (ts : List Token) : Prop where
  policy : policyFault? s = none
  reads : Token.Reads (strip s) ts

namespace Reading

theorem nil : Reading "" [] :=
  ⟨rfl, .nil⟩

theorem strip_append (s t : String) : strip (s ++ t) = strip s ++ strip t := by
  simp [strip]

theorem policyFault?_append {s t : String} (hs : policyFault? s = none)
    (ht : policyFault? t = none) : policyFault? (s ++ t) = none := by
  rw [policyFault?_eq_none_iff] at hs ht ⊢
  intro c hc
  rw [String.toList_append] at hc
  exact (List.mem_append.mp hc).elim (hs c) (ht c)

theorem cons {t : Token} {ts : List Token} {o s : String} (h : Reading s ts)
    (ho : Token.Spelling t o.toList) (ht : t.isOperand = false) : Reading (o ++ s) (t :: ts) := by
  have hplain := fun c hc => Token.plain_of_isWritten (ho.isWritten c hc)
  constructor
  · exact policyFault?_append (policyFault?_eq_none_iff.mpr fun c hc => (hplain c hc).2) h.policy
  · have hstrip : strip o = o.toList :=
      List.filter_eq_self.mpr fun c hc => by simp [(hplain c hc).1]
    rw [strip_append, hstrip]
    exact h.reads.cons ho ht

/-- A text in parentheses is read as by itself, whatever follows. -/
theorem enclose {ts us : List Token} {s t : String} (h : Reading s ts) (ht : Reading t us) :
    Reading ("(" ++ s ++ ")" ++ t) (.leftParen :: (ts ++ .rightParen :: us)) := by
  have hclosed : Reading (s ++ ")" ++ t) (ts ++ .rightParen :: us) := by
    constructor
    · exact policyFault?_append (policyFault?_append h.policy rfl) ht.policy
    · rw [strip_append, strip_append, List.append_assoc]
      exact h.reads.append_paren ht.reads
  have hopen : Token.Spelling .leftParen "(".toList := .leftParen
  simpa only [String.append_assoc] using hclosed.cons hopen rfl

/-- What is read and can be brought into order compiles to what its order counts up to. -/
theorem compile_eq {s : String} {ts out : List Token} (h : Reading s ts)
    (hout : Token.arrange ts [] = some out) (hne : ts ≠ []) : compile s = ofPostfix out := by
  have hscan : Token.scan s = .ok ts := Token.ofChars_eq_ok_iff.mpr ⟨h.reads, hne⟩
  rw [compile_of_scan h.policy hscan, Token.toPostfix, hout]
  rfl

end Reading

theorem exists_reading {s : String} {p : Program} (h : compile s = .ok p) :
    ∃ ts, Reading s ts ∧ Token.arrange ts [] = some p.tokens := by
  obtain ⟨hpolicy, ts, hscan, hpost⟩ := compile_eq_ok_iff.mp h
  refine ⟨ts, ⟨hpolicy, (Token.ofChars_eq_ok_iff.mp hscan).1⟩, ?_⟩
  rw [Token.toPostfix] at hpost
  split at hpost
  case h_1 out hout =>
    cases hpost
    exact hout
  case h_2 => cases hpost

/-! ### Composition -/

theorem ofPostfix_of_deep {e : Expr} (h : 64 < e.pending) :
    ofPostfix e.postorder = .error .tooDeep := by
  apply ofPostfix_eq_error
  have hcount := Token.pendingAfter_postorder e [] 0
  rwa [List.append_nil, Nat.zero_add, if_neg (Nat.not_le.mpr h)] at hcount

section

variable {s₁ s₂ o : String} {ts us out₁ out₂ : List Token}

theorem compile_enclosed (h₁ : Reading s₁ ts) (hout₁ : Token.arrange ts [] = some out₁) :
    compile ("(" ++ s₁ ++ ")") = ofPostfix out₁ := by
  have hreading := h₁.enclose .nil
  rw [String.append_empty] at hreading
  refine hreading.compile_eq ?_ (List.cons_ne_nil _ _)
  rw [Token.arrange_enclosed hout₁]
  simp [Token.arrange, Pending.flush]

theorem compile_complement (h₁ : Reading s₁ ts) (hout₁ : Token.arrange ts [] = some out₁) :
    compile ("~(" ++ s₁ ++ ")") = ofPostfix (out₁ ++ [.operator .complement]) := by
  have hcomplement : Token.Spelling (.operator .complement) "~".toList :=
    Token.spelling_symbol .complement
  have hreading := (h₁.enclose .nil).cons hcomplement rfl
  have htext : "~" ++ ("(" ++ s₁ ++ ")" ++ "") = "~(" ++ s₁ ++ ")" := by
    simp only [String.append_empty, ← String.append_assoc]
    rfl
  rw [htext] at hreading
  refine hreading.compile_eq ?_ (List.cons_ne_nil _ _)
  rw [Token.arrange, Token.arrange_enclosed hout₁]
  rfl

theorem compile_binary {op : BinaryOp}
    (h₁ : Reading s₁ ts) (hout₁ : Token.arrange ts [] = some out₁)
    (h₂ : Reading s₂ us) (hout₂ : Token.arrange us [] = some out₂)
    (ho : o.toList.map Char.toUpper = op.symbol.toList) :
    compile ("(" ++ s₁ ++ ")" ++ o ++ "(" ++ s₂ ++ ")") =
      ofPostfix (out₁ ++ out₂ ++ [.operator (.binary op)]) := by
  have hop : Token.Spelling (.operator (.binary op)) o.toList := .operator ho
  have hreading := h₁.enclose ((h₂.enclose .nil).cons hop rfl)
  have htext : "(" ++ s₁ ++ ")" ++ (o ++ ("(" ++ s₂ ++ ")" ++ "")) =
      "(" ++ s₁ ++ ")" ++ o ++ "(" ++ s₂ ++ ")" := by
    simp only [String.append_empty, ← String.append_assoc]
  rw [htext] at hreading
  refine hreading.compile_eq ?_ (List.cons_ne_nil _ _)
  rw [Token.arrange_enclosed hout₁, Token.arrange]
  simp only [Pending.release]
  rw [Token.arrange_enclosed hout₂]
  simp [Token.arrange, Pending.flush]

end

/-- Whatever two texts are accepted, the first compiles in parentheses to the same program, behind a
complement to its complement, and both with an operator between them to the operator applied to
their values, unless more operands would be pending than there are slots. -/
theorem compile_composes (s₁ s₂ o : String) (p₁ p₂ : Program) (op : BinaryOp)
    (h₁ : compile s₁ = .ok p₁) (h₂ : compile s₂ = .ok p₂)
    (ho : o.toList.map Char.toUpper = op.symbol.toList) :
    compile ("(" ++ s₁ ++ ")") = .ok p₁ ∧
    (∃ q, compile ("~(" ++ s₁ ++ ")") = .ok q ∧
      q.tokens = p₁.tokens ++ [.operator .complement]) ∧
    (max p₁.depth (1 + p₂.depth) ≤ 64 →
      ∃ q, compile ("(" ++ s₁ ++ ")" ++ o ++ "(" ++ s₂ ++ ")") = .ok q ∧
        q.tokens = p₁.tokens ++ p₂.tokens ++ [.operator (.binary op)] ∧
        ∀ x, q.eval x = op.apply (p₁.eval x) (p₂.eval x)) ∧
    (64 < max p₁.depth (1 + p₂.depth) →
      compile ("(" ++ s₁ ++ ")" ++ o ++ "(" ++ s₂ ++ ")") = .error .tooDeep) := by
  obtain ⟨e₁, he₁, hfit₁⟩ := Token.exists_postorder p₁.single
  obtain ⟨e₂, he₂, hfit₂⟩ := Token.exists_postorder p₂.single
  obtain ⟨ts, hts, hout₁⟩ := exists_reading h₁
  obtain ⟨us, hus, hout₂⟩ := exists_reading h₂
  let e : Expr := .binary op e₁ e₂
  have hbinary : compile ("(" ++ s₁ ++ ")" ++ o ++ "(" ++ s₂ ++ ")") = ofPostfix e.postorder := by
    rw [compile_binary hts hout₁ hus hout₂ ho, ← he₁, ← he₂]
    rfl
  have hdepth : max p₁.depth (1 + p₂.depth) = e.pending := by
    rw [depth_of_postorder he₁, depth_of_postorder he₂, Nat.add_comm]
    rfl
  rw [hbinary, hdepth]
  refine ⟨?_, ?_, fun hfit => ?_, ofPostfix_of_deep⟩
  · rw [compile_enclosed hts hout₁]
    exact ofPostfix_eq_ok_iff.mpr rfl
  · refine ⟨ofExpr (.complement e₁) hfit₁, ?_, by rw [← he₁]; rfl⟩
    rw [compile_complement hts hout₁, ← he₁]
    exact ofPostfix_eq_ok_iff.mpr rfl
  · refine ⟨ofExpr e hfit, ofPostfix_eq_ok_iff.mpr rfl, by rw [← he₁, ← he₂]; rfl, fun x => ?_⟩
    rw [eval_of_postorder rfl hfit, eval_of_postorder he₁ hfit₁, eval_of_postorder he₂ hfit₂]
    rfl

/-- Operators behind their operands and stray commas and brackets do no harm, and a right operand
that uses every slot leaves none for the value of the left one. -/
theorem compile_composes_loose_text :
    let e₁ : Expr := .binary .add .x (.number 1)
    let e₂ : Expr := .binary .mul (.number 2) .x
    let tower : Expr := Nat.repeat (Expr.binary .add .x) 63 .x
    let deep := String.ofList (List.replicate 64 'x' ++ List.replicate 63 '+')
    (∃ p, compile "x 1 +" = .ok p ∧ compile "(x 1 +)" = .ok p ∧ p.tokens = e₁.postorder) ∧
    (∃ q, compile "(x 1 +)rOl(2,x<*)" = .ok q ∧
      ∀ x, q.eval x = rotateLeft (e₁.value x) (e₂.value x)) ∧
    (∃ p, compile deep = .ok p ∧ p.tokens = tower.postorder) ∧
    compile ("(" ++ "x 1 +" ++ ")" ++ "rOl" ++ "(" ++ deep ++ ")") = .error .tooDeep := by
  intro e₁ e₂ tower deep
  have h₁ : compile "x 1 +" = .ok (ofExpr e₁ (by decide)) :=
    compile_eq_ok_iff.mpr ⟨by decide, _, (by decide +kernel : Token.scan "x 1 +" = .ok
      [.x, .number 1, .operator (.binary .add)]), rfl⟩
  have h₂ : compile "2,x<*" = .ok (ofExpr e₂ (by decide)) :=
    compile_eq_ok_iff.mpr ⟨by decide, _, (by decide +kernel : Token.scan "2,x<*" = .ok
      [.number 2, .x, .operator (.binary .mul)]), rfl⟩
  have h₃ : compile deep = .ok (ofExpr tower (by decide +kernel)) :=
    compile_eq_ok_iff.mpr ⟨by decide +kernel, _, (by decide +kernel : Token.scan deep = .ok
      (List.replicate 64 .x ++ List.replicate 63 (.operator (.binary .add)))), by decide +kernel⟩
  obtain ⟨henclosed, -, hfits, -⟩ := compile_composes _ _ "rOl" _ _ .rol h₁ h₂ (by decide)
  obtain ⟨q, hq, -, heval⟩ := hfits (by decide)
  obtain ⟨-, -, -, hdeep⟩ := compile_composes _ _ "rOl" _ _ .rol h₁ h₃ (by decide)
  refine ⟨⟨_, h₁, henclosed, rfl⟩, ⟨q, hq, fun x => ?_⟩, ⟨_, h₃, rfl⟩, hdeep (by decide +kernel)⟩
  rw [heval, eval_of_postorder (e := e₁) rfl (by decide),
    eval_of_postorder (e := e₂) rfl (by decide)]
  rfl

end Program

end OrbitImage
