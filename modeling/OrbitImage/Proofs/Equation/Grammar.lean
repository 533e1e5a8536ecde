import OrbitImage.Proofs.Equation.Balance
/-!
The grammar of equations. An expression is an operand, or two expressions with a binary operator
between them. The compiler does not check the grammar: it counts operands when the tokens have been
reordered, so an operator may stand beside both its operands. Tokens that it accepts form an
expression exactly if any two neighbours fit together.
-/
namespace OrbitImage

inductive Grammar
  | expression
  | operand
  deriving DecidableEq, Repr

namespace Grammar

inductive Derives : Grammar → List Token → Prop
  | number (n : UInt32) : Derives operand [.number n]
  | x : Derives operand [.x]
  | paren {ts} : Derives expression ts → Derives operand (.leftParen :: (ts ++ [.rightParen]))
  | complement {ts} : Derives operand ts → Derives operand (.operator .complement :: ts)
  | operand {ts} : Derives operand ts → Derives expression ts
  | binary {op ts us} : Derives expression ts → Derives expression us →
      Derives expression (ts ++ .operator (.binary op) :: us)

end Grammar

namespace Token

/-- An operand can start with the token. -/
def opens : Token → Bool
  | number _ => true
  | x => true
  | leftParen => true
  | operator op => op.isUnary
  | rightParen => false

/-- An operand can end with the token. -/
def ends : Token → Bool
  | number _ => true
  | x => true
  | rightParen => true
  | operator _ => false
  | leftParen => false

/-- An operand starts where none has just ended. -/
def Fits (a b : Token) : Prop :=
  b.opens = !a.ends

instance (a b : Token) : Decidable (Fits a b) :=
  inferInstanceAs (Decidable (_ = _))

/-- From a place behind an operand, or else in front of one, the tokens lead to another such place,
each of them standing where it may. -/
inductive Follows : Bool → List Token → Bool → Prop
  | nil {h} : Follows h [] h
  | cons {h t ts k} : t.opens = !h → Follows t.ends ts k → Follows h (t :: ts) k

namespace Follows

theorem append {h k m : Bool} {ts us : List Token} (hts : Follows h ts k) (hus : Follows k us m) :
    Follows h (ts ++ us) m := by
  induction hts with
  | nil => exact hus
  | cons ht hts ih => exact .cons ht (ih hus)

theorem isChain {h k : Bool} {ts : List Token} (hts : Follows h ts k) : ts.IsChain Fits := by
  induction hts with
  | nil => exact .nil
  | cons ht hts ih =>
      refine ih.cons fun u hu => ?_
      cases hts with
      | nil => cases hu
      | cons hu' hrest =>
          cases hu
          exact hu'

theorem exists_of_isChain {t : Token} {ts : List Token} (h : (t :: ts).IsChain Fits) :
    ∃ k, Follows (!t.opens) (t :: ts) k := by
  induction ts generalizing t with
  | nil => exact ⟨_, .cons (by simp) .nil⟩
  | cons u us ih =>
      obtain ⟨htu, hus⟩ := List.isChain_cons_cons.mp h
      obtain ⟨k, hk⟩ := ih hus
      refine ⟨k, .cons (by simp) ?_⟩
      rwa [show u.opens = !t.ends from htu, Bool.not_not] at hk

end Follows

/-! ### Counting operands and operators -/

def isBinary : Token → Bool
  | operator (.binary _) => true
  | _ => false

/-- Operands and binary operators take turns. -/
theorem Follows.count {h k : Bool} {ts : List Token} (hts : Follows h ts k) :
    ts.countP isOperand + h.toNat = ts.countP isBinary + k.toNat := by
  induction hts with
  | nil => rfl
  | @cons h t ts k ht hts ih =>
      obtain rfl : h = !t.opens := by simp [ht]
      have hone : (if t.isOperand then 1 else 0) + (!t.opens).toNat =
          (if t.isBinary then 1 else 0) + t.ends.toNat := by
        cases t with
        | operator op => cases op <;> rfl
        | _ => rfl
      rw [List.countP_cons, List.countP_cons]
      omega

/-- A token adds an operand to those that are pending, or a binary operator takes one. -/
theorem count_of_pendingAfter_singleton {t : Token} {n m : Nat} (h : pendingAfter [t] n = .ok m) :
    m + (if t.isBinary then 1 else 0) = n + (if t.isOperand then 1 else 0) := by
  cases t with
  | leftParen | rightParen => cases h
  | number k | x =>
      rw [pendingAfter] at h
      split at h
      · cases h
        rfl
      · cases h
  | operator op =>
      cases op with
      | complement =>
          rw [pendingAfter] at h
          split at h
          · cases h
            rfl
          · cases h
      | binary op =>
          rw [pendingAfter] at h
          split at h
          case isTrue hn =>
            cases h
            exact Nat.sub_add_cancel (Nat.le_of_succ_le hn)
          case isFalse => cases h

theorem count_of_pendingAfter {ts : List Token} {n m : Nat} (h : pendingAfter ts n = .ok m) :
    m + ts.countP isBinary = n + ts.countP isOperand := by
  induction ts generalizing n with
  | nil =>
      cases h
      rfl
  | cons t ts ih =>
      rw [pendingAfter_cons] at h
      cases hone : pendingAfter [t] n with
      | error cause =>
          rw [hone] at h
          cases h
      | ok k =>
          rw [hone] at h
          have hk := count_of_pendingAfter_singleton hone
          have hm := ih h
          rw [List.countP_cons, List.countP_cons]
          omega

theorem Conserves.count {ts out : List Token} (h : Conserves ts [] out) :
    out.countP isOperand = ts.countP isOperand ∧ out.countP isBinary = ts.countP isBinary := by
  constructor
  · rw [List.countP_eq_length_filter, List.countP_eq_length_filter, h.operands]
  · rw [h.perm.countP_eq, List.append_nil, List.countP_filter]
    refine List.countP_congr fun t _ => ?_
    cases t <;> simp [isBinary, isParen]

end Token

namespace Grammar

/-! ### Expressions from neighbours -/

theorem Derives.follows {g : Grammar} {ts : List Token} (h : Derives g ts) :
    Token.Follows false ts true := by
  induction h with
  | number n => exact .cons rfl .nil
  | x => exact .cons rfl .nil
  | paren h ih => exact .cons rfl (ih.append (.cons rfl .nil))
  | complement h ih => exact .cons rfl ih
  | operand h ih => exact ih
  | binary hl hr ihl ihr => exact ihl.append (.cons rfl ihr)

/-- An expression, or tokens that wait for an operand to become one. -/
def Ready : Bool → List Token → Prop
  | true, ts => Derives expression ts
  | false, ts => ∀ us, Derives operand us → Derives expression (ts ++ us)

/-- Open parentheses, in front of each of them tokens that wait for an operand. -/
inductive Opened : Nat → List Token → Prop
  | nil : Opened 0 []
  | cons {depth ts us} : Opened depth ts → Ready false us →
      Opened (depth + 1) (ts ++ us ++ [.leftParen])

/-- Tokens in their places that close all parentheses complete an expression. -/
theorem derives_of_follows {h : Bool} {ts : List Token} (hts : Token.Follows h ts true)
    {depth : Nat} (hbal : Token.Balanced depth ts) {us ws : List Token} (hus : Opened depth us)
    (hws : Ready h ws) : Derives expression (us ++ ws ++ ts) := by
  -- Each token is read into `ws`, which stands behind the innermost open parenthesis.
  induction ts generalizing h depth us ws with
  | nil =>
      cases hts
      cases hbal
      cases hus
      rw [List.append_nil, List.nil_append]
      exact hws
  | cons t ts ih =>
      cases hts with
      | cons ht hts =>
          obtain rfl : h = !t.opens := by simp [ht]
          cases t with
          | number n =>
              have hready : Ready true (ws ++ [.number n]) := hws _ (.number n)
              simpa using ih hts hbal hus hready
          | x =>
              have hready : Ready true (ws ++ [.x]) := hws _ .x
              simpa using ih hts hbal hus hready
          | leftParen =>
              have hready : Ready false [] := fun vs hvs => .operand hvs
              simpa using ih hts hbal (hus.cons hws) hready
          | rightParen =>
              cases hus with
              | nil => exact hbal.elim
              | @cons depth us vs hus hvs =>
                  have hready : Ready true (vs ++ .leftParen :: (ws ++ [.rightParen])) :=
                    hvs _ (.paren hws)
                  simpa using ih hts hbal hus hready
          | operator op =>
              cases op with
              | complement =>
                  have hready : Ready false (ws ++ [.operator .complement]) := by
                    intro vs hvs
                    simpa using hws _ (.complement hvs)
                  simpa using ih hts hbal hus hready
              | binary op =>
                  have hready : Ready false (ws ++ [.operator (.binary op)]) := by
                    intro vs hvs
                    have hbinary : Derives expression (ws ++ .operator (.binary op) :: vs) :=
                      .binary hws (.operand hvs)
                    simpa using hbinary
                  simpa using ih hts hbal hus hready

end Grammar

/-! ### What the compiler accepts -/

namespace Program

/-- Tokens that are accepted form an expression of the grammar exactly if neighbours fit. -/
theorem accepted_derives_iff (ts out : List Token) (p : Program)
    (hts : Token.toPostfix ts = .ok out) (hout : ofPostfix out = .ok p) :
    Grammar.Derives .expression ts ↔ ts.IsChain Token.Fits := by
  constructor
  · exact fun h => h.follows.isChain
  · intro hchain
    obtain ⟨hbal, hconserves⟩ := Token.toPostfix_eq_ok hts
    have hcount : ts.countP Token.isOperand = ts.countP Token.isBinary + 1 := by
      have hpending := p.single
      rw [ofPostfix_eq_ok_iff.mp hout] at hpending
      have := Token.count_of_pendingAfter hpending
      rw [hconserves.count.1, hconserves.count.2] at this
      omega
    cases ts with
    | nil => cases hcount
    | cons t ts =>
        obtain ⟨k, hfollows⟩ := Token.Follows.exists_of_isChain hchain
        -- One operand more than binary operators: the row starts in front of an operand and ends
        -- behind one.
        have hturns := hfollows.count
        generalize (!t.opens) = h at hfollows hturns
        obtain ⟨rfl, rfl⟩ : h = false ∧ k = true := by
          cases h <;> cases k <;> simp_all; omega
        have hready : Grammar.Ready false [] := fun us hus => .operand hus
        exact Grammar.derives_of_follows hfollows hbal .nil hready

theorem accepted_derives_complement_product :
    let ts := [Token.operator .complement, .leftParen, .x, .operator (.binary .add), .number 1,
      .rightParen, .operator (.binary .mul), .operator .complement, .x]
    ∃ out p, Token.toPostfix ts = .ok out ∧ ofPostfix out = .ok p ∧ ts.IsChain Token.Fits ∧
      Grammar.Derives .expression ts := by
  intro ts
  let e : Expr := .binary .mul (.complement (.binary .add .x (.number 1))) (.complement .x)
  have hts : Token.toPostfix ts = .ok e.postorder := rfl
  have hout : ofPostfix e.postorder = .ok (ofExpr e (by decide)) := ofPostfix_eq_ok_iff.mpr rfl
  have hchain : ts.IsChain Token.Fits := by decide
  exact ⟨_, _, hts, hout, hchain, (accepted_derives_iff ts _ _ hts hout).mpr hchain⟩

/-- An operator may stand behind both its operands: the row is accepted and is no expression. -/
theorem accepts_operator_last :
    ∃ p, compile "x 1 +" = .ok p ∧
      Token.scan "x 1 +" = .ok [.x, .number 1, .operator (.binary .add)] ∧
      Token.toPostfix [.x, .number 1, .operator (.binary .add)] = .ok p.tokens ∧
      ofPostfix p.tokens = .ok p ∧
      ¬Grammar.Derives .expression [.x, .number 1, .operator (.binary .add)] := by
  have hscan : Token.scan "x 1 +" = .ok [.x, .number 1, .operator (.binary .add)] := by
    decide +kernel
  refine ⟨ofExpr (.binary .add .x (.number 1)) (by decide), ?_, hscan, rfl,
    ofPostfix_eq_ok_iff.mpr rfl, fun h => ?_⟩
  · exact compile_eq_ok_iff.mpr ⟨by decide, _, hscan, rfl⟩
  · exact absurd h.follows.isChain (by decide)

end Program

end OrbitImage
