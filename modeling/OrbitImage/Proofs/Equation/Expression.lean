import OrbitImage.Equation.Program
/-!
Expression trees over the variable x. A tree has a value, a listing in post-order and a number of
operands that its evaluation keeps pending. Reading a listing back gives the tree, so no two trees
share a listing.
-/
namespace OrbitImage

inductive Expr
  | number (n : UInt32)
  | x
  | complement (e : Expr)
  | binary (op : BinaryOp) (left right : Expr)
  deriving DecidableEq, Repr

namespace Expr

def value (x : UInt32) : Expr → UInt32
  | number n => n
  | .x => x
  | complement e => Operator.complement.apply (e.value x) 0
  | binary op l r => (Operator.binary op).apply (l.value x) (r.value x)

def postorder : Expr → List Token
  | number n => [.number n]
  | x => [.x]
  | complement e => e.postorder ++ [.operator .complement]
  | binary op l r => l.postorder ++ r.postorder ++ [.operator (.binary op)]

/-- The most operands that are pending at a time when the tree is evaluated in post-order: the left
operand's value waits while the right one is evaluated. -/
def pending : Expr → Nat
  | number _ => 1
  | x => 1
  | complement e => e.pending
  | binary _ l r => max l.pending (r.pending + 1)

theorem pending_pos (e : Expr) : 0 < e.pending := by
  induction e with
  | number | x => exact Nat.one_pos
  | complement e ih => exact ih
  | binary op l r ihl ihr => exact Nat.lt_of_lt_of_le ihl (Nat.le_max_left ..)

/-! ### Trees from listings -/

/-- What a token makes of the trees read before it, the latest first. -/
def attach? : Token → List Expr → Option (List Expr)
  | .number n, es => some (number n :: es)
  | .x, es => some (x :: es)
  | .operator .complement, e :: es => some (complement e :: es)
  | .operator (.binary op), r :: l :: es => some (binary op l r :: es)
  | _, _ => none

def rebuild? : List Token → List Expr → Option (List Expr)
  | [], es => some es
  | t :: ts, es => (attach? t es).bind (rebuild? ts)

theorem rebuild?_postorder (e : Expr) (ts : List Token) (es : List Expr) :
    rebuild? (e.postorder ++ ts) es = rebuild? ts (e :: es) := by
  induction e generalizing ts es with
  | number n => rfl
  | x => rfl
  | complement e ih =>
      simp only [postorder, List.append_assoc]
      rw [ih]
      rfl
  | binary op l r ihl ihr =>
      simp only [postorder, List.append_assoc]
      rw [ihl, ihr]
      rfl

theorem postorder_injective {e f : Expr} (h : e.postorder = f.postorder) : e = f := by
  have he := rebuild?_postorder e [] []
  have hf := rebuild?_postorder f [] []
  rw [h, hf] at he
  simpa [rebuild?] using he.symm

/-- The listings of trees one after the other, the latest tree last. -/
def listing (es : List Expr) : List Token :=
  es.reverse.flatMap postorder

theorem listing_cons (e : Expr) (es : List Expr) :
    listing (e :: es) = listing es ++ e.postorder := by
  simp [listing]

theorem listing_attach? {t : Token} {es fs : List Expr} (h : attach? t es = some fs) :
    listing fs = listing es ++ [t] := by
  cases t with
  | number n =>
      cases h
      rw [listing_cons, postorder]
  | x =>
      cases h
      rw [listing_cons, postorder]
  | leftParen => cases h
  | rightParen => cases h
  | operator op =>
      cases op with
      | complement =>
          rcases es with _ | ⟨e, es⟩ <;> cases h
          simp only [listing_cons, postorder, List.append_assoc]
      | binary op =>
          rcases es with _ | ⟨r, _ | ⟨l, es⟩⟩ <;> cases h
          simp only [listing_cons, postorder, List.append_assoc]

theorem listing_rebuild? {ts : List Token} {es fs : List Expr} (h : rebuild? ts es = some fs) :
    listing fs = listing es ++ ts := by
  induction ts generalizing es with
  | nil =>
      cases h
      simp
  | cons t ts ih =>
      obtain ⟨gs, hg, hf⟩ := Option.bind_eq_some_iff.mp h
      rw [ih hf, listing_attach? hg, List.append_assoc, List.singleton_append]

end Expr

end OrbitImage
