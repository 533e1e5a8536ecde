import OrbitImage.Proofs.Equation.Evaluation
import OrbitImage.Proofs.Image.Density
import OrbitImage.Proofs.Image.Stretch
/-!
Arithmetic that watches itself. An operation gives nothing where its exact result is no word of its
width, where a word is shifted by its width or more, where a divisor is zero, and where an index is
behind the end. Carried out like this, the steps of a generator, the grey levels, the counts and the
stretch give what they give unwatched.
-/
namespace OrbitImage

/-! ### Words -/

namespace Checked

def byte? (n : Nat) : Option UInt8 :=
  if n < 2 ^ 8 then some n.toUInt8 else none

def word? (n : Nat) : Option UInt32 :=
  if n < 2 ^ 32 then some n.toUInt32 else none

def long? (n : Nat) : Option UInt64 :=
  if n < 2 ^ 64 then some n.toUInt64 else none

/-- The number, if it is a signed word. -/
def signed? (n : Int) : Option Int :=
  if -2 ^ 31 ≤ n ∧ n < 2 ^ 31 then some n else none

def div? (a b : Nat) : Option Nat :=
  if b = 0 then none else some (a / b)

def mod? (a b : Nat) : Option Nat :=
  if b = 0 then none else some (a % b)

def signedDiv? (a b : Int) : Option Int :=
  if b = 0 then none else signed? (a.tdiv b)

/-- A shift or a rotation of a word. -/
def shift? (op : UInt32 → UInt32 → UInt32) (x : UInt32) (amount : Nat) : Option UInt32 :=
  if amount < 32 then some (op x amount.toUInt32) else none

def shiftLong? (x : UInt64) (amount : Nat) : Option UInt64 :=
  if amount < 64 then some (x >>> amount.toUInt64) else none

theorem byte?_eq_some_iff {n : Nat} {b : UInt8} : byte? n = some b ↔ n = b.toNat := by
  rw [byte?, Option.ite_none_right_eq_some]
  constructor
  · rintro ⟨h, heq⟩
    rw [← Option.some_inj.mp heq, UInt8.toNat_ofNat_of_lt' h]
  · rintro rfl
    exact ⟨b.toNat_lt, congrArg some UInt8.ofNat_toNat⟩

theorem word?_eq_some_iff {n : Nat} {w : UInt32} : word? n = some w ↔ n = w.toNat := by
  rw [word?, Option.ite_none_right_eq_some]
  constructor
  · rintro ⟨h, heq⟩
    rw [← Option.some_inj.mp heq, UInt32.toNat_ofNat_of_lt' h]
  · rintro rfl
    exact ⟨w.toNat_lt, congrArg some UInt32.ofNat_toNat⟩

theorem long?_of_lt {n : Nat} (h : n < 2 ^ 64) : ∃ w, long? n = some w ∧ w.toNat = n :=
  ⟨n.toUInt64, if_pos h, UInt64.toNat_ofNat_of_lt' h⟩

theorem word?_of_lt {n : Nat} (h : n < 2 ^ 32) : ∃ w, word? n = some w ∧ w.toNat = n :=
  ⟨n.toUInt32, if_pos h, UInt32.toNat_ofNat_of_lt' h⟩

theorem signed?_of_bounds {n : Int} (h : -2 ^ 31 ≤ n) (h' : n < 2 ^ 31) : signed? n = some n :=
  if_pos ⟨h, h'⟩

theorem div?_of_pos {b : Nat} (h : 0 < b) (a : Nat) : div? a b = some (a / b) :=
  if_neg (Nat.ne_of_gt h)

theorem mod?_of_pos {b : Nat} (h : 0 < b) (a : Nat) : mod? a b = some (a % b) :=
  if_neg (Nat.ne_of_gt h)

theorem shift?_of_lt {amount : Nat} (h : amount < 32) (op : UInt32 → UInt32 → UInt32) (x : UInt32) :
    shift? op x amount = some (op x amount.toUInt32) :=
  if_pos h

end Checked

open Checked

/-! ### Steps -/

theorem toNat_low (b : UInt32) : (b &&& 31).toNat = b.toNat % 32 := by
  rw [UInt32.toNat_and]
  exact Nat.and_two_pow_sub_one_eq_mod b.toNat 5

/-- Only the lowest bits of an amount are looked at. -/
theorem shiftLeft_low (a b : UInt32) : a <<< (b &&& 31) = a <<< b := by
  apply UInt32.toNat_inj.mp
  rw [UInt32.toNat_shiftLeft, UInt32.toNat_shiftLeft, toNat_low, Nat.mod_mod]

theorem shiftRight_low (a b : UInt32) : a >>> (b &&& 31) = a >>> b := by
  apply UInt32.toNat_inj.mp
  rw [UInt32.toNat_shiftRight, UInt32.toNat_shiftRight, toNat_low, Nat.mod_mod]

theorem toNat_opposite_low (b : UInt32) :
    (32 - (b &&& 31)).toNat % 32 = (32 - b).toNat % 32 := by
  have hb := b.toNat_lt
  rw [UInt32.toNat_sub, UInt32.toNat_sub, toNat_low, show (32 : UInt32).toNat = 32 from rfl]
  omega

theorem rotateLeft_low (a b : UInt32) : rotateLeft a (b &&& 31) = rotateLeft a b := by
  have hback : a >>> (32 - (b &&& 31)) = a >>> (32 - b) := by
    apply UInt32.toNat_inj.mp
    rw [UInt32.toNat_shiftRight, UInt32.toNat_shiftRight, toNat_opposite_low]
  rw [rotateLeft, shiftLeft_low, hback]
  rfl

theorem rotateRight_low (a b : UInt32) : rotateRight a (b &&& 31) = rotateRight a b := by
  have hback : a <<< (32 - (b &&& 31)) = a <<< (32 - b) := by
    apply UInt32.toNat_inj.mp
    rw [UInt32.toNat_shiftLeft, UInt32.toNat_shiftLeft, toNat_opposite_low]
  rw [rotateRight, shiftRight_low, hback]
  rfl

namespace BinaryOp

/-- `apply` on amounts that are taken modulo 32 beforehand; the other operators have no faults. -/
def value? : BinaryOp → UInt32 → UInt32 → Option UInt32
  | .shl, a, b => shift? (· <<< ·) a (b &&& 31).toNat
  | .shr, a, b => shift? (· >>> ·) a (b &&& 31).toNat
  | .rol, a, b => shift? rotateLeft a (b &&& 31).toNat
  | .ror, a, b => shift? rotateRight a (b &&& 31).toNat
  | op, a, b => some (op.apply a b)

theorem value?_eq (op : BinaryOp) (a b : UInt32) : op.value? a b = some (op.apply a b) := by
  have hlow : (b &&& 31).toNat < 32 := by
    rw [toNat_low]
    exact Nat.mod_lt _ (by decide)
  have hword : (b &&& 31).toNat.toUInt32 = b &&& 31 := UInt32.ofNat_toNat
  cases op with
  | shl => rw [value?, shift?_of_lt hlow, hword, shiftLeft_low, apply]
  | shr => rw [value?, shift?_of_lt hlow, hword, shiftRight_low, apply]
  | rol => rw [value?, shift?_of_lt hlow, hword, rotateLeft_low, apply]
  | ror => rw [value?, shift?_of_lt hlow, hword, rotateRight_low, apply]
  | add | sub | mul | and | or | xor => rfl

end BinaryOp

namespace BuiltIn

def step? : BuiltIn → UInt32 → Option UInt32
  | .xorshift32, x => do
    let x := x ^^^ (← shift? (· <<< ·) x 13)
    let x := x ^^^ (← shift? (· >>> ·) x 17)
    return x ^^^ (← shift? (· <<< ·) x 5)
  | .splitMix, x => do
    let x := (x ^^^ (← shift? (· >>> ·) x 16)) * 0x85ebca6b
    let x := (x ^^^ (← shift? (· >>> ·) x 13)) * 0xc2b2ae35
    return x ^^^ (← shift? (· >>> ·) x 16)
  | b, x => some (b.step x)

theorem step?_eq (b : BuiltIn) (x : UInt32) : b.step? x = some (b.step x) := by
  cases b <;> rfl

end BuiltIn

namespace Stack

/-- `operate?` with its operator watched. -/
def operateChecked? (s : Stack) : Operator → Option Stack
  | .complement => s.operate? .complement
  | .binary op =>
    if h : 1 < s.size then
      have top : s.size - 1 < 64 :=
        Nat.lt_of_lt_of_le (Nat.sub_lt (Nat.zero_lt_of_lt h) Nat.one_pos) s.size_le
      have second : s.size - 2 < 64 :=
        Nat.lt_of_lt_of_le (Nat.sub_lt (Nat.zero_lt_of_lt h) Nat.two_pos) s.size_le
      (op.value? s.slots[s.size - 2] s.slots[s.size - 1]).map fun value =>
        ⟨s.slots.set (s.size - 2) value, s.size - 1, Nat.le_trans (Nat.sub_le s.size 1) s.size_le⟩
    else none

def runChecked? (x : UInt32) : List Token → Stack → Option Stack
  | [], s => some s
  | .number n :: ts, s => (s.push? n).bind (runChecked? x ts)
  | .x :: ts, s => (s.push? x).bind (runChecked? x ts)
  | .operator op :: ts, s => (s.operateChecked? op).bind (runChecked? x ts)
  | .leftParen :: ts, s => runChecked? x ts s
  | .rightParen :: ts, s => runChecked? x ts s

theorem operateChecked?_eq (s : Stack) (op : Operator) : s.operateChecked? op = s.operate? op := by
  cases op with
  | complement => rfl
  | binary op =>
      obtain ⟨slots, size, le⟩ := s
      simp only [operateChecked?, operate?, BinaryOp.value?_eq, Option.map_some]

theorem runChecked?_eq (x : UInt32) (ts : List Token) (s : Stack) :
    s.runChecked? x ts = s.run x ts := by
  have hrest {ts : List Token} (ih : ∀ s : Stack, s.runChecked? x ts = s.run x ts)
      (s? : Option Stack) : s?.bind (runChecked? x ts) = s?.bind (run x ts) :=
    congrArg s?.bind (funext ih)
  induction ts generalizing s with
  | nil => rfl
  | cons t ts ih =>
      cases t with
      | number n => exact hrest ih _
      | x => exact hrest ih _
      | operator op =>
          rw [runChecked?, operateChecked?_eq]
          exact hrest ih _
      | leftParen => exact ih s
      | rightParen => exact ih s

end Stack

/-- The value of a program whose run has left one value and nothing else. -/
def Program.eval? (p : Program) (x : UInt32) : Option UInt32 :=
  (Stack.empty.runChecked? x p.tokens).bind fun s => if s.size = 1 then some s.bottom else none

theorem Program.eval?_eq (p : Program) (x : UInt32) : p.eval? x = some (p.eval x) := by
  obtain ⟨e, hp, hpending⟩ := Token.exists_postorder p.single
  obtain ⟨s, hrun, hheld⟩ := Stack.run_empty_postorder x hpending
  rw [hp] at hrun
  have hsize : s.size = 1 := by
    rw [← Stack.length_held, hheld]
    rfl
  rw [eval?, Stack.runChecked?_eq, hrun, Option.bind_some, if_pos hsize, eval, hrun]

def Generator.step? : Generator → UInt32 → Option UInt32
  | custom program, x => program.eval? x
  | builtIn b, x => b.step? x

theorem Generator.step?_eq (g : Generator) (x : UInt32) : g.step? x = some (g.step x) := by
  cases g with
  | custom program => exact program.eval?_eq x
  | builtIn b => exact b.step?_eq x

/-! ### Levels -/

def scaleWord? (x : UInt32) : Option UInt8 := do
  let product ← long? (x.toNat * 255)
  let high ← shiftLong? product 32
  byte? high.toNat

theorem scaleWord?_eq (x : UInt32) : scaleWord? x = some (scaleWord x) := by
  have hx := x.toNat_lt
  obtain ⟨product, hproduct, hvalue⟩ := long?_of_lt (show x.toNat * 255 < 2 ^ 64 by omega)
  have hhigh : (product >>> Nat.toUInt64 32).toNat = x.toNat * 255 / 2 ^ 32 := by
    rw [UInt64.toNat_shiftRight, hvalue, ← Nat.shiftRight_eq_div_pow]
    rfl
  simp only [scaleWord?, hproduct, Option.bind_eq_bind, Option.bind_some, shiftLong?,
    show 32 < 64 by decide, if_true]
  rw [byte?_eq_some_iff, hhigh, toNat_scaleWord]

def bitOf? (x : UInt32) (bit : Nat) : Option UInt32 :=
  (shift? (· >>> ·) x bit).map (· &&& 1)

theorem bitOf?_eq (x : UInt32) {bit : Nat} (h : bit < 32) : bitOf? x bit = some (bitOf x bit) := by
  rw [bitOf?, shift?_of_lt h]
  rfl

theorem toNat_bitOf_le (x : UInt32) {bit : Nat} (h : bit < 32) : (bitOf x bit).toNat ≤ 1 := by
  rw [toNat_bitOf x h]
  exact Bool.toNat_le _

def setBits? (x : UInt32) : Nat → Option UInt32
  | 0 => some 0
  | bit + 1 => do
    let count ← setBits? x bit
    let one ← bitOf? x bit
    word? (count.toNat + one.toNat)

theorem setBits?_eq (x : UInt32) {n : Nat} (h : n ≤ 32) : setBits? x n = some (setBits x n) := by
  induction n with
  | zero => rfl
  | succ n ih =>
      have hcount : (setBits x n).toNat ≤ n := by
        rw [toNat_setBits x (Nat.le_of_succ_le h)]
        exact countP_range_le n _
      have hbit := toNat_bitOf_le x h
      have hsum : (setBits x (n + 1)).toNat = (setBits x n).toNat + (bitOf x n).toNat := by
        rw [setBits, UInt32.toNat_add, Nat.mod_eq_of_lt (by omega)]
      simp only [setBits?, ih (Nat.le_of_succ_le h), bitOf?_eq x h, Option.bind_eq_bind,
        Option.bind_some]
      exact word?_eq_some_iff.mpr hsum.symm

def Mode.gray? (mode : Mode) (bitPlane : UInt8) (previous x : UInt32) : Option UInt8 :=
  match mode with
  | .raw => scaleWord? x
  | .bitPlane => do
    let bit ← bitOf? x bitPlane.toNat
    let product ← word? (bit.toNat * 255)
    byte? product.toNat
  | .hamming => do
    let count ← setBits? x 32
    let product ← word? (count.toNat * 255)
    let level ← div? product.toNat 32
    byte? level
  | .transition => scaleWord? (x ^^^ previous)
  | .pair => some 0

theorem Mode.gray?_eq (mode : Mode) {bitPlane : UInt8} (h : bitPlane ≤ 31) (previous x : UInt32) :
    mode.gray? bitPlane previous x = some (mode.gray bitPlane previous x) := by
  cases mode with
  | raw => exact scaleWord?_eq x
  | transition => exact scaleWord?_eq (x ^^^ previous)
  | pair => rfl
  | bitPlane =>
      have hbit : bitPlane.toNat < 32 := Nat.lt_succ_of_le h
      have hle := toNat_bitOf_le x hbit
      obtain ⟨product, hproduct, hvalue⟩ :=
        word?_of_lt (show (bitOf x bitPlane.toNat).toNat * 255 < 2 ^ 32 by omega)
      simp only [gray?, bitOf?_eq x hbit, Option.bind_eq_bind, Option.bind_some, hproduct]
      rw [byte?_eq_some_iff, Mode.toNat_gray .bitPlane h, hvalue, toNat_bitOf x hbit, Nat.mul_comm]
      rfl
  | hamming =>
      have hcount : (setBits x 32).toNat = (List.range 32).countP x.toNat.testBit :=
        toNat_setBits x (Nat.le_refl 32)
      have hle := countP_range_le 32 x.toNat.testBit
      obtain ⟨product, hproduct, hvalue⟩ :=
        word?_of_lt (show (setBits x 32).toNat * 255 < 2 ^ 32 by omega)
      simp only [gray?, setBits?_eq x (Nat.le_refl 32), Option.bind_eq_bind, Option.bind_some,
        hproduct, div?_of_pos (show 0 < 32 by decide)]
      rw [byte?_eq_some_iff, Mode.toNat_gray .hamming h, hvalue, hcount]
      rfl

/-- A request has no such plane. -/
example : Mode.bitPlane.gray? 32 0 1 = none := by decide

def PairScale.gray? (scale : PairScale) (hits most : UInt32) : Option UInt8 :=
  if hits = 0 ∨ most = 0 then some 0
  else
    match scale with
    | .log => some (scale.gray hits most)
    | .linear => do
      let product ← long? (hits.toNat * 255)
      let level ← div? product.toNat most.toNat
      byte? level

theorem PairScale.gray?_eq (scale : PairScale) {hits most : UInt32}
    (hle : hits.toNat ≤ most.toNat) (hpos : 0 < most.toNat) :
    scale.gray? hits most = some (scale.gray hits most) := by
  by_cases hzero : hits = 0 ∨ most = 0
  · unfold gray? gray
    rw [if_pos hzero, if_pos hzero]
  · cases scale with
    | log => exact if_neg hzero
    | linear =>
        have hhits := hits.toNat_lt
        obtain ⟨product, hproduct, hvalue⟩ := long?_of_lt (show hits.toNat * 255 < 2 ^ 64 by omega)
        simp only [gray?, if_neg hzero, hproduct, Option.bind_eq_bind, Option.bind_some,
          div?_of_pos hpos]
        rw [byte?_eq_some_iff, hvalue, toNat_gray_linear hle hpos]

/-! ### The stretch -/

def stretchLevel? (low : UInt8) (range : Int) (gray : UInt8) : Option UInt8 := do
  let distance ← signed? (gray.toNat - low.toNat)
  let product ← signed? (distance * 255)
  let level ← signedDiv? product range
  byte? (max 0 (min level 255)).toNat

def stretch? (low high : UInt8) (grays : Array UInt8) : Option (Array UInt8) := do
  let range ← signed? (high.toNat - low.toNat)
  if range ≤ 0 then return grays else grays.mapM (stretchLevel? low range)

/-- A quotient is not farther from zero than what is divided. -/
theorem natAbs_tdiv_le (a b : Int) : (a.tdiv b).natAbs ≤ a.natAbs := by
  rw [Int.natAbs_tdiv]
  exact Nat.div_le_self _ _

theorem stretchLevel?_eq {low high : UInt8} (h : low < high) (gray : UInt8) :
    stretchLevel? low (high.toNat - low.toNat) gray = some (stretchLevel low high gray) := by
  have hlt : low.toNat < high.toNat := h
  have hgray := gray.toNat_lt
  have hlow := low.toNat_lt
  have hdistance := signed?_of_bounds
    (show -2 ^ 31 ≤ (gray.toNat : Int) - low.toNat by omega) (by omega)
  have hproduct := signed?_of_bounds
    (show -2 ^ 31 ≤ ((gray.toNat : Int) - low.toNat) * 255 by omega) (by omega)
  have hquotient := natAbs_tdiv_le ((gray.toNat - low.toNat) * 255) (high.toNat - low.toNat)
  have hdiv : signedDiv? ((gray.toNat - low.toNat) * 255) (high.toNat - low.toNat) =
      some (((gray.toNat - low.toNat) * 255 : Int).tdiv (high.toNat - low.toNat)) := by
    rw [signedDiv?, if_neg (by omega)]
    exact signed?_of_bounds (by omega) (by omega)
  simp only [stretchLevel?, hdistance, hproduct, hdiv, Option.bind_eq_bind, Option.bind_some]
  rw [byte?_eq_some_iff, stretchLevel, Nat.toUInt8, UInt8.toNat_ofNat', Nat.mod_eq_of_lt (by omega)]
  omega

theorem stretch?_eq (low high : UInt8) (grays : Array UInt8) :
    stretch? low high grays = some (stretch low high grays) := by
  have hlow := low.toNat_lt
  have hhigh := high.toNat_lt
  have hrange := signed?_of_bounds
    (show -2 ^ 31 ≤ (high.toNat : Int) - low.toNat by omega) (by omega)
  simp only [stretch?, hrange, Option.bind_eq_bind, Option.bind_some]
  by_cases h : low < high
  · have hlt : low.toNat < high.toNat := h
    rw [if_neg (by omega), stretch, if_pos h, funext (stretchLevel?_eq h)]
    exact Array.mapM_pure
  · have hle : high.toNat ≤ low.toNat := UInt8.not_lt.mp h
    rw [if_pos (by omega), stretch, if_neg h]
    rfl

/-! ### Counts -/

namespace BitCounter

def add? (c : BitCounter) (x : UInt32) : Option BitCounter :=
  (Vector.ofFnM fun bit : Fin 32 => do
    let one ← bitOf? x bit
    word? (c.counts[bit].toNat + one.toNat)).map BitCounter.mk

theorem add?_eq {c : BitCounter} (h : ∀ bit (_ : bit < 32), c.counts[bit].toNat + 1 < 2 ^ 32)
    (x : UInt32) : c.add? x = some (c.add x) := by
  have hcount (bit : Fin 32) : (do
      let one ← bitOf? x bit
      word? (c.counts[bit].toNat + one.toNat)) = pure (c.add x).counts[bit] := by
    have hroom := h bit bit.isLt
    have hone := toNat_bitOf_le x bit.isLt
    have hsum : (c.add x).counts[bit].toNat = c.counts[bit].toNat + (bitOf x bit).toNat := by
      rw [Fin.getElem_fin, getElem_add c x bit.isLt, UInt32.toNat_add]
      exact Nat.mod_eq_of_lt (by omega)
    rw [bitOf?_eq x bit.isLt, Option.bind_eq_bind, Option.bind_some]
    exact word?_eq_some_iff.mpr hsum.symm
  rw [add?, funext hcount, Vector.ofFnM_pure]
  exact congrArg (some ∘ BitCounter.mk) (Vector.ofFn_getElem ..)

def stats? (c : BitCounter) (total : UInt64) : Option (List BitStat) :=
  (Vector.ofFnM fun bit : Fin 32 => do
    return { entry total bit c.counts[bit] with bit := ← byte? bit }).map Vector.toList

theorem stats?_eq (c : BitCounter) (total : UInt64) : c.stats? total = some (c.stats total) := by
  have hentry (bit : Fin 32) :
      (do return { entry total bit c.counts[bit] with bit := ← byte? bit }) =
        (pure (entry total bit c.counts[bit]) : Option BitStat) := by
    have hnumber : byte? bit = some bit.val.toUInt8 :=
      byte?_eq_some_iff.mpr (UInt8.toNat_ofNat_of_lt' (Nat.lt_trans bit.isLt (by decide))).symm
    rw [hnumber]
    rfl
  rw [stats?, funext hentry, Vector.ofFnM_pure]
  apply congrArg some
  apply List.ext_getElem
  · simp [stats]
  · intro bit _ hbit
    simp [stats, entry]

end BitCounter

namespace Density

def cell? (side previous x : UInt32) : Option Nat := do
  let column ← mod? previous.toNat side.toNat
  let row ← mod? x.toNat side.toNat
  return row * side.toNat + column

def add? (d : Density) (cell : Nat) : Option Density :=
  match d with
  | ⟨hits, most⟩ =>
    if h : cell < hits.size then do
      let n ← word? (hits[cell].toNat + 1)
      return ⟨hits.set cell n, max most n⟩
    else none

theorem cell?_eq {side : UInt32} (h : 0 < side.toNat) (previous x : UInt32) :
    cell? side previous x = some (cell side previous x) := by
  simp only [cell?, mod?_of_pos h, Option.bind_eq_bind, Option.bind_some, toNat_cell]
  rfl

theorem add?_eq {d : Density} {cell : Nat} (h : cell < d.hits.size)
    (hroom : d.hits[cell].toNat + 1 < 2 ^ 32) : d.add? cell = some (d.add cell) := by
  have hnext : word? (d.hits[cell].toNat + 1) = some (d.hits[cell] + 1) := by
    rw [word?_eq_some_iff, UInt32.toNat_add]
    exact (Nat.mod_eq_of_lt hroom).symm
  obtain ⟨hits, most⟩ := d
  simp only at h hnext
  rw [add?, add, dif_pos h, dif_pos h, hnext]
  rfl

end Density

end OrbitImage
