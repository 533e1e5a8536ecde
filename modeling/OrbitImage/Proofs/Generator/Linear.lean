import Mathlib.Data.Nat.Bitwise
import Mathlib.Logic.Function.Iterate
/-!
Maps of words that are linear over exclusive or. Such a map is known by what it does to the words
with one bit. Polynomials in it are numbers whose bits are the coefficients; modulo a polynomial
that vanishes at the map they stay below 33 bits, so that high powers of the map can be computed.
-/
namespace OrbitImage

def XorLinear (f : UInt32 → UInt32) : Prop :=
  ∀ a b, f (a ^^^ b) = f a ^^^ f b

namespace XorLinear

variable {f g : UInt32 → UInt32}

theorem refl : XorLinear fun x => x :=
  fun _ _ => rfl

theorem zero : XorLinear fun _ => 0 :=
  fun _ _ => UInt32.xor_self.symm

theorem shiftLeft (n : UInt32) : XorLinear (· <<< n) :=
  fun _ _ => UInt32.shiftLeft_xor

theorem shiftRight (n : UInt32) : XorLinear (· >>> n) :=
  fun _ _ => UInt32.shiftRight_xor

theorem comp (hf : XorLinear f) (hg : XorLinear g) : XorLinear (f ∘ g) := by
  intro a b
  rw [Function.comp_apply, hg, hf]
  rfl

theorem xor (hf : XorLinear f) (hg : XorLinear g) : XorLinear fun x => f x ^^^ g x := by
  intro a b
  simp only [hf a b, hg a b]
  ac_rfl

theorem map_zero (hf : XorLinear f) : f 0 = 0 := by
  have h := hf 0 0
  rwa [UInt32.xor_self, UInt32.xor_self] at h

/-- The word with a single bit. -/
def unit (k : Nat) : UInt32 :=
  UInt32.ofNat (2 ^ k)

theorem toNat_unit {k : Nat} (h : k < 32) : (unit k).toNat = 2 ^ k :=
  UInt32.toNat_ofNat_of_lt' (Nat.pow_lt_pow_right Nat.one_lt_two h)

theorem toNat_xor_unit_lt {k : Nat} (hk : k < 32) {x : UInt32} (hx : x.toNat < 2 ^ (k + 1))
    (hbit : x.toNat.testBit k) : (x ^^^ unit k).toNat < 2 ^ k := by
  apply Nat.lt_pow_two_of_testBit
  intro i hi
  rw [UInt32.toNat_xor, toNat_unit hk, Nat.testBit_xor, Nat.testBit_two_pow]
  rcases Nat.eq_or_lt_of_le hi with rfl | hlt
  · rw [hbit, decide_eq_true rfl, Bool.xor_self]
  · have hhigh : x.toNat < 2 ^ i := Nat.lt_of_lt_of_le hx (Nat.pow_le_pow_right Nat.two_pos hlt)
    rw [Nat.testBit_lt_two_pow hhigh, decide_eq_false (Nat.ne_of_lt hlt), Bool.xor_false]

theorem eq_of_units (hf : XorLinear f) (hg : XorLinear g)
    (h : ∀ k < 32, f (unit k) = g (unit k)) (x : UInt32) : f x = g x := by
  -- By induction on the number of low bits that may be set; the highest of them is split off.
  have hbelow (n : Nat) (hn : n ≤ 32) : ∀ x : UInt32, x.toNat < 2 ^ n → f x = g x := by
    induction n with
    | zero =>
        intro x hx
        obtain rfl : x = 0 := UInt32.toNat_inj.mp (Nat.lt_one_iff.mp hx)
        rw [hf.map_zero, hg.map_zero]
    | succ n ih =>
        intro x hx
        by_cases hbit : x.toNat.testBit n
        · have hrest := ih (Nat.le_of_succ_le hn) _ (toNat_xor_unit_lt hn hx hbit)
          rw [hf, hg, h n hn] at hrest
          exact (UInt32.xor_left_inj _).mp hrest
        · apply ih (Nat.le_of_succ_le hn)
          apply Nat.lt_pow_two_of_testBit
          intro i hi
          rcases Nat.eq_or_lt_of_le hi with rfl | hlt
          · exact Bool.not_eq_true _ ▸ hbit
          · exact Nat.testBit_lt_two_pow
              (Nat.lt_of_lt_of_le hx (Nat.pow_le_pow_right Nat.two_pos hlt))
  exact hbelow 32 (Nat.le_refl 32) x x.toNat_lt

end XorLinear

/-! ### Polynomials -/

namespace BitPoly

/-- The lowest coefficient times a word. -/
def lowest (p : Nat) (x : UInt32) : UInt32 :=
  if p % 2 = 1 then x else 0

/-- The polynomial at a map: the values of the orbit of `x` that its coefficients choose, joined. -/
def apply (f : UInt32 → UInt32) (p : Nat) (x : UInt32) : UInt32 :=
  if p = 0 then 0 else lowest p x ^^^ apply f (p / 2) (f x)

/-- The product with the variable, modulo a polynomial of degree 32. -/
def shift (m p : Nat) : Nat :=
  if p < 2 ^ 31 then 2 * p else (2 * p) ^^^ m

/-- The product with `q`, from the highest of the low coefficients on. -/
def mulBelow (m q : Nat) : Nat → Nat → Nat
  | 0, _ => 0
  | n + 1, p =>
    let r := shift m (mulBelow m q n (p / 2))
    if p % 2 = 1 then r ^^^ q else r

def mul (m p q : Nat) : Nat :=
  mulBelow m q (p.log2 + 1) p

/-- A power by squaring, from the highest of the low bits of the exponent on. -/
def powBelow (m p : Nat) : Nat → Nat → Nat
  | 0, _ => 1
  | n + 1, e =>
    let root := powBelow m p n (e / 2)
    let square := mul m root root
    if e % 2 = 1 then mul m p square else square

def pow (m p e : Nat) : Nat :=
  powBelow m p (e.log2 + 1) e

variable {f : UInt32 → UInt32}

theorem lowest_xor (p q : Nat) (x : UInt32) : lowest (p ^^^ q) x = lowest p x ^^^ lowest q x := by
  unfold lowest
  rw [if_congr Nat.xor_mod_two_eq_one rfl rfl]
  by_cases hp : p % 2 = 1 <;> by_cases hq : q % 2 = 1 <;> simp [hp, hq]

theorem apply_zero (x : UInt32) : apply f 0 x = 0 := by
  rw [apply, if_pos rfl]

theorem apply_eq (p : Nat) (x : UInt32) :
    apply f p x = lowest p x ^^^ apply f (p / 2) (f x) := by
  rcases Nat.eq_zero_or_pos p with rfl | hp
  · simp [apply_zero, lowest]
  · rw [apply, if_neg (Nat.ne_of_gt hp)]

theorem apply_one (x : UInt32) : apply f 1 x = x := by
  simp [apply_eq 1, apply_zero, lowest]

theorem apply_double (p : Nat) (x : UInt32) : apply f (2 * p) x = apply f p (f x) := by
  rw [apply_eq, lowest, if_neg (by omega), UInt32.zero_xor, Nat.mul_div_cancel_left p Nat.two_pos]

theorem apply_two (x : UInt32) : apply f 2 x = f x :=
  (apply_double 1 x).trans (apply_one _)

theorem apply_xor (p q : Nat) (x : UInt32) :
    apply f (p ^^^ q) x = apply f p x ^^^ apply f q x := by
  induction p using Nat.strong_induction_on generalizing q x with
  | _ p ih =>
      rcases Nat.eq_zero_or_pos p with rfl | hp
      · rw [Nat.zero_xor, apply_zero, UInt32.zero_xor]
      · have hrest := ih (p / 2) (Nat.div_lt_self hp Nat.one_lt_two) (q / 2) (f x)
        rw [apply_eq (p ^^^ q), Nat.xor_div_two, hrest, lowest_xor, apply_eq p, apply_eq q]
        ac_rfl

section Linear

variable (hf : XorLinear f)
include hf

theorem xorLinear_apply (p : Nat) : XorLinear (apply f p) := by
  induction p using Nat.strong_induction_on with
  | _ p ih =>
      intro a b
      rcases Nat.eq_zero_or_pos p with rfl | hp
      · simp only [apply_zero, UInt32.xor_self]
      · have hrest := ih (p / 2) (Nat.div_lt_self hp Nat.one_lt_two)
        have hlowest : lowest p (a ^^^ b) = lowest p a ^^^ lowest p b := by
          unfold lowest
          split
          · rfl
          · exact UInt32.xor_self.symm
        rw [apply_eq, apply_eq p a, apply_eq p b, hf, hrest, hlowest]
        ac_rfl

/-- A polynomial at a map commutes with the map. -/
theorem apply_map (p : Nat) (x : UInt32) : apply f p (f x) = f (apply f p x) := by
  induction p using Nat.strong_induction_on generalizing x with
  | _ p ih =>
      rcases Nat.eq_zero_or_pos p with rfl | hp
      · rw [apply_zero, apply_zero, hf.map_zero]
      · have hlowest : lowest p (f x) = f (lowest p x) := by
          unfold lowest
          split
          · rfl
          · exact hf.map_zero.symm
        rw [apply_eq, apply_eq p x, hf, hlowest, ih (p / 2) (Nat.div_lt_self hp Nat.one_lt_two)]

end Linear

/-! ### Modulo a polynomial that vanishes -/

section Modulus

variable {m : Nat} (hm : ∀ x, apply f m x = 0)
include hm

theorem apply_shift (p : Nat) (x : UInt32) : apply f (shift m p) x = apply f p (f x) := by
  unfold shift
  split
  · exact apply_double p x
  · rw [apply_xor, apply_double, hm, UInt32.xor_zero]

variable (hf : XorLinear f)
include hf

theorem apply_mulBelow (q : Nat) {n p : Nat} (hp : p < 2 ^ n) (x : UInt32) :
    apply f (mulBelow m q n p) x = apply f p (apply f q x) := by
  induction n generalizing p x with
  | zero =>
      obtain rfl : p = 0 := Nat.lt_one_iff.mp hp
      rw [mulBelow, apply_zero, apply_zero]
  | succ n ih =>
      have hhalf : p / 2 < 2 ^ n := by omega
      have hhigh : apply f (shift m (mulBelow m q n (p / 2))) x =
          apply f (p / 2) (f (apply f q x)) := by
        rw [apply_shift hm, ih hhalf, apply_map hf q x]
      rw [apply_eq p, mulBelow, lowest]
      split
      · rw [apply_xor, hhigh, UInt32.xor_comm]
      · rw [hhigh, UInt32.zero_xor]

theorem apply_mul (p q : Nat) (x : UInt32) :
    apply f (mul m p q) x = apply f p (apply f q x) :=
  apply_mulBelow hm hf q Nat.lt_log2_self x

theorem apply_powBelow (p : Nat) {n e : Nat} (he : e < 2 ^ n) (x : UInt32) :
    apply f (powBelow m p n e) x = (apply f p)^[e] x := by
  induction n generalizing e x with
  | zero =>
      obtain rfl : e = 0 := Nat.lt_one_iff.mp he
      exact apply_one x
  | succ n ih =>
      have hhalf : e / 2 < 2 ^ n := by omega
      have hsquare : apply f (mul m (powBelow m p n (e / 2)) (powBelow m p n (e / 2))) x =
          (apply f p)^[e / 2 + e / 2] x := by
        rw [apply_mul hm hf, ih hhalf, ih hhalf, Function.iterate_add_apply]
      rw [powBelow]
      split
      · have hexp : (e / 2 + e / 2).succ = e := by omega
        rw [apply_mul hm hf, hsquare, ← Function.iterate_succ_apply' (apply f p), hexp]
      · have hexp : e / 2 + e / 2 = e := by omega
        rw [hsquare, hexp]

theorem apply_pow (p e : Nat) (x : UInt32) : apply f (pow m p e) x = (apply f p)^[e] x :=
  apply_powBelow hm hf p Nat.lt_log2_self x

end Modulus

end BitPoly

end OrbitImage
