import Mathlib.Data.Finset.Card
import Mathlib.Dynamics.PeriodicPts.Lemmas
import Mathlib.Order.Interval.Finset.Nat
import Mathlib.Tactic.NormNum.Prime
import OrbitImage.Generator
import OrbitImage.Proofs.Generator.Linear
/-!
The built-in generators that shift and join bits lose no value. The step of Xorshift32 is linear,
and zero apart all words are on one cycle. The step of SplitMix has an inverse, so that every orbit
returns to its seed and no two orbits meet.
-/
namespace OrbitImage

theorem Generator.orbit_eq_iterate (g : Generator) (seed : UInt32) (n : Nat) :
    g.orbit seed n = g.step^[n] seed := by
  induction n with
  | zero => rfl
  | succ n ih => rw [orbit, ih, Function.iterate_succ_apply']

/-! ### Cycles -/

/-- A return that no prime divisor shortens is the first one. -/
theorem minimalPeriod_eq_of_primes {α : Type} {f : α → α} {x : α} {n : Nat}
    (hreturn : f^[n] x = x) (hshorter : ∀ q, q.Prime → q ∣ n → f^[n / q] x ≠ x) :
    Function.minimalPeriod f x = n := by
  obtain ⟨k, hk⟩ := Function.IsPeriodicPt.minimalPeriod_dvd hreturn
  by_contra hne
  have hk1 : k ≠ 1 := by
    rintro rfl
    exact hne (hk.trans (Nat.mul_one _)).symm
  obtain ⟨q, hq, j, rfl⟩ := Nat.exists_prime_and_dvd hk1
  have hquot : n / q = Function.minimalPeriod f x * j := by
    rw [hk, Nat.mul_left_comm, Nat.mul_div_cancel_left _ hq.pos]
  apply hshorter q hq (hk ▸ Dvd.dvd.mul_left (Nat.dvd_mul_right q j) _)
  rw [hquot]
  exact (Function.isPeriodicPt_minimalPeriod f x).mul_const j

/-- A cycle of as many words as there are, zero apart, that does not meet zero has them all. -/
theorem existsUnique_iterate_of_minimalPeriod {f : UInt32 → UInt32} {x : UInt32}
    (hperiod : Function.minimalPeriod f x = 2 ^ 32 - 1) (hpos : ∀ n, f^[n] x ≠ 0) {y : UInt32}
    (hy : y ≠ 0) : ∃! n, n < 2 ^ 32 - 1 ∧ f^[n] x = y := by
  have hpos' {z : UInt32} (hz : z ≠ 0) : 1 ≤ z.toNat :=
    Nat.pos_of_ne_zero fun h => hz (UInt32.toNat_inj.mp h)
  have hinj : Set.InjOn (fun n => (f^[n] x).toNat) (Finset.range (2 ^ 32 - 1)) := by
    intro i hi j hj heq
    rw [Finset.coe_range, ← hperiod] at hi hj
    exact Function.iterate_injOn_Iio_minimalPeriod hi hj (UInt32.toNat_inj.mp heq)
  have hall : (Finset.range (2 ^ 32 - 1)).image (fun n => (f^[n] x).toNat) =
      Finset.Ico 1 (2 ^ 32) := by
    apply Finset.eq_of_subset_of_card_le
    · intro v hv
      obtain ⟨n, -, rfl⟩ := Finset.mem_image.mp hv
      exact Finset.mem_Ico.mpr ⟨hpos' (hpos n), (f^[n] x).toNat_lt⟩
    · rw [Finset.card_image_of_injOn hinj, Finset.card_range, Nat.card_Ico]
  have hmem : y.toNat ∈ Finset.Ico 1 (2 ^ 32) := Finset.mem_Ico.mpr ⟨hpos' hy, y.toNat_lt⟩
  rw [← hall] at hmem
  obtain ⟨n, hn, heq⟩ := Finset.mem_image.mp hmem
  refine ⟨n, ⟨Finset.mem_range.mp hn, UInt32.toNat_inj.mp heq⟩, ?_⟩
  rintro j ⟨hj, rfl⟩
  exact hinj (Finset.coe_range _ ▸ hj) hn heq.symm

namespace BuiltIn

/-! ### The step that is linear -/

theorem xorLinear_xorshift32 : XorLinear (step .xorshift32) :=
  have stage (n : UInt32) : XorLinear fun x => x ^^^ (x <<< n) :=
    XorLinear.refl.xor (XorLinear.shiftLeft n)
  (stage 5).comp ((XorLinear.refl.xor (XorLinear.shiftRight 17)).comp (stage 13))

/-- The polynomial of degree 32 that vanishes at the step. -/
def xorshiftModulus : Nat :=
  0x1003ec241

theorem apply_xorshiftModulus (x : UInt32) :
    BitPoly.apply (step .xorshift32) xorshiftModulus x = 0 := by
  apply (BitPoly.xorLinear_apply xorLinear_xorshift32 xorshiftModulus).eq_of_units .zero
  decide +kernel

theorem apply_pow_two (e : Nat) (x : UInt32) :
    BitPoly.apply (step .xorshift32) (BitPoly.pow xorshiftModulus 2 e) x =
      (step .xorshift32)^[e] x := by
  rw [BitPoly.apply_pow apply_xorshiftModulus xorLinear_xorshift32, funext BitPoly.apply_two]

theorem step_xorshift32_eq_zero_iff (a : UInt32) : step .xorshift32 a = 0 ↔ a = 0 := by
  constructor
  · intro h
    -- The lowest coefficient of the modulus is one, so the others make an inverse of the step.
    have hzero := apply_xorshiftModulus a
    rw [BitPoly.apply_eq, h, (BitPoly.xorLinear_apply xorLinear_xorshift32 _).map_zero,
      UInt32.xor_zero] at hzero
    exact hzero
  · rintro rfl
    exact xorLinear_xorshift32.map_zero

theorem pow_two_full : BitPoly.pow xorshiftModulus 2 (2 ^ 32 - 1) = 1 := by
  decide +kernel

theorem iterate_xorshift32_full (x : UInt32) : (step .xorshift32)^[2 ^ 32 - 1] x = x := by
  rw [← apply_pow_two, pow_two_full, BitPoly.apply_one]

/-- What a shorter power differs by from one has an inverse, since a power of it is one. -/
theorem pow_shorter : ∀ q ∈ [3, 5, 17, 257, 65537],
    BitPoly.pow xorshiftModulus (BitPoly.pow xorshiftModulus 2 ((2 ^ 32 - 1) / q) ^^^ 1)
      (2 ^ 32 - 1) = 1 := by
  decide +kernel

theorem mem_of_prime_dvd {q : Nat} (hq : q.Prime) (hdvd : q ∣ 2 ^ 32 - 1) :
    q ∈ [3, 5, 17, 257, 65537] := by
  have hfactors : (2 ^ 32 - 1 : Nat) = 3 * 5 * 17 * 257 * 65537 := by decide
  have hprime {p : Nat} (hp : p.Prime) : q ∣ p ↔ q = p := Nat.prime_dvd_prime_iff_eq hq hp
  rw [hfactors] at hdvd
  simp only [hq.dvd_mul, hprime (show Nat.Prime 3 by norm_num),
    hprime (show Nat.Prime 5 by norm_num), hprime (show Nat.Prime 17 by norm_num),
    hprime (show Nat.Prime 257 by norm_num),
    hprime (show Nat.Prime 65537 by norm_num)] at hdvd
  simpa only [List.mem_cons, List.not_mem_nil, or_false, or_assoc] using hdvd

theorem iterate_xorshift32_shorter {x : UInt32} (hx : x ≠ 0) {q : Nat}
    (hq : q ∈ [3, 5, 17, 257, 65537]) : (step .xorshift32)^[(2 ^ 32 - 1) / q] x ≠ x := by
  intro hreturn
  have hinverse := BitPoly.apply_pow apply_xorshiftModulus xorLinear_xorshift32
    (BitPoly.pow xorshiftModulus 2 ((2 ^ 32 - 1) / q) ^^^ 1) (2 ^ 32 - 2 + 1) x
  have hzero : BitPoly.apply (step .xorshift32)
      (BitPoly.pow xorshiftModulus 2 ((2 ^ 32 - 1) / q) ^^^ 1) x = 0 := by
    rw [BitPoly.apply_xor, apply_pow_two, hreturn, BitPoly.apply_one, UInt32.xor_self]
  rw [Function.iterate_succ_apply, hzero, Function.iterate_fixed
    (BitPoly.xorLinear_apply xorLinear_xorshift32 _).map_zero] at hinverse
  apply hx
  rw [← hinverse]
  exact (BitPoly.apply_one x).symm.trans (congrArg (BitPoly.apply _ · x) (pow_shorter q hq).symm)

theorem minimalPeriod_xorshift32 {x : UInt32} (hx : x ≠ 0) :
    Function.minimalPeriod (step .xorshift32) x = 2 ^ 32 - 1 := by
  apply minimalPeriod_eq_of_primes (iterate_xorshift32_full x)
  intro q hq hdvd
  exact iterate_xorshift32_shorter hx (mem_of_prime_dvd hq hdvd)

theorem orbit_xorshift32_ne_zero {seed : UInt32} (hseed : seed ≠ 0) (n : Nat) :
    (Generator.builtIn .xorshift32).orbit seed n ≠ 0 := by
  induction n with
  | zero => exact hseed
  | succ n ih => exact fun h => ih ((step_xorshift32_eq_zero_iff _).mp h)

/-- The step of Xorshift32 is linear and takes only zero to zero. Every other seed comes back after
2^32 - 1 steps and not before, and meets each word but zero once on its way. -/
theorem xorshift32_cycles :
    (∀ a b, step .xorshift32 (a ^^^ b) = step .xorshift32 a ^^^ step .xorshift32 b) ∧
    (∀ a, step .xorshift32 a = 0 ↔ a = 0) ∧
    ∀ seed, seed ≠ 0 →
      (∀ n, (Generator.builtIn .xorshift32).orbit seed n ≠ 0) ∧
      (Generator.builtIn .xorshift32).orbit seed (2 ^ 32 - 1) = seed ∧
      (∀ n, 0 < n → n < 2 ^ 32 - 1 → (Generator.builtIn .xorshift32).orbit seed n ≠ seed) ∧
      ∀ x, x ≠ 0 → ∃! n, n < 2 ^ 32 - 1 ∧ (Generator.builtIn .xorshift32).orbit seed n = x := by
  refine ⟨xorLinear_xorshift32, step_xorshift32_eq_zero_iff, fun seed hseed => ?_⟩
  have hperiod := minimalPeriod_xorshift32 hseed
  have hpos := orbit_xorshift32_ne_zero hseed
  simp only [Generator.orbit_eq_iterate] at hpos ⊢
  refine ⟨hpos, iterate_xorshift32_full seed, ?_, fun x hx => ?_⟩
  · intro n hn hlt
    rw [← hperiod] at hlt
    exact Function.not_isPeriodicPt_of_pos_of_lt_minimalPeriod (Nat.ne_of_gt hn) hlt
  · exact existsUnique_iterate_of_minimalPeriod hperiod hpos hx

/-- From one to the word with all bits, and back to one. -/
theorem xorshift32_cycles_from_one :
    (Generator.builtIn .xorshift32).orbit 1 (2 ^ 32 - 1) = 1 ∧
      (Generator.builtIn .xorshift32).orbit 1 (2 ^ 31) ≠ 1 ∧
      ∃! n, n < 2 ^ 32 - 1 ∧ (Generator.builtIn .xorshift32).orbit 1 n = 0xffffffff := by
  obtain ⟨-, hreturn, hfirst, hall⟩ := xorshift32_cycles.2.2 1 (by decide)
  exact ⟨hreturn, hfirst (2 ^ 31) (by decide) (by decide), hall 0xffffffff (by decide)⟩

/-! ### The step that has an inverse -/

/-- The step of SplitMix undone: the factors are the inverses modulo 2^32. -/
def unmix (x : UInt32) : UInt32 :=
  let x := x ^^^ (x >>> 16)
  let x := x * 0x7ed1b41d
  let x := x ^^^ (x >>> 13) ^^^ (x >>> 26)
  let x := x * 0xa5cb9243
  x ^^^ (x >>> 16)

theorem xorLinear_fold (n : UInt32) : XorLinear fun x => x ^^^ (x >>> n) :=
  XorLinear.refl.xor (XorLinear.shiftRight n)

/-- A shift by half the bits or more that is joined twice is gone. -/
theorem fold_fold (x : UInt32) : (x ^^^ (x >>> 16)) ^^^ ((x ^^^ (x >>> 16)) >>> 16) = x := by
  apply ((xorLinear_fold 16).comp (xorLinear_fold 16)).eq_of_units .refl
  decide +kernel

theorem unfold_fold (x : UInt32) :
    (x ^^^ (x >>> 13)) ^^^ ((x ^^^ (x >>> 13)) >>> 13) ^^^ ((x ^^^ (x >>> 13)) >>> 26) = x := by
  apply (((xorLinear_fold 13).xor (.shiftRight 26)).comp (xorLinear_fold 13)).eq_of_units .refl
  decide +kernel

theorem fold_unfold (x : UInt32) :
    (x ^^^ (x >>> 13) ^^^ (x >>> 26)) ^^^ ((x ^^^ (x >>> 13) ^^^ (x >>> 26)) >>> 13) = x := by
  apply ((xorLinear_fold 13).comp ((xorLinear_fold 13).xor (.shiftRight 26))).eq_of_units .refl
  decide +kernel

theorem mul_mul_of_eq_one {a b : UInt32} (h : a * b = 1) (x : UInt32) : x * a * b = x := by
  rw [UInt32.mul_assoc, h, UInt32.mul_one]

theorem leftInverse_unmix : Function.LeftInverse unmix (step .splitMix) := by
  intro x
  simp only [step, unmix, fold_fold, unfold_fold,
    mul_mul_of_eq_one (show (0xc2b2ae35 * 0x7ed1b41d : UInt32) = 1 by decide),
    mul_mul_of_eq_one (show (0x85ebca6b * 0xa5cb9243 : UInt32) = 1 by decide)]

theorem rightInverse_unmix : Function.RightInverse unmix (step .splitMix) := by
  intro x
  simp only [step, unmix, fold_fold, fold_unfold,
    mul_mul_of_eq_one (show (0x7ed1b41d * 0xc2b2ae35 : UInt32) = 1 by decide),
    mul_mul_of_eq_one (show (0xa5cb9243 * 0x85ebca6b : UInt32) = 1 by decide)]

/-- The step of SplitMix has an inverse on both sides. So every orbit is periodic from its seed on,
and orbits of different seeds never meet at the same place. -/
theorem splitMix_permutes :
    (Function.LeftInverse unmix (step .splitMix) ∧ Function.RightInverse unmix (step .splitMix)) ∧
    (∀ seed, ∃ n, 0 < n ∧
      ∀ k, (Generator.builtIn .splitMix).orbit seed (k + n) =
        (Generator.builtIn .splitMix).orbit seed k) ∧
    ∀ seed other, seed ≠ other →
      ∀ n, (Generator.builtIn .splitMix).orbit seed n ≠
        (Generator.builtIn .splitMix).orbit other n := by
  have hinj : Function.Injective (step .splitMix) := leftInverse_unmix.injective
  have : Finite UInt32 := Finite.of_injective UInt32.toFin fun _ _ => UInt32.toFin_inj.mp
  refine ⟨⟨leftInverse_unmix, rightInverse_unmix⟩, fun seed => ?_, fun seed other hne n h => ?_⟩
  · obtain ⟨n, hn, hreturn⟩ := Function.mem_periodicPts.mp (hinj.mem_periodicPts seed)
    refine ⟨n, hn, fun k => ?_⟩
    rw [Generator.orbit_eq_iterate, Generator.orbit_eq_iterate, Function.iterate_add_apply]
    exact congrArg _ hreturn
  · rw [Generator.orbit_eq_iterate, Generator.orbit_eq_iterate] at h
    exact hne (hinj.iterate n h)

/-- Neighbouring seeds, and the seed that stays where it is. -/
theorem splitMix_permutes_neighbours :
    (∀ n, (Generator.builtIn .splitMix).orbit 0 n ≠ (Generator.builtIn .splitMix).orbit 1 n) ∧
      unmix (step .splitMix 1) = 1 ∧ (Generator.builtIn .splitMix).orbit 0 1 = 0 :=
  ⟨splitMix_permutes.2.2 0 1 (by decide), splitMix_permutes.1.1 1, by decide⟩

end BuiltIn

end OrbitImage
