import Mathlib.Data.Nat.ModEq
import Mathlib.Tactic.Ring
import OrbitImage.Proofs.Image.Orbit
/-!
Orbits of the built-in generators that add and multiply, modulo powers of two. The congruential
generator runs like an odometer: a power of two of its steps turns one bit and keeps those below,
so that each window of values shows each residue once and each bit is set in half of them. Adding
four runs through a quarter of the words, and doubling ends on zero.
-/
namespace OrbitImage

/-! ### Odometers -/

/-- After `2 ^ k` steps bit `k` has turned, and the bits below it are where they were. -/
def Odometer (bits : Nat) (v : Nat → Nat) : Prop :=
  ∀ k < bits, ∀ i, v (i + 2 ^ k) ≡ v i + 2 ^ k [MOD 2 ^ (k + 1)]

/-- A residue modulo the next power of two is a residue and one more bit. -/
theorem mod_two_pow_succ_eq_iff {k r : Nat} (hr : r < 2 ^ (k + 1)) (n : Nat) :
    n % 2 ^ (k + 1) = r ↔ n % 2 ^ k = r % 2 ^ k ∧ n.testBit k = r.testBit k := by
  constructor
  · rintro rfl
    constructor
    · rw [Nat.mod_mod_of_dvd n (Nat.pow_dvd_pow 2 (Nat.le_succ k))]
    · rw [Nat.testBit_mod_two_pow, decide_eq_true (Nat.lt_succ_self k), Bool.true_and]
  · rintro ⟨hlow, hbit⟩
    rw [← Nat.mod_eq_of_lt hr, Nat.mod_pow_succ, Nat.mod_pow_succ, ← Nat.toNat_testBit,
      ← Nat.toNat_testBit, hlow, hbit]

namespace Odometer

variable {bits : Nat} {v : Nat → Nat} (h : Odometer bits v)
include h

theorem mod_add {k : Nat} (hk : k < bits) (i : Nat) : v (i + 2 ^ k) % 2 ^ k = v i % 2 ^ k := by
  have hlow : v (i + 2 ^ k) ≡ v i + 2 ^ k [MOD 2 ^ k] :=
    (h k hk i).of_dvd (Nat.pow_dvd_pow 2 (Nat.le_succ k))
  exact hlow.trans (Nat.add_mod_right (v i) (2 ^ k))

theorem testBit_add {k : Nat} (hk : k < bits) (i : Nat) :
    (v (i + 2 ^ k)).testBit k = !(v i).testBit k := by
  have hbit (n : Nat) : (n % 2 ^ (k + 1)).testBit k = n.testBit k := by
    rw [Nat.testBit_mod_two_pow, decide_eq_true (Nat.lt_succ_self k), Bool.true_and]
  rw [← hbit, h k hk i, hbit, Nat.add_comm, Nat.testBit_two_pow_add_eq]

/-- A window as long as the modulus shows each residue once. -/
theorem existsUnique_residue {m : Nat} (hm : m ≤ bits) (start : Nat) {r : Nat} (hr : r < 2 ^ m) :
    ∃! i, i < 2 ^ m ∧ v (start + i) % 2 ^ m = r := by
  -- The window of the next modulus is two windows; the second repeats the low bits of the first
  -- and turns the new bit, so just one of the two has the residue in question.
  induction m generalizing r with
  | zero =>
      refine ⟨0, ⟨Nat.one_pos, ?_⟩, ?_⟩
      · rw [Nat.pow_zero, Nat.mod_one]
        exact (Nat.lt_one_iff.mp hr).symm
      · rintro j ⟨hj, -⟩
        exact Nat.lt_one_iff.mp hj
  | succ m ih =>
      have hdouble : 2 ^ (m + 1) = 2 ^ m + 2 ^ m := by omega
      have hwindow (j : Nat) : start + (j + 2 ^ m) = start + j + 2 ^ m := by omega
      obtain ⟨i, ⟨hi, hlow⟩, honly⟩ :=
        ih (Nat.le_of_succ_le hm) (Nat.mod_lt r (Nat.two_pow_pos m))
      have hfirst {j : Nat} (hj : j < 2 ^ (m + 1)) (hres : v (start + j) % 2 ^ m = r % 2 ^ m) :
          j = i ∨ j = i + 2 ^ m := by
        by_cases hhalf : j < 2 ^ m
        · exact .inl (honly j ⟨hhalf, hres⟩)
        · obtain ⟨j, rfl⟩ := Nat.exists_eq_add_of_le' (Nat.le_of_not_lt hhalf)
          rw [hwindow, h.mod_add hm] at hres
          exact .inr (congrArg (· + 2 ^ m) (honly j ⟨by omega, hres⟩))
      have hturn := h.testBit_add hm (start + i)
      simp only [mod_two_pow_succ_eq_iff hr]
      by_cases hbit : (v (start + i)).testBit m = r.testBit m
      · refine ⟨i, ⟨by omega, hlow, hbit⟩, ?_⟩
        rintro j ⟨hj, hres, hsame⟩
        rcases hfirst hj hres with rfl | rfl
        · rfl
        · rw [hwindow, hturn, hbit] at hsame
          exact absurd hsame (Bool.not_ne_self _)
      · refine ⟨i + 2 ^ m, ⟨by omega, ?_, ?_⟩, ?_⟩
        · rw [hwindow, h.mod_add hm, hlow]
        · rw [hwindow, hturn, Bool.not_eq.mpr hbit]
        · rintro j ⟨hj, hres, hsame⟩
          rcases hfirst hj hres with rfl | rfl
          · exact absurd hsame hbit
          · rfl

theorem countP_turn {k : Nat} (hk : k < bits) (start : Nat) :
    (List.range' start (2 ^ (k + 1))).countP (fun i => (v i).testBit k) = 2 ^ k := by
  have hsecond : (List.range' (start + 2 ^ k) (2 ^ k)).countP (fun i => (v i).testBit k) =
      (List.range' start (2 ^ k)).countP fun i => !(v i).testBit k := by
    rw [List.range'_eq_map_range, List.range'_eq_map_range, List.countP_map, List.countP_map]
    apply List.countP_congr
    intro i _
    simp only [Function.comp_apply, Nat.add_right_comm start (2 ^ k) i, h.testBit_add hk]
  have hall := List.length_eq_countP_add_countP
    (fun i => (v i).testBit k) (l := List.range' start (2 ^ k))
  simp only [List.length_range', Bool.not_eq_true, Bool.decide_eq_false] at hall
  rw [Nat.pow_succ, Nat.mul_two, ← List.range'_append_1, List.countP_append, hsecond]
  exact hall.symm

/-- In windows of whole turns of a bit, half of the values have it set. -/
theorem countP_testBit {k : Nat} (hk : k < bits) (start turns : Nat) :
    (List.range' start (turns * 2 ^ (k + 1))).countP (fun i => (v i).testBit k) = turns * 2 ^ k := by
  induction turns with
  | zero => simp only [Nat.zero_mul, List.range'_zero, List.countP_nil]
  | succ turns ih =>
      rw [Nat.succ_mul, Nat.succ_mul, ← List.range'_append_1, List.countP_append, ih,
        h.countP_turn hk]

end Odometer

/-- `2 ^ k` steps of a map `a * x + c` are one such step, with a multiplier nearer to one and an
addend that starts at bit `k`. -/
theorem exists_leap {bits a c : Nat} {v : Nat → Nat} (ha : a % 4 = 1) (hc : c % 2 = 1)
    (hstep : ∀ i, v (i + 1) ≡ a * v i + c [MOD 2 ^ bits]) (k : Nat) :
    ∃ t s, ∀ i, v (i + 2 ^ k) ≡ (1 + 2 ^ (k + 2) * t) * v i + 2 ^ k * (2 * s + 1) [MOD 2 ^ bits] := by
  induction k with
  | zero =>
      refine ⟨a / 4, c / 2, ?_⟩
      intro i
      have hmultiplier : 1 + 2 ^ (0 + 2) * (a / 4) = a := by omega
      have haddend : 2 ^ 0 * (2 * (c / 2) + 1) = c := by omega
      rw [hmultiplier, haddend]
      exact hstep i
  | succ k ih =>
      obtain ⟨t, s, hleap⟩ := ih
      refine ⟨t + 2 ^ (k + 1) * t * t, s + 2 ^ k * t * (2 * s + 1), ?_⟩
      intro i
      have htwice : i + 2 ^ (k + 1) = i + 2 ^ k + 2 ^ k := by omega
      rw [htwice]
      calc v (i + 2 ^ k + 2 ^ k)
          ≡ (1 + 2 ^ (k + 2) * t) * v (i + 2 ^ k) + 2 ^ k * (2 * s + 1) [MOD 2 ^ bits] :=
            hleap (i + 2 ^ k)
        _ ≡ (1 + 2 ^ (k + 2) * t) * ((1 + 2 ^ (k + 2) * t) * v i + 2 ^ k * (2 * s + 1)) +
              2 ^ k * (2 * s + 1) [MOD 2 ^ bits] :=
            ((hleap i).mul_left _).add_right _
        _ = _ := by ring

/-- A multiplier that is one modulo four and an odd addend make an odometer. -/
theorem odometer_of_affine {bits a c : Nat} {v : Nat → Nat} (ha : a % 4 = 1) (hc : c % 2 = 1)
    (hstep : ∀ i, v (i + 1) ≡ a * v i + c [MOD 2 ^ bits]) : Odometer bits v := by
  intro k hk i
  obtain ⟨t, s, hleap⟩ := exists_leap ha hc hstep k
  have hpow : 2 ^ (k + 1) ∣ 2 ^ bits := Nat.pow_dvd_pow 2 hk
  calc v (i + 2 ^ k)
      ≡ (1 + 2 ^ (k + 2) * t) * v i + 2 ^ k * (2 * s + 1) [MOD 2 ^ (k + 1)] := (hleap i).of_dvd hpow
    _ = v i + 2 ^ k + 2 ^ (k + 1) * (2 * t * v i + s) := by ring
    _ ≡ v i + 2 ^ k [MOD 2 ^ (k + 1)] := Nat.add_mul_mod_self_left ..

/-! ### Orbits -/

namespace BuiltIn

theorem odometer_lcg (seed : UInt32) :
    Odometer 32 fun i => ((Generator.builtIn .lcg).orbit seed i).toNat := by
  apply odometer_of_affine (a := 1664525) (c := 1013904223) (by decide) (by decide)
  intro i
  generalize hx : (Generator.builtIn .lcg).orbit seed i = x
  have hnext : ((Generator.builtIn .lcg).orbit seed (i + 1)).toNat =
      (x.toNat * 1664525 + 1013904223) % 2 ^ 32 := by
    rw [Generator.orbit, hx, Generator.step, step, UInt32.toNat_add, UInt32.toNat_mul,
      show (1664525 : UInt32).toNat = 1664525 from rfl,
      show (1013904223 : UInt32).toNat = 1013904223 from rfl, Nat.mod_add_mod]
  simp only [hnext, Nat.mul_comm 1664525]
  exact Nat.mod_modEq _ _

theorem toNat_orbit_plusFour (seed : UInt32) (n : Nat) :
    ((Generator.builtIn .plusFour).orbit seed n).toNat = (seed.toNat + 4 * n) % 2 ^ 32 := by
  induction n with
  | zero => exact (Nat.mod_eq_of_lt seed.toNat_lt).symm
  | succ n ih =>
      rw [Generator.orbit, Generator.step, step, UInt32.toNat_add, ih,
        show (4 : UInt32).toNat = 4 from rfl, Nat.mod_add_mod]
      rfl

theorem toNat_orbit_timesTwo (seed : UInt32) (n : Nat) :
    ((Generator.builtIn .timesTwo).orbit seed n).toNat = seed.toNat * 2 ^ n % 2 ^ 32 := by
  induction n with
  | zero => rw [Nat.pow_zero, Nat.mul_one]; exact (Nat.mod_eq_of_lt seed.toNat_lt).symm
  | succ n ih =>
      rw [Generator.orbit, Generator.step, step, UInt32.toNat_mul, ih,
        show (2 : UInt32).toNat = 2 from rfl, Nat.mod_mul_mod, Nat.mul_assoc, ← Nat.pow_succ]

end BuiltIn

/-! ### What the orbits show -/

/-- Each window of `2 ^ m` values shows each residue once. -/
def Generator.ShowsResidues (g : Generator) (seed : UInt32) (m : Nat) : Prop :=
  ∀ start r, r < 2 ^ m → ∃! i, i < 2 ^ m ∧ (g.orbit seed (start + i)).toNat % 2 ^ m = r

/-- A bit is set in half of the first values of an orbit, and the statistics of the image say so. -/
def Image.Halves (image : Image) (orbit : Nat → UInt32) (pixels bit : Nat) : Prop :=
  2 * (List.range' 1 pixels).countP (fun k => (orbit k).toNat.testBit bit) = pixels ∧
  ∃ entries count, image.stats = .bits entries ∧
    entries[bit]? = some (BitCounter.entry pixels.toUInt64 bit count) ∧ 2 * count.toNat = pixels

namespace Resolution

/-- A bit that turns within an image makes whole turns in it. -/
theorem exists_turns (r : Resolution) {k : Nat} (hk : 2 ^ (k + 1) ≤ r.side.toNat ^ 2) :
    k < 32 ∧ ∃ turns, r.pixels = turns * 2 ^ (k + 1) := by
  obtain ⟨n, hn, hpixels⟩ : ∃ n ≤ 32, r.pixels = 2 ^ n := by
    cases r with
    | r256 => exact ⟨16, by decide, rfl⟩
    | r512 => exact ⟨18, by decide, rfl⟩
    | r1024 => exact ⟨20, by decide, rfl⟩
  have hle : k + 1 ≤ n := by
    rw [Nat.pow_two, ← pixels, hpixels] at hk
    exact (Nat.pow_le_pow_iff_right Nat.one_lt_two).mp hk
  refine ⟨Nat.lt_of_lt_of_le hle hn, 2 ^ (n - (k + 1)), ?_⟩
  rw [hpixels, ← Nat.pow_add, Nat.sub_add_cancel hle]

end Resolution

namespace Request

theorem exists_levels {r : Request} (hmode : r.mode ≠ .pair) (g : Generator) :
    ∃ levels, r.synthesize g = r.imageOfLevels g levels := by
  rw [synthesize_of_ne_pair hmode]
  split
  · exact ⟨_, twoPass_eq r g rfl⟩
  · exact ⟨_, singlePass_eq r g⟩

theorem halves_of_odometer {r : Request} (hmode : r.mode ≠ .pair) {g : Generator}
    (h : Odometer 32 fun i => (g.orbit r.seed i).toNat) {bit : Nat}
    (hbit : 2 ^ (bit + 1) ≤ r.resolution.side.toNat ^ 2) :
    (r.synthesize g).Halves (g.orbit r.seed) r.resolution.pixels bit := by
  obtain ⟨hlt, turns, hpixels⟩ := r.resolution.exists_turns hbit
  have hhalf : 2 * (List.range' 1 r.resolution.pixels).countP
      (fun k => (g.orbit r.seed k).toNat.testBit bit) = r.resolution.pixels := by
    rw [hpixels, h.countP_testBit hlt]
    ring
  obtain ⟨levels, hlevels⟩ := exists_levels hmode g
  obtain ⟨count, hcount, hstats⟩ := exists_stats r g levels
  refine ⟨hhalf, _, count bit, by rw [hlevels, hstats], ?_, ?_⟩
  · rw [List.getElem?_map, List.getElem?_range hlt]
    rfl
  · rw [hcount bit hlt, hhalf]

end Request

namespace BuiltIn

theorem existsUnique_orbit_lcg (seed x : UInt32) :
    ∃! i, i < 2 ^ 32 ∧ (Generator.builtIn .lcg).orbit seed i = x := by
  have hword (y : UInt32) : y.toNat % 2 ^ 32 = x.toNat ↔ y = x := by
    rw [Nat.mod_eq_of_lt y.toNat_lt, UInt32.toNat_inj]
  simpa only [hword, Nat.zero_add] using
    (odometer_lcg seed).existsUnique_residue (Nat.le_refl 32) 0 x.toNat_lt

theorem orbit_plusFour_eq_iff (seed : UInt32) (n : Nat) :
    (Generator.builtIn .plusFour).orbit seed n = seed ↔ 2 ^ 30 ∣ n := by
  have hseed := seed.toNat_lt
  rw [← UInt32.toNat_inj, toNat_orbit_plusFour]
  omega

theorem orbit_timesTwo_eq_zero (seed : UInt32) {n : Nat} (hn : 32 ≤ n) :
    (Generator.builtIn .timesTwo).orbit seed n = 0 := by
  apply UInt32.toNat_inj.mp
  rw [toNat_orbit_timesTwo]
  exact Nat.mod_eq_zero_of_dvd (Dvd.dvd.mul_left (Nat.pow_dvd_pow 2 hn) _)

theorem arithmetic_orbits (seed : UInt32) :
    (∀ m, 1 ≤ m → m ≤ 32 → (Generator.builtIn .lcg).ShowsResidues seed m) ∧
    (∀ x, ∃! i, i < 2 ^ 32 ∧ (Generator.builtIn .lcg).orbit seed i = x) ∧
    (∀ r : Request, r.seed = seed → r.mode ≠ .pair →
      ∀ bit, 2 ^ (bit + 1) ≤ r.resolution.side.toNat ^ 2 →
        (r.synthesize (.builtIn .lcg)).Halves ((Generator.builtIn .lcg).orbit seed)
          r.resolution.pixels bit) ∧
    ((Generator.builtIn .plusFour).orbit seed (2 ^ 30) = seed ∧
      (∀ n, 0 < n → n < 2 ^ 30 → (Generator.builtIn .plusFour).orbit seed n ≠ seed) ∧
      ∀ n, ((Generator.builtIn .plusFour).orbit seed n).toNat % 4 = seed.toNat % 4) ∧
    (∃ n ≤ 32, (Generator.builtIn .timesTwo).orbit seed n = 0) ∧
    (∀ n m, n ≤ m → (Generator.builtIn .timesTwo).orbit seed n = 0 →
      (Generator.builtIn .timesTwo).orbit seed m = 0) := by
  refine ⟨?_, existsUnique_orbit_lcg seed, ?_, ⟨?_, ?_, ?_⟩, ?_, ?_⟩
  · intro m _ hm start r hr
    exact (odometer_lcg seed).existsUnique_residue hm start hr
  · rintro r rfl hmode bit hbit
    exact r.halves_of_odometer hmode (odometer_lcg r.seed) hbit
  · exact (orbit_plusFour_eq_iff seed _).mpr (Nat.dvd_refl _)
  · intro n hpos hlt hreturn
    exact Nat.not_le_of_lt hlt (Nat.le_of_dvd hpos ((orbit_plusFour_eq_iff seed n).mp hreturn))
  · intro n
    rw [toNat_orbit_plusFour]
    omega
  · exact ⟨32, Nat.le_refl 32, orbit_timesTwo_eq_zero seed (Nat.le_refl 32)⟩
  · exact fun n m hnm => Generator.orbit_of_fixed rfl hnm

/-- The highest bit that turns within the smallest image, stretched or not. -/
theorem arithmetic_orbits_highest_bit :
    let r : Request := { mode := .transition, seed := 7, contrast := .observed }
    (r.synthesize (.builtIn .lcg)).Halves ((Generator.builtIn .lcg).orbit 7)
        Resolution.r256.pixels 15 ∧
      (∃! i, i < 2 ^ 5 ∧ ((Generator.builtIn .lcg).orbit 7 (3 + i)).toNat % 2 ^ 5 = 9) ∧
      (Generator.builtIn .plusFour).orbit 7 4 ≠ 7 ∧
      (Generator.builtIn .timesTwo).orbit 7 40 = 0 := by
  intro r
  obtain ⟨hresidues, -, hhalves, ⟨-, hreturn, -⟩, -, hzero⟩ := arithmetic_orbits 7
  exact ⟨hhalves r rfl (by decide) 15 (by decide), hresidues 5 (by decide) (by decide) 3 9 (by decide),
    hreturn 4 (by decide) (by decide),
    hzero 32 40 (by decide) (orbit_timesTwo_eq_zero 7 (Nat.le_refl 32))⟩

end BuiltIn

end OrbitImage
