import Mathlib.Algebra.Group.Nat.Defs
import OrbitImage.Image.Balance
/-!
Grey levels, bit counts and grey ranges as numbers: each level is a quotient of natural numbers,
each count is the number of values with the bit set, and a range that starts out crossed ends on a
least and a greatest level.
-/
namespace OrbitImage

/-! ### Bits -/

theorem toNat_bitOf (x : UInt32) {bit : Nat} (h : bit < 32) :
    (bitOf x bit).toNat = (x.toNat.testBit bit).toNat := by
  have hbit : bit.toUInt32.toNat % 32 = bit := by
    rw [Nat.toUInt32, UInt32.toNat_ofNat_of_lt' (Nat.lt_trans h (by decide)), Nat.mod_eq_of_lt h]
  rw [Nat.toNat_testBit, bitOf, UInt32.toNat_and, UInt32.toNat_shiftRight, hbit,
    show (1 : UInt32).toNat = 1 from rfl, Nat.and_one_is_mod, Nat.shiftRight_eq_div_pow]

theorem countP_range_le (n : Nat) (p : Nat → Bool) : (List.range n).countP p ≤ n := by
  simpa only [List.length_range] using List.countP_le_length (l := List.range n) (p := p)

theorem toNat_setBits (x : UInt32) {n : Nat} (h : n ≤ 32) :
    (setBits x n).toNat = (List.range n).countP x.toNat.testBit := by
  induction n with
  | zero => rfl
  | succ n ih =>
      have hcount := countP_range_le n x.toNat.testBit
      have hbit : (x.toNat.testBit n).toNat ≤ 1 := Bool.toNat_le _
      rw [setBits, UInt32.toNat_add, ih (by omega), toNat_bitOf x (by omega),
        Nat.mod_eq_of_lt (by omega), List.range_succ, List.countP_append, List.countP_singleton]
      cases x.toNat.testBit n <;> rfl

theorem toNat_popCount (x : UInt32) :
    (popCount x).toNat = (List.range 32).countP x.toNat.testBit :=
  toNat_setBits x (Nat.le_refl 32)

/-! ### Levels -/

/-- The grey level as a number: of all levels those are taken that lie below the exact value. -/
def Mode.level (mode : Mode) (bit : Nat) (previous x : UInt32) : Nat :=
  match mode with
  | .raw => x.toNat * 255 / 2 ^ 32
  | .bitPlane => 255 * (x.toNat.testBit bit).toNat
  | .hamming => (List.range 32).countP x.toNat.testBit * 255 / 32
  | .transition => (x.toNat ^^^ previous.toNat) * 255 / 2 ^ 32
  | .pair => 0

theorem toNat_scaleWord (x : UInt32) : (scaleWord x).toNat = x.toNat * 255 / 2 ^ 32 := by
  have hx := x.toNat_lt
  have hlevel : x.toNat * 255 / 2 ^ 32 < 2 ^ 8 := by omega
  have hword : x.toNat * 255 < 2 ^ 64 := by omega
  simp only [scaleWord, UInt64.toNat_toUInt8, UInt64.toNat_shiftRight, UInt64.toNat_mul,
    UInt32.toNat_toUInt64]
  rw [show (255 : UInt64).toNat = 255 from rfl, show (32 : UInt64).toNat % 64 = 32 from rfl,
    Nat.mod_eq_of_lt hword, Nat.shiftRight_eq_div_pow, Nat.mod_eq_of_lt hlevel]

theorem Mode.toNat_gray (mode : Mode) {bitPlane : UInt8} (h : bitPlane ≤ 31) (previous x : UInt32) :
    (mode.gray bitPlane previous x).toNat = mode.level bitPlane.toNat previous x := by
  cases mode with
  | raw => exact toNat_scaleWord x
  | bitPlane =>
      have hbit : bitPlane.toNat < 32 := Nat.lt_succ_of_le h
      have hle : (x.toNat.testBit bitPlane.toNat).toNat ≤ 1 := Bool.toNat_le _
      simp only [gray, level, UInt32.toNat_toUInt8, UInt32.toNat_mul, toNat_bitOf x hbit]
      rw [show (255 : UInt32).toNat = 255 from rfl]
      omega
  | hamming =>
      have hcount := countP_range_le 32 x.toNat.testBit
      simp only [gray, level, UInt32.toNat_toUInt8, UInt32.toNat_div, UInt32.toNat_mul,
        toNat_popCount]
      rw [show (255 : UInt32).toNat = 255 from rfl, show (32 : UInt32).toNat = 32 from rfl,
        Nat.mod_eq_of_lt (show _ * 255 < 2 ^ 32 by omega), Nat.mod_eq_of_lt (by omega)]
  | pair => rfl
  | transition =>
      rw [gray, toNat_scaleWord, UInt32.toNat_xor]
      rfl

/-! ### Ranges -/

instance instLawfulOrderMaxUInt8 : Std.LawfulOrderMax UInt8 where
  max_eq_or a b := by
    rw [show max a b = if a ≤ b then b else a from rfl]
    split
    · exact .inr rfl
    · exact .inl rfl
  max_le_iff a b c := by
    rw [show max a b = if a ≤ b then b else a from rfl]
    split
    · exact ⟨fun h => ⟨UInt8.le_trans ‹a ≤ b› h, h⟩, And.right⟩
    · have hb : b ≤ a := UInt8.le_of_lt (UInt8.not_le.mp ‹¬a ≤ b›)
      exact ⟨fun h => ⟨h, UInt8.le_trans hb h⟩, And.left⟩

namespace GrayRange

theorem foldl_observe (grays : List UInt8) (range : GrayRange) :
    grays.foldl observe range = ⟨grays.foldl Min.min range.min, grays.foldl Max.max range.max⟩ := by
  induction grays generalizing range with
  | nil => rfl
  | cons gray grays ih => exact ih (range.observe gray)

/-- The crossed start leaves no trace once a level has been observed. -/
theorem min_foldl_observe {grays : List UInt8} (h : grays ≠ []) :
    (grays.foldl observe {}).min ∈ grays ∧ ∀ gray ∈ grays, (grays.foldl observe {}).min ≤ gray := by
  have hmin : (grays.foldl observe {}).min = grays.min h := by
    rw [foldl_observe, List.foldl_min_eq_min h]
    exact UInt8.le_antisymm Std.min_le_right
      (Std.le_min_iff.mpr ⟨Nat.le_of_lt_succ (grays.min h).toNat_lt, UInt8.le_refl _⟩)
  rw [hmin]
  exact ⟨List.min_mem h, fun gray hgray => List.min_le_of_mem hgray⟩

theorem max_foldl_observe {grays : List UInt8} (h : grays ≠ []) :
    (grays.foldl observe {}).max ∈ grays ∧ ∀ gray ∈ grays, gray ≤ (grays.foldl observe {}).max := by
  have hmax : (grays.foldl observe {}).max = grays.max h := by
    rw [foldl_observe, List.foldl_max_eq_max h]
    exact UInt8.le_antisymm (Std.max_le_iff.mpr ⟨Nat.zero_le _, UInt8.le_refl _⟩)
      Std.right_le_max
  rw [hmax]
  exact ⟨List.max_mem h, fun gray hgray => List.le_max_of_mem hgray⟩

end GrayRange

/-! ### Counts -/

namespace BitCounter

theorem getElem_add (c : BitCounter) (x : UInt32) {bit : Nat} (h : bit < 32) :
    (c.add x).counts[bit] = c.counts[bit] + bitOf x bit := by
  simp [add]

/-- Counts are words, and wrap around. -/
theorem toNat_foldl_add (xs : List UInt32) (c : BitCounter) {bit : Nat} (h : bit < 32) :
    (xs.foldl add c).counts[bit].toNat =
      (c.counts[bit].toNat + xs.countP (fun x => x.toNat.testBit bit)) % 2 ^ 32 := by
  induction xs generalizing c with
  | nil => exact (Nat.mod_eq_of_lt c.counts[bit].toNat_lt).symm
  | cons x xs ih =>
      have hbit : (c.add x).counts[bit].toNat =
          (c.counts[bit].toNat + (x.toNat.testBit bit).toNat) % 2 ^ 32 := by
        rw [getElem_add c x h, UInt32.toNat_add, toNat_bitOf x h]
      have hhead : xs.countP (fun x => x.toNat.testBit bit) + (x.toNat.testBit bit).toNat =
          (x :: xs).countP (fun x => x.toNat.testBit bit) := by
        rw [List.countP_cons]
        cases x.toNat.testBit bit <;> rfl
      rw [List.foldl_cons, ih, hbit, ← hhead]
      omega

theorem toNat_foldl_add_empty {xs : List UInt32} (hxs : xs.length < 2 ^ 32) {bit : Nat}
    (h : bit < 32) :
    (xs.foldl add {}).counts[bit].toNat = xs.countP (fun x => x.toNat.testBit bit) := by
  have hcount : xs.countP (fun x => x.toNat.testBit bit) < 2 ^ 32 :=
    Nat.lt_of_le_of_lt List.countP_le_length hxs
  have hzero : (({} : BitCounter).counts[bit]).toNat = 0 := by simp
  rw [toNat_foldl_add xs {} h, hzero, Nat.zero_add, Nat.mod_eq_of_lt hcount]

/-- The entry of a bit in the statistics, from its count. -/
def entry (total : UInt64) (bit : Nat) (count : UInt32) : BitStat :=
  { bit := bit.toUInt8
    proportion := proportion count total
    imbalance := (0.5 - proportion count total).abs }

theorem stats_eq (c : BitCounter) (total : UInt64) :
    c.stats total = (List.range 32).map fun bit => entry total bit c.counts[bit]! := by
  apply List.ext_getElem
  · simp [stats]
  · intro bit _ hbit
    have h : bit < 32 := by simpa using hbit
    simp [stats, entry, h]

end BitCounter

end OrbitImage
