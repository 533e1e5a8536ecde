import Mathlib.Data.Rat.Floor
import OrbitImage.Proofs.Image.Stretch
/-!
The stretch of a row of grey levels, wherever the row comes from. Between bounds that leave room it
is the exact quotient, rounded down and clamped, so that no two levels change places. If the bounds
are those observed in the row, the levels end on 0 and 255, and nothing is left to stretch.
-/
namespace OrbitImage

/-! ### Levels -/

section
variable {low high : UInt8} (h : low < high)
include h

/-- Clamped, the quotient that rounds to zero is the one that rounds down. -/
theorem toNat_stretchLevel_floor (gray : UInt8) :
    ((stretchLevel low high gray).toNat : ℤ) =
      max 0 (min 255 ⌊((gray.toNat : ℚ) - low.toNat) * 255 / (high.toNat - low.toNat)⌋) := by
  have hle : low.toNat ≤ high.toNat := Nat.le_of_lt h
  have hnumerator : ((gray.toNat : ℚ) - low.toNat) * 255 =
      (((gray.toNat : ℤ) - low.toNat) * 255 : ℤ) := by push_cast; rfl
  have hroom : (high.toNat : ℚ) - low.toNat = (high.toNat - low.toNat : ℕ) :=
    (Nat.cast_sub hle).symm
  rw [toNat_stretchLevel h, hnumerator, hroom, Rat.floor_intCast_div_natCast, Int.ofNat_sub hle]

theorem stretchLevel_low : stretchLevel low high low = 0 := by
  have hlevel := toNat_stretchLevel h low
  rw [Int.sub_self, Int.zero_mul, Int.zero_ediv] at hlevel
  exact UInt8.toNat_inj.mp (Int.ofNat.inj hlevel)

theorem stretchLevel_high : stretchLevel low high high = 255 := by
  have hlt : low.toNat < high.toNat := h
  have hlevel := toNat_stretchLevel h high
  rw [Int.mul_ediv_cancel_left _ (by omega)] at hlevel
  exact UInt8.toNat_inj.mp (Int.ofNat.inj hlevel)

theorem stretchLevel_mono {a b : UInt8} (hab : a ≤ b) :
    stretchLevel low high a ≤ stretchLevel low high b := by
  have hlt : low.toNat < high.toNat := h
  have hle : a.toNat ≤ b.toNat := hab
  have hroom : (0 : ℤ) < high.toNat - low.toNat := by omega
  have hquotients := Int.ediv_le_ediv hroom
    (show ((a.toNat : ℤ) - low.toNat) * 255 ≤ (b.toNat - low.toNat) * 255 by omega)
  have ha := toNat_stretchLevel h a
  have hb := toNat_stretchLevel h b
  exact UInt8.le_iff_toNat_le.mpr (by omega)

theorem stretchLevel_of_le {gray : UInt8} (hgray : gray ≤ low) : stretchLevel low high gray = 0 :=
  UInt8.le_antisymm (stretchLevel_low h ▸ stretchLevel_mono h hgray) (Nat.zero_le _)

theorem stretchLevel_of_ge {gray : UInt8} (hgray : high ≤ gray) :
    stretchLevel low high gray = 255 :=
  UInt8.le_antisymm (Nat.le_of_lt_succ (stretchLevel low high gray).toNat_lt)
    (stretchLevel_high h ▸ stretchLevel_mono h hgray)

end

/-! ### Rows of levels -/

theorem getElem?_stretch (low high : UInt8) (grays : Array UInt8) (i : Nat) :
    (stretch low high grays)[i]? =
      grays[i]?.map fun gray => if low < high then stretchLevel low high gray else gray := by
  rw [stretch]
  split <;> simp

theorem stretch_of_le {low high : UInt8} (h : high ≤ low) (grays : Array UInt8) :
    stretch low high grays = grays :=
  if_neg (UInt8.not_lt.mpr h)

/-- A second row has a level for each of the first, and none of them change places. -/
structure KeepsOrder (before after : Array UInt8) : Prop where
  size : after.size = before.size
  le : ∀ (i j : Nat) (a b a' b' : UInt8), before[i]? = some a → before[j]? = some b →
    after[i]? = some a' → after[j]? = some b' → a ≤ b → a' ≤ b'

theorem stretch_keepsOrder (low high : UInt8) (grays : Array UInt8) :
    KeepsOrder grays (stretch low high grays) := by
  constructor
  · rw [stretch]
    split <;> simp
  · intro i j a b a' b' hi hj hi' hj' hab
    rw [getElem?_stretch, hi] at hi'
    rw [getElem?_stretch, hj] at hj'
    obtain rfl := Option.some.inj hi'
    obtain rfl := Option.some.inj hj'
    by_cases h : low < high
    · simpa only [if_pos h] using stretchLevel_mono h hab
    · simpa only [if_neg h] using hab

namespace GrayRange

theorem ofArray_eq (grays : Array UInt8) : ofArray grays = grays.toList.foldl observe {} := by
  rw [ofArray, ← Array.foldl_toList]

theorem ofArray_mem {grays : Array UInt8} (h : grays ≠ #[]) :
    (ofArray grays).min ∈ grays ∧ (ofArray grays).max ∈ grays := by
  have hlist : grays.toList ≠ [] := by simpa using h
  rw [ofArray_eq, ← Array.mem_toList_iff, ← Array.mem_toList_iff]
  exact ⟨(min_foldl_observe hlist).1, (max_foldl_observe hlist).1⟩

theorem ofArray_bounds {grays : Array UInt8} {gray : UInt8} (h : gray ∈ grays) :
    (ofArray grays).min ≤ gray ∧ gray ≤ (ofArray grays).max := by
  have hmem := Array.mem_toList_iff.mpr h
  have hlist := List.ne_nil_of_mem hmem
  rw [ofArray_eq]
  exact ⟨(min_foldl_observe hlist).2 gray hmem, (max_foldl_observe hlist).2 gray hmem⟩

/-- A row that shows black and white has the range of all bytes. -/
theorem ofArray_of_mem {grays : Array UInt8} (hblack : 0 ∈ grays) (hwhite : 255 ∈ grays) :
    ofArray grays = ⟨0, 255⟩ := by
  have hmin : (ofArray grays).min = 0 :=
    UInt8.le_antisymm (ofArray_bounds hblack).1 (Nat.zero_le _)
  have hmax : (ofArray grays).max = 255 :=
    UInt8.le_antisymm (Nat.le_of_lt_succ (ofArray grays).max.toNat_lt) (ofArray_bounds hwhite).2
  calc ofArray grays = ⟨(ofArray grays).min, (ofArray grays).max⟩ := rfl
    _ = ⟨0, 255⟩ := by rw [hmin, hmax]

end GrayRange

/-! ### Observed bounds -/

namespace Contrast

/-- Observes the range of a row and stretches the row. -/
def spread (c : Contrast) (grays : Array UInt8) : Array UInt8 :=
  let (low, high) := c.bounds (.ofArray grays)
  stretch low high grays

variable {c : Contrast} (hauto : c.auto = true)
include hauto

theorem spread_of_auto (grays : Array UInt8) :
    c.spread grays = stretch (GrayRange.ofArray grays).min (GrayRange.ofArray grays).max grays := by
  rw [spread, bounds_of_auto hauto]

theorem spread_of_flat {grays : Array UInt8} (h : ∀ a ∈ grays, ∀ b ∈ grays, a = b) :
    c.spread grays = grays := by
  rw [spread_of_auto hauto]
  by_cases hempty : grays = #[]
  · -- The range that nothing was observed for is crossed.
    subst hempty
    exact stretch_of_le (by decide) #[]
  · obtain ⟨hmin, hmax⟩ := GrayRange.ofArray_mem hempty
    rw [h _ hmin _ hmax]
    exact stretch_of_le (UInt8.le_refl _) grays

theorem spread_of_full {grays : Array UInt8} (h : GrayRange.ofArray grays = ⟨0, 255⟩) :
    c.spread grays = grays := by
  rw [spread_of_auto hauto, h]
  apply Array.ext_getElem?
  intro i
  rw [getElem?_stretch]
  cases grays[i]? with
  | none => rfl
  | some gray => exact congrArg some ((if_pos (by decide)).trans (stretchLevel_full gray))

theorem ofArray_spread {grays : Array UInt8} (h : ∃ a ∈ grays, ∃ b ∈ grays, a < b) :
    GrayRange.ofArray (c.spread grays) = ⟨0, 255⟩ := by
  obtain ⟨a, ha, b, hb, hab⟩ := h
  obtain ⟨hmin, hmax⟩ := GrayRange.ofArray_mem (Array.ne_empty_of_mem ha)
  have hlt : (GrayRange.ofArray grays).min < (GrayRange.ofArray grays).max :=
    UInt8.lt_of_le_of_lt (GrayRange.ofArray_bounds ha).1
      (UInt8.lt_of_lt_of_le hab (GrayRange.ofArray_bounds hb).2)
  rw [spread_of_auto hauto, stretch, if_pos hlt]
  apply GrayRange.ofArray_of_mem
  · exact Array.mem_map.mpr ⟨_, hmin, stretchLevel_low hlt⟩
  · exact Array.mem_map.mpr ⟨_, hmax, stretchLevel_high hlt⟩

end Contrast

/-- Rows of one level are left as they are, and all others reach from 0 to 255. In either case the
order of the levels is kept, and observing and stretching once more changes nothing. Fixed bounds
saturate what lies outside, and where they leave no room they change nothing either. -/
theorem spread_normalizes (c : Contrast) (hauto : c.auto = true) (grays : Array UInt8) :
    ((∀ a ∈ grays, ∀ b ∈ grays, a = b) → c.spread grays = grays) ∧
    ((∃ a ∈ grays, ∃ b ∈ grays, a ≠ b) →
      GrayRange.ofArray (c.spread grays) = { min := 0, max := 255 }) ∧
    KeepsOrder grays (c.spread grays) ∧
    c.spread (c.spread grays) = c.spread grays ∧
    ∀ low high : UInt8,
      KeepsOrder grays (stretch low high grays) ∧
      (low < high → ∀ (i : Nat) (gray : UInt8), grays[i]? = some gray →
        ∃ level : UInt8, (stretch low high grays)[i]? = some level ∧
          (gray ≤ low → level = 0) ∧ (high ≤ gray → level = 255) ∧
          (level.toNat : ℤ) = max 0 (min 255
            ⌊((gray.toNat : ℚ) - low.toNat) * 255 / (high.toNat - low.toNat)⌋)) ∧
      (high ≤ low → stretch low high grays = grays) := by
  have hspread (h : ∃ a ∈ grays, ∃ b ∈ grays, a ≠ b) :
      GrayRange.ofArray (c.spread grays) = ⟨0, 255⟩ := by
    obtain ⟨a, ha, b, hb, hne⟩ := h
    rcases UInt8.le_total a b with hle | hle
    · exact Contrast.ofArray_spread hauto ⟨a, ha, b, hb, UInt8.lt_of_le_of_ne hle hne⟩
    · exact Contrast.ofArray_spread hauto ⟨b, hb, a, ha, UInt8.lt_of_le_of_ne hle hne.symm⟩
  refine ⟨Contrast.spread_of_flat hauto, hspread, ?_, ?_, fun low high => ⟨?_, ?_, ?_⟩⟩
  · rw [Contrast.spread_of_auto hauto]
    exact stretch_keepsOrder _ _ grays
  · by_cases h : ∀ a ∈ grays, ∀ b ∈ grays, a = b
    · rw [Contrast.spread_of_flat hauto h, Contrast.spread_of_flat hauto h]
    · push Not at h
      exact Contrast.spread_of_full hauto (hspread h)
  · exact stretch_keepsOrder low high grays
  · intro h i gray hi
    refine ⟨stretchLevel low high gray, ?_, stretchLevel_of_le h, stretchLevel_of_ge h,
      toNat_stretchLevel_floor h gray⟩
    rw [getElem?_stretch, hi]
    exact congrArg some (if_pos h)
  · exact fun h => stretch_of_le h grays

/-- A row that reaches from 100 to 120, and fixed bounds with levels on both sides of them. -/
theorem spread_normalizes_narrow :
    GrayRange.ofArray (Contrast.observed.spread #[110, 100, 120]) = { min := 0, max := 255 } ∧
      (stretch 105 115 #[110, 100, 120])[1]? = some 0 ∧
      stretch 115 105 #[110, 100, 120] = #[110, 100, 120] := by
  obtain ⟨-, hrange, -, -, hfixed⟩ := spread_normalizes .observed rfl #[110, 100, 120]
  obtain ⟨level, hlevel, hlow, -, -⟩ := (hfixed 105 115).2.1 (by decide) 1 100 rfl
  refine ⟨hrange ⟨110, by simp, 100, by simp, by decide⟩, ?_, (hfixed 115 105).2.2 (by decide)⟩
  rw [hlevel, hlow (by decide)]

end OrbitImage
