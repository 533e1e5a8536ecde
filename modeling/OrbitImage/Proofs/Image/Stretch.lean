import OrbitImage.Proofs.Image.Painting
/-!
The stretched image against the plain one. Both passes count and compare the same levels, so only
the painted bytes can differ, and these differ by a clamped linear map between the bounds.
-/
namespace OrbitImage

/-! ### The stretch of a level -/

theorem toNat_stretchLevel {low high : UInt8} (h : low < high) (gray : UInt8) :
    ((stretchLevel low high gray).toNat : Int) =
      max 0 (min 255 (((gray.toNat : Int) - low.toNat) * 255 / (high.toNat - low.toNat))) := by
  have hlt : low.toNat < high.toNat := h
  have hlevel (level : Int) : ((min level.toNat 255).toUInt8.toNat : Int) = max 0 (min 255 level) := by
    rw [Nat.toUInt8, UInt8.toNat_ofNat', Nat.mod_eq_of_lt (by omega)]
    omega
  rw [stretchLevel, hlevel]
  -- `stretchLevel` rounds to zero and the quotient here rounds down: they differ only below `low`,
  -- where both saturate.
  by_cases hlow : low.toNat ≤ gray.toNat
  · rw [Int.tdiv_eq_ediv_of_nonneg (by omega)]
  · have hroom : (0 : Int) < high.toNat - low.toNat := by omega
    have htrunc := Int.tdiv_nonneg
      (show 0 ≤ -(((gray.toNat : Int) - low.toNat) * 255) by omega) (Int.le_of_lt hroom)
    rw [Int.neg_tdiv] at htrunc
    have hfloor := Int.ediv_neg_of_neg_of_pos
      (show ((gray.toNat : Int) - low.toNat) * 255 < 0 by omega) hroom
    omega

theorem stretchLevel_full (gray : UInt8) : stretchLevel 0 255 gray = gray := by
  have hlevel := toNat_stretchLevel (show (0 : UInt8) < 255 by decide) gray
  have hgray := gray.toNat_lt
  rw [show (0 : UInt8).toNat = 0 from rfl, show (255 : UInt8).toNat = 255 from rfl] at hlevel
  apply UInt8.toNat_inj.mp
  omega

/-! ### The two passes -/

namespace Contrast

theorem bounds_of_auto {c : Contrast} (h : c.auto = true) (observed : GrayRange) :
    c.bounds observed = (observed.min, observed.max) :=
  if_pos h

theorem bounds_of_fixed {c : Contrast} (h : c.auto = false) (observed : GrayRange) :
    c.bounds observed = (c.min, c.max) :=
  if_neg (by simp [h])

end Contrast

namespace Request

/-- If all levels are one level, it is both the darkest and the brightest. -/
theorem range_of_flat {r : Request} {g : Generator} {gray : UInt8}
    (h : ∀ level ∈ r.levels g, level = gray) :
    (r.levels g).foldl GrayRange.observe {} = ⟨gray, gray⟩ := by
  have hmin := h _ (GrayRange.min_foldl_observe (r.levels_ne_nil g)).1
  have hmax := h _ (GrayRange.max_foldl_observe (r.levels_ne_nil g)).1
  calc (r.levels g).foldl GrayRange.observe {}
      = ⟨((r.levels g).foldl GrayRange.observe {}).min,
          ((r.levels g).foldl GrayRange.observe {}).max⟩ := rfl
    _ = ⟨gray, gray⟩ := by rw [hmin, hmax]

end Request

/-- The second image is the first with its grey bytes stretched between two bounds, and is like it
in all else. -/
structure Image.Stretches (plain drawn : Image) (low high : UInt8) : Prop where
  side : drawn.side = plain.side
  stats : drawn.stats = plain.stats
  darkest : drawn.darkest = plain.darkest
  brightest : drawn.brightest = plain.brightest
  size : drawn.pixels.size = plain.pixels.size
  gray : ∀ i b, i % 4 ≠ 3 → byteAt? plain.pixels i = some b →
    ∃ b', byteAt? drawn.pixels i = some b' ∧
      (b'.toNat : Int) = if low < high
        then max 0 (min 255 (((b.toNat : Int) - low.toNat) * 255 / (high.toNat - low.toNat)))
        else b.toNat
  alpha : ∀ i, i % 4 = 3 → i < plain.pixels.size →
    byteAt? plain.pixels i = some 255 ∧ byteAt? drawn.pixels i = some 255

theorem Request.imageOfLevels_stretches (r : Request) (g : Generator) (low high : UInt8) :
    (r.imageOfLevels g (r.levels g)).Stretches
      (r.imageOfLevels g ((r.levels g).map fun gray =>
        if low < high then stretchLevel low high gray else gray)) low high := by
  refine ⟨rfl, rfl, rfl, rfl, ?_, ?_, ?_⟩
  · simp only [imageOfLevels, imageOf, size_foldl_putGray, List.length_map]
  · intro i b hi hb
    simp only [imageOfLevels, imageOf, byteAt?_foldl_putGray, if_neg hi, List.getElem?_map,
      Option.map_map] at hb ⊢
    obtain ⟨gray, hgray, rfl⟩ := Option.map_eq_some_iff.mp hb
    refine ⟨_, by rw [hgray]; rfl, ?_⟩
    by_cases h : low < high
    · simp only [Function.comp_apply, if_pos h, toNat_stretchLevel h]
    · simp only [Function.comp_apply, if_neg h]
  · intro i hi hsize
    simp only [imageOfLevels, imageOf, size_foldl_putGray] at hsize
    have hlevel : (r.levels g)[i / 4]? = some (r.levels g)[i / 4] := List.getElem?_eq_getElem (by omega)
    simp only [imageOfLevels, imageOf, byteAt?_foldl_putGray, if_pos hi, List.getElem?_map, hlevel,
      Option.map_some, and_self]

/-! ### Requests that stretch -/

namespace Request

/-- Bounds that change no level leave the image as it is. -/
theorem synthesize_drawn_eq {r : Request} (hmode : r.mode ≠ .pair) {on : Contrast}
    (hon : on.enabled = true) (g : Generator) {low high : UInt8}
    (h : on.bounds ((r.levels g).foldl GrayRange.observe {}) = (low, high))
    (hid : low < high → ∀ gray, stretchLevel low high gray = gray) :
    { r with contrast := on }.synthesize g = r.imageOfLevels g (r.levels g) := by
  have hmap : (r.levels g).map (fun gray =>
      if low < high then stretchLevel low high gray else gray) = r.levels g := by
    apply List.map_id''
    intro gray
    split
    · exact hid ‹_› gray
    · rfl
  rw [synthesize_drawn hmode hon g h, hmap]

/-- An image that shows one grey only comes from levels that are all this grey. -/
theorem flat_of_pixels {r : Request} {g : Generator} {gray : UInt8}
    (h : ∀ i b, i % 4 ≠ 3 →
      byteAt? (r.imageOfLevels g (r.levels g)).pixels i = some b → b = gray) :
    ∀ level ∈ r.levels g, level = gray := by
  intro level hlevel
  obtain ⟨k, hk⟩ := List.mem_iff_getElem?.mp hlevel
  apply h (4 * k) level (by omega)
  have hquarter : 4 * k / 4 = k := by omega
  simp only [imageOfLevels, imageOf, byteAt?_foldl_putGray, hquarter, hk,
    if_neg (show 4 * k % 4 ≠ 3 by omega), Option.map_some]

/-- A stretch changes the grey bytes and nothing else. The bounds are the range of the plain image
or those configured; where they leave no room, or are those of all bytes, the images are one. -/
theorem synthesize_stretches (r : Request) (g : Generator) (off on : Contrast)
    (hmode : r.mode ≠ .pair) (hoff : off.enabled = false) (hon : on.enabled = true) :
    let plain := { r with contrast := off }.synthesize g
    let drawn := { r with contrast := on }.synthesize g
    (∃ low high,
      (on.auto = true → plain.darkest = some low ∧ plain.brightest = some high) ∧
      (on.auto = false → low = on.min ∧ high = on.max) ∧
      plain.Stretches drawn low high) ∧
    (on.auto = false → on.min = 0 → on.max = 255 → drawn = plain) ∧
    (on.auto = false → on.max ≤ on.min → drawn = plain) ∧
    (on.auto = true →
      (∃ gray, ∀ i b, i % 4 ≠ 3 → byteAt? plain.pixels i = some b → b = gray) →
      drawn = plain) := by
  intro plain drawn
  have hplain : plain = r.imageOfLevels g (r.levels g) := synthesize_plain hmode hoff g
  refine ⟨?_, ?_, ?_, ?_⟩
  · rcases hpair : on.bounds ((r.levels g).foldl GrayRange.observe {}) with ⟨low, high⟩
    refine ⟨low, high, ?_, ?_, ?_⟩
    · intro hauto
      rw [Contrast.bounds_of_auto hauto, Prod.mk.injEq] at hpair
      obtain ⟨rfl, rfl⟩ := hpair
      rw [hplain]
      exact ⟨rfl, rfl⟩
    · intro hauto
      rw [Contrast.bounds_of_fixed hauto, Prod.mk.injEq] at hpair
      exact ⟨hpair.1.symm, hpair.2.symm⟩
    · have hdrawn := synthesize_drawn hmode hon g hpair
      rw [hplain, show drawn = _ from hdrawn]
      exact imageOfLevels_stretches r g low high
  · intro hauto hmin hmax
    rw [hplain]
    apply synthesize_drawn_eq hmode hon g (Contrast.bounds_of_fixed hauto _)
    intro _ gray
    rw [hmin, hmax]
    exact stretchLevel_full gray
  · intro hauto hle
    rw [hplain]
    apply synthesize_drawn_eq hmode hon g (Contrast.bounds_of_fixed hauto _)
    intro hlt
    exact absurd hle (UInt8.not_le.mpr hlt)
  · intro hauto hflat
    rw [hplain] at hflat ⊢
    obtain ⟨gray, hgray⟩ := hflat
    have hrange := range_of_flat (flat_of_pixels hgray)
    have hpair : on.bounds ((r.levels g).foldl GrayRange.observe {}) = (gray, gray) := by
      rw [Contrast.bounds_of_auto hauto, hrange]
    apply synthesize_drawn_eq hmode hon g hpair
    intro hlt
    exact absurd hlt (UInt8.lt_irrefl gray)

/-- One instance of each kind of bounds: those of all bytes, crossed ones, and those observed. -/
theorem synthesize_stretches_splitMix :
    let r : Request := { mode := .transition, seed := 7 }
    let g := Generator.builtIn .splitMix
    { r with contrast := .fixed 0 255 }.synthesize g = r.synthesize g ∧
      { r with contrast := .fixed 200 100 }.synthesize g = r.synthesize g ∧
      ({ r with contrast := .observed }.synthesize g).brightest = (r.synthesize g).brightest := by
  intro r g
  obtain ⟨-, hfull, -⟩ :=
    synthesize_stretches r g {} (.fixed 0 255) (by decide) (by decide) (by decide)
  obtain ⟨-, -, hcrossed, -⟩ :=
    synthesize_stretches r g {} (.fixed 200 100) (by decide) (by decide) (by decide)
  obtain ⟨⟨_, _, -, -, hobserved⟩, -⟩ :=
    synthesize_stretches r g {} .observed (by decide) (by decide) (by decide)
  exact ⟨hfull rfl rfl rfl, hcrossed rfl (by decide), hobserved.brightest⟩

end Request

end OrbitImage
