import OrbitImage.Proofs.Image.Painting
/-!
What an image shows: the values of the orbit after the seed, row by row from the top, with the
number of values behind each bit and the range of the levels that appear.
-/
namespace OrbitImage

/-- A value that the generator keeps is the last one there is. -/
theorem Generator.orbit_of_fixed {g : Generator} {seed x : UInt32} {n m : Nat}
    (hfixed : g.step x = x) (hnm : n ≤ m) (h : g.orbit seed n = x) : g.orbit seed m = x := by
  induction hnm with
  | refl => exact h
  | step _ ih => rw [orbit, ih, hfixed]

/-! ### Columns and rows -/

theorem index_lt {side col row : Nat} (hcol : col < side) (hrow : row < side) :
    row * side + col < side * side := by
  have hnext : (row + 1) * side ≤ side * side := Nat.mul_le_mul_right side hrow
  rw [Nat.succ_mul] at hnext
  omega

theorem row_major_lt {side col row : UInt32} (hcol : col < side) (hrow : row < side) :
    row.toNat * side.toNat + col.toNat < side.toNat * side.toNat :=
  index_lt (UInt32.lt_iff_toNat_lt.mp hcol) (UInt32.lt_iff_toNat_lt.mp hrow)

/-- The grey level in a column and a row of painted levels. -/
theorem Image.grayAt?_painted {image : Image} {levels : List UInt8}
    (hpixels : image.pixels = levels.foldl putGray .empty)
    (hside : image.side.toNat * image.side.toNat < 2 ^ 32) {col row : UInt32}
    (hcol : col < image.side) (hrow : row < image.side) :
    image.grayAt? col row = levels[row.toNat * image.side.toNat + col.toNat]? := by
  have hlt := row_major_lt hcol hrow
  have hindex : ((row.toUInt64 * image.side.toUInt64 + col.toUInt64) * 4).toNat =
      (row.toNat * image.side.toNat + col.toNat) * 4 := by
    simp only [UInt64.toNat_mul, UInt64.toNat_add, UInt32.toNat_toUInt64]
    rw [show (4 : UInt64).toNat = 4 from rfl]
    omega
  have hbounds : ¬(image.side ≤ col ∨ image.side ≤ row) :=
    not_or.mpr ⟨UInt32.not_le.mpr hcol, UInt32.not_le.mpr hrow⟩
  rw [grayAt?, if_neg hbounds]
  simp only [hindex, hpixels, byteAt?_foldl_putGray]
  rw [Nat.mul_div_cancel _ (by decide), Nat.mul_mod_left]
  simp

namespace Request

theorem getElem?_levels (r : Request) (g : Generator) {k : Nat} (h : k < r.resolution.pixels) :
    (r.levels g)[k]? =
      some (r.mode.gray r.bitPlane (g.orbit r.seed k) (g.orbit r.seed (k + 1))) := by
  simp [levels, Generator.steps, h]

theorem grayAt?_imageOfLevels (r : Request) (g : Generator) (levels : List UInt8)
    {col row : UInt32} (hcol : col < r.resolution.side) (hrow : row < r.resolution.side) :
    (r.imageOfLevels g levels).grayAt? col row =
      levels[row.toNat * r.resolution.side.toNat + col.toNat]? :=
  Image.grayAt?_painted (show (r.imageOfLevels g levels).pixels = _ from rfl)
    r.resolution.pixels_lt hcol hrow

/-- The grey levels that appear are the levels of the steps. -/
theorem exists_grayAt?_iff (r : Request) (g : Generator) (gray : UInt8) :
    (∃ col row, (r.imageOfLevels g (r.levels g)).grayAt? col row = some gray) ↔
      gray ∈ r.levels g := by
  constructor
  · rintro ⟨col, row, h⟩
    by_cases hbounds : r.resolution.side ≤ col ∨ r.resolution.side ≤ row
    · have hnone : (r.imageOfLevels g (r.levels g)).grayAt? col row = none := if_pos hbounds
      rw [hnone] at h
      contradiction
    · obtain ⟨hcol, hrow⟩ := not_or.mp hbounds
      rw [grayAt?_imageOfLevels r g _ (UInt32.not_le.mp hcol) (UInt32.not_le.mp hrow)] at h
      exact List.mem_of_getElem? h
  · intro h
    obtain ⟨k, hk⟩ := List.mem_iff_getElem?.mp h
    have hlt : k < r.resolution.side.toNat * r.resolution.side.toNat := by
      rw [← Resolution.pixels, ← length_levels r g]
      exact (List.getElem?_eq_some_iff.mp hk).1
    have hside : 0 < r.resolution.side.toNat := Nat.pos_of_mul_pos_left r.resolution.pixels_pos
    have hcol : k % r.resolution.side.toNat < r.resolution.side.toNat := Nat.mod_lt k hside
    have hrow : k / r.resolution.side.toNat < r.resolution.side.toNat := Nat.div_lt_of_lt_mul hlt
    have htoNat {n : Nat} (hn : n < r.resolution.side.toNat) : n.toUInt32.toNat = n :=
      UInt32.toNat_ofNat_of_lt' (Nat.lt_trans hn r.resolution.side.toNat_lt)
    refine ⟨(k % r.resolution.side.toNat).toUInt32, (k / r.resolution.side.toNat).toUInt32, ?_⟩
    rw [grayAt?_imageOfLevels, htoNat hcol, htoNat hrow, Nat.mul_comm, Nat.div_add_mod, hk]
    · exact UInt32.lt_iff_toNat_lt.mpr (by rwa [htoNat hcol])
    · exact UInt32.lt_iff_toNat_lt.mpr (by rwa [htoNat hrow])

end Request

/-! ### What an image shows -/

/-- The image shows the values of a sequence from the first after the seed on, each as the level
that it has after the value before. -/
structure Image.Shows (image : Image) (side : UInt32) (v : Nat → UInt32)
    (level : UInt32 → UInt32 → Nat) : Prop where
  side_eq : image.side = side
  size : image.pixels.size = 4 * side.toNat * side.toNat
  gray : ∀ col row : UInt32, col < side → row < side →
    let k := row.toNat * side.toNat + col.toNat + 1
    ∃ gray, image.grayAt? col row = some gray ∧ gray.toNat = level (v (k - 1)) (v k)
  channels : ∀ p < side.toNat * side.toNat, ∃ gray,
    byteAt? image.pixels (4 * p) = some gray ∧
    byteAt? image.pixels (4 * p + 1) = some gray ∧
    byteAt? image.pixels (4 * p + 2) = some gray ∧
    byteAt? image.pixels (4 * p + 3) = some 255
  stats : ∃ count : Nat → UInt32,
    (∀ bit < 32, (count bit).toNat =
      (List.range' 1 (side.toNat * side.toNat)).countP fun k => (v k).toNat.testBit bit) ∧
    image.stats = .bits ((List.range 32).map fun bit =>
      BitCounter.entry (side.toNat * side.toNat).toUInt64 bit (count bit))
  range : ∃ darkest brightest, image.darkest = some darkest ∧ image.brightest = some brightest ∧
    (∃ col row, image.grayAt? col row = some darkest) ∧
    (∃ col row, image.grayAt? col row = some brightest) ∧
    ∀ col row gray, image.grayAt? col row = some gray → darkest ≤ gray ∧ gray ≤ brightest

namespace Request

theorem exists_stats (r : Request) (g : Generator) (levels : List UInt8) :
    ∃ count : Nat → UInt32,
      (∀ bit < 32, (count bit).toNat =
        (List.range' 1 r.resolution.pixels).countP fun k => (g.orbit r.seed k).toNat.testBit bit) ∧
      (r.imageOfLevels g levels).stats = .bits ((List.range 32).map fun bit =>
        BitCounter.entry r.resolution.pixels.toUInt64 bit (count bit)) := by
  let counts := (((g.steps r.seed r.resolution.pixels).map Prod.snd).foldl BitCounter.add {}).counts
  refine ⟨fun bit => counts[bit]!, ?_, congrArg Stats.bits (BitCounter.stats_eq _ _)⟩
  intro bit hbit
  have hlength : ((g.steps r.seed r.resolution.pixels).map Prod.snd).length < 2 ^ 32 := by
    rw [List.length_map, Generator.length_steps]
    exact r.resolution.pixels_lt
  calc (counts[bit]!).toNat
      = counts[bit].toNat := by rw [getElem!_pos counts bit hbit]
    _ = ((g.steps r.seed r.resolution.pixels).map Prod.snd).countP fun x => x.toNat.testBit bit :=
        BitCounter.toNat_foldl_add_empty hlength hbit
    _ = (List.range' 1 r.resolution.pixels).countP fun k => (g.orbit r.seed k).toNat.testBit bit := by
        rw [Generator.values_steps, List.countP_map]
        rfl

theorem exists_range (r : Request) (g : Generator) :
    let image := r.imageOfLevels g (r.levels g)
    ∃ darkest brightest, image.darkest = some darkest ∧ image.brightest = some brightest ∧
      (∃ col row, image.grayAt? col row = some darkest) ∧
      (∃ col row, image.grayAt? col row = some brightest) ∧
      ∀ col row gray, image.grayAt? col row = some gray → darkest ≤ gray ∧ gray ≤ brightest := by
  intro image
  obtain ⟨hmin, hleast⟩ := GrayRange.min_foldl_observe (r.levels_ne_nil g)
  obtain ⟨hmax, hgreatest⟩ := GrayRange.max_foldl_observe (r.levels_ne_nil g)
  refine ⟨_, _, rfl, rfl, (exists_grayAt?_iff r g _).mpr hmin, (exists_grayAt?_iff r g _).mpr hmax, ?_⟩
  intro col row gray h
  have hmem := (exists_grayAt?_iff r g gray).mp ⟨col, row, h⟩
  exact ⟨hleast gray hmem, hgreatest gray hmem⟩

/-- The values are those that a sample lists. -/
theorem synthesize_shows_orbit (r : Request) (g : Generator) (hmode : r.mode ≠ .pair)
    (hbit : r.bitPlane ≤ 31) (hplain : r.contrast.enabled = false) :
    (∀ n, (g.sample r.seed n).toList = (List.range' 1 n).map (g.orbit r.seed)) ∧
    (r.synthesize g).Shows r.resolution.side (g.orbit r.seed) (r.mode.level r.bitPlane.toNat) := by
  have hlevels := r.length_levels g
  rw [synthesize_plain hmode hplain g]
  refine ⟨fun n => by rw [Generator.toList_sample, Generator.values_steps], rfl, ?_, ?_, ?_,
    exists_stats r g _, exists_range r g⟩
  · rw [Nat.mul_assoc, ← Resolution.pixels, ← hlevels]
    exact size_foldl_putGray _
  · intro col row hcol hrow
    refine ⟨_, ?_, Mode.toNat_gray r.mode hbit _ _⟩
    rw [grayAt?_imageOfLevels r g _ hcol hrow]
    exact getElem?_levels r g (row_major_lt hcol hrow)
  · intro p hp
    have hbyte (c : Nat) (hc : c < 4) :
        byteAt? (r.imageOfLevels g (r.levels g)).pixels (4 * p + c) =
          some (if c = 3 then 255
            else r.mode.gray r.bitPlane (g.orbit r.seed p) (g.orbit r.seed (p + 1))) := by
      have hdiv : (4 * p + c) / 4 = p := by omega
      have hmod : (4 * p + c) % 4 = c := by omega
      simp only [imageOfLevels, imageOf, byteAt?_foldl_putGray, hdiv, hmod,
        getElem?_levels r g hp, Option.map_some]
    exact ⟨_, hbyte 0 (by decide), hbyte 1 (by decide), hbyte 2 (by decide), hbyte 3 (by decide)⟩

/-- The first pixel is the value after the seed, here twice the seed. -/
theorem synthesize_shows_doubling :
    let r : Request := { mode := .raw, seed := 0x40000000 }
    (r.synthesize (.builtIn .timesTwo)).grayAt? 0 0 = some 127 := by
  intro r
  obtain ⟨gray, hgray, hlevel⟩ := (synthesize_shows_orbit r (.builtIn .timesTwo) (by decide) (by decide)
    (by decide)).2.gray 0 0 (by decide) (by decide)
  have hvalue : gray = 127 := UInt8.toNat_inj.mp (hlevel.trans (by decide))
  rw [hgray, hvalue]

end Request

end OrbitImage
