import Mathlib.Data.List.Perm.Subperm
import Mathlib.Data.List.Range
import Mathlib.Tactic.Ring
import OrbitImage.Image.Painting
import OrbitImage.Image.Raster
import OrbitImage.Proofs.Image.Density
import OrbitImage.Proofs.Image.Pixel
/-!
Rasters as lists of copies: enlarging an image is writing the copies of its pixels one after the
other. All copies lie inside, whatever the side. Up to a side of 65536 the number of a pixel is not
cut off, so that each place is written once and shows the pixel of the image that it lies over.
-/
namespace OrbitImage

/-- A copy of a pixel: where it is written, and the number of the pixel in the image. -/
structure Copy where
  x : UInt32
  y : UInt32
  source : Nat

namespace Copy

/-- The number of the pixel that is written, in a raster of a width. -/
def place (width : Nat) (c : Copy) : Nat :=
  c.y.toNat * width + c.x.toNat

/-- The copy of a pixel in a column and a row of its square. -/
def nth (side scale : UInt32) (i dx dy : Nat) : Copy :=
  ⟨i.toUInt32 % side * scale + dx.toUInt32, i.toUInt32 / side * scale + dy.toUInt32, i⟩

/-- The copies of a pixel, line by line. -/
def block (side scale : UInt32) (i : Nat) : List Copy :=
  (List.range scale.toNat).flatMap fun dy => (List.range scale.toNat).map fun dx =>
    nth side scale i dx dy

/-- The copies of `count` pixels from a number on, in the order they are written. -/
def all (side scale : UInt32) (i count : Nat) : List Copy :=
  (List.range' i count).flatMap (block side scale)

theorem mem_all_iff {side scale : UInt32} {i count : Nat} {c : Copy} :
    c ∈ all side scale i count ↔ ∃ j dx dy, (i ≤ j ∧ j < i + count) ∧ dx < scale.toNat ∧
      dy < scale.toNat ∧ c = nth side scale j dx dy := by
  simp only [all, block, List.mem_flatMap, List.mem_map, List.mem_range'_1, List.mem_range]
  constructor
  · rintro ⟨j, hj, dy, hdy, dx, hdx, rfl⟩
    exact ⟨j, dx, dy, hj, hdx, hdy, rfl⟩
  · rintro ⟨j, dx, dy, hj, hdx, hdy, rfl⟩
    exact ⟨j, hj, dy, hdy, dx, hdx, rfl⟩

theorem length_all (side scale : UInt32) (i count : Nat) :
    (all side scale i count).length = count * (scale.toNat * scale.toNat) := by
  simp [all, block, List.length_flatMap]

end Copy

namespace Raster

/-! ### Writing -/

/-- There are four bytes for each pixel. -/
def IsFull (r : Raster) : Prop :=
  r.rgba.size = 4 * (r.width.toNat * r.height.toNat)

/-- The pixel of a number. -/
def pixel (r : Raster) (i : Nat) : Pixel :=
  Pixel.read r.rgba i

/-- A raster of the same shape. -/
structure Like (r' r : Raster) : Prop where
  width : r'.width = r.width
  height : r'.height = r.height
  full : r'.IsFull

theorem Like.trans {r r' r'' : Raster} (h' : r''.Like r') (h : r'.Like r) : r''.Like r :=
  ⟨h'.width.trans h.width, h'.height.trans h.height, h'.full⟩

theorem size_zeros (count : Nat) (bytes : ByteArray) :
    (zeros count bytes).size = bytes.size + count := by
  induction count generalizing bytes with
  | zero => rfl
  | succ count ih => rw [zeros, ih, ByteArray.size_push, Nat.add_assoc, Nat.add_comm 1]

theorem isFull_blank (side : UInt32) : (blank side).IsFull := by
  rw [IsFull, blank, size_zeros, Nat.mul_assoc]
  exact Nat.zero_add _

/-- Inside, a pixel can be written, and the others stay. -/
theorem exists_put? {r : Raster} (hr : r.IsFull) {x y : UInt32} (hx : x < r.width)
    (hy : y < r.height) (p : Pixel) :
    ∃ r', r.put? x y p = some r' ∧ r'.Like r ∧
      ∀ i, r'.pixel i = if i = y.toNat * r.width.toNat + x.toNat then p else r.pixel i := by
  obtain ⟨width, height, rgba⟩ := r
  have hplace : (y.toNat + 1) * width.toNat ≤ height.toNat * width.toNat :=
    Nat.mul_le_mul_right width.toNat (UInt32.lt_iff_toNat_lt.mp hy)
  have hcol : x.toNat < width.toNat := UInt32.lt_iff_toNat_lt.mp hx
  have hsize : 4 * (y.toNat * width.toNat + x.toNat) + 3 < rgba.size := by
    rw [hr, Nat.mul_comm width.toNat]
    rw [Nat.succ_mul] at hplace
    change _ < 4 * (height.toNat * width.toNat)
    omega
  obtain ⟨rgba', hwrite, hsize', hbytes⟩ := Pixel.exists_write? hsize p
  refine ⟨⟨width, height, rgba'⟩, ?_, ⟨rfl, rfl, hsize'.trans hr⟩, Pixel.read_of_write? hbytes⟩
  simp only [put?, if_pos (And.intro hx hy), hwrite, Option.map_some]

/-- Writes a copy of a pixel of an image. -/
def copy? (pixels : ByteArray) (r : Raster) (c : Copy) : Option Raster :=
  r.put? c.x c.y (Pixel.read pixels c.source)

theorem putLine?_eq (p : Pixel) (x y : UInt32) (count : Nat) (r : Raster) :
    putLine? p x y count r =
      (List.range count).foldlM (fun r dx => r.put? (x + dx.toUInt32) y p) r := by
  induction count with
  | zero => rfl
  | succ count ih =>
      rw [putLine?, ih, List.range_succ, List.foldlM_append]
      simp only [List.foldlM_cons, List.foldlM_nil, bind_pure, Option.bind_eq_bind]

theorem putBlock?_eq (p : Pixel) (x y : UInt32) (width count : Nat) (r : Raster) :
    putBlock? p x y width count r = (List.range count).foldlM (fun r dy =>
      (List.range width).foldlM (fun r dx => r.put? (x + dx.toUInt32) (y + dy.toUInt32) p) r) r := by
  induction count with
  | zero => rfl
  | succ count ih =>
      rw [putBlock?, ih, List.range_succ, List.foldlM_append]
      simp only [List.foldlM_cons, List.foldlM_nil, bind_pure, Option.bind_eq_bind, putLine?_eq]

theorem foldlM_flatMap {α β : Type} (f : α → List β) (g : Raster → β → Option Raster) (l : List α)
    (r : Raster) :
    (l.flatMap f).foldlM g r = l.foldlM (fun r a => (f a).foldlM g r) r := by
  induction l generalizing r with
  | nil => rfl
  | cons a l ih => simp only [List.flatMap_cons, List.foldlM_append, List.foldlM_cons, ih]

/-- Writing the pixels of an image is writing their copies. -/
theorem putPixels?_eq (pixels : ByteArray) (side scale : UInt32) (count i : Nat) (r : Raster) :
    putPixels? pixels side scale count i r =
      (Copy.all side scale i count).foldlM (copy? pixels) r := by
  induction count generalizing i r with
  | zero => rfl
  | succ count ih =>
      have hblock : (Copy.block side scale i).foldlM (copy? pixels) r =
          putBlock? (Pixel.read pixels i) (i.toUInt32 % side * scale) (i.toUInt32 / side * scale)
            scale.toNat scale.toNat r := by
        rw [Copy.block, foldlM_flatMap, putBlock?_eq]
        simp only [List.foldlM_map, copy?, Copy.nth]
      rw [Copy.all, List.range'_succ, List.flatMap_cons, List.foldlM_append, hblock, putPixels?]
      cases putBlock? (Pixel.read pixels i) (i.toUInt32 % side * scale)
          (i.toUInt32 / side * scale) scale.toNat scale.toNat r with
      | none => rfl
      | some r => exact ih (i + 1) r

/-- Copies inside are all written. Where the source of a copy is a function of its place, the place
shows this source afterwards; places without a copy stay. -/
theorem exists_foldlM_copy? (pixels : ByteArray) (source : Nat → Nat) (copies : List Copy)
    {r : Raster} (hr : r.IsFull) (hin : ∀ c ∈ copies, c.x < r.width ∧ c.y < r.height) :
    ∃ r', copies.foldlM (copy? pixels) r = some r' ∧ r'.Like r ∧
      ((∀ c ∈ copies, c.source = source (c.place r.width.toNat)) →
        ∀ i, i ∈ copies.map (Copy.place r.width.toNat) ∨ r.pixel i = Pixel.read pixels (source i) →
          r'.pixel i = Pixel.read pixels (source i)) := by
  induction copies generalizing r with
  | nil => exact ⟨r, rfl, ⟨rfl, rfl, hr⟩, fun _ i hi => hi.resolve_left List.not_mem_nil⟩
  | cons c copies ih =>
      obtain ⟨hx, hy⟩ := hin c List.mem_cons_self
      obtain ⟨r₁, hput, hlike, hpixel⟩ := exists_put? hr hx hy (Pixel.read pixels c.source)
      have hin₁ : ∀ d ∈ copies, d.x < r₁.width ∧ d.y < r₁.height := by
        intro d hd
        rw [hlike.width, hlike.height]
        exact hin d (List.mem_cons_of_mem c hd)
      obtain ⟨r', hfold, hlike', hshows⟩ := ih hlike.full hin₁
      refine ⟨r', ?_, hlike'.trans hlike, fun hsource i hi => ?_⟩
      · rw [List.foldlM_cons, copy?, hput]
        exact hfold
      · rw [hlike.width] at hshows
        apply hshows (fun d hd => hsource d (List.mem_cons_of_mem c hd))
        rw [hpixel, hsource c List.mem_cons_self]
        by_cases hplace : i = c.place r.width.toNat
        · exact .inr ((if_pos hplace).trans (by rw [hplace]))
        · obtain hi | hi := hi
          · exact .inl ((List.mem_cons.mp hi).resolve_left hplace)
          · exact .inr ((if_neg hplace).trans hi)

end Raster

/-! ### Where the copies lie -/

namespace Copy

section
variable {side scale : UInt32} (hfits : side.toNat * scale.toNat < 2 ^ 32)
include hfits

/-- Columns and rows of copies are exact: no product and no sum leaves the 32-bit words. -/
theorem toNat_coordinate {q : UInt32} (hq : q.toNat < side.toNat) {d : Nat}
    (hd : d < scale.toNat) :
    (q * scale + d.toUInt32).toNat = q.toNat * scale.toNat + d ∧
      q.toNat * scale.toNat + d < side.toNat * scale.toNat := by
  have hnext : (q.toNat + 1) * scale.toNat ≤ side.toNat * scale.toNat :=
    Nat.mul_le_mul_right scale.toNat hq
  rw [Nat.succ_mul] at hnext
  have hword : d.toUInt32.toNat = d :=
    UInt32.toNat_ofNat_of_lt' (Nat.lt_trans hd scale.toNat_lt)
  rw [UInt32.toNat_add, UInt32.toNat_mul, hword]
  rw [Nat.mod_eq_of_lt (show q.toNat * scale.toNat < 2 ^ 32 by omega), Nat.mod_eq_of_lt (by omega)]
  exact ⟨rfl, by omega⟩

/-- The copies of the pixels of a square lie in the square enlarged. -/
theorem toNat_nth {j dx dy : Nat} (hj : j < side.toNat * side.toNat) (hdx : dx < scale.toNat)
    (hdy : dy < scale.toNat) :
    (nth side scale j dx dy).x.toNat = j % 2 ^ 32 % side.toNat * scale.toNat + dx ∧
      (nth side scale j dx dy).y.toNat = j % 2 ^ 32 / side.toNat * scale.toNat + dy ∧
      (nth side scale j dx dy).x.toNat < side.toNat * scale.toNat ∧
      (nth side scale j dx dy).y.toNat < side.toNat * scale.toNat := by
  have hside : 0 < side.toNat := Nat.pos_of_mul_pos_left (Nat.zero_lt_of_lt hj)
  have hword : j.toUInt32.toNat = j % 2 ^ 32 := UInt32.toNat_ofNat'
  have hcol : (j.toUInt32 % side).toNat = j % 2 ^ 32 % side.toNat := by
    rw [UInt32.toNat_mod, hword]
  have hrow : (j.toUInt32 / side).toNat = j % 2 ^ 32 / side.toNat := by
    rw [UInt32.toNat_div, hword]
  obtain ⟨hx, hxlt⟩ := toNat_coordinate hfits (q := j.toUInt32 % side)
    (by rw [hcol]; exact Nat.mod_lt _ hside) hdx
  -- A number that was cut off is smaller than before, and lies in no later row.
  obtain ⟨hy, hylt⟩ := toNat_coordinate hfits (q := j.toUInt32 / side)
    (by rw [hrow]; exact Nat.div_lt_of_lt_mul (Nat.lt_of_le_of_lt (Nat.mod_le _ _) hj)) hdy
  rw [hcol] at hx hxlt
  rw [hrow] at hy hylt
  exact ⟨hx, hy, hx.trans_lt hxlt, hy.trans_lt hylt⟩

theorem lt_of_mem_all {c : Copy} (hc : c ∈ all side scale 0 (side.toNat * side.toNat)) :
    c.x.toNat < side.toNat * scale.toNat ∧ c.y.toNat < side.toNat * scale.toNat := by
  obtain ⟨j, dx, dy, ⟨-, hj⟩, hdx, hdy, rfl⟩ := mem_all_iff.mp hc
  rw [Nat.zero_add] at hj
  exact (toNat_nth hfits hj hdx hdy).2.2

end

/-- The number of the pixel that a place in the square enlarged lies over. -/
def sourceOf (side scale i : Nat) : Nat :=
  i / (side * scale) / scale * side + i % (side * scale) / scale

/-- Rows and columns that are known by their pixel and their place in its square. -/
theorem sourceOf_place {side scale col row dx dy : Nat} (hcol : col < side) (hdx : dx < scale)
    (hdy : dy < scale) :
    sourceOf side scale ((row * scale + dy) * (side * scale) + (col * scale + dx)) =
      row * side + col := by
  have hscale : 0 < scale := Nat.zero_lt_of_lt hdx
  have hx : col * scale + dx < side * scale := by
    have hnext : (col + 1) * scale ≤ side * scale := Nat.mul_le_mul_right scale hcol
    rw [Nat.succ_mul] at hnext
    omega
  have hquotient (q d : Nat) (hd : d < scale) : (q * scale + d) / scale = q := by
    rw [Nat.add_comm, Nat.add_mul_div_right d q hscale, Nat.div_eq_of_lt hd, Nat.zero_add]
  rw [sourceOf, Nat.add_comm (_ * (side * scale)), Nat.add_mul_div_right _ _ (Nat.zero_lt_of_lt hx),
    Nat.add_mul_mod_self_right, Nat.div_eq_of_lt hx, Nat.mod_eq_of_lt hx, Nat.zero_add,
    hquotient row dy hdy, hquotient col dx hdx]

section
variable {side scale : UInt32} (hfits : side.toNat * scale.toNat < 2 ^ 32)
  (hside : side.toNat ≤ 65536)
include hfits hside

/-- Up to this side all numbers of pixels are 32-bit words. -/
theorem place_nth {j dx dy : Nat} (hj : j < side.toNat * side.toNat) (hdx : dx < scale.toNat)
    (hdy : dy < scale.toNat) :
    (nth side scale j dx dy).place (side.toNat * scale.toNat) =
      (j / side.toNat * scale.toNat + dy) * (side.toNat * scale.toNat) +
        (j % side.toNat * scale.toNat + dx) := by
  have hpixels : side.toNat * side.toNat ≤ 65536 * 65536 := Nat.mul_le_mul hside hside
  have hword : j % 2 ^ 32 = j := Nat.mod_eq_of_lt (by omega)
  obtain ⟨hx, hy, -⟩ := toNat_nth hfits hj hdx hdy
  rw [place, hx, hy, hword]

theorem source_eq {c : Copy} (hc : c ∈ all side scale 0 (side.toNat * side.toNat)) :
    c.source = sourceOf side.toNat scale.toNat (c.place (side.toNat * scale.toNat)) := by
  obtain ⟨j, dx, dy, ⟨-, hj⟩, hdx, hdy, rfl⟩ := mem_all_iff.mp hc
  rw [Nat.zero_add] at hj
  have hcol : j % side.toNat < side.toNat :=
    Nat.mod_lt j (Nat.pos_of_mul_pos_left (Nat.zero_lt_of_lt hj))
  rw [place_nth hfits hside hj hdx hdy, sourceOf_place hcol hdx hdy, Nat.mul_comm, Nat.div_add_mod]
  rfl

/-- Every place in the square enlarged is one that a copy is written to. -/
theorem mem_places {i : Nat}
    (hi : i < side.toNat * scale.toNat * (side.toNat * scale.toNat)) :
    i ∈ (all side scale 0 (side.toNat * side.toNat)).map (place (side.toNat * scale.toNat)) := by
  have hlong : 0 < side.toNat * scale.toNat := Nat.pos_of_mul_pos_left (Nat.zero_lt_of_lt hi)
  have hscale : 0 < scale.toNat := Nat.pos_of_mul_pos_left hlong
  -- The place lies in a column and a row of the square, and these in a column and a row of pixels.
  have hx : i % (side.toNat * scale.toNat) / scale.toNat < side.toNat :=
    Nat.div_lt_of_lt_mul (by rw [Nat.mul_comm scale.toNat]; exact Nat.mod_lt i hlong)
  have hy : i / (side.toNat * scale.toNat) / scale.toNat < side.toNat :=
    Nat.div_lt_of_lt_mul (by rw [Nat.mul_comm scale.toNat]; exact Nat.div_lt_of_lt_mul hi)
  have hj : sourceOf side.toNat scale.toNat i < side.toNat * side.toNat := index_lt hx hy
  have hdx := Nat.mod_lt (i % (side.toNat * scale.toNat)) hscale
  have hdy := Nat.mod_lt (i / (side.toNat * scale.toNat)) hscale
  have hcol : sourceOf side.toNat scale.toNat i % side.toNat =
      i % (side.toNat * scale.toNat) / scale.toNat := by
    rw [sourceOf, Nat.mul_add_mod_self_right, Nat.mod_eq_of_lt hx]
  have hrow : sourceOf side.toNat scale.toNat i / side.toNat =
      i / (side.toNat * scale.toNat) / scale.toNat := by
    rw [sourceOf, Nat.add_comm, Nat.add_mul_div_right _ _ (Nat.zero_lt_of_lt hx),
      Nat.div_eq_of_lt hx, Nat.zero_add]
  refine List.mem_map.mpr ⟨nth side scale _ _ _,
    mem_all_iff.mpr ⟨_, _, _, ⟨Nat.zero_le _, by rwa [Nat.zero_add]⟩, hdx, hdy, rfl⟩, ?_⟩
  rw [place_nth hfits hside hj hdx hdy, hcol, hrow]
  simp only [Nat.mul_comm _ scale.toNat, Nat.div_add_mod]
  rw [Nat.mul_comm, Nat.div_add_mod]

/-- The copies are written to all places, to each of them once. -/
theorem places_perm :
    ((all side scale 0 (side.toNat * side.toNat)).map (place (side.toNat * scale.toNat))).Perm
      (List.range (side.toNat * scale.toNat * (side.toNat * scale.toNat))) := by
  have hsubset : List.range (side.toNat * scale.toNat * (side.toNat * scale.toNat)) ⊆
      (all side scale 0 (side.toNat * side.toNat)).map (place (side.toNat * scale.toNat)) :=
    fun i hi => mem_places hfits hside (List.mem_range.mp hi)
  refine ((List.subperm_of_subset List.nodup_range hsubset).perm_of_length_le ?_).symm
  rw [List.length_map, length_all, List.length_range]
  apply Nat.le_of_eq
  ring

end

end Copy

/-! ### Images that were synthesized -/

namespace Request

theorem side_synthesize (r : Request) (g : Generator) :
    (r.synthesize g).side = r.resolution.side := by
  unfold synthesize
  split
  · rfl
  · split <;> rfl

/-- Each pixel has four bytes, in all modes. -/
theorem size_synthesize (r : Request) (g : Generator) :
    (r.synthesize g).pixels.size = 4 * r.resolution.pixels := by
  by_cases hmode : r.mode = .pair
  · have hpair : r.synthesize g = r.densityMap g := by rw [synthesize, hmode]
    rw [hpair, pixels_densityMap, size_foldl_putGray, length_densityLevels]
  · have hpainted : ∃ levels : List UInt8, levels.length = r.resolution.pixels ∧
        r.synthesize g = r.imageOfLevels g levels := by
      rw [synthesize_of_ne_pair hmode]
      split
      · cases h : r.contrast.bounds ((r.levels g).foldl GrayRange.observe {}) with
        | mk low high => exact ⟨_, by rw [List.length_map, length_levels], r.twoPass_eq g h⟩
      · exact ⟨_, r.length_levels g, r.singlePass_eq g⟩
    obtain ⟨levels, hlength, hpainted⟩ := hpainted
    rw [hpainted, imageOfLevels, imageOf, size_foldl_putGray, hlength]

end Request

/-! ### Enlarged images -/

/-- A raster shows an image with each pixel as a square of copies. It is what the writing of the
copies leaves, which are written inside and to each place once. -/
structure Raster.Enlarges (raster : Raster) (image : Image) (scale : UInt32) : Prop where
  width : raster.width.toNat = image.side.toNat * scale.toNat
  height : raster.height.toNat = image.side.toNat * scale.toNat
  size : raster.rgba.size = 4 * (image.side.toNat * scale.toNat * (image.side.toNat * scale.toNat))
  bytes : ∀ x < image.side.toNat * scale.toNat, ∀ y < image.side.toNat * scale.toNat, ∀ c < 4,
    ∃ b, byteAt? raster.rgba (4 * (y * (image.side.toNat * scale.toNat) + x) + c) = some b ∧
      byteAt? image.pixels
        (4 * (y / scale.toNat * image.side.toNat + x / scale.toNat) + c) = some b
  written : (Copy.all image.side scale 0 (image.side.toNat * image.side.toNat)).foldlM
    (Raster.copy? image.pixels) (Raster.blank (image.side * scale)) = some raster
  inside : ∀ c ∈ Copy.all image.side scale 0 (image.side.toNat * image.side.toNat),
    c.x < raster.width ∧ c.y < raster.height
  once : ((Copy.all image.side scale 0 (image.side.toNat * image.side.toNat)).map
    (Copy.place (image.side.toNat * scale.toNat))).Perm
      (List.range (image.side.toNat * scale.toNat * (image.side.toNat * scale.toNat)))

section
variable {image : Image} {scale : UInt32} (hfits : image.side.toNat * scale.toNat < 2 ^ 32)
include hfits

theorem Raster.toNat_side : (image.side * scale).toNat = image.side.toNat * scale.toNat := by
  rw [UInt32.toNat_mul, Nat.mod_eq_of_lt hfits]

theorem Raster.copies_inside :
    ∀ c ∈ Copy.all image.side scale 0 (image.side.toNat * image.side.toNat),
      c.x < image.side * scale ∧ c.y < image.side * scale := by
  intro c hc
  rw [UInt32.lt_iff_toNat_lt, UInt32.lt_iff_toNat_lt, toNat_side hfits]
  exact Copy.lt_of_mem_all hfits hc

/-- Whatever the side, all copies can be written. -/
theorem Raster.exists_written : ∃ raster,
    (Copy.all image.side scale 0 (image.side.toNat * image.side.toNat)).foldlM
      (copy? image.pixels) (blank (image.side * scale)) = some raster := by
  obtain ⟨raster, hwritten, -⟩ := exists_foldlM_copy? image.pixels id _
    (isFull_blank (image.side * scale)) (copies_inside hfits)
  exact ⟨raster, hwritten⟩

theorem Raster.enlarges_of_written (hside : image.side.toNat ≤ 65536)
    (hsize : image.pixels.size = 4 * (image.side.toNat * image.side.toNat)) {raster : Raster}
    (hwritten : (Copy.all image.side scale 0 (image.side.toNat * image.side.toNat)).foldlM
      (copy? image.pixels) (blank (image.side * scale)) = some raster) :
    raster.Enlarges image scale := by
  obtain ⟨raster', hwritten', hlike, hshows⟩ := exists_foldlM_copy? image.pixels
    (Copy.sourceOf image.side.toNat scale.toNat) _ (isFull_blank (image.side * scale))
    (copies_inside hfits)
  cases hwritten.symm.trans hwritten'
  have hwidth : raster.width.toNat = image.side.toNat * scale.toNat :=
    (congrArg UInt32.toNat hlike.width).trans (toNat_side hfits)
  have hheight : raster.height.toNat = image.side.toNat * scale.toNat :=
    (congrArg UInt32.toNat hlike.height).trans (toNat_side hfits)
  have hfull : raster.rgba.size =
      4 * (image.side.toNat * scale.toNat * (image.side.toNat * scale.toNat)) := by
    rw [hlike.full, hwidth, hheight]
  have hblank : (blank (image.side * scale)).width.toNat = image.side.toNat * scale.toNat :=
    toNat_side hfits
  rw [hblank] at hshows
  refine ⟨hwidth, hheight, hfull, ?_, hwritten, ?_, Copy.places_perm hfits hside⟩
  · intro x hx y hy c hc
    have hplace := index_lt hx hy
    have hpixel := hshows (fun c hc => Copy.source_eq hfits hside hc) _
      (.inl (Copy.mem_places hfits hside hplace))
    have hlong : 0 < image.side.toNat * scale.toNat := Nat.zero_lt_of_lt hx
    have hsource : Copy.sourceOf image.side.toNat scale.toNat
        (y * (image.side.toNat * scale.toNat) + x) =
          y / scale.toNat * image.side.toNat + x / scale.toNat := by
      rw [Copy.sourceOf, Nat.mul_add_mod_self_right, Nat.mod_eq_of_lt hx, Nat.add_comm (y * _),
        Nat.add_mul_div_right _ _ hlong, Nat.div_eq_of_lt hx, Nat.zero_add]
    have hsourcelt : y / scale.toNat * image.side.toNat + x / scale.toNat <
        image.side.toNat * image.side.toNat :=
      index_lt (Nat.div_lt_of_lt_mul (by rwa [Nat.mul_comm]))
        (Nat.div_lt_of_lt_mul (by rwa [Nat.mul_comm]))
    refine ⟨_, Pixel.byteAt?_of_read (by omega) hc, ?_⟩
    rw [Pixel.byteAt?_of_read (by omega) hc, ← hsource, ← hpixel]
    rfl
  · rw [hlike.width, hlike.height]
    exact copies_inside hfits

end

namespace Image

/-- The number of bytes that an image of its side should have, as a 64-bit word. -/
def expected (image : Image) : UInt64 :=
  image.side.toUInt64 * image.side.toUInt64 * 4

theorem toNat_expected (image : Image) :
    image.expected.toNat = 4 * (image.side.toNat * image.side.toNat) % 2 ^ 64 := by
  simp only [expected, UInt64.toNat_mul, UInt32.toNat_toUInt64, Nat.mod_mul_mod]
  rw [Nat.mul_comm]
  rfl

theorem one_le_max (factor : UInt32) : 1 ≤ (max factor 1).toNat := by
  rw [UInt32.toNat_max]
  exact Nat.le_max_right _ _

/-- A factor that is refused whatever the pixels are. -/
def Refuses (image : Image) (factor : UInt32) : Prop :=
  UInt32.size ≤ image.side.toNat * (max factor 1).toNat ∨ Raster.maxScale < max factor 1

section
variable {image : Image} {factor : UInt32}

theorem enlarge_of_refuses (h : image.Refuses factor) :
    image.enlarge factor = .error (.setting (.scaleTooLarge (max factor 1))) :=
  if_pos h

theorem enlarge_of_size (h : ¬image.Refuses factor)
    (hsize : image.pixels.size ≠ image.expected.toNat) :
    image.enlarge factor =
      .error (.pixelCount image.pixels.size.toUInt64 image.expected image.side) :=
  (if_neg h).trans (if_pos hsize)

theorem enlarge_of_bytes (h : ¬image.Refuses factor)
    (hsize : image.pixels.size = image.expected.toNat)
    (hbytes : Raster.maxBytes < 4 * (image.side.toNat * (max factor 1).toNat *
      (image.side.toNat * (max factor 1).toNat))) :
    image.enlarge factor = .error (.unaddressable image.side) := by
  have hfits := Nat.lt_of_not_le (not_or.mp h).1
  rw [← Raster.toNat_side hfits, ← Nat.mul_assoc] at hbytes
  exact (if_neg h).trans ((if_neg (not_not.mpr hsize)).trans (if_pos hbytes))

/-- What fits into a buffer is enlarged. -/
theorem exists_enlarge (h : ¬image.Refuses factor)
    (hsize : image.pixels.size = image.expected.toNat)
    (hbytes : 4 * (image.side.toNat * (max factor 1).toNat *
      (image.side.toNat * (max factor 1).toNat)) ≤ Raster.maxBytes) :
    ∃ raster, image.enlarge factor = .ok raster ∧
      image.pixels.size = 4 * (image.side.toNat * image.side.toNat) ∧
      (image.side.toNat ≤ 65536 → raster.Enlarges image (max factor 1)) := by
  have hfits := Nat.lt_of_not_le (not_or.mp h).1
  have hexact : image.pixels.size = 4 * (image.side.toNat * image.side.toNat) := by
    have hone : image.side.toNat ≤ image.side.toNat * (max factor 1).toNat :=
      Nat.le_mul_of_pos_right _ (one_le_max factor)
    have hsquare := Nat.mul_le_mul hone hone
    rw [hsize, toNat_expected, Nat.mod_eq_of_lt]
    exact Nat.lt_of_le_of_lt (Nat.le_trans (Nat.mul_le_mul_left 4 hsquare) hbytes) (by decide)
  have hcount : image.pixels.size / 4 = image.side.toNat * image.side.toNat := by omega
  obtain ⟨raster, hwritten⟩ := Raster.exists_written hfits
  refine ⟨raster, ?_, hexact,
    fun hside => Raster.enlarges_of_written hfits hside hexact hwritten⟩
  have hput : Raster.putPixels? image.pixels image.side (max factor 1) (image.pixels.size / 4) 0
      (Raster.blank (image.side * max factor 1)) = some raster := by
    rw [Raster.putPixels?_eq, hcount, hwritten]
  rw [← Raster.toNat_side hfits, ← Nat.mul_assoc] at hbytes
  refine (if_neg h).trans ((if_neg (not_not.mpr hsize)).trans
    ((if_neg (Nat.not_lt.mpr hbytes)).trans ?_))
  simp only [hput]

end

/-! ### Small sides -/

section
variable {image : Image} (hside : image.side.toNat ≤ 65536) {factor : UInt32}
include hside

theorem refuses_iff : image.Refuses factor ↔ 32 < max factor 1 := by
  constructor
  · rintro (hlarge | hlarge)
    · by_contra hscale
      have hle : (max factor 1).toNat ≤ 32 := UInt32.le_iff_toNat_le.mp (UInt32.not_lt.mp hscale)
      have hproduct := Nat.mul_le_mul hside hle
      exact absurd (Nat.le_trans hlarge hproduct) (by decide)
    · exact hlarge
  · exact .inr

theorem expected_of_small : image.expected.toNat = 4 * (image.side.toNat * image.side.toNat) := by
  have hsquare := Nat.mul_le_mul hside hside
  rw [toNat_expected, Nat.mod_eq_of_lt (by omega)]

theorem expected_eq_toUInt64 :
    image.expected = (4 * (image.side.toNat * image.side.toNat)).toUInt64 := by
  have hsquare := Nat.mul_le_mul hside hside
  rw [← UInt64.toNat_inj, expected_of_small hside, Nat.toUInt64_eq, UInt64.toNat_ofNat',
    Nat.mod_eq_of_lt (by omega)]

theorem exists_enlarges (hscale : max factor 1 ≤ 32)
    (hsize : image.pixels.size = 4 * (image.side.toNat * image.side.toNat)) :
    ∃ raster, image.enlarge factor = .ok raster ∧ raster.Enlarges image (max factor 1) := by
  have hle : (max factor 1).toNat ≤ 32 := UInt32.le_iff_toNat_le.mp hscale
  have hwide := Nat.mul_le_mul hside hle
  have hbytes := Nat.mul_le_mul_left 4 (Nat.mul_le_mul hwide hwide)
  obtain ⟨raster, henlarge, -, henlarges⟩ := exists_enlarge
    (mt (refuses_iff hside).mp (UInt32.not_lt.mpr hscale))
    (hsize.trans (expected_of_small hside).symm) (Nat.le_trans hbytes (by decide))
  exact ⟨raster, henlarge, henlarges hside⟩

end

end Image

namespace Request

theorem exists_enlarges_synthesize (r : Request) (g : Generator) {factor : UInt32}
    (hscale : max factor 1 ≤ 32) : ∃ raster, (r.synthesize g).enlarge factor = .ok raster ∧
      raster.Enlarges (r.synthesize g) (max factor 1) := by
  apply Image.exists_enlarges _ hscale
  · rw [r.size_synthesize, r.side_synthesize]
    rfl
  · rw [r.side_synthesize]
    cases r.resolution <;> decide

/-- Whatever a request generates can be enlarged. -/
theorem exists_enlarge_synthesize (r : Request) (g : Generator) {factor : UInt32}
    (h : factor ≤ Raster.maxScale) : ∃ raster, (r.synthesize g).enlarge factor = .ok raster := by
  have hscale : max factor 1 ≤ 32 := by
    rw [UInt32.le_iff_toNat_le, UInt32.toNat_max]
    exact Nat.max_le.mpr ⟨UInt32.le_iff_toNat_le.mp h, by decide⟩
  obtain ⟨raster, henlarge, -⟩ := r.exists_enlarges_synthesize g hscale
  exact ⟨raster, henlarge⟩

end Request

namespace Image

/-- Up to a side of 65536 an image is refused for a scale above 32, and else for the wrong number of
bytes, and else enlarged, each pixel to a square of copies. What is synthesized is never refused. -/
theorem enlarge_copies (image : Image) (factor : UInt32) (hside : image.side ≤ 65536) :
    let scale := max factor 1
    let size := 4 * (image.side.toNat * image.side.toNat)
    ((∃ fault, image.enlarge factor = .error fault ∧ fault.kind = .setting) ↔ 32 < scale) ∧
    (32 < scale → image.enlarge factor = .error (.setting (.scaleTooLarge scale))) ∧
    (scale ≤ 32 →
      ((∃ fault, image.enlarge factor = .error fault ∧ fault.kind = .internal) ↔
        image.pixels.size ≠ size) ∧
      (image.pixels.size ≠ size → image.enlarge factor =
        .error (.pixelCount image.pixels.size.toUInt64 size.toUInt64 image.side)) ∧
      (image.pixels.size = size →
        ∃ raster, image.enlarge factor = .ok raster ∧ raster.Enlarges image scale) ∧
      ∀ (r : Request) (g : Generator), ∃ raster,
        (r.synthesize g).enlarge factor = .ok raster ∧ raster.Enlarges (r.synthesize g) scale) := by
  intro scale size
  have hsmall : image.side.toNat ≤ 65536 := UInt32.le_iff_toNat_le.mp hside
  have hlarge (h : 32 < scale) :
      image.enlarge factor = .error (.setting (.scaleTooLarge scale)) :=
    enlarge_of_refuses ((refuses_iff hsmall).mpr h)
  have hsize (h : scale ≤ 32) (hne : image.pixels.size ≠ size) : image.enlarge factor =
      .error (.pixelCount image.pixels.size.toUInt64 size.toUInt64 image.side) := by
    rw [← expected_eq_toUInt64 hsmall]
    exact enlarge_of_size (mt (refuses_iff hsmall).mp (UInt32.not_lt.mpr h))
      (by rwa [expected_of_small hsmall])
  refine ⟨⟨?_, fun h => ⟨_, hlarge h, rfl⟩⟩, hlarge, fun hle => ⟨⟨?_, fun hne => ?_⟩, hsize hle,
    exists_enlarges hsmall hle, fun r g => r.exists_enlarges_synthesize g hle⟩⟩
  · rintro ⟨fault, henlarge, hkind⟩
    by_contra h
    have hle := UInt32.not_lt.mp h
    by_cases heq : image.pixels.size = size
    · obtain ⟨raster, hok, -⟩ := exists_enlarges hsmall hle heq
      cases hok.symm.trans henlarge
    · cases (hsize hle heq).symm.trans henlarge
      cases hkind
  · rintro ⟨fault, henlarge, -⟩ heq
    obtain ⟨raster, hok, -⟩ := exists_enlarges hsmall hle heq
    cases hok.symm.trans henlarge
  · exact ⟨_, hsize hle hne, rfl⟩

/-- A square of four pixels, three copies each way: the place in column 4 and row 2 lies over the
white pixel on the right of the first row. -/
theorem enlarge_copies_checkered :
    let image : Image :=
      { pixels := ⟨#[0, 0, 0, 255, 255, 255, 255, 255, 255, 255, 255, 255, 0, 0, 0, 255]⟩
        side := 2
        stats := .pairs 1
        darkest := none
        brightest := none }
    ∃ raster, image.enlarge 3 = .ok raster ∧ raster.width.toNat = 6 ∧
      byteAt? raster.rgba (4 * (2 * 6 + 4) + 1) = some 255 := by
  intro image
  obtain ⟨-, -, hrest⟩ := enlarge_copies image 3 (by decide)
  obtain ⟨-, -, hcopies, -⟩ := hrest (by decide)
  obtain ⟨raster, henlarge, henlarges⟩ := hcopies rfl
  obtain ⟨b, hb, hsource⟩ := henlarges.bytes 4 (by decide) 2 (by decide) 1 (by decide)
  refine ⟨raster, henlarge, henlarges.width, hb.trans ?_⟩
  rw [← hsource]
  decide

end Image

end OrbitImage
