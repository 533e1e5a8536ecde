import OrbitImage.Proofs.Image.Raster
/-!
Addresses in images of any side. The number of bytes and the index of a pixel are 64-bit products:
they are exact below a side of 2^31, and from there on they wrap around. A buffer of the wrong size
then passes for the right one, and an index behind the end for one within.
-/
namespace OrbitImage

namespace Image

/-! ### Sizes -/

theorem square_lt_iff (side : Nat) : 4 * (side * side) < 2 ^ 64 ↔ side < 2 ^ 31 := by
  constructor
  · intro h
    by_contra hside
    have hsquare := Nat.mul_le_mul (Nat.le_of_not_lt hside) (Nat.le_of_not_lt hside)
    omega
  · intro h
    have hle : side ≤ 2 ^ 31 - 1 := Nat.le_sub_one_of_lt h
    have hsquare := Nat.mul_le_mul hle hle
    omega

theorem square_mod_eq_iff (side : Nat) :
    4 * (side * side) % 2 ^ 64 = 4 * (side * side) ↔ side < 2 ^ 31 := by
  rw [Nat.mod_eq_iff_lt (by decide), square_lt_iff]

section
variable {image : Image} {factor : UInt32} (h : ¬image.Refuses factor)
include h

/-- The check of the buffer compares with the product as it wraps around. -/
theorem passes_iff :
    (∀ held count, image.enlarge factor ≠ .error (.pixelCount held count image.side)) ↔
      image.pixels.size = 4 * (image.side.toNat * image.side.toNat) % 2 ^ 64 := by
  rw [← toNat_expected]
  constructor
  · intro hpasses
    by_contra hne
    exact hpasses _ _ (enlarge_of_size h hne)
  · intro hsize held count heq
    by_cases hbytes : 4 * (image.side.toNat * (max factor 1).toNat *
        (image.side.toNat * (max factor 1).toNat)) ≤ Raster.maxBytes
    · obtain ⟨raster, henlarge, -⟩ := exists_enlarge h hsize hbytes
      cases henlarge.symm.trans heq
    · cases (enlarge_of_bytes h hsize (Nat.lt_of_not_le hbytes)).symm.trans heq

/-- Without an address there is only what no buffer could hold. -/
theorem lt_of_unaddressable {side : UInt32}
    (heq : image.enlarge factor = .error (.unaddressable side)) :
    Raster.maxBytes < 4 * (image.side.toNat * (max factor 1).toNat *
      (image.side.toNat * (max factor 1).toNat)) := by
  by_contra hbytes
  by_cases hsize : image.pixels.size = image.expected.toNat
  · obtain ⟨raster, henlarge, -⟩ := exists_enlarge h hsize (Nat.le_of_not_lt hbytes)
    cases henlarge.symm.trans heq
  · cases (enlarge_of_size h hsize).symm.trans heq

/-- Where the product has wrapped around, the enlarged image has no address either. -/
theorem unaddressable_of_wrapped (hside : 2 ^ 31 ≤ image.side.toNat)
    (hsize : image.pixels.size = 4 * (image.side.toNat * image.side.toNat) % 2 ^ 64) :
    image.enlarge factor = .error (.unaddressable image.side) := by
  have hone : image.side.toNat ≤ image.side.toNat * (max factor 1).toNat :=
    Nat.le_mul_of_pos_right _ (one_le_max factor)
  have hwide := Nat.le_trans hside hone
  have hbytes := Nat.mul_le_mul_left 4 (Nat.mul_le_mul hwide hwide)
  exact enlarge_of_bytes h (by rw [hsize, toNat_expected]) (Nat.lt_of_lt_of_le (by decide) hbytes)

end

/-! ### Indices -/

theorem grayAt?_of_outside {image : Image} {x y : UInt32} (h : image.side ≤ x ∨ image.side ≤ y) :
    image.grayAt? x y = none :=
  if_pos h

theorem grayAt?_of_inside {image : Image} {x y : UInt32} (hx : x < image.side)
    (hy : y < image.side) :
    image.grayAt? x y =
      byteAt? image.pixels (4 * (y.toNat * image.side.toNat + x.toNat) % 2 ^ 64) := by
  have hinside : ¬(image.side ≤ x ∨ image.side ≤ y) :=
    not_or.mpr ⟨UInt32.not_le.mpr hx, UInt32.not_le.mpr hy⟩
  have hindex : ((y.toUInt64 * image.side.toUInt64 + x.toUInt64) * 4).toNat =
      4 * (y.toNat * image.side.toNat + x.toNat) % 2 ^ 64 := by
    simp only [UInt64.toNat_mul, UInt64.toNat_add, UInt32.toNat_toUInt64, Nat.mod_add_mod,
      Nat.mod_mul_mod]
    rw [Nat.mul_comm]
    rfl
  rw [grayAt?, if_neg hinside]
  simp only [hindex]

/-- Up to this side no index wraps around. -/
theorem index_lt_of_side {side x y : Nat} (hside : side ≤ 2 ^ 31) (hx : x < side) (hy : y < side) :
    4 * (y * side + x) < 2 ^ 64 := by
  have hindex := index_lt hx hy
  have hsquare := Nat.mul_le_mul hside hside
  omega

/-- The guards of an image. A scale that is not refused leaves the buffer check, which is exact for
a side below 2^31; there all copies are inside, and an image without an address is one that no buffer
holds. From 2^31 on the check asks for a wrong number of bytes, and what passes it has no address.
The grey level is read at an index that is exact up to a side of 2^31, and else wraps around. -/
theorem guards_exact_below (image : Image) :
    (∀ factor, ¬image.Refuses factor →
      let side := image.side.toNat
      let scale := (max factor 1).toNat
      let passes := ∀ held count, image.enlarge factor ≠ .error (.pixelCount held count image.side)
      (passes ↔ image.pixels.size = 4 * (side * side) % 2 ^ 64) ∧
      (side < 2 ^ 31 →
        (passes ↔ image.pixels.size = 4 * (side * side)) ∧
        (∀ j < side * side, ∀ dx < scale, ∀ dy < scale,
          let c := Copy.nth image.side (max factor 1) j dx dy
          c.x.toNat = j % 2 ^ 32 % side * scale + dx ∧
            c.y.toNat = j % 2 ^ 32 / side * scale + dy ∧
            c.x.toNat < side * scale ∧ c.y.toNat < side * scale) ∧
        ∀ s, image.enlarge factor = .error (.unaddressable s) →
          Raster.maxBytes < 4 * (side * scale * (side * scale))) ∧
      (2 ^ 31 ≤ side → passes →
        image.pixels.size ≠ 4 * (side * side) ∧
          image.enlarge factor = .error (.unaddressable image.side))) ∧
    ∀ x y : UInt32,
      let index := 4 * (y.toNat * image.side.toNat + x.toNat)
      (image.side ≤ x ∨ image.side ≤ y → image.grayAt? x y = none) ∧
      (x < image.side → y < image.side →
        image.grayAt? x y = byteAt? image.pixels (index % 2 ^ 64) ∧
          (image.side.toNat ≤ 2 ^ 31 →
            index < 2 ^ 64 ∧ image.grayAt? x y = byteAt? image.pixels index)) := by
  refine ⟨fun factor h => ⟨passes_iff h, fun hside => ⟨?_, ?_, ?_⟩, fun hside hpasses => ⟨?_, ?_⟩⟩,
    fun x y => ⟨grayAt?_of_outside, fun hx hy => ⟨grayAt?_of_inside hx hy, fun hside => ?_⟩⟩⟩
  · rw [passes_iff h, (square_mod_eq_iff _).mpr hside]
  · intro j hj dx hdx dy hdy
    exact Copy.toNat_nth (Nat.lt_of_not_le (not_or.mp h).1) hj hdx hdy
  · exact fun s heq => lt_of_unaddressable h heq
  · rw [(passes_iff h).mp hpasses]
    exact mt (square_mod_eq_iff _).mp (Nat.not_lt.mpr hside)
  · exact unaddressable_of_wrapped h hside ((passes_iff h).mp hpasses)
  · have hlt := index_lt_of_side hside (UInt32.lt_iff_toNat_lt.mp hx) (UInt32.lt_iff_toNat_lt.mp hy)
    rw [grayAt?_of_inside hx hy, Nat.mod_eq_of_lt hlt]
    exact ⟨hlt, rfl⟩

/-- The image of a document has a side and no pixels. -/
def unpainted (side : UInt32) : Image :=
  { pixels := .empty, side, stats := .pairs 1, darkest := none, brightest := none }

/-- One row and column less than 2^31 are told from a buffer without bytes. -/
theorem guards_exact_below_largest :
    (∃ held count, (unpainted 0x7FFFFFFF).enlarge 1 =
      .error (.pixelCount held count 0x7FFFFFFF)) ∧
    (unpainted 0x80000000).grayAt? 0x7FFFFFFF 0x7FFFFFFF = none := by
  obtain ⟨hsize, -⟩ := guards_exact_below (unpainted 0x7FFFFFFF)
  obtain ⟨-, hgray⟩ := guards_exact_below (unpainted 0x80000000)
  constructor
  · have hpasses := ((hsize 1 (by unfold Refuses; decide)).2.1 (by decide)).1
    by_contra hnone
    push Not at hnone
    exact absurd (hpasses.mp hnone) (by decide)
  · have hinside := (hgray 0x7FFFFFFF 0x7FFFFFFF).2 (by decide) (by decide)
    rw [(hinside.2 (by decide)).2]
    rfl

/-- At 2^31 a buffer without bytes passes, and then the image has no address. One column and row
further a grey level is read from the first pixel, though the index is behind the only one. -/
theorem unpainted_passes :
    (unpainted 0x80000000).pixels.size ≠ 4 * (0x80000000 * 0x80000000) ∧
    (unpainted 0x80000000).enlarge 1 = .error (.unaddressable 0x80000000) ∧
    ∃ image : Image, image.side = 0x80000001 ∧
      image.pixels.size ≤ 4 * (0x7FFFFFFF * 0x80000001 + 1) ∧
      image.grayAt? 1 0x7FFFFFFF = some 7 := by
  refine ⟨by decide, ?_, { unpainted 0x80000001 with pixels := ⟨#[7, 7, 7, 255]⟩ }, rfl, by decide,
    by decide⟩
  exact unaddressable_of_wrapped (by unfold Refuses; decide) (by decide) (by decide)

end Image

end OrbitImage
