import OrbitImage.Fault
import OrbitImage.Image.Basic
/-!
Rasters: an image enlarged by a whole factor, each pixel a square of copies. The copies are written
into a blank raster, pixel by pixel; a pixel is found by its number, which is a 32-bit word.
-/
namespace OrbitImage

structure Raster where
  width : UInt32
  height : UInt32
  rgba : ByteArray

namespace Raster

def maxScale : UInt32 :=
  32

/-- The size of the largest buffer there is. -/
def maxBytes : Nat :=
  0x7FFFFFFFFFFFFFFF

def zeros : Nat → ByteArray → ByteArray
  | 0, bytes => bytes
  | count + 1, bytes => zeros count (bytes.push 0)

/-- A square of zeros. -/
def blank (side : UInt32) : Raster :=
  let count := 4 * side.toNat * side.toNat
  ⟨side, side, zeros count (ByteArray.emptyWithCapacity count)⟩

/-- Writes a pixel at a column and a row; there is none outside. -/
def put? (r : Raster) (x y : UInt32) (p : Pixel) : Option Raster :=
  match r with
  | ⟨width, height, rgba⟩ =>
    if x < width ∧ y < height then
      (p.write? rgba (y.toNat * width.toNat + x.toNat)).map (⟨width, height, ·⟩)
    else none

/-- Writes copies of a pixel from a column on. -/
def putLine? (p : Pixel) (x y : UInt32) : Nat → Raster → Option Raster
  | 0, r => some r
  | copies + 1, r => (putLine? p x y copies r).bind (·.put? (x + copies.toUInt32) y p)

/-- Writes lines of copies from a row on. -/
def putBlock? (p : Pixel) (x y : UInt32) (width : Nat) : Nat → Raster → Option Raster
  | 0, r => some r
  | lines + 1, r => (putBlock? p x y width lines r).bind (putLine? p x (y + lines.toUInt32) width)

/-- Writes `count` pixels of an image from a number on, each as a square of `scale` copies a side. -/
def putPixels? (pixels : ByteArray) (side scale : UInt32) : Nat → Nat → Raster → Option Raster
  | 0, _, r => some r
  | count + 1, i, r =>
    let x := i.toUInt32 % side * scale
    let y := i.toUInt32 / side * scale
    match putBlock? (Pixel.read pixels i) x y scale.toNat scale.toNat r with
    | some r => putPixels? pixels side scale count (i + 1) r
    | none => none

end Raster

/-- The image enlarged; a factor of zero counts as one. The expected number of bytes is a 64-bit
word. -/
def Image.enlarge (image : Image) (factor : UInt32) : Except Fault Raster :=
  let scale := max factor 1
  let side := image.side
  if side.toNat * scale.toNat ≥ UInt32.size ∨ scale > Raster.maxScale then
    .error (.setting (.scaleTooLarge scale))
  else
    let expected := side.toUInt64 * side.toUInt64 * 4
    if image.pixels.size ≠ expected.toNat then
      .error (.pixelCount image.pixels.size.toUInt64 expected side)
    else
      let size := side * scale
      if 4 * size.toNat * size.toNat > Raster.maxBytes then .error (.unaddressable side)
      else
        let count := image.pixels.size / 4
        match Raster.putPixels? image.pixels side scale count 0 (Raster.blank size) with
        | some raster => .ok raster
        | none => .error (.unaddressable side)

end OrbitImage
