import OrbitImage.Image.Balance
/-!
Images: square, four bytes to a pixel, rows from the top, with statistics of their values.
-/
namespace OrbitImage

structure Image where
  pixels : ByteArray
  side : UInt32
  stats : Stats
  /-- The range of grey levels; a density map has none. -/
  darkest : Option UInt8
  brightest : Option UInt8

/-- Red, green and blue at a grey level, opaque. -/
def putGray (pixels : ByteArray) (gray : UInt8) : ByteArray :=
  (((pixels.push gray).push gray).push gray).push 255

def byteAt? (bytes : ByteArray) (i : Nat) : Option UInt8 :=
  if h : i < bytes.size then some bytes[i] else none

/-- Replaces a byte; there is none behind the last. -/
@[inline] def setByte? (bytes : ByteArray) (i : Nat) (b : UInt8) : Option ByteArray :=
  if h : i < bytes.size then some (bytes.set i b) else none

/-- The four bytes of a pixel. -/
structure Pixel where
  red : UInt8
  green : UInt8
  blue : UInt8
  alpha : UInt8
  deriving DecidableEq, Repr

namespace Pixel

/-- The pixel of a number among four bytes each; what is missing is zero. -/
def read (bytes : ByteArray) (i : Nat) : Pixel :=
  let byte (k : Nat) : UInt8 := (byteAt? bytes (4 * i + k)).getD 0
  ⟨byte 0, byte 1, byte 2, byte 3⟩

/-- Replaces the pixel of a number. -/
def write? (bytes : ByteArray) (i : Nat) (p : Pixel) : Option ByteArray := do
  let bytes ← setByte? bytes (4 * i) p.red
  let bytes ← setByte? bytes (4 * i + 1) p.green
  let bytes ← setByte? bytes (4 * i + 2) p.blue
  setByte? bytes (4 * i + 3) p.alpha

end Pixel

/-- The grey level at a column and a row, read from the red channel. The index is a 64-bit word. -/
def Image.grayAt? (image : Image) (x y : UInt32) : Option UInt8 :=
  if image.side ≤ x ∨ image.side ≤ y then none
  else
    let index := (y.toUInt64 * image.side.toUInt64 + x.toUInt64) * 4
    byteAt? image.pixels index.toNat

end OrbitImage
