import OrbitImage.Image.Raster
import OrbitImage.Text.Basic
/-!
Files of images. Main definitions: `Encoder`, how images become files; and `Raster.png`, PNG files of
eight bits a channel, four channels, rows unfiltered, and the data stored without compression.
-/
namespace OrbitImage

/-- What an encoder makes of an image: all of it, or a part that may be empty and why it is no more. -/
inductive Encoded
  | whole (bytes : ByteArray)
  | part (bytes : ByteArray) (reason : String)

namespace Encoded

def bytes : Encoded → ByteArray
  | whole bytes => bytes
  | part bytes _ => bytes

def outcome : Encoded → Except String Unit
  | whole _ => .ok ()
  | part _ reason => .error reason

end Encoded

/-- How images become files. The format is told by the extension of the file, and by nothing else; a
file without a format is not opened. -/
structure Encoder where
  /-- Why there is no format for an extension, or for a name without one. -/
  refusal? (extension : Option String) : Option String
  /-- An image in the format of an extension. -/
  encode (extension : Option String) (raster : Raster) : Encoded

namespace Png

/-- The four bytes of a word, the highest first. -/
def word (x : UInt32) : ByteArray :=
  ⟨#[(x >>> 24).toUInt8, (x >>> 16).toUInt8, (x >>> 8).toUInt8, x.toUInt8]⟩

/-- The two bytes of a half word, the lowest first. -/
def lowFirst (x : UInt16) : ByteArray :=
  ⟨#[x.toUInt8, (x >>> 8).toUInt8]⟩

/-! ### Checksums -/

/-- One step of the division by the checksum's polynomial. -/
def divide (c : UInt32) : UInt32 :=
  if c &&& 1 = 1 then (c >>> 1) ^^^ 0xEDB88320 else c >>> 1

def remainders : Array UInt32 :=
  Array.ofFn fun b : Fin 256 => Nat.repeat divide 8 b.val.toUInt32

def crcByte (c : UInt32) (b : UInt8) : UInt32 :=
  remainders.getD ((c ^^^ b.toUInt32) &&& 0xFF).toNat 0 ^^^ (c >>> 8)

def crc (bytes : ByteArray) : UInt32 :=
  bytes.foldl crcByte 0xFFFFFFFF ^^^ 0xFFFFFFFF

def adlerByte (sums : UInt32 × UInt32) (b : UInt8) : UInt32 × UInt32 :=
  let low := (sums.1 + b.toUInt32) % 65521
  (low, (sums.2 + low) % 65521)

def adler (bytes : ByteArray) : UInt32 :=
  let (low, high) := bytes.foldl adlerByte (1, 0)
  (high <<< 16) ||| low

/-! ### Layout -/

def blockSize : Nat :=
  65535

/-- Appends `count` blocks and the last one, from an index on. -/
def addBlocks (data : ByteArray) : Nat → Nat → ByteArray → ByteArray
  | 0, i, out =>
    let length := (data.size - i).toUInt16
    out.push 1 ++ lowFirst length ++ lowFirst (length ^^^ 0xFFFF) ++ data.extract i data.size
  | count + 1, i, out =>
    let length := blockSize.toUInt16
    let head := out.push 0 ++ lowFirst length ++ lowFirst (length ^^^ 0xFFFF)
    addBlocks data count (i + blockSize) (head ++ data.extract i (i + blockSize))

/-- Data stored as it is, in as many blocks as it needs. -/
def stored (data : ByteArray) : ByteArray :=
  addBlocks data ((data.size - 1) / blockSize) 0 ⟨#[0x78, 0x01]⟩ ++ word (adler data)

def chunk (kind : String) (data : ByteArray) : ByteArray :=
  let body := kind.toUTF8 ++ data
  word data.size.toUInt32 ++ body ++ word (crc body)

/-- Appends `count` rows from an index on, each behind the number of its filter. -/
def addRows (rgba : ByteArray) (width : Nat) : Nat → Nat → ByteArray → ByteArray
  | 0, _, out => out
  | count + 1, i, out =>
    addRows rgba width count (i + width) (out.push 0 ++ rgba.extract i (i + width))

def signature : ByteArray :=
  ⟨#[0x89, 0x50, 0x4E, 0x47, 0x0D, 0x0A, 0x1A, 0x0A]⟩

end Png

def Raster.png (r : Raster) : ByteArray :=
  let head := Png.word r.width ++ Png.word r.height ++ ⟨#[8, 6, 0, 0, 0]⟩
  let rows := Png.addRows r.rgba (4 * r.width.toNat) r.height.toNat 0 ByteArray.empty
  Png.signature ++ Png.chunk "IHDR" head ++ Png.chunk "IDAT" (Png.stored rows) ++
    Png.chunk "IEND" ByteArray.empty

/-- The encoder with one format. -/
def Encoder.png : Encoder where
  refusal?
    | none => some "The image format could not be determined"
    | some extension =>
      if ["png", "apng"].contains (Text.lowerAscii extension) then none
      else some ("There is no image format for files of the extension " ++ extension)
  encode _ raster := .whole raster.png

end OrbitImage
