import OrbitImage.Image.Density
import OrbitImage.Image.Progress
/-!
From a request to its image. All modes but density maps paint one pixel per value: without a stretch
while the values are made, and with one after all of them, when the range of grey levels is known.
Whatever is wrong with a request is found before the first percentage is notified.
-/
namespace OrbitImage

structure Canvas where
  pixels : ByteArray
  bits : BitCounter
  range : GrayRange

namespace Canvas

def blank (count : Nat) : Canvas :=
  ⟨ByteArray.emptyWithCapacity (4 * count), {}, {}⟩

def add (c : Canvas) (x : UInt32) (gray : UInt8) : Canvas :=
  match c with
  | ⟨pixels, bits, range⟩ => ⟨putGray pixels gray, bits.add x, range.observe gray⟩

def paint (g : Generator) (gray : UInt32 → UInt32 → UInt8) : Nat → UInt32 → Canvas → Canvas
  | 0, _, c => c
  | count + 1, previous, c =>
    let x := g.step previous
    paint g gray count x (c.add x (gray previous x))

end Canvas

/-- The grey levels of values, of which each is compared with the one before. -/
def grayLevels (gray : UInt32 → UInt32 → UInt8) (seed : UInt32) (values : Array UInt32) :
    Array UInt8 :=
  (values.foldl (fun (previous, levels) x => (x, levels.push (gray previous x)))
    (seed, Array.emptyWithCapacity values.size)).2

namespace Request

/-- The image from what a pass over all values has found. -/
def imageOf (r : Request) (pixels : ByteArray) (bits : BitCounter) (range : GrayRange) : Image :=
  { pixels
    side := r.resolution.side
    stats := .bits (bits.stats r.resolution.pixels.toUInt64)
    darkest := some range.min
    brightest := some range.max }

/-- Paints while the values are made. -/
def singlePass (r : Request) (g : Generator) : Image :=
  let count := r.resolution.pixels
  let c := Canvas.paint g (r.mode.gray r.bitPlane) count r.seed (Canvas.blank count)
  r.imageOf c.pixels c.bits c.range

/-- Keeps all values, then their grey levels, and paints these after the stretch. -/
def twoPass (r : Request) (g : Generator) : Image :=
  let count := r.resolution.pixels
  let values := g.sample r.seed count
  let bits := values.foldl BitCounter.add {}
  let levels := grayLevels (r.mode.gray r.bitPlane) r.seed values
  let range := GrayRange.ofArray levels
  let (low, high) := r.contrast.bounds range
  let stretched := stretch low high levels
  let pixels := stretched.foldl putGray (ByteArray.emptyWithCapacity (4 * count))
  r.imageOf pixels bits range

/-- The image of a generator in the mode and contrast of a request. -/
def synthesize (r : Request) (g : Generator) : Image :=
  match r.mode with
  | .pair => r.densityMap g
  | _ => if r.contrast.enabled then r.twoPass g else r.singlePass g

/-- The course of a request: the percentages on the way, and the image or what is wrong. -/
def generate (α : Type) [Percent α] (r : Request) : Course α Image :=
  match r.generator with
  | .error fault => ⟨#[], .error fault⟩
  | .ok g => ⟨r.progress α, .ok (r.synthesize g)⟩

end Request

end OrbitImage
