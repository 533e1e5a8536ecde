import OrbitImage.Image.Basic
import OrbitImage.Request.Basic
/-!
Density maps: each value and the next are the column and the row of a hit, modulo the side.
-/
namespace OrbitImage

/-- The hits of each cell, row by row, and those of the densest cell. -/
structure Density where
  hits : Array UInt32
  most : UInt32

namespace Density

def blank (cells : Nat) : Density :=
  ⟨Array.replicate cells 0, 0⟩

def cell (side previous x : UInt32) : Nat :=
  (x % side).toNat * side.toNat + (previous % side).toNat

def add (d : Density) (cell : Nat) : Density :=
  match d with
  | ⟨hits, most⟩ =>
    if h : cell < hits.size then
      let n := hits[cell] + 1
      ⟨hits.set cell n, max most n⟩
    else ⟨hits, most⟩

/-- Counts the next `count` pairs, of which `previous` starts the first. -/
def count (g : Generator) (side : UInt32) : Nat → UInt32 → Density → Density
  | 0, _, d => d
  | n + 1, previous, d =>
    let x := g.step previous
    count g side n x (d.add (cell side previous x))

end Density

/-- The grey level of a cell beside the densest; a cell without hits is black. -/
def PairScale.gray (scale : PairScale) (hits most : UInt32) : UInt8 :=
  if hits = 0 ∨ most = 0 then 0
  else
    match scale with
    | .log => ((hits.toFloat + 1).log / (most.toFloat + 1).log * 255).floor.toUInt8
    | .linear => (hits.toUInt64 * 255 / most.toUInt64).toUInt8

/-- The density map of all pairs from the seed on. -/
def Request.densityMap (r : Request) (g : Generator) : Image :=
  let cells := r.resolution.pixels
  let d := Density.count g r.resolution.side cells r.seed (Density.blank cells)
  { pixels := d.hits.foldl (fun pixels hits => putGray pixels (r.pairScale.gray hits d.most))
      (ByteArray.emptyWithCapacity (4 * cells))
    side := r.resolution.side
    stats := .pairs d.most
    darkest := none
    brightest := none }

end OrbitImage
