import OrbitImage.Decimal.Dyadic
import OrbitImage.Image.Gray
/-!
Bit balance: how often each bit of the values is set.
-/
namespace OrbitImage

/-- For each bit the number of values seen with it set. -/
structure BitCounter where
  counts : Vector UInt32 32 := Vector.replicate 32 0
  deriving DecidableEq

/-- A bit, the fraction of values with it set, and the distance of the fraction from a half. -/
structure BitStat where
  bit : UInt8
  proportion : Float
  imbalance : Float

inductive Stats
  | bits (entries : List BitStat)
  | pairs (maxHits : UInt32)

namespace BitCounter

def add (c : BitCounter) (x : UInt32) : BitCounter :=
  ⟨c.counts.mapFinIdx fun bit count _ => count + bitOf x bit⟩

/-- The proportion that a count has in a total; nothing of nothing is zero. -/
def proportion (count : UInt32) (total : UInt64) : Float :=
  if total = 0 then 0 else count.toFloat / total.toFloat

def stats (c : BitCounter) (total : UInt64) : List BitStat :=
  (c.counts.mapFinIdx fun bit count _ =>
    let p := proportion count total
    { bit := bit.toUInt8, proportion := p, imbalance := (0.5 - p).abs : BitStat }).toList

end BitCounter

/-- A place in the total order of doubles: NaN outermost on the side of its sign, and negative zero
below zero. -/
def floatRank (x : Float) : Int :=
  let bits := x.toBits.toNat
  let signBit : Nat := 0x8000000000000000
  if bits < signBit then bits else signBit - 1 - (bits : Int)

namespace BitStat

/-- The imbalance above which a bit counts as biased. -/
def biasThreshold : Float :=
  0.05

def isBiased (s : BitStat) : Bool :=
  s.imbalance > biasThreshold

def biased (entries : List BitStat) : Nat :=
  entries.countP isBiased

/-- The entry of largest imbalance, the last of several. -/
def worst? (entries : List BitStat) : Option BitStat :=
  entries.foldl
    (fun best s =>
      match best with
      | some b => if floatRank b.imbalance ≤ floatRank s.imbalance then some s else some b
      | none => some s)
    none

end BitStat

namespace Stats

def entries? : Stats → Option (List BitStat)
  | bits entries => some entries
  | pairs _ => none

def maxHits? : Stats → Option UInt32
  | bits _ => none
  | pairs maxHits => some maxHits

def worst? (s : Stats) : Option BitStat :=
  s.entries?.bind BitStat.worst?

end Stats

end OrbitImage
