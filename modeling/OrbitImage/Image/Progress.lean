import OrbitImage.Request.Basic
/-!
Progress in percent. A reporter covers a part of the way from 0 to 100 at a time and notifies at
every `interval`-th step; what it notifies never decreases. The numbers may be doubles or exact, so
that the same steps can be run on the machine and in the reals.
-/
namespace OrbitImage

/-- Numbers that percentages are computed with. -/
class Percent (α : Type) extends Add α, Mul α, Div α, Max α where
  whole : Nat → α

/-- Doubles; a NaN gives way to any other number. -/
instance : Percent Float where
  whole n := n.toUInt64.toFloat
  max x y := if x.isNaN ∨ x < y then y else x

structure Reporter (α : Type) where
  total : Nat
  offset : α
  span : α
  last : α
  sent : Array α

/-- What happens to a reporter in the course of an image. -/
inductive ProgressStep (α : Type)
  | phase (offset span : α)
  /-- All steps of a phase, the first numbered 0. -/
  | all
  | finish

namespace Reporter

variable {α : Type} [Percent α]

/-- A hundredth of the steps, or a thousand steps where that would be none. -/
def intervalOf (total : Nat) : Nat :=
  match total / 100 with
  | 0 => 1000
  | n => n

def interval (r : Reporter α) : Nat :=
  intervalOf r.total

def start (total : Nat) : Reporter α :=
  { total
    offset := Percent.whole 0
    span := Percent.whole 100
    last := Percent.whole 0
    sent := #[] }

def notify (r : Reporter α) (value : α) : Reporter α :=
  let value := max value r.last
  { r with last := value, sent := r.sent.push value }

def phase (r : Reporter α) (offset span : α) : Reporter α :=
  { r with offset, span }

/-- Step `i` of the phase; only the multiples of the interval are notified. -/
def tick (r : Reporter α) (i : Nat) : Reporter α :=
  if i % r.interval = 0 then
    r.notify (r.offset + Percent.whole i / Percent.whole r.total * r.span)
  else r

/-- The steps from `i` on, `count` of them. -/
def ticks (r : Reporter α) (i : Nat) : Nat → Reporter α
  | 0 => r
  | count + 1 => ticks (r.tick i) (i + 1) count

def finish (r : Reporter α) : Reporter α :=
  r.notify (Percent.whole 100)

def step (r : Reporter α) : ProgressStep α → Reporter α
  | .phase offset span => r.phase offset span
  | .all => r.ticks 0 r.total
  | .finish => r.finish

end Reporter

namespace Request

variable {α : Type} [Percent α]

/-- Whether all values are kept before the first pixel is painted. -/
def isBuffered (r : Request) : Bool :=
  r.mode ≠ .pair && r.contrast.enabled

/-- A stretched image is made in two phases, any other in one. -/
def schedule (r : Request) : List (ProgressStep α) :=
  if r.isBuffered then
    [.phase (Percent.whole 0) (Percent.whole 50), .all,
     .phase (Percent.whole 50) (Percent.whole 50), .all, .finish]
  else [.all, .finish]

def progress (α : Type) [Percent α] (r : Request) : Array α :=
  (r.schedule.foldl Reporter.step (Reporter.start r.resolution.pixels)).sent

end Request

end OrbitImage
