import OrbitImage.Side
import OrbitImage.Worker.Listener
/-!
Two workers side by side, and a caller that has one request for each. The caller looks at the sides
in turn; whatever one side does, the other is followed to its own end.
-/
namespace OrbitImage

/-- Two workers, and what a caller follows on each side. -/
structure SplitRun (ρ π α : Type) where
  workers : Both (Worker ρ π α)
  listeners : Both (Listener π α)

namespace SplitRun

variable {ρ π α : Type}

/-- Submits on the left, then on the right. If the right side refuses, the job on the left has no
caller any more, but it is done. -/
def start (workers : Both (Worker ρ π α)) (requests : Both ρ) :
    Except Fault (SplitRun ρ π α) × Both (Worker ρ π α) :=
  match workers.left.submit requests.left with
  | .error fault => (.error fault, workers)
  | .ok (leftJob, left) =>
    match workers.right.submit requests.right with
    | .error fault =>
      (.error fault, { workers with left := left.onChannel leftJob Channel.forget })
    | .ok (rightJob, right) =>
      let workers := ⟨left, right⟩
      (.ok ⟨workers, ⟨{ job := leftJob }, { job := rightJob }⟩⟩, workers)

def poll (s : SplitRun ρ π α) (side : Side) : SplitRun ρ π α :=
  let (listener, worker) := (s.listeners.on side).poll (s.workers.on side)
  ⟨s.workers.set side worker, s.listeners.set side listener⟩

def advance (course : ρ → Course π α) (s : SplitRun ρ π α) (side : Side) :
    Option (SplitRun ρ π α) :=
  ((s.workers.on side).advance course).map fun worker =>
    { s with workers := s.workers.set side worker }

/-- The caller goes on looking until both sides have ended. -/
def isDone (s : SplitRun ρ π α) : Bool :=
  s.listeners.left.isDone && s.listeners.right.isDone

end SplitRun

end OrbitImage
