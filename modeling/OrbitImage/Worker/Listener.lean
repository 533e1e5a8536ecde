import OrbitImage.Worker.Basic
/-!
Listeners: callers that follow a job to its end. A listener takes one event at a time, whenever it
looks; it never blocks the thread, so that one caller can follow several jobs.
-/
namespace OrbitImage

structure Listener (π α : Type) where
  job : Nat
  told : Array π := #[]
  outcome : Option (Except Fault α) := none

namespace Listener

variable {ρ π α : Type}

def isDone (l : Listener π α) : Bool :=
  l.outcome.isSome

def hear (l : Listener π α) : Event π α → Listener π α
  | .progress value => { l with told := l.told.push value }
  | .finished outcome => { l with outcome := some outcome }

/-- Looks once. A job whose channel is over has no end to be heard of. -/
def poll (l : Listener π α) (w : Worker ρ π α) : Listener π α × Worker ρ π α :=
  if l.isDone then (l, w)
  else
    match w.receive l.job with
    | (some event, w) => (l.hear event, w)
    | (none, w) => (if w.isOver l.job then { l with outcome := some (.error .gone) } else l, w)

theorem rank_poll (course : ρ → Course π α) (l : Listener π α) (w : Worker ρ π α) :
    (l.poll w).2.rank course = w.rank course := by
  have h := w.rank_receive course l.job
  unfold poll
  split
  · rfl
  · split <;> simp_all

def pollTimes : Nat → Listener π α → Worker ρ π α → Listener π α × Worker ρ π α
  | 0, l, w => (l, w)
  | n + 1, l, w => pollTimes n (l.poll w).1 (l.poll w).2

theorem rank_pollTimes (course : ρ → Course π α) (n : Nat) (l : Listener π α)
    (w : Worker ρ π α) : (pollTimes n l w).2.rank course = w.rank course := by
  induction n generalizing l w with
  | zero => rfl
  | succ n ih => rw [pollTimes, ih, rank_poll]

/-- Looks until everything sent so far is received, and once more. -/
def catchUp (l : Listener π α) (w : Worker ρ π α) : Listener π α × Worker ρ π α :=
  pollTimes ((w.channel? l.job).elim 0 Channel.unread + 1) l w

theorem rank_catchUp (course : ρ → Course π α) (l : Listener π α) (w : Worker ρ π α) :
    (l.catchUp w).2.rank course = w.rank course :=
  rank_pollTimes course _ l w

end Listener

end OrbitImage
