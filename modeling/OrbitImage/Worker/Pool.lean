import OrbitImage.Image.Record
import OrbitImage.Worker.Split
/-!
Pools: workers side by side in time. Time is counted in units of work, and passes only while a
caller waits; all threads work at the same pace. What a caller finds of one worker after waiting
for another so depends on how much work the two have, and on nothing else. At the end stand the
workers that make images, with their events as JSON messages.
-/
namespace OrbitImage

structure Station (ρ π α : Type) where
  worker : Worker ρ π α
  /-- When the last step of the thread was done, or when it was given something to do. -/
  since : Nat

/-- What a request comes to, and the work before each notice. -/
structure Workload (ρ π α : Type) where
  course : ρ → Course π α
  pace : ρ → Nat

structure Pool (ρ π α : Type) where
  stations : List (Station ρ π α) := []
  now : Nat := 0

namespace Station

variable {ρ π α : Type}

/-- The work that the next step of a thread takes; only notices take any. -/
def effort (load : Workload ρ π α) (w : Worker ρ π α) : Nat :=
  match w.thread with
  | .working job (_ :: _) _ => (w.jobs[job]?).elim 0 fun j => load.pace j.request
  | _ => 0

/-- When the thread will have made its next step, if it can make one. -/
def due? (load : Workload ρ π α) (s : Station ρ π α) : Option Nat :=
  if s.worker.canAdvance then some (s.since + effort load s.worker) else none

end Station

namespace Pool

variable {ρ π α : Type}

def worker? (p : Pool ρ π α) (i : Nat) : Option (Worker ρ π α) :=
  (p.stations[i]?).map Station.worker

/-- Puts another worker in the place of one. -/
def setWorker (p : Pool ρ π α) (i : Nat) (w : Worker ρ π α) : Pool ρ π α :=
  { p with stations := p.stations.modify i fun s => { s with worker := w } }

def spawn (p : Pool ρ π α) (name : String) : Pool ρ π α :=
  { p with stations := p.stations ++ [{ worker := { name := name }, since := p.now }] }

/-- Lets a waiting thread start its next step now. -/
def wake (p : Pool ρ π α) (i : Nat) : Pool ρ π α :=
  { p with stations := p.stations.modify i fun s =>
      match s.worker.thread with
      | .waiting => { s with since := p.now }
      | _ => s }

def submit (p : Pool ρ π α) (i : Nat) (request : ρ) : Except Fault (Nat × Pool ρ π α) :=
  match p.worker? i with
  | none => .error .gone
  | some w => (w.submit request).map fun (job, w) => (job, (p.setWorker i w).wake i)

def close (p : Pool ρ π α) (i : Nat) : Pool ρ π α :=
  match p.worker? i with
  | none => p
  | some w => (p.setWorker i w.close).wake i

def forget (p : Pool ρ π α) (i job : Nat) : Pool ρ π α :=
  match p.worker? i with
  | none => p
  | some w => p.setWorker i (w.onChannel job Channel.forget)

/-- The station whose next step is done first, and when; of several the first in the pool. -/
def earliest (load : Workload ρ π α) : List (Station ρ π α) → Option (Nat × Nat)
  | [] => none
  | s :: rest =>
    match s.due? load, (earliest load rest).map fun (i, time) => (i + 1, time) with
    | none, later => later
    | some time, none => some (0, time)
    | some time, some later => if later.2 < time then some later else some (0, time)

def turn (load : Workload ρ π α) (p : Pool ρ π α) : Option (Pool ρ π α) := do
  let (i, time) ← earliest load p.stations
  let station ← p.stations[i]?
  let next ← station.worker.advance load.course
  return { stations := p.stations.set i { worker := next, since := time }
           now := max p.now time }

/-- How many steps the threads will make without another job. -/
def rank (load : Workload ρ π α) (p : Pool ρ π α) : Nat :=
  total (fun s => s.worker.rank load.course) p.stations

theorem rank_turn {load : Workload ρ π α} {p p' : Pool ρ π α} (h : p.turn load = some p') :
    p'.rank load < p.rank load := by
  simp only [turn, Option.bind_eq_bind, Option.bind_eq_some_iff, Option.pure_def,
    Option.some.injEq] at h
  obtain ⟨⟨i, time⟩, _, station, hs, next, hn, rfl⟩ := h
  exact total_set_lt _ hs (Worker.rank_advance hn)

theorem rank_setWorker {load : Workload ρ π α} {p : Pool ρ π α} {i : Nat} {w w' : Worker ρ π α}
    (hw : p.worker? i = some w) (h : w'.rank load.course = w.rank load.course) :
    (p.setWorker i w').rank load = p.rank load := by
  refine total_modify _ _ _ _ fun b hb => ?_
  simp only [worker?, hb, Option.map_some, Option.some.injEq] at hw
  exact h.trans (by rw [hw])

/-- Lets time pass until something holds, or nothing is left to do. -/
def goOn (load : Workload ρ π α) (isThere : Pool ρ π α → Bool) (p : Pool ρ π α) : Pool ρ π α :=
  if isThere p then p
  else
    match _h : p.turn load with
    | some next => goOn load isThere next
    | none => p
termination_by p.rank load
decreasing_by exact rank_turn _h

/-- Waits for the next event of a job; none if there will be none. -/
def receive (load : Workload ρ π α) (p : Pool ρ π α) (i job : Nat) :
    Option (Event π α) × Pool ρ π α :=
  let isThere (p : Pool ρ π α) : Bool :=
    (p.worker? i).all fun w => ((w.channel? job).bind Channel.next?).isSome || w.isOver job
  let p := p.goOn load isThere
  match p.worker? i with
  | none => (none, p)
  | some w => ((w.receive job).1, p.setWorker i (w.receive job).2)

/-- Waits until a worker that gets no more jobs has stopped. -/
def join (load : Workload ρ π α) (p : Pool ρ π α) (i : Nat) : Pool ρ π α :=
  p.goOn load fun p => (p.worker? i).all (·.thread.isStopped)

def catchUp (p : Pool ρ π α) (i : Nat) (l : Listener π α) : Listener π α × Pool ρ π α :=
  match p.worker? i with
  | none => ({ l with outcome := l.outcome.or (some (.error .gone)) }, p)
  | some w => ((l.catchUp w).1, p.setWorker i (l.catchUp w).2)

theorem rank_catchUp (load : Workload ρ π α) (p : Pool ρ π α) (i : Nat) (l : Listener π α) :
    (p.catchUp i l).2.rank load = p.rank load := by
  unfold catchUp
  split
  · rfl
  next h => exact rank_setWorker h (Listener.rank_catchUp load.course l _)

/-- Lets time pass until a listener has heard of the end of its job. -/
def follow (load : Workload ρ π α) (p : Pool ρ π α) (i : Nat) (l : Listener π α) :
    Listener π α × Pool ρ π α :=
  let caught := p.catchUp i l
  if caught.1.isDone then caught
  else
    match _h : caught.2.turn load with
    | some next => follow load next i caught.1
    | none => caught
termination_by p.rank load
decreasing_by exact rank_catchUp load p i l ▸ rank_turn _h

def wait (load : Workload ρ π α) (p : Pool ρ π α) (i job : Nat) :
    Listener π α × Pool ρ π α :=
  let (l, p) := p.follow load i { job := job }
  (l, p.forget i job)

/-- Lets time pass and looks at two jobs in turn, until both have ended. -/
def followBoth (load : Workload ρ π α) (p : Pool ρ π α) (places : Both Nat)
    (ls : Both (Listener π α)) : Both (Listener π α) × Pool ρ π α :=
  let left := p.catchUp places.left ls.left
  let right := left.2.catchUp places.right ls.right
  if left.1.isDone && right.1.isDone then (⟨left.1, right.1⟩, right.2)
  else
    match _h : right.2.turn load with
    | some next => followBoth load next places ⟨left.1, right.1⟩
    | none => (⟨left.1, right.1⟩, right.2)
termination_by p.rank load
decreasing_by
  have hleft := rank_catchUp load p places.left ls.left
  have hright := rank_catchUp load left.2 places.right ls.right
  exact Nat.lt_of_lt_of_eq (rank_turn _h) (hright.trans hleft)

/-- Has two workers do a request each, and waits for both ends. -/
def runSplit (load : Workload ρ π α) (p : Pool ρ π α) (places : Both Nat) (requests : Both ρ) :
    Except Fault (Both (Listener π α)) × Pool ρ π α :=
  match p.worker? places.left, p.worker? places.right with
  | some left, some right =>
    let (started, workers) := SplitRun.start ⟨left, right⟩ requests
    let p := (p.setWorker places.left workers.left).setWorker places.right workers.right
    let p := (p.wake places.left).wake places.right
    match started with
    | .error fault => (.error fault, p)
    | .ok run =>
      let (ls, p) := p.followBoth load places run.listeners
      let p := (p.forget places.left ls.left.job).forget places.right ls.right.job
      (.ok ls, p)
  | _, _ => (.error .gone, p)

end Pool

/-- A notice comes after as many values as the reporter's interval. -/
def Request.workload : Workload Request Float Image :=
  { course := fun r => r.generate Float
    pace := fun r => Reporter.intervalOf r.resolution.pixels }

def Event.message : Event Float Image → Json
  | .progress value => .map [("progress", .float value), ("type", .text "progress")]
  | .finished outcome => outcomeMessage outcome

end OrbitImage
