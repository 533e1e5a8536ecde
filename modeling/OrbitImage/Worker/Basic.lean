import OrbitImage.Fault
import OrbitImage.Worker.Channel
import OrbitImage.Worker.Measure
/-!
Workers: a thread that does one job after the other, a queue with room for one job, and a flag
that keeps callers away meanwhile. Every operation here is atomic; a submission consists of two or
three of them, so that other callers and the thread can come between. The thread clears the flag
before it sends the end of a job, so that whoever receives the end can submit again.
-/
namespace OrbitImage

/-- A job that a worker has accepted. Jobs are numbered in the order of acceptance. -/
structure Job (ρ π α : Type) where
  request : ρ
  channel : Channel π α := {}

inductive Thread (π α : Type)
  | waiting
  /-- The notices that are left, and the end they lead to. -/
  | working (job : Nat) (rest : List π) (outcome : Except Fault α)
  /-- The flag is cleared, the end of the job is not yet sent. -/
  | ending (job : Nat) (outcome : Except Fault α)
  /-- The end of the job is sent, its channel is still open. -/
  | closing (job : Nat)
  | stopped

structure Worker (ρ π α : Type) where
  name : String
  busy : Bool := false
  /-- The jobs that the thread has not taken yet, with their requests. -/
  queue : List (Nat × ρ) := []
  closed : Bool := false
  thread : Thread π α := .waiting
  jobs : List (Job ρ π α) := []
  /-- The requests of callers that have set the flag and not yet sent their job. -/
  claims : List ρ := []
  /-- How many callers could not send their job and have not yet cleared the flag. -/
  withdrawals : Nat := 0

inductive Submission
  | accepted (job : Nat)
  | full
  | gone
  deriving DecidableEq, Repr

namespace Thread

variable {π α : Type}

def isStopped : Thread π α → Bool
  | stopped => true
  | _ => false

/-- How many steps the thread will make without another job. -/
def rank : Thread π α → Nat
  | waiting => 1
  | working _ rest _ => rest.length + 4
  | ending _ _ => 3
  | closing _ => 2
  | stopped => 0

end Thread

namespace Worker

variable {ρ π α : Type}

def capacity : Nat :=
  1

/-- The first step of a submission sets the flag, unless it is set. -/
def claim (w : Worker ρ π α) (request : ρ) : Except Fault (Worker ρ π α) :=
  if w.closed || w.thread.isStopped then .error .gone
  else if w.busy then .error .busy
  else .ok { w with busy := true, claims := w.claims ++ [request] }

/-- The second step sends the job of a caller that has set the flag. -/
def send (w : Worker ρ π α) (caller : Nat) : Option (Submission × Worker ρ π α) :=
  match w.claims[caller]? with
  | none => none
  | some request =>
    let w := { w with claims := w.claims.eraseIdx caller }
    if w.thread.isStopped then some (.gone, { w with withdrawals := w.withdrawals + 1 })
    else if capacity ≤ w.queue.length then
      some (.full, { w with withdrawals := w.withdrawals + 1 })
    else
      let job := w.jobs.length
      some (.accepted job,
        { w with queue := w.queue ++ [(job, request)], jobs := w.jobs ++ [⟨request, {}⟩] })

/-- The third step, of a caller that could not send its job, clears the flag again. -/
def withdraw (w : Worker ρ π α) : Option (Worker ρ π α) :=
  match w.withdrawals with
  | 0 => none
  | n + 1 => some { w with busy := false, withdrawals := n }

/-- A submission that nobody comes between. -/
def submit (w : Worker ρ π α) (request : ρ) : Except Fault (Nat × Worker ρ π α) := do
  let claimed ← w.claim request
  match claimed.send w.claims.length with
  | some (.accepted job, w) => return (job, w)
  | some (.full, _) => throw .busy
  | some (.gone, _) | none => throw .gone

/-- No more jobs will come; those accepted will be done. -/
def close (w : Worker ρ π α) : Worker ρ π α :=
  { w with closed := true }

/-- Does something to the channel of a job. -/
def onChannel (w : Worker ρ π α) (job : Nat) (f : Channel π α → Channel π α) : Worker ρ π α :=
  { w with jobs := w.jobs.modify job fun j => { j with channel := f j.channel } }

def channel? (w : Worker ρ π α) (job : Nat) : Option (Channel π α) :=
  (w.jobs[job]?).map Job.channel

def post (w : Worker ρ π α) (job : Nat) (event : Event π α) : Worker ρ π α :=
  w.onChannel job (·.send event)

/-- The next step of the thread, unless it waits for a job. -/
def advance (course : ρ → Course π α) (w : Worker ρ π α) : Option (Worker ρ π α) :=
  match w.thread with
  | .waiting =>
    match w.queue with
    | (job, request) :: queue =>
      let c := course request
      some { w with queue, thread := .working job c.notices.toList c.outcome }
    | [] => if w.closed then some { w with thread := .stopped } else none
  | .working job (value :: rest) outcome =>
    some { w.post job (.progress value) with thread := .working job rest outcome }
  | .working job [] outcome => some { w with busy := false, thread := .ending job outcome }
  | .ending job outcome => some { w.post job (.finished outcome) with thread := .closing job }
  | .closing job => some { w.onChannel job Channel.close with thread := .waiting }
  | .stopped => none

def canAdvance (w : Worker ρ π α) : Bool :=
  match w.thread with
  | .waiting => !w.queue.isEmpty || w.closed
  | .stopped => false
  | _ => true

/-- How many steps the thread will make without another job. -/
def rank (course : ρ → Course π α) (w : Worker ρ π α) : Nat :=
  total (fun entry => (course entry.2).notices.size + 4) w.queue + w.thread.rank

theorem rank_advance {course : ρ → Course π α} {w w' : Worker ρ π α}
    (h : w.advance course = some w') : w'.rank course < w.rank course := by
  unfold advance at h
  split at h
  next ht =>
    split at h
    next hq =>
      cases h
      simp [rank, total, ht, hq, Thread.rank]
      omega
    next hq =>
      split at h
      · cases h
        simp [rank, total, ht, hq, Thread.rank]
      · cases h
  next ht =>
    cases h
    simp [rank, post, onChannel, ht, Thread.rank]
  next ht =>
    cases h
    simp [rank, ht, Thread.rank]
  next ht =>
    cases h
    simp [rank, post, onChannel, ht, Thread.rank]
  next ht =>
    cases h
    simp [rank, onChannel, ht, Thread.rank]
  next => cases h

/-- The first event of a job that was not yet received; none if there is none so far. -/
def receive (w : Worker ρ π α) (job : Nat) : Option (Event π α) × Worker ρ π α :=
  match (w.channel? job).bind Channel.next? with
  | some event => (some event, w.onChannel job Channel.pass)
  | none => (none, w)

theorem rank_receive (course : ρ → Course π α) (w : Worker ρ π α) (job : Nat) :
    (w.receive job).2.rank course = w.rank course := by
  unfold receive
  split <;> rfl

/-- Nothing is left to receive of a job, now or later. -/
def isOver (w : Worker ρ π α) (job : Nat) : Bool :=
  (w.channel? job).all Channel.isOver

end Worker

/-- A text with quotes around it; quotes, backslashes and control characters are escaped. -/
def quotedName (name : String) : String :=
  let escape (c : Char) : String :=
    if c = '"' then "\\\""
    else if c = '\\' then "\\\\"
    else if c = '\n' then "\\n"
    else if c = '\r' then "\\r"
    else if c = '\t' then "\\t"
    else if c = '\x00' then "\\0"
    else if c.toNat < 0x20 ∨ c.toNat = 0x7F then
      "\\u\x7b" ++ String.ofList (Nat.toDigits 16 c.toNat) ++ "\x7d"
    else c.toString
  "\"" ++ String.join (name.toList.map escape) ++ "\""

def Worker.text {ρ π α : Type} (w : Worker ρ π α) : String :=
  "Worker \x7b name: " ++ quotedName w.name ++ ", busy: " ++ toString w.busy ++ " \x7d"

end OrbitImage
