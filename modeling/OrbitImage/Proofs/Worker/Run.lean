import OrbitImage.Worker.Basic
/-!
Runs of a worker: any number of callers and the thread, one atomic step after the other in any
order. What a step can do is said once, by cases, so that an invariant needs one look at each case.
-/
namespace OrbitImage

/-- What can happen to a worker; all but the last are done by callers. -/
inductive Move (ρ : Type)
  | claim (request : ρ)
  | send (caller : Nat)
  | withdraw
  | close
  | receive (job : Nat)
  | forget (job : Nat)
  | advance
  deriving DecidableEq

namespace Worker

variable {ρ π α : Type}

/-- A move that is not possible changes nothing. -/
def move (course : ρ → Course π α) (w : Worker ρ π α) : Move ρ → Worker ρ π α
  | .claim request => (w.claim request).toOption.getD w
  | .send caller => ((w.send caller).map Prod.snd).getD w
  | .withdraw => w.withdraw.getD w
  | .close => w.close
  | .receive job => (w.receive job).2
  | .forget job => w.onChannel job Channel.forget
  | .advance => (w.advance course).getD w

def run (course : ρ → Course π α) (w : Worker ρ π α) (moves : List (Move ρ)) : Worker ρ π α :=
  moves.foldl (move course) w

/-! ### What a move leaves alone -/

section Frame

variable (w : Worker ρ π α) (job : Nat) (f : Channel π α → Channel π α)

@[simp] theorem busy_onChannel : (w.onChannel job f).busy = w.busy := rfl
@[simp] theorem queue_onChannel : (w.onChannel job f).queue = w.queue := rfl
@[simp] theorem closed_onChannel : (w.onChannel job f).closed = w.closed := rfl
@[simp] theorem thread_onChannel : (w.onChannel job f).thread = w.thread := rfl
@[simp] theorem claims_onChannel : (w.onChannel job f).claims = w.claims := rfl
@[simp] theorem withdrawals_onChannel : (w.onChannel job f).withdrawals = w.withdrawals := rfl

@[simp] theorem length_jobs_onChannel : (w.onChannel job f).jobs.length = w.jobs.length :=
  List.length_modify ..

theorem jobs_onChannel (i : Nat) : (w.onChannel job f).jobs[i]? =
    if job = i then (w.jobs[i]?).map fun entry => { entry with channel := f entry.channel }
    else w.jobs[i]? := by
  rw [onChannel, List.getElem?_modify]
  split
  · rfl
  · exact Option.map_id' ..

theorem request_onChannel (i : Nat) :
    ((w.onChannel job f).jobs[i]?).map Job.request = (w.jobs[i]?).map Job.request := by
  rw [jobs_onChannel]
  split
  · rw [Option.map_map]
    rfl
  · rfl

variable {w job f}

theorem exists_of_jobs_onChannel {i : Nat} {entry' : Job ρ π α}
    (h : (w.onChannel job f).jobs[i]? = some entry') :
    ∃ entry, w.jobs[i]? = some entry ∧ entry'.request = entry.request ∧
      entry'.channel = if job = i then f entry.channel else entry.channel := by
  rw [jobs_onChannel] at h
  split at h
  next hi =>
    obtain ⟨entry, hentry, rfl⟩ := Option.map_eq_some_iff.mp h
    exact ⟨entry, hentry, rfl, (if_pos hi).symm⟩
  next hi => exact ⟨entry', h, rfl, (if_neg hi).symm⟩

end Frame

/-! ### Steps -/

/-- What a move does where it is possible, and the condition for it. -/
inductive Step (course : ρ → Course π α) : Worker ρ π α → Move ρ → Worker ρ π α → Prop
  | stay (w : Worker ρ π α) (m : Move ρ) : Step course w m w
  | claim {w : Worker ρ π α} (request : ρ) (hthread : w.thread.isStopped = false)
      (hbusy : w.busy = false) :
      Step course w (.claim request) { w with busy := true, claims := w.claims ++ [request] }
  | accept {w : Worker ρ π α} {caller : Nat} {request : ρ} (hclaim : w.claims[caller]? = some request)
      (hthread : w.thread.isStopped = false) (hroom : w.queue.length < capacity) :
      Step course w (.send caller)
        { w with
          claims := w.claims.eraseIdx caller
          queue := w.queue ++ [(w.jobs.length, request)]
          jobs := w.jobs ++ [⟨request, {}⟩] }
  | refuse {w : Worker ρ π α} {caller : Nat} {request : ρ} (hclaim : w.claims[caller]? = some request)
      (hfull : w.thread.isStopped = true ∨ capacity ≤ w.queue.length) :
      Step course w (.send caller)
        { w with claims := w.claims.eraseIdx caller, withdrawals := w.withdrawals + 1 }
  | withdraw {w : Worker ρ π α} {n : Nat} (h : w.withdrawals = n + 1) :
      Step course w .withdraw { w with busy := false, withdrawals := n }
  | close (w : Worker ρ π α) : Step course w .close w.close
  | receive {w : Worker ρ π α} {job : Nat} {event : Event π α}
      (h : (w.channel? job).bind Channel.next? = some event) :
      Step course w (.receive job) (w.onChannel job Channel.pass)
  | forget (w : Worker ρ π α) (job : Nat) :
      Step course w (.forget job) (w.onChannel job Channel.forget)
  | take {w : Worker ρ π α} {job : Nat} {request : ρ} {queue : List (Nat × ρ)}
      (hthread : w.thread = .waiting) (hqueue : w.queue = (job, request) :: queue) :
      Step course w .advance
        { w with
          queue
          thread := .working job (course request).notices.toList (course request).outcome }
  | tell {w : Worker ρ π α} {job : Nat} {value : π} {rest : List π} {outcome : Except Fault α}
      (hthread : w.thread = .working job (value :: rest) outcome) :
      Step course w .advance
        { w.post job (.progress value) with thread := .working job rest outcome }
  | clear {w : Worker ρ π α} {job : Nat} {outcome : Except Fault α}
      (hthread : w.thread = .working job [] outcome) :
      Step course w .advance { w with busy := false, thread := .ending job outcome }
  | finish {w : Worker ρ π α} {job : Nat} {outcome : Except Fault α}
      (hthread : w.thread = .ending job outcome) :
      Step course w .advance { w.post job (.finished outcome) with thread := .closing job }
  | disconnect {w : Worker ρ π α} {job : Nat} (hthread : w.thread = .closing job) :
      Step course w .advance { w.onChannel job Channel.close with thread := .waiting }
  | stop {w : Worker ρ π α} (hthread : w.thread = .waiting) (hqueue : w.queue = [])
      (hclosed : w.closed = true) :
      Step course w .advance { w with thread := .stopped }

variable {course : ρ → Course π α}

theorem step_of_claim {w w' : Worker ρ π α} {request : ρ} (h : w.claim request = .ok w') :
    Step course w (.claim request) w' := by
  unfold claim at h
  split at h
  · cases h
  next hopen =>
    split at h
    · cases h
    next hbusy =>
      cases h
      simp only [Bool.or_eq_true, not_or, Bool.not_eq_true] at hopen hbusy
      exact .claim request hopen.2 hbusy

theorem step_of_send {w w' : Worker ρ π α} {caller : Nat} {result : Submission}
    (h : w.send caller = some (result, w')) : Step course w (.send caller) w' := by
  unfold send at h
  split at h
  · cases h
  next request hclaim =>
    dsimp only at h
    split at h
    next hstopped =>
      cases h
      exact .refuse hclaim (.inl hstopped)
    next hrunning =>
      simp only [Bool.not_eq_true] at hrunning
      split at h
      next hfull =>
        cases h
        exact .refuse hclaim (.inr hfull)
      next hroom =>
        cases h
        exact .accept hclaim hrunning (Nat.lt_of_not_le hroom)

theorem step_of_advance {w w' : Worker ρ π α} (h : w.advance course = some w') :
    Step course w .advance w' := by
  unfold advance at h
  split at h
  next hthread =>
    split at h
    next hqueue =>
      cases h
      exact .take hthread hqueue
    next hqueue =>
      split at h
      next hclosed =>
        cases h
        exact .stop hthread hqueue hclosed
      next => cases h
  next hthread =>
    cases h
    exact .tell hthread
  next hthread =>
    cases h
    exact .clear hthread
  next hthread =>
    cases h
    exact .finish hthread
  next hthread =>
    cases h
    exact .disconnect hthread
  next => cases h

theorem step_move (w : Worker ρ π α) (m : Move ρ) : Step course w m (w.move course m) := by
  cases m with
  | claim request =>
      cases h : w.claim request with
      | error fault => rw [move, h]; exact .stay w _
      | ok w' => rw [move, h]; exact step_of_claim h
  | send caller =>
      cases h : w.send caller with
      | none => rw [move, h]; exact .stay w _
      | some result => rw [move, h]; exact step_of_send h
  | withdraw =>
      cases h : w.withdrawals with
      | zero => rw [move, Worker.withdraw, h]; exact .stay w _
      | succ n => rw [move, Worker.withdraw, h]; exact .withdraw h
  | close => exact .close w
  | receive job =>
      cases h : (w.channel? job).bind Channel.next? with
      | none => rw [move, receive, h]; exact .stay w _
      | some event => rw [move, receive, h]; exact .receive h
  | forget job => exact .forget w job
  | advance =>
      cases h : w.advance course with
      | none => rw [move, h]; exact .stay w _
      | some w' => rw [move, h]; exact step_of_advance h

/-- What holds of a new worker and is kept by each step holds after each run. -/
theorem run_induction {P : Worker ρ π α → Prop} (hstep : ∀ w m w', P w → Step course w m w' → P w')
    {w : Worker ρ π α} (hw : P w) (moves : List (Move ρ)) : P (w.run course moves) := by
  induction moves generalizing w with
  | nil => exact hw
  | cons m moves ih => exact ih (hstep w m _ hw (step_move w m))

end Worker

end OrbitImage
