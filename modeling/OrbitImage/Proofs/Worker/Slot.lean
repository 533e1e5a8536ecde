import OrbitImage.Proofs.Worker.Run
/-!
The flag of a worker stands for one slot: a caller between setting the flag and sending its job, a
job in the queue, or a job that is being generated. While the thread runs, the slot is never taken
twice, and the flag tells exactly whether it is taken.
-/
namespace OrbitImage

def Thread.isGenerating {π α : Type} : Thread π α → Bool
  | .working _ _ _ => true
  | _ => false

namespace Worker

variable {ρ π α : Type}

/-- How often the slot is taken. -/
def occupancy (w : Worker ρ π α) : Nat :=
  w.claims.length + w.queue.length + w.thread.isGenerating.toNat

/-- The flag counts what takes the slot; a stopped thread leaves nothing in the queue. -/
structure Guarded (w : Worker ρ π α) : Prop where
  occupancy_eq : w.thread.isStopped = false → w.occupancy = w.busy.toNat
  withdrawals_eq : w.thread.isStopped = false → w.withdrawals = 0
  queue_eq : w.thread.isStopped = true → w.queue = []

theorem guarded_of_running {w : Worker ρ π α} (hthread : w.thread.isStopped = false)
    (hslot : w.occupancy = w.busy.toNat) (hwithdrawals : w.withdrawals = 0) : w.Guarded := by
  refine ⟨fun _ => hslot, fun _ => hwithdrawals, ?_⟩
  intro hstopped
  rw [hthread] at hstopped
  cases hstopped

theorem guarded_of_stopped {w : Worker ρ π α} (hthread : w.thread.isStopped = true)
    (hqueue : w.queue = []) : w.Guarded := by
  refine ⟨?_, ?_, fun _ => hqueue⟩
  · intro hrunning
    rw [hthread] at hrunning
    cases hrunning
  · intro hrunning
    rw [hthread] at hrunning
    cases hrunning

theorem guarded_new (name : String) : ({ name } : Worker ρ π α).Guarded :=
  guarded_of_running rfl rfl rfl

namespace Guarded

variable {w : Worker ρ π α}

theorem occupancy_le (h : w.Guarded) (hthread : w.thread.isStopped = false) : w.occupancy ≤ 1 := by
  rw [h.occupancy_eq hthread]
  exact Bool.toNat_le _

theorem queue_length_le (h : w.Guarded) : w.queue.length ≤ 1 := by
  cases hthread : w.thread.isStopped with
  | true =>
      rw [h.queue_eq hthread]
      exact Nat.zero_le 1
  | false =>
      have hle := h.occupancy_le hthread
      simp only [occupancy] at hle
      omega

/-- A caller that has set the flag finds the queue empty, and nothing generated. -/
theorem queue_eq_nil_of_claim (h : w.Guarded) {caller : Nat} {request : ρ}
    (hclaim : w.claims[caller]? = some request) : w.queue = [] := by
  cases hthread : w.thread.isStopped with
  | true => exact h.queue_eq hthread
  | false =>
      have hcaller := (List.getElem?_eq_some_iff.mp hclaim).1
      have hle := h.occupancy_le hthread
      simp only [occupancy] at hle
      exact List.eq_nil_of_length_eq_zero (by omega)

theorem stopped_of_full (h : w.Guarded) {caller : Nat} {request : ρ}
    (hclaim : w.claims[caller]? = some request)
    (hfull : w.thread.isStopped = true ∨ capacity ≤ w.queue.length) : w.thread.isStopped = true := by
  rcases hfull with hstopped | hfull
  · exact hstopped
  · rw [h.queue_eq_nil_of_claim hclaim] at hfull
    cases hfull

theorem stopped_of_withdrawal (h : w.Guarded) {n : Nat} (hcount : w.withdrawals = n + 1) :
    w.thread.isStopped = true := by
  cases hthread : w.thread.isStopped with
  | true => rfl
  | false =>
      rw [h.withdrawals_eq hthread] at hcount
      cases hcount

theorem of_thread (h : w.Guarded) {w' : Worker ρ π α} (hrunning : w.thread.isStopped = false)
    (hrunning' : w'.thread.isStopped = false) (hslot : w'.occupancy = w.occupancy)
    (hbusy : w'.busy = w.busy) (hwithdrawals : w'.withdrawals = w.withdrawals) : w'.Guarded := by
  apply guarded_of_running hrunning'
  · rw [hslot, hbusy, h.occupancy_eq hrunning]
  · rw [hwithdrawals, h.withdrawals_eq hrunning]

theorem onChannel (h : w.Guarded) (job : Nat) (f : Channel π α → Channel π α) :
    (w.onChannel job f).Guarded :=
  ⟨h.occupancy_eq, h.withdrawals_eq, h.queue_eq⟩

theorem claim (h : w.Guarded) (hthread : w.thread.isStopped = false) (hbusy : w.busy = false)
    (request : ρ) :
    ({ w with busy := true, claims := w.claims ++ [request] } : Worker ρ π α).Guarded := by
  have hfree : w.occupancy = 0 := by
    rw [h.occupancy_eq hthread, hbusy]
    rfl
  refine guarded_of_running hthread ?_ (h.withdrawals_eq hthread)
  simp only [occupancy] at hfree
  simp only [occupancy, List.length_append, List.length_singleton, Bool.toNat_true]
  omega

theorem step {course : ρ → Course π α} {w' : Worker ρ π α} {m : Move ρ} (h : w.Guarded)
    (hstep : Step course w m w') : w'.Guarded := by
  cases hstep with
  | stay => exact h
  | claim request hthread hbusy => exact h.claim hthread hbusy request
  | accept hclaim hthread hroom =>
      have hcaller := (List.getElem?_eq_some_iff.mp hclaim).1
      refine h.of_thread hthread hthread ?_ rfl rfl
      simp only [occupancy, List.length_eraseIdx_of_lt hcaller, List.length_append,
        List.length_singleton]
      omega
  | refuse hclaim hfull =>
      have hstopped := h.stopped_of_full hclaim hfull
      exact guarded_of_stopped hstopped (h.queue_eq hstopped)
  | withdraw hcount =>
      have hstopped := h.stopped_of_withdrawal hcount
      exact guarded_of_stopped hstopped (h.queue_eq hstopped)
  | close => exact ⟨h.occupancy_eq, h.withdrawals_eq, h.queue_eq⟩
  | receive => exact h.onChannel _ _
  | forget => exact h.onChannel _ _
  | take hthread hqueue =>
      have hrunning : w.thread.isStopped = false := by rw [hthread]; rfl
      refine h.of_thread hrunning rfl ?_ rfl rfl
      simp only [occupancy, hthread, hqueue, List.length_cons, Thread.isGenerating,
        Bool.toNat_true, Bool.toNat_false]
      omega
  | tell hthread =>
      have hrunning : w.thread.isStopped = false := by rw [hthread]; rfl
      refine h.of_thread hrunning rfl ?_ rfl rfl
      rw [occupancy, occupancy, hthread]
      rfl
  | clear hthread =>
      have hrunning : w.thread.isStopped = false := by rw [hthread]; rfl
      -- The job that was generated had the slot for itself.
      have hle := h.occupancy_le hrunning
      simp only [occupancy, hthread, Thread.isGenerating, Bool.toNat_true] at hle
      refine guarded_of_running rfl ?_ (h.withdrawals_eq hrunning)
      simp only [occupancy, Thread.isGenerating, Bool.toNat_false]
      omega
  | finish hthread =>
      have hrunning : w.thread.isStopped = false := by rw [hthread]; rfl
      refine h.of_thread hrunning rfl ?_ rfl rfl
      rw [occupancy, occupancy, hthread]
      rfl
  | disconnect hthread =>
      have hrunning : w.thread.isStopped = false := by rw [hthread]; rfl
      refine h.of_thread hrunning rfl ?_ rfl rfl
      rw [occupancy, occupancy, hthread]
      rfl
  | stop hthread hqueue hclosed => exact guarded_of_stopped rfl hqueue

end Guarded

theorem guarded_run (course : ρ → Course π α) (name : String) (moves : List (Move ρ)) :
    (run course { name } moves).Guarded :=
  run_induction (fun _ _ _ h hstep => h.step hstep) (guarded_new name) moves

end Worker

end OrbitImage
