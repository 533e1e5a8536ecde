import OrbitImage.Proofs.Worker.Handle
import OrbitImage.Proofs.Worker.Submission
import OrbitImage.Worker.Split
/-!
Two requests side by side. Whatever the order in which the two threads make their steps and their
caller looks at the sides, each side is a listener and a worker of their own, for which the other
side is a pause; so each side comes to what its request comes to alone.
-/
namespace OrbitImage

namespace Worker

variable {ρ π α : Type} {course : ρ → Course π α} {w w' : Worker ρ π α} {job : Nat} {request : ρ}

/-- Free for the next job. -/
structure Idle (w : Worker ρ π α) : Prop where
  open_eq : w.closed = false
  running : w.thread.isStopped = false
  busy_eq : w.busy = false

theorem Reachable.submit (hw : w.Reachable course) (h : w.submit request = .ok (job, w')) :
    w'.Reachable course := by
  obtain ⟨claimed, hclaim, hsend⟩ := exists_claim_of_submit h
  exact (hw.claim hclaim).send hsend

/-- The worker is used by the caller of one job, which is the last so far. -/
structure Reserved (w : Worker ρ π α) (job : Nat) : Prop where
  open_eq : w.closed = false
  running : w.thread.isStopped = false
  claims_eq : w.claims = []
  last : job + 1 = w.jobs.length

namespace Reserved

theorem receive (h : w.Reserved job) (i : Nat) : (w.receive i).2.Reserved job := by
  rw [Worker.receive]
  split
  · refine ⟨h.open_eq, h.running, h.claims_eq, ?_⟩
    rw [length_jobs_onChannel]
    exact h.last
  · exact h

theorem advance (h : w.Reserved job) : (w.move course .advance).Reserved job := by
  have hstep : Step course w .advance (w.move course .advance) := step_move w .advance
  generalize w.move course .advance = w' at hstep ⊢
  cases hstep with
  | stay => exact h
  | take => exact ⟨h.open_eq, rfl, h.claims_eq, h.last⟩
  | tell =>
      refine ⟨h.open_eq, rfl, h.claims_eq, ?_⟩
      simp only [post, length_jobs_onChannel]
      exact h.last
  | clear => exact ⟨h.open_eq, rfl, h.claims_eq, h.last⟩
  | finish =>
      refine ⟨h.open_eq, rfl, h.claims_eq, ?_⟩
      simp only [post, length_jobs_onChannel]
      exact h.last
  | disconnect => exact ⟨h.open_eq, rfl, h.claims_eq, h.last.trans (length_jobs_onChannel ..).symm⟩
  | stop _ _ hclosed =>
      rw [h.open_eq] at hclosed
      cases hclosed

end Reserved

end Worker

/-! ### Sides -/

/-- What comes next: the caller looks at a side, or the thread of a side makes a step. -/
inductive SplitTurn
  | look (side : Side)
  | work (side : Side)

namespace SplitTurn

def on {ρ : Type} (t : SplitTurn) (side : Side) : Turn ρ :=
  match t with
  | .look s => if s = side then .look else .pause
  | .work s => if s = side then .move .advance else .pause

/-- Each side is looked at again and again, and each thread makes its steps. -/
structure Fair (schedule : Nat → SplitTurn) : Prop where
  looks : ∀ side n, ∃ m ≥ n, schedule m = .look side
  works : ∀ side n, ∃ m ≥ n, schedule m = .work side

theorem Fair.on {ρ : Type} {schedule : Nat → SplitTurn} (h : Fair schedule) (side : Side) :
    Turn.Fair (fun n => (schedule n).on side : Nat → Turn ρ) := by
  constructor
  · intro n
    obtain ⟨m, hm, hlook⟩ := h.looks side n
    exact ⟨m, hm, by rw [hlook]; exact if_pos rfl⟩
  · intro n
    obtain ⟨m, hm, hwork⟩ := h.works side n
    exact ⟨m, hm, by rw [hwork]; exact if_pos rfl⟩

theorem spares_on {ρ : Type} (t : SplitTurn) (side : Side) (job : Nat) :
    (t.on side : Turn ρ).Spares job := by
  cases t with
  | look s =>
      rw [SplitTurn.on]
      split
      · exact ⟨nofun, nofun⟩
      · exact ⟨nofun, nofun⟩
  | work s =>
      rw [SplitTurn.on]
      split
      · exact ⟨nofun, nofun⟩
      · exact ⟨nofun, nofun⟩

end SplitTurn

namespace SplitRun

variable {ρ π α : Type}

/-- A turn of a thread that waits changes nothing. -/
def turn (course : ρ → Course π α) (s : SplitRun ρ π α) : SplitTurn → SplitRun ρ π α
  | .look side => s.poll side
  | .work side => (s.advance course side).getD s

def play (course : ρ → Course π α) (s : SplitRun ρ π α) (schedule : Nat → SplitTurn) :
    Nat → SplitRun ρ π α
  | 0 => s
  | n + 1 => (s.play course schedule n).turn course (schedule n)

/-- One side, as a listener and a worker of their own. -/
def scene (s : SplitRun ρ π α) (side : Side) : Scene ρ π α :=
  ⟨s.listeners.on side, s.workers.on side⟩

theorem turn_work (course : ρ → Course π α) (s : SplitRun ρ π α) (side : Side) :
    s.turn course (.work side) =
      { s with workers := s.workers.set side ((s.workers.on side).move course .advance) } := by
  rw [turn, advance, Worker.move]
  cases (s.workers.on side).advance course with
  | none => cases side <;> rfl
  | some w => rfl

theorem scene_turn (course : ρ → Course π α) (s : SplitRun ρ π α) (t : SplitTurn) (side : Side) :
    (s.turn course t).scene side = (s.scene side).turn course (t.on side) := by
  cases t with
  | look other => cases other <;> cases side <;> rfl
  | work other =>
      rw [turn_work]
      cases other <;> cases side <;> rfl

theorem scene_play (course : ρ → Course π α) (s : SplitRun ρ π α) (schedule : Nat → SplitTurn)
    (n : Nat) (side : Side) : (s.play course schedule n).scene side =
      (s.scene side).play course (fun n => (schedule n).on side) n := by
  induction n with
  | zero => rfl
  | succ n ih => rw [play, scene_turn, ih, Scene.play]

theorem isDone_iff (s : SplitRun ρ π α) :
    s.isDone = true ↔ ∀ side, (s.scene side).listener.isDone = true := by
  rw [isDone, Bool.and_eq_true]
  constructor
  · rintro ⟨hleft, hright⟩ side
    cases side with
    | left => exact hleft
    | right => exact hright
  · intro h
    exact ⟨h .left, h .right⟩

end SplitRun

/-! ### One side -/

namespace Scene

variable {ρ π α : Type} {course : ρ → Course π α} {s : Scene ρ π α} {request : ρ} {job start : Nat}

/-- The listener looks and the thread goes on, in some order. -/
inductive LeadsTo (course : ρ → Course π α) (s : Scene ρ π α) : Scene ρ π α → Prop
  | refl : LeadsTo course s s
  | look {s' : Scene ρ π α} (h : LeadsTo course s s') : LeadsTo course s (s'.turn course .look)
  | advance {s' : Scene ρ π α} (h : LeadsTo course s s') :
      LeadsTo course s (s'.turn course (.move .advance))

namespace LeadsTo

variable {s' s'' : Scene ρ π α}

theorem trans (h : s.LeadsTo course s') (h' : s'.LeadsTo course s'') : s.LeadsTo course s'' := by
  induction h' with
  | refl => exact h
  | look _ ih => exact ih.look
  | advance _ ih => exact ih.advance

theorem following (h : s.LeadsTo course s') (hs : s.Following course request job start) :
    s'.Following course request job start := by
  induction h with
  | refl => exact hs
  | look _ ih => exact ih.look
  | advance _ ih => exact ih.move ⟨nofun, nofun⟩

theorem reserved (h : s.LeadsTo course s') (hs : s.worker.Reserved job) :
    s'.worker.Reserved job := by
  induction h with
  | refl => exact hs
  | @look s' _ ih =>
      change (s'.listener.poll s'.worker).2.Reserved job
      rw [Listener.worker_poll]
      split
      · exact ih
      · exact ih.receive _
  | advance _ ih => exact ih.advance

theorem side_turn (h : s.LeadsTo course s') (t : SplitTurn) (side : Side) :
    s.LeadsTo course (s'.turn course (t.on side)) := by
  cases t with
  | look other =>
      rw [SplitTurn.on]
      split
      · exact h.look
      · exact h
  | work other =>
      rw [SplitTurn.on]
      split
      · exact h.advance
      · exact h

end LeadsTo

theorem Following.idle (h : s.Following course request job start) (hreserved : s.worker.Reserved job)
    (hdone : s.listener.isDone = true) : s.worker.Idle := by
  obtain ⟨channel, hentry, -⟩ := h.exists_channel
  have hall := h.knows.isDone_iff.mp hdone
  rw [Worker.received_of_jobs hentry] at hall
  obtain ⟨outcome, hheard⟩ : ∃ outcome, .finished outcome ∈ channel.heard := by
    apply Classical.byContradiction
    intro hnone
    have hle := h.reachable.sound.received_le_of_unfinished hentry
      fun outcome hmem => hnone ⟨outcome, hmem⟩
    omega
  exact ⟨hreserved.open_eq, hreserved.running, h.reachable.busy_of_heard hreserved.running hentry
    hreserved.last hreserved.claims_eq hheard⟩

end Scene

namespace Worker

variable {ρ π α : Type} {course : ρ → Course π α} {w : Worker ρ π α}

theorem Idle.claims_eq (h : w.Idle) (hw : w.Guarded) : w.claims = [] := by
  have hslot := hw.occupancy_eq h.running
  rw [occupancy, h.busy_eq, Bool.toNat_false] at hslot
  exact List.eq_nil_of_length_eq_zero (by omega)

/-- A worker that is free accepts a job, and is then its caller's alone. -/
theorem Idle.submit (h : w.Idle) (hw : w.Reachable course) (request : ρ) :
    ∃ w', w.submit request = .ok (w.jobs.length, w') ∧ w'.Reserved w.jobs.length ∧
      (⟨{ job := w.jobs.length }, w'⟩ : Scene ρ π α).Following course request w.jobs.length 0 := by
  have hsubmit := hw.guarded.submit_of_idle h.open_eq h.running h.busy_eq request
  have hentry : (w.jobs ++ [⟨request, {}⟩])[w.jobs.length]? = some ⟨request, {}⟩ :=
    List.getElem?_concat_length
  refine ⟨_, hsubmit, ⟨h.open_eq, h.running, h.claims_eq hw.guarded, ?_⟩,
    ⟨hw.submit hsubmit, rfl, ⟨{}, hentry, rfl⟩, ?_, ?_⟩⟩
  · simp only [List.length_append, List.length_singleton]
  · exact Nat.zero_le _
  · rw [received_of_jobs hentry]
    exact Listener.knows_new _ (Nat.zero_le _)

end Worker

/-! ### Both sides -/

namespace SplitRun

variable {ρ π α : Type} {course : ρ → Course π α}

theorem leadsTo_play (course : ρ → Course π α) (s : SplitRun ρ π α) (schedule : Nat → SplitTurn)
    (n : Nat) (side : Side) :
    (s.scene side).LeadsTo course ((s.play course schedule n).scene side) := by
  induction n with
  | zero => exact .refl
  | succ n ih =>
      rw [play, scene_turn]
      exact ih.side_turn (schedule n) side

theorem start_of_submit {workers workers' : Both (Worker ρ π α)} {requests : Both ρ}
    {jobs : Both Nat} (hsubmit : ∀ side, (workers.on side).submit (requests.on side) =
      .ok (jobs.on side, workers'.on side)) :
    start workers requests =
      (.ok ⟨workers', ⟨{ job := jobs.left }, { job := jobs.right }⟩⟩, workers') := by
  have hleft := hsubmit .left
  have hright := hsubmit .right
  simp only [Both.on] at hleft hright
  rw [start, hleft]
  dsimp only
  rw [hright]

/-- Two workers that are free accept a job each, and are then followed by their caller alone. -/
theorem start_of_idle {workers : Both (Worker ρ π α)}
    (hreachable : ∀ side, (workers.on side).Reachable course)
    (hidle : ∀ side, (workers.on side).Idle) (requests : Both ρ) :
    ∃ s : SplitRun ρ π α, start workers requests = (.ok s, s.workers) ∧ ∀ side, ∃ job,
      (s.scene side).worker.Reserved job ∧
      (s.scene side).Following course (requests.on side) job 0 := by
  obtain ⟨left, hleft, hleftReserved, hleftFollowing⟩ :=
    (hidle .left).submit (hreachable .left) requests.left
  obtain ⟨right, hright, hrightReserved, hrightFollowing⟩ :=
    (hidle .right).submit (hreachable .right) requests.right
  let jobs : Both Nat := ⟨workers.left.jobs.length, workers.right.jobs.length⟩
  let workers' : Both (Worker ρ π α) := ⟨left, right⟩
  have hsubmit : ∀ side, (workers.on side).submit (requests.on side) =
      .ok (jobs.on side, workers'.on side) := by
    intro side
    cases side with
    | left => exact hleft
    | right => exact hright
  refine ⟨_, start_of_submit hsubmit, ?_⟩
  intro side
  cases side with
  | left => exact ⟨_, hleftReserved, hleftFollowing⟩
  | right => exact ⟨_, hrightReserved, hrightFollowing⟩

/-- A side has come to what its request comes to alone, and its worker is free again. -/
structure Settled (course : ρ → Course π α) (s : SplitRun ρ π α) (side : Side) (request : ρ) :
    Prop where
  outcome_eq : (s.listeners.on side).outcome = some (course request).outcome
  told_eq : (s.listeners.on side).told = (course request).notices
  accepts : ∀ next, ∃ job w, (s.workers.on side).submit next = .ok (job, w)

theorem start_settles (course : ρ → Course π α) (workers : Both (Worker ρ π α))
    (hreachable : ∀ side, (workers.on side).Reachable course)
    (hidle : ∀ side, (workers.on side).Idle) (requests : Both ρ) :
    ∃ s, (start workers requests).1 = .ok s ∧ ∀ schedule : Nat → SplitTurn,
      (∀ n side, ((s.play course schedule n).listeners.on side).told.toList <+:
        (course (requests.on side)).notices.toList) ∧
      (∀ n, (s.play course schedule n).isDone = true →
        ∀ side, Settled course (s.play course schedule n) side (requests.on side)) ∧
      (SplitTurn.Fair schedule → ∃ n, ∀ m ≥ n, (s.play course schedule m).isDone = true) := by
  obtain ⟨s, hstart, hside⟩ := start_of_idle hreachable hidle requests
  refine ⟨s, congrArg Prod.fst hstart, ?_⟩
  intro schedule
  refine ⟨?_, ?_, ?_⟩
  · intro n side
    obtain ⟨job, -, hfollowing⟩ := hside side
    exact ((leadsTo_play course s schedule n side).following hfollowing).knows.told_prefix
  · intro n hdone side
    obtain ⟨job, hreserved, hfollowing⟩ := hside side
    have hleads := leadsTo_play course s schedule n side
    have hfollowing := hleads.following hfollowing
    have hheard := (isDone_iff _).mp hdone side
    obtain ⟨houtcome, htold⟩ := hfollowing.knows.of_isDone hheard
    refine ⟨houtcome, Array.toList_inj.mp htold, ?_⟩
    intro next
    have hfree := hfollowing.idle (hleads.reserved hreserved) hheard
    obtain ⟨w, hsubmit, -⟩ := hfree.submit hfollowing.reachable next
    exact ⟨_, w, hsubmit⟩
  · intro hfair
    have hdone : ∀ side, ∃ n, ∀ m ≥ n,
        ((s.play course schedule m).scene side).listener.isDone = true := by
      intro side
      obtain ⟨job, -, hfollowing⟩ := hside side
      obtain ⟨n, hdone⟩ := hfollowing.eventually_done
        (fun m => (schedule m).spares_on side job) (hfair.on side)
      refine ⟨n, ?_⟩
      intro m hm
      rw [scene_play]
      exact hdone m hm
    obtain ⟨left, hleft⟩ := hdone .left
    obtain ⟨right, hright⟩ := hdone .right
    refine ⟨max left right, ?_⟩
    intro m hm
    rw [isDone_iff]
    intro side
    cases side with
    | left => exact hleft m (Nat.le_trans (Nat.le_max_left ..) hm)
    | right => exact hright m (Nat.le_trans (Nat.le_max_right ..) hm)

/-- The right side fails, the left does not. -/
theorem start_settles_beside_failure :
    let course : Nat → Course Nat Nat := fun value =>
      ⟨#[value], if value = 0 then .error (.setting (.bitOutOfRange 9)) else .ok value⟩
    let workers : Both (Worker Nat Nat Nat) := ⟨{ name := "left" }, { name := "right" }⟩
    let schedule : Nat → SplitTurn := fun n =>
      if n % 4 = 0 then .look .left else if n % 4 = 1 then .look .right
      else if n % 4 = 2 then .work .left else .work .right
    ∃ s n, (start workers ⟨7, 0⟩).1 = .ok s ∧ (s.play course schedule n).isDone = true ∧
      (s.play course schedule n).listeners.left.outcome = some (.ok 7) ∧
      (s.play course schedule n).listeners.right.outcome =
        some (.error (.setting (.bitOutOfRange 9))) := by
  intro course workers schedule
  have hreachable : ∀ side, (workers.on side).Reachable course := by
    intro side
    cases side with
    | left => exact ⟨"left", [], rfl⟩
    | right => exact ⟨"right", [], rfl⟩
  have hidle : ∀ side, (workers.on side).Idle := by
    intro side
    cases side with
    | left => exact ⟨rfl, rfl, rfl⟩
    | right => exact ⟨rfl, rfl, rfl⟩
  have hfair : SplitTurn.Fair schedule := by
    constructor
    · intro side n
      cases side with
      | left => exact ⟨4 * n, by omega, if_pos (by omega)⟩
      | right => exact ⟨4 * n + 1, by omega, by simp [schedule]⟩
    · intro side n
      cases side with
      | left => exact ⟨4 * n + 2, by omega, by simp [schedule]⟩
      | right => exact ⟨4 * n + 3, by omega, by simp [schedule]⟩
  obtain ⟨s, hstart, hplay⟩ := start_settles course workers hreachable hidle ⟨7, 0⟩
  obtain ⟨-, hsettled, hdone⟩ := hplay schedule
  obtain ⟨n, hn⟩ := hdone hfair
  have hn := hn n (Nat.le_refl n)
  exact ⟨s, n, hstart, hn, (hsettled n hn .left).outcome_eq, (hsettled n hn .right).outcome_eq⟩

end SplitRun

end OrbitImage
