import OrbitImage.Proofs.Worker.SplitView
import OrbitImage.Worker.Pool
/-!
Split runs that are refused. The caller submits on the left, then on the right, one atomic step
after the other; other callers and the threads of both sides come between. What a refusal leaves
behind is said against the run that the workers have without the call: a side that refuses is as if
it had not been asked, and only a job that the left has accepted before the right refuses is there.
-/
namespace OrbitImage

/-! ### A submission in steps -/

/-- How far a caller has come on one side. -/
inductive SideStage
  | asking
  /-- The flag is set, the job is not yet sent. -/
  | holding (caller : Nat)
  /-- The job could not be sent, the flag is not yet cleared. -/
  | withdrawing (fault : Fault)
  | refused (fault : Fault)
  | accepted (job : Nat)
  /-- The job is accepted, and its handle is gone. -/
  | dropped (job : Nat)

namespace SideStage

variable {ρ π α : Type}

/-- The next step of a submission, until it has a result. -/
def next (request : ρ) (w : Worker ρ π α) : SideStage → SideStage × Worker ρ π α
  | asking =>
    match w.claim request with
    | .error fault => (refused fault, w)
    | .ok claimed => (holding w.claims.length, claimed)
  | holding caller =>
    match w.send caller with
    | some (.accepted job, sent) => (accepted job, sent)
    | some (.full, sent) => (withdrawing .busy, sent)
    | some (.gone, sent) => (withdrawing .gone, sent)
    | none => (holding caller, w)
  | withdrawing fault => (refused fault, w.withdraw.getD w)
  | stage => (stage, w)

def job? : SideStage → Option Nat
  | accepted job | dropped job => some job
  | _ => none

/-- What others can do meanwhile: they do not send the job of this caller, and they do not close a
worker that is in use. -/
structure Spares (stage : SideStage) (m : Move ρ) : Prop where
  open_eq : m ≠ .close
  own : ∀ caller, stage = holding caller → m ≠ .send caller

end SideStage

/-! ### A call in steps -/

structure SplitCall (ρ π α : Type) where
  workers : Both (Worker ρ π α)
  stages : Both SideStage := ⟨.asking, .asking⟩

namespace SplitCall

variable {ρ π α : Type}

def submit (s : SplitCall ρ π α) (requests : Both ρ) (side : Side) : SplitCall ρ π α :=
  let (stage, worker) := (s.stages.on side).next (requests.on side) (s.workers.on side)
  ⟨s.workers.set side worker, s.stages.set side stage⟩

/-- The next step of the caller: on the right only after the left has accepted. When the right has
refused, the handle of the job on the left goes. -/
def next (s : SplitCall ρ π α) (requests : Both ρ) : SplitCall ρ π α :=
  match s.stages.left with
  | .refused _ | .dropped _ => s
  | .accepted job =>
    match s.stages.right with
    | .refused _ =>
      ⟨s.workers.set .left (s.workers.left.onChannel job Channel.forget),
        s.stages.set .left (.dropped job)⟩
    | .accepted _ | .dropped _ => s
    | _ => s.submit requests .right
  | _ => s.submit requests .left

/-- The fault that the caller is told, if it is refused. -/
def fault? (s : SplitCall ρ π α) : Option Fault :=
  match s.stages.left, s.stages.right with
  | .refused fault, _ | .dropped _, .refused fault => some fault
  | _, _ => none

/-- What a call comes to, with what the others have done on each side meanwhile. -/
inductive Leads (course : ρ → Course π α) (workers : Both (Worker ρ π α)) (requests : Both ρ) :
    Both (List (Move ρ)) → SplitCall ρ π α → Prop
  | start : Leads course workers requests ⟨[], []⟩ { workers }
  | call {others : Both (List (Move ρ))} {s : SplitCall ρ π α}
      (h : Leads course workers requests others s) :
      Leads course workers requests others (s.next requests)
  | other {others : Both (List (Move ρ))} {s : SplitCall ρ π α}
      (h : Leads course workers requests others s) (side : Side) (m : Move ρ)
      (hm : (s.stages.on side).Spares m) :
      Leads course workers requests (others.set side (others.on side ++ [m]))
        { s with workers := s.workers.set side ((s.workers.on side).move course m) }

end SplitCall

/-! ### One side -/

namespace Worker

variable {ρ π α : Type} {course : ρ → Course π α} {w w' : Worker ρ π α} {request : ρ}

theorem idle_of_claim (h : w.claim request = .ok w') : w.Idle := by
  rw [claim] at h
  split at h
  · cases h
  next hopen =>
    split at h
    · cases h
    next hbusy =>
      rw [Bool.or_eq_true, not_or, Bool.not_eq_true, Bool.not_eq_true] at hopen
      exact ⟨hopen.1, hopen.2, Bool.not_eq_true _ ▸ hbusy⟩

/-- A worker that runs, or one whose thread has died. -/
def Viable (course : ρ → Course π α) (w : Worker ρ π α) : Prop :=
  w.Reachable course ∨ w.thread.isStopped = true ∧ w.queue = []

theorem Viable.move (h : w.Viable course) (m : Move ρ) : (w.move course m).Viable course := by
  rcases h with hw | ⟨hthread, hqueue⟩
  · exact .inl (hw.move m)
  · right
    have hstep : Step course w m (w.move course m) := step_move w m
    generalize w.move course m = w' at hstep ⊢
    cases hstep with
    | accept _ hrunning => rw [hthread] at hrunning; cases hrunning
    | claim _ hrunning => rw [hthread] at hrunning; cases hrunning
    | take hwaiting | tell hwaiting | clear hwaiting | finish hwaiting | disconnect hwaiting
      | stop hwaiting => rw [hwaiting] at hthread; cases hthread
    | _ => exact ⟨hthread, hqueue⟩

theorem Viable.run (h : w.Viable course) (moves : List (Move ρ)) :
    (w.run course moves).Viable course := by
  induction moves generalizing w with
  | nil => exact h
  | cons m moves ih => exact ih (h.move m)

theorem Viable.reachable (h : w.Viable course) (hthread : w.thread.isStopped = false) :
    w.Reachable course := by
  refine h.resolve_right ?_
  rintro ⟨hstopped, -⟩
  rw [hthread] at hstopped
  cases hstopped

/-- A caller has the slot, and nobody else has. -/
structure Holds (course : ρ → Course π α) (w : Worker ρ π α) (request : ρ) (caller : Nat) : Prop where
  reachable : w.Reachable course
  open_eq : w.closed = false
  running : w.thread.isStopped = false
  claims_eq : w.claims = [request]
  caller_eq : caller = 0

theorem Holds.move {caller : Nat} (h : w.Holds course request caller) {m : Move ρ}
    (hm : (SideStage.holding caller).Spares m) : (w.move course m).Holds course request caller := by
  obtain rfl := h.caller_eq
  have hbusy : w.busy = true := by
    rw [h.reachable.guarded.busy_iff h.running, h.claims_eq]
    exact .inl (List.cons_ne_nil _ _)
  have hsole {i : Nat} {r : ρ} (hclaim : w.claims[i]? = some r) : i = 0 := by
    have hlt := (List.getElem?_eq_some_iff.mp hclaim).1
    rw [h.claims_eq, List.length_singleton] at hlt
    omega
  have hstep : Step course w m (w.move course m) := step_move w m
  have hreachable := h.reachable.move m
  generalize w.move course m = w' at hstep hreachable ⊢
  cases hstep with
  | stay => exact h
  | claim _ _ hfree => rw [hbusy] at hfree; cases hfree
  | accept hclaim => exact absurd rfl (hsole hclaim ▸ hm.own 0 rfl)
  | refuse hclaim => exact absurd rfl (hsole hclaim ▸ hm.own 0 rfl)
  | withdraw hcount =>
      rw [h.reachable.guarded.withdrawals_eq h.running] at hcount
      cases hcount
  | close => exact absurd rfl hm.open_eq
  | receive => exact ⟨hreachable, h.open_eq, h.running, h.claims_eq, rfl⟩
  | forget => exact ⟨hreachable, h.open_eq, h.running, h.claims_eq, rfl⟩
  | take => exact ⟨hreachable, h.open_eq, rfl, h.claims_eq, rfl⟩
  | tell => exact ⟨hreachable, h.open_eq, rfl, h.claims_eq, rfl⟩
  | clear => exact ⟨hreachable, h.open_eq, rfl, h.claims_eq, rfl⟩
  | finish => exact ⟨hreachable, h.open_eq, rfl, h.claims_eq, rfl⟩
  | disconnect => exact ⟨hreachable, h.open_eq, rfl, h.claims_eq, rfl⟩
  | stop _ _ hclosed =>
      rw [h.open_eq] at hclosed
      cases hclosed

/-- The worker has accepted a job, whose caller may have dropped the handle since. -/
structure Keeps (course : ρ → Course π α) (w : Worker ρ π α) (request : ρ) (job : Nat)
    (dropped : Bool) : Prop where
  reachable : w.Reachable course
  entry : ∃ channel, w.jobs[job]? = some ⟨request, channel⟩ ∧
    (dropped = true → channel.hasReceiver = false)

theorem Keeps.move {job : Nat} {dropped : Bool} (h : w.Keeps course request job dropped)
    (m : Move ρ) : (w.move course m).Keeps course request job dropped := by
  obtain ⟨channel, hentry, hdropped⟩ := h.entry
  obtain ⟨channel', hentry', htouch⟩ := (step_move w m : Step course w m _).touch hentry
  refine ⟨h.reachable.move m, channel', hentry', ?_⟩
  intro hgone
  cases htouch with
  | leave => exact hdropped hgone
  | receive => exact hdropped hgone
  | forget => rfl
  | send => rw [Channel.hasReceiver_send]; exact hdropped hgone
  | close => exact hdropped hgone

theorem Keeps.run {job : Nat} {dropped : Bool} (h : w.Keeps course request job dropped)
    (moves : List (Move ρ)) : (w.run course moves).Keeps course request job dropped := by
  induction moves generalizing w with
  | nil => exact h
  | cons m moves ih => exact ih (h.move m)

/-- How a side stands to the run it has without the call, `alone`. -/
def Stands (course : ρ → Course π α) (w alone : Worker ρ π α) (request : ρ) : SideStage → Prop
  | .asking | .refused _ => w = alone
  | .holding caller => w.Holds course request caller
  | .withdrawing _ => False
  | .accepted job => w.Keeps course request job false
  | .dropped job => w.Keeps course request job true

theorem Stands.move {alone : Worker ρ π α} {stage : SideStage}
    (h : w.Stands course alone request stage) {m : Move ρ} (hm : stage.Spares m) :
    (w.move course m).Stands course (alone.move course m) request stage := by
  cases stage with
  | asking | refused => exact congrArg (Worker.move course · m) h
  | holding caller => exact Holds.move h hm
  | withdrawing => exact h
  | accepted | dropped => exact Keeps.move h m

theorem Stands.next {alone : Worker ρ π α} {stage : SideStage} (halone : alone.Viable course)
    (h : w.Stands course alone request stage) :
    (stage.next request w).2.Stands course alone request (stage.next request w).1 := by
  cases stage with
  | asking =>
      rw [show w = alone from h]
      cases hclaim : alone.claim request with
      | error fault =>
          rw [SideStage.next, hclaim]
          exact rfl
      | ok claimed =>
          have hidle := idle_of_claim hclaim
          have hreachable := halone.reachable hidle.running
          have hclaims := hidle.claims_eq hreachable.guarded
          rw [SideStage.next, hclaim]
          obtain rfl : _ = claimed := Except.ok.inj
            ((claim_of_idle hidle.open_eq hidle.running hidle.busy_eq request).symm.trans hclaim)
          refine ⟨hreachable.claim hclaim, hidle.open_eq, hidle.running, ?_, ?_⟩
          · rw [hclaims]
            rfl
          · rw [hclaims]
            rfl
  | holding caller =>
      obtain rfl := h.caller_eq
      have hclaim : w.claims[0]? = some request := by
        rw [h.claims_eq]
        rfl
      have hsend := h.reachable.guarded.send_eq h.running hclaim
      rw [SideStage.next, hsend]
      exact ⟨h.reachable.send hsend, {}, List.getElem?_concat_length, nofun⟩
  | withdrawing => exact h.elim
  | refused | accepted | dropped => exact h

theorem Keeps.drop {job : Nat} (h : w.Keeps course request job false) :
    (w.onChannel job Channel.forget).Keeps course request job true := by
  obtain ⟨channel, hentry, -⟩ := h.entry
  refine ⟨h.reachable.move (.forget job), channel.forget, ?_, fun _ => rfl⟩
  rw [jobs_onChannel, if_pos rfl, hentry]
  rfl

/-- A job whose handle is gone is kept, and comes to its end unheard. -/
theorem Keeps.unheard {job : Nat} (h : w.Keeps course request job true) (moves : List (Move ρ)) :
    ∃ channel, (w.run course moves).jobs[job]? = some ⟨request, channel⟩ ∧
      channel.hasReceiver = false ∧
      (w.rank course ≤ moves.countP Move.isAdvance → channel.hasSender = false) := by
  have hrun := h.run moves
  obtain ⟨channel, hentry, hreceiver⟩ := hrun.entry
  refine ⟨channel, hentry, hreceiver rfl, ?_⟩
  intro hadvances
  obtain ⟨first, hfirst, -⟩ := h.entry
  rw [← Bool.not_eq_true, hrun.reachable.sound.hasSender _ _ hentry]
  exact not_pending_run h.reachable hfirst hadvances

/-! Nobody in between. -/

theorem exists_next_of_submit {job : Nat} (h : w.submit request = .ok (job, w')) :
    ∃ caller claimed, SideStage.asking.next request w = (.holding caller, claimed) ∧
      (SideStage.holding caller).next request claimed = (.accepted job, w') := by
  obtain ⟨claimed, hclaim, hsend⟩ := exists_claim_of_submit h
  refine ⟨w.claims.length, claimed, ?_, ?_⟩
  · rw [SideStage.next, hclaim]
  · rw [SideStage.next, hsend]

theorem Viable.next_of_submit_error (hw : w.Viable course) {fault : Fault}
    (h : w.submit request = .error fault) :
    SideStage.asking.next request w = (.refused fault, w) := by
  cases hclaim : w.claim request with
  | error other =>
      rw [submit, hclaim] at h
      cases h
      rw [SideStage.next, hclaim]
  | ok claimed =>
      have hidle := idle_of_claim hclaim
      rw [(hw.reachable hidle.running).guarded.submit_of_idle hidle.open_eq hidle.running
        hidle.busy_eq] at h
      cases h

end Worker

/-! ### Both sides -/

theorem Both.on_set {β : Type} (b : Both β) (side other : Side) (a : β) :
    (b.set side a).on other = if side = other then a else b.on other := by
  cases side <;> cases other <;> rfl

namespace SplitCall

variable {ρ π α : Type} {course : ρ → Course π α} {workers : Both (Worker ρ π α)}
  {requests : Both ρ} {others : Both (List (Move ρ))} {s : SplitCall ρ π α}

/-- Each side stands as its stage says, and nothing is asked of the right before the left has
accepted. -/
structure Meets (course : ρ → Course π α) (workers : Both (Worker ρ π α)) (requests : Both ρ)
    (others : Both (List (Move ρ))) (s : SplitCall ρ π α) : Prop where
  stands : ∀ side, (s.workers.on side).Stands course
    ((workers.on side).run course (others.on side)) (requests.on side) (s.stages.on side)
  order : s.stages.left.job? = none → s.stages.right = .asking

namespace Meets

theorem submit (h : Meets course workers requests others s)
    (hviable : ∀ side, (workers.on side).Viable course) (side : Side)
    (horder : (s.submit requests side).stages.left.job? = none →
      (s.submit requests side).stages.right = .asking) :
    Meets course workers requests others (s.submit requests side) := by
  refine ⟨?_, horder⟩
  intro other
  simp only [SplitCall.submit, Both.on_set]
  split
  next hsame =>
    subst hsame
    exact (h.stands side).next ((hviable side).run _)
  next => exact h.stands other

theorem next (h : Meets course workers requests others s)
    (hviable : ∀ side, (workers.on side).Viable course) :
    Meets course workers requests others (s.next requests) := by
  rw [SplitCall.next]
  cases hleft : s.stages.left with
  | refused | dropped => exact h
  | accepted job =>
      cases hright : s.stages.right with
      | accepted | dropped => exact h
      | refused =>
          refine ⟨?_, nofun⟩
          intro side
          cases side with
          | left =>
              have hkeeps := h.stands .left
              rw [show s.stages.on .left = _ from hleft] at hkeeps
              exact hkeeps.drop
          | right => exact h.stands .right
      | asking | holding | withdrawing =>
          refine h.submit hviable .right ?_
          intro hnone
          rw [show (s.submit requests .right).stages.left = _ from hleft] at hnone
          cases hnone
  | asking | holding | withdrawing =>
      have hright := h.order (by rw [hleft]; rfl)
      exact h.submit hviable .left fun _ => hright

end Meets

theorem Leads.meets (h : Leads course workers requests others s)
    (hviable : ∀ side, (workers.on side).Viable course) : Meets course workers requests others s := by
  induction h with
  | start =>
      refine ⟨?_, fun _ => rfl⟩
      intro side
      cases side <;> rfl
  | call _ ih => exact ih.next hviable
  | @other others s _ side m hm ih =>
      refine ⟨?_, ih.order⟩
      intro other
      simp only [Both.on_set]
      split
      next hsame =>
        subst hsame
        rw [Worker.run, List.foldl_append]
        exact (ih.stands side).move hm
      next => exact ih.stands other

/-! ### Nobody in between -/

/-- A call that nobody comes between starts the run, or fails to, as `SplitRun.start` says. -/
theorem leads_start (hviable : ∀ side, (workers.on side).Viable course) (requests : Both ρ) :
    ∃ s : SplitCall ρ π α, Leads course workers requests ⟨[], []⟩ s ∧
      s.workers = (SplitRun.start workers requests).2 ∧
      s.fault? = (match (SplitRun.start workers requests).1 with
        | .error fault => some fault
        | .ok _ => none) := by
  cases hleft : workers.left.submit requests.left with
  | error fault =>
      have hnext : SideStage.asking.next requests.left workers.left = _ :=
        (hviable .left).next_of_submit_error hleft
      have h : Leads course workers requests ⟨[], []⟩ _ := .call .start
      simp only [next, submit, Both.on, Both.set, hnext] at h
      refine ⟨_, h, ?_⟩
      rw [SplitRun.start, hleft]
      exact ⟨rfl, rfl⟩
  | ok left =>
      obtain ⟨leftJob, left⟩ := left
      obtain ⟨caller, claimed, hclaimed, haccepted⟩ := Worker.exists_next_of_submit hleft
      have h : Leads course workers requests ⟨[], []⟩ _ := .call (.call .start)
      simp only [next, submit, Both.on, Both.set, hclaimed, haccepted] at h
      cases hright : workers.right.submit requests.right with
      | error fault =>
          have hnext : SideStage.asking.next requests.right workers.right = _ :=
            (hviable .right).next_of_submit_error hright
          have h := h.call.call
          simp only [next, submit, Both.on, Both.set, hnext] at h
          refine ⟨_, h, ?_⟩
          rw [SplitRun.start, hleft]
          dsimp only
          rw [hright]
          exact ⟨rfl, rfl⟩
      | ok right =>
          obtain ⟨rightJob, right⟩ := right
          obtain ⟨_, _, hclaimed, haccepted⟩ := Worker.exists_next_of_submit hright
          have h := h.call.call
          simp only [next, submit, Both.on, Both.set, hclaimed, haccepted] at h
          refine ⟨_, h, ?_⟩
          rw [SplitRun.start, hleft]
          dsimp only
          rw [hright]
          exact ⟨rfl, rfl⟩

/-! ### Refusals -/

/-- Whatever comes between the steps of a call: what it leaves behind when it is refused is at most
the job that the left side has accepted, which is done although nobody hears of it. The right side,
and the left if it is the one that refuses, are as if there had been no call. -/
theorem refused_keeps_only_left (course : ρ → Course π α) (workers : Both (Worker ρ π α))
    (hviable : ∀ side, (workers.on side).Viable course) (requests : Both ρ) :
    (∃ s : SplitCall ρ π α, Leads course workers requests ⟨[], []⟩ s ∧
      s.workers = (SplitRun.start workers requests).2 ∧
      s.fault? = (match (SplitRun.start workers requests).1 with
        | .error fault => some fault
        | .ok _ => none)) ∧
    ∀ others s fault, Leads course workers requests others s → s.fault? = some fault →
      s.workers.right = workers.right.run course others.right ∧
      (s.stages.left = .refused fault ∧ s.workers.left = workers.left.run course others.left ∨
        ∃ job, s.stages.left = .dropped job ∧ ∀ moves, ∃ channel,
          (s.workers.left.run course moves).jobs[job]? = some ⟨requests.left, channel⟩ ∧
          channel.hasReceiver = false ∧
          (s.workers.left.rank course ≤ moves.countP Move.isAdvance → channel.hasSender = false)) := by
  refine ⟨leads_start hviable requests, ?_⟩
  intro others s fault h hfault
  obtain ⟨hstands, horder⟩ := h.meets hviable
  have hleft := hstands .left
  have hright := hstands .right
  simp only [Both.on] at hleft hright
  rw [fault?] at hfault
  split at hfault
  next hstage =>
    cases hfault
    rw [hstage] at hleft horder
    rw [horder rfl] at hright
    exact ⟨hright, .inl ⟨hstage, hleft⟩⟩
  next hstage hrefused =>
    cases hfault
    rw [hstage] at hleft
    rw [hrefused] at hright
    exact ⟨hright, .inr ⟨_, hstage, hleft.unheard⟩⟩
  next => cases hfault

/-- The thread on the right makes a step between the two submissions. -/
theorem refused_keeps_only_left_beside_busy :
    let course : Nat → Course Nat Nat := fun value => ⟨#[value], .ok value⟩
    let busy : Worker Nat Nat Nat := Worker.run course { name := "right" } [.claim 8, .send 0]
    let left : Worker Nat Nat Nat :=
      Worker.run course { name := "left" } [.claim 7, .send 0, .forget 0]
    ∃ s : SplitCall Nat Nat Nat,
      Leads course ⟨{ name := "left" }, busy⟩ ⟨7, 9⟩ ⟨[], [.advance]⟩ s ∧ s.fault? = some .busy ∧
      s.workers = ⟨left, busy.move course .advance⟩ ∧
      ∃ channel, (left.run course (.replicate 6 .advance)).jobs[0]? =
        some ⟨7, channel⟩ ∧ channel.hasReceiver = false ∧ channel.hasSender = false := by
  intro course busy left
  let workers : Both (Worker Nat Nat Nat) := ⟨{ name := "left" }, busy⟩
  let requests : Both Nat := ⟨7, 9⟩
  have hviable : ∀ side, (workers.on side).Viable course := by
    intro side
    cases side with
    | left => exact .inl ⟨"left", [], rfl⟩
    | right => exact .inl ⟨"right", [.claim 8, .send 0], rfl⟩
  have h : Leads course workers requests ⟨[], []⟩ _ := .call (.call .start)
  have h := ((h.other .right .advance ⟨nofun, nofun⟩).call).call
  obtain ⟨-, hrefused⟩ := refused_keeps_only_left course workers hviable requests
  obtain ⟨-, ⟨hstage, -⟩ | ⟨job, hstage, hkept⟩⟩ := hrefused _ _ .busy h rfl
  · cases hstage
  · cases hstage
    obtain ⟨channel, hentry, hreceiver, hsender⟩ := hkept (.replicate 6 .advance)
    exact ⟨_, h, rfl, rfl, channel, hentry, hreceiver, hsender (by decide)⟩

end SplitCall

/-- The left side has a job of the call in its queue and its flag set, and the caller is told that
a worker is busy. -/
theorem SplitRun.start_refused_queues_left :
    let course := Request.workload.course
    let request : Request := { useBuiltIn := true, builtInName := "lcg" }
    let workers : Both (Worker Request Float Image) :=
      ⟨{ name := "left" }, Worker.run course { name := "right" } [.claim request, .send 0]⟩
    let r := SplitRun.start workers ⟨request, request⟩
    workers.left.busy = false ∧ workers.left.queue = [] ∧
      r.1 = .error .busy ∧ r.2.left.busy = true ∧ r.2.left.queue = [(0, request)] :=
  ⟨rfl, rfl, rfl, rfl, rfl⟩

end OrbitImage
