import OrbitImage.Proofs.Worker.SplitView
import OrbitImage.Worker.Pool
/-!
What happens in a pool is one of the orders in which threads and listeners can take their turns: the
one that its clock makes. So whoever waits in a pool hears of the end of the job, and two workers
side by side come to what each of them comes to alone.
-/
namespace OrbitImage

/-! ### Catching up -/

theorem Worker.pending_receive {ρ π α : Type} (w : Worker ρ π α) (job : Nat) :
    (w.receive job).2.pending = w.pending := by
  rw [receive]
  split <;> rfl

namespace Scene

variable {ρ π α : Type} {course : ρ → Course π α} {s : Scene ρ π α} {request : ρ} {job start : Nat}

theorem pending_look (l : Listener π α) (w : Worker ρ π α) : (l.poll w).2.pending = w.pending := by
  rw [Listener.worker_poll]
  split
  · rfl
  · exact Worker.pending_receive ..

def pollTimes (n : Nat) (s : Scene ρ π α) : Scene ρ π α :=
  ⟨(s.listener.pollTimes n s.worker).1, (s.listener.pollTimes n s.worker).2⟩

theorem leadsTo_pollTimes (n : Nat) (s : Scene ρ π α) : s.LeadsTo course (s.pollTimes n) := by
  induction n generalizing s with
  | zero => exact .refl
  | succ n ih => exact LeadsTo.refl.look.trans (ih (s.turn course .look))

theorem pending_pollTimes (n : Nat) (s : Scene ρ π α) :
    (s.pollTimes n).worker.pending = s.worker.pending := by
  induction n generalizing s with
  | zero => rfl
  | succ n ih =>
      exact (ih ⟨(s.listener.poll s.worker).1, (s.listener.poll s.worker).2⟩).trans
        (pending_look s.listener s.worker)

theorem Following.isDone_pollTimes (h : s.Following course request job start)
    (hover : job ∉ s.worker.pending) {n : Nat}
    (hn : (course request).notices.size < s.worker.received job + n) :
    (s.pollTimes n).listener.isDone = true := by
  induction n generalizing s with
  | zero => exact h.knows.isDone_iff.mpr hn
  | succ n ih =>
      apply ih h.look
      · change job ∉ (s.listener.poll s.worker).2.pending
        rw [pending_look]
        exact hover
      · cases hdone : s.listener.isDone with
        | true =>
            have hheard := h.knows.isDone_iff.mp hdone
            have hkept := h.received_look
            omega
        | false =>
            rw [h.received_look_of_over hdone hover]
            omega

def catchUp (s : Scene ρ π α) : Scene ρ π α :=
  ⟨(s.listener.catchUp s.worker).1, (s.listener.catchUp s.worker).2⟩

theorem leadsTo_catchUp (s : Scene ρ π α) : s.LeadsTo course s.catchUp :=
  leadsTo_pollTimes _ s

theorem Following.isDone_catchUp (h : s.Following course request job start)
    (hover : job ∉ s.catchUp.worker.pending) : s.catchUp.listener.isDone = true := by
  have hover : job ∉ s.worker.pending := by
    rw [← pending_pollTimes]
    exact hover
  obtain ⟨channel, hentry, hreceiver⟩ := h.exists_channel
  have hsent := h.reachable.sound.sent_eq hentry hreceiver hover
  have hsize : channel.sent.size = (course request).notices.size + 1 := by
    rw [← Array.length_toList, hsent, Course.length_events]
  apply h.isDone_pollTimes hover
  rw [h.job_eq, Worker.received_of_jobs hentry, Worker.channel?, hentry]
  change _ < channel.received + (channel.sent.size - channel.received + 1)
  omega

theorem Following.isDone_of_rest (h : s.Following course request job start)
    (hrest : s.catchUp.worker.advance course = none) : s.catchUp.listener.isDone = true := by
  apply h.isDone_catchUp
  intro hpending
  have hcaught := (leadsTo_catchUp s).following h
  obtain ⟨w', hadvance⟩ : ∃ w', s.catchUp.worker.advance course = some w' :=
    Worker.exists_advance hcaught.reachable.guarded hpending
  rw [hrest] at hadvance
  cases hadvance

end Scene

/-! ### Stations -/

theorem Worker.isSome_advance {ρ π α : Type} (course : ρ → Course π α) (w : Worker ρ π α) :
    (w.advance course).isSome = w.canAdvance := by
  rw [advance, canAdvance]
  cases w.thread with
  | waiting =>
      cases w.queue with
      | nil => cases w.closed <;> rfl
      | cons => rfl
  | working _ rest => cases rest <;> rfl
  | ending | closing | stopped => rfl

namespace Pool

variable {ρ π α : Type} {load : Workload ρ π α} {p next : Pool ρ π α} {i j : Nat}
  {w : Worker ρ π α}

theorem worker?_setWorker_self (h : p.worker? i = some w) (w' : Worker ρ π α) :
    (p.setWorker i w').worker? i = some w' := by
  obtain ⟨station, hstation, -⟩ := Option.map_eq_some_iff.mp h
  rw [worker?, setWorker, List.getElem?_modify_eq, hstation]
  rfl

theorem worker?_setWorker_of_ne (h : i ≠ j) (w' : Worker ρ π α) :
    (p.setWorker i w').worker? j = p.worker? j := by
  simp only [worker?, setWorker, List.getElem?_modify, if_neg h]
  cases p.stations[j]? <;> rfl

theorem catchUp_of_worker (h : p.worker? i = some w) (l : Listener π α) :
    p.catchUp i l = ((l.catchUp w).1, p.setWorker i (l.catchUp w).2) := by
  rw [catchUp, h]

theorem worker?_catchUp_of_ne (h : i ≠ j) (l : Listener π α) :
    (p.catchUp i l).2.worker? j = p.worker? j := by
  rw [catchUp]
  split
  · rfl
  · exact worker?_setWorker_of_ne h _

theorem due_of_earliest {stations : List (Station ρ π α)} {time : Nat}
    (h : earliest load stations = some (i, time)) :
    ∃ station, stations[i]? = some station ∧ station.due? load = some time := by
  induction stations generalizing i with
  | nil => cases h
  | cons station stations ih =>
      rw [earliest] at h
      split at h
      next =>
        obtain ⟨_, hrest, hsame⟩ := Option.map_eq_some_iff.mp h
        cases hsame
        exact ih hrest
      next hdue _ =>
        cases h
        exact ⟨station, rfl, hdue⟩
      next hdue hlater =>
        split at h
        · cases h
          obtain ⟨_, hrest, hsame⟩ := Option.map_eq_some_iff.mp hlater
          cases hsame
          exact ih hrest
        · cases h
          exact ⟨station, rfl, hdue⟩

theorem due_of_not_earliest {stations : List (Station ρ π α)} (h : earliest load stations = none) :
    ∀ station ∈ stations, station.due? load = none := by
  induction stations with
  | nil => exact nofun
  | cons station stations ih =>
      rw [earliest] at h
      split at h
      next hdue =>
        rw [Option.map_eq_none_iff] at h
        intro station' hmem
        rcases List.mem_cons.mp hmem with rfl | hmem
        · exact hdue
        · exact ih h station' hmem
      next => cases h
      next => split at h <;> cases h

theorem advance_of_turn_eq_none (h : p.turn load = none) (hw : p.worker? i = some w) :
    w.advance load.course = none := by
  obtain ⟨station, hstation, rfl⟩ := Option.map_eq_some_iff.mp hw
  have hearliest : earliest load p.stations = none := by
    cases hearliest : earliest load p.stations with
    | none => rfl
    | some first =>
        obtain ⟨k, time⟩ := first
        obtain ⟨due, hdue, htime⟩ := due_of_earliest hearliest
        rw [Station.due?] at htime
        split at htime
        next hcan =>
          rw [← Worker.isSome_advance load.course] at hcan
          obtain ⟨stepped, hstepped⟩ := Option.isSome_iff_exists.mp hcan
          simp only [turn, hearliest, hdue, hstepped, Option.bind_eq_bind, Option.bind_some] at h
          cases h
        next => cases htime
  have hdue := due_of_not_earliest hearliest station (List.mem_of_getElem? hstation)
  rw [Station.due?] at hdue
  split at hdue
  next => cases hdue
  next hcan =>
    rw [← Worker.isSome_advance load.course] at hcan
    exact Option.not_isSome_iff_eq_none.mp hcan

theorem worker?_turn (h : p.turn load = some next) (hw : p.worker? i = some w) :
    ∃ w', next.worker? i = some w' ∧ (w' = w ∨ w' = w.move load.course .advance) := by
  simp only [turn, Option.bind_eq_bind, Option.bind_eq_some_iff, Option.pure_def,
    Option.some.injEq] at h
  obtain ⟨⟨k, time⟩, -, station, hstation, stepped, hstepped, rfl⟩ := h
  by_cases hk : k = i
  · subst hk
    rw [worker?, hstation] at hw
    cases hw
    refine ⟨stepped, ?_, .inr ?_⟩
    · rw [worker?, List.getElem?_set_self (List.getElem?_eq_some_iff.mp hstation).1]
      rfl
    · rw [Worker.move, hstepped]
      rfl
  · refine ⟨w, ?_, .inl rfl⟩
    rw [worker?, List.getElem?_set_ne hk]
    exact hw

/-! ### Waiting -/

/-- What a listener at one place of a pool, and the worker there, come to. -/
def Leads (load : Workload ρ π α) (p : Pool ρ π α) (i : Nat) (l : Listener π α)
    (r : Listener π α × Pool ρ π α) : Prop :=
  ∀ w, p.worker? i = some w → ∃ w', r.2.worker? i = some w' ∧
    (⟨l, w⟩ : Scene ρ π α).LeadsTo load.course ⟨r.1, w'⟩

theorem leads_catchUp (load : Workload ρ π α) (p : Pool ρ π α) (i : Nat) (l : Listener π α) :
    p.Leads load i l (p.catchUp i l) := by
  intro w hw
  rw [catchUp_of_worker hw]
  exact ⟨_, worker?_setWorker_self hw _, Scene.leadsTo_catchUp ⟨l, w⟩⟩

theorem leads_turn (h : p.turn load = some next) (i : Nat) (l : Listener π α) :
    p.Leads load i l (l, next) := by
  intro w hw
  obtain ⟨w', hw', rfl | rfl⟩ := worker?_turn h hw
  · exact ⟨w', hw', .refl⟩
  · exact ⟨_, hw', Scene.LeadsTo.refl.advance⟩

theorem leads_of_worker?_eq {p' : Pool ρ π α} (h : p'.worker? i = p.worker? i) (l : Listener π α) :
    p.Leads load i l (l, p') := by
  intro w hw
  exact ⟨w, h.trans hw, .refl⟩

theorem Leads.trans {l : Listener π α} {r r' : Listener π α × Pool ρ π α} (h : p.Leads load i l r)
    (h' : r.2.Leads load i r.1 r') : p.Leads load i l r' := by
  intro w hw
  obtain ⟨w', hw', hleads⟩ := h w hw
  obtain ⟨w'', hw'', hleads'⟩ := h' w' hw'
  exact ⟨w'', hw'', hleads.trans hleads'⟩

theorem follow_of_turn {l : Listener π α} (hdone : ¬ (p.catchUp i l).1.isDone = true)
    (h : (p.catchUp i l).2.turn load = some next) :
    p.follow load i l = next.follow load i (p.catchUp i l).1 := by
  rw [follow, if_neg hdone]
  split
  next next' h' =>
    rw [h] at h'
    cases h'
    rfl
  next h' =>
    rw [h] at h'
    cases h'

theorem follow_of_rest {l : Listener π α} (h : (p.catchUp i l).2.turn load = none) :
    p.follow load i l = p.catchUp i l := by
  rw [follow]
  split
  · rfl
  · split
    next next' h' =>
      rw [h] at h'
      cases h'
    next => rfl

theorem leads_follow (load : Workload ρ π α) (p : Pool ρ π α) (i : Nat) (l : Listener π α) :
    p.Leads load i l (p.follow load i l) := by
  induction p, l using Pool.follow.induct load i with
  | case1 p l caught hdone =>
      rw [follow, if_pos hdone]
      exact leads_catchUp load p i l
  | case2 p l caught hdone next hturn ih =>
      rw [follow_of_turn hdone hturn]
      exact ((leads_catchUp load p i l).trans (leads_turn hturn i _)).trans ih
  | case3 p l caught hdone hturn =>
      rw [follow_of_rest hturn]
      exact leads_catchUp load p i l

theorem isDone_of_turn_eq_none {l : Listener π α} {request : ρ} {job start : Nat}
    (hw : p.worker? i = some w)
    (h : (⟨l, w⟩ : Scene ρ π α).Following load.course request job start) {p' : Pool ρ π α}
    (hsame : p'.worker? i = (p.catchUp i l).2.worker? i) (hturn : p'.turn load = none) :
    (p.catchUp i l).1.isDone = true := by
  rw [catchUp_of_worker hw, worker?_setWorker_self hw] at hsame
  rw [catchUp_of_worker hw]
  exact h.isDone_of_rest (advance_of_turn_eq_none hturn hsame)

/-- Who waits in a pool for a job whose end was not yet received hears of it. -/
theorem isDone_follow (load : Workload ρ π α) (p : Pool ρ π α) (i : Nat) (l : Listener π α)
    {request : ρ} {job start : Nat} : ∀ w, p.worker? i = some w →
      (⟨l, w⟩ : Scene ρ π α).Following load.course request job start →
      (p.follow load i l).1.isDone = true := by
  induction p, l using Pool.follow.induct load i with
  | case1 p l caught hdone =>
      intro w _ _
      rw [follow, if_pos hdone]
      exact hdone
  | case2 p l caught hdone next hturn ih =>
      intro w hw h
      obtain ⟨w', hw', hleads⟩ := ((leads_catchUp load p i l).trans (leads_turn hturn i _)) w hw
      rw [follow_of_turn hdone hturn]
      exact ih w' hw' (hleads.following h)
  | case3 p l caught hdone hturn =>
      intro w hw h
      exact absurd (isDone_of_turn_eq_none hw h rfl hturn) hdone

theorem wait_eq {request : ρ} {channel : Channel π α} {job : Nat} (hw : p.worker? i = some w)
    (hreachable : w.Reachable load.course) (hentry : w.jobs[job]? = some ⟨request, channel⟩)
    (hreceiver : channel.hasReceiver = true)
    (hunheard : ∀ outcome, .finished outcome ∉ channel.heard) :
    (p.wait load i job).1.outcome = some (load.course request).outcome ∧
      (p.wait load i job).1.told.toList =
        (load.course request).notices.toList.drop channel.received := by
  have hfollowing := hreachable.following hentry hreceiver hunheard
  obtain ⟨w', -, hleads⟩ := leads_follow load p i { job } w hw
  exact (hleads.following hfollowing).knows.of_isDone (isDone_follow load p i _ w hw hfollowing)

/-! ### Two places -/

/-- Catches up at both places, left first. -/
def catchUpBoth (p : Pool ρ π α) (places : Both Nat) (ls : Both (Listener π α)) :
    Both (Listener π α) × Pool ρ π α :=
  let left := p.catchUp places.left ls.left
  let right := left.2.catchUp places.right ls.right
  (⟨left.1, right.1⟩, right.2)

variable {places : Both Nat} {ls : Both (Listener π α)}

theorem followBoth_of_turn
    (hdone : ¬ ((p.catchUpBoth places ls).1.left.isDone &&
      (p.catchUpBoth places ls).1.right.isDone) = true)
    (h : (p.catchUpBoth places ls).2.turn load = some next) :
    p.followBoth load places ls = next.followBoth load places (p.catchUpBoth places ls).1 := by
  change (p.catchUp places.left ls.left).2.catchUp places.right ls.right |>.2.turn load = _ at h
  rw [followBoth]
  split
  next hboth => exact absurd hboth hdone
  next =>
    split
    next next' h' =>
      rw [h] at h'
      cases h'
      rfl
    next h' =>
      rw [h] at h'
      cases h'

theorem followBoth_of_rest (h : (p.catchUpBoth places ls).2.turn load = none) :
    p.followBoth load places ls = p.catchUpBoth places ls := by
  change (p.catchUp places.left ls.left).2.catchUp places.right ls.right |>.2.turn load = _ at h
  rw [followBoth]
  split
  · rfl
  · split
    next next' h' =>
      rw [h] at h'
      cases h'
    next => rfl

theorem leads_catchUpBoth (hne : places.left ≠ places.right) (load : Workload ρ π α)
    (p : Pool ρ π α) (ls : Both (Listener π α)) (side : Side) :
    p.Leads load (places.on side) (ls.on side)
      ((p.catchUpBoth places ls).1.on side, (p.catchUpBoth places ls).2) := by
  cases side with
  | left =>
      exact (leads_catchUp load p places.left ls.left).trans
        (leads_of_worker?_eq (worker?_catchUp_of_ne hne.symm _) _)
  | right =>
      exact (leads_of_worker?_eq (worker?_catchUp_of_ne hne _) _).trans
        (leads_catchUp load (p.catchUp places.left ls.left).2 places.right ls.right)

theorem leads_followBoth (hne : places.left ≠ places.right) (load : Workload ρ π α)
    (p : Pool ρ π α) (ls : Both (Listener π α)) (side : Side) :
    p.Leads load (places.on side) (ls.on side)
      ((p.followBoth load places ls).1.on side, (p.followBoth load places ls).2) := by
  induction p, ls using Pool.followBoth.induct load places with
  | case1 p ls left right hdone =>
      rw [followBoth, if_pos hdone]
      exact leads_catchUpBoth hne load p ls side
  | case2 p ls left right hdone next hturn ih =>
      rw [followBoth_of_turn hdone hturn]
      exact ((leads_catchUpBoth hne load p ls side).trans (leads_turn hturn _ _)).trans ih
  | case3 p ls left right hdone hturn =>
      rw [followBoth_of_rest hturn]
      exact leads_catchUpBoth hne load p ls side

theorem isDone_followBoth (hne : places.left ≠ places.right) (load : Workload ρ π α)
    (p : Pool ρ π α) (ls : Both (Listener π α)) :
    (∀ side, ∃ w request job, p.worker? (places.on side) = some w ∧
      (⟨ls.on side, w⟩ : Scene ρ π α).Following load.course request job 0) →
    ∀ side, ((p.followBoth load places ls).1.on side).isDone = true := by
  induction p, ls using Pool.followBoth.induct load places with
  | case1 p ls left right hdone =>
      intro _ side
      rw [followBoth, if_pos hdone]
      obtain ⟨hleft, hright⟩ := Bool.and_eq_true_iff.mp hdone
      cases side with
      | left => exact hleft
      | right => exact hright
  | case2 p ls left right hdone next hturn ih =>
      intro h
      rw [followBoth_of_turn hdone hturn]
      apply ih
      intro side
      obtain ⟨w, request, job, hw, hfollowing⟩ := h side
      obtain ⟨w', hw', hleads⟩ :=
        ((leads_catchUpBoth hne load p ls side).trans (leads_turn hturn _ _)) w hw
      refine ⟨w', request, job, hw', ?_⟩
      cases side with
      | left => exact hleads.following hfollowing
      | right => exact hleads.following hfollowing
  | case3 p ls left right hdone hturn =>
      intro h side
      rw [followBoth_of_rest hturn]
      obtain ⟨w, request, job, hw, hfollowing⟩ := h side
      cases side with
      | left =>
          exact isDone_of_turn_eq_none hw hfollowing (worker?_catchUp_of_ne hne.symm _) hturn
      | right =>
          have hw' : left.2.worker? places.right = some w :=
            (worker?_catchUp_of_ne hne _).trans hw
          exact isDone_of_turn_eq_none hw' hfollowing rfl hturn

/-! ### Split runs -/

theorem worker?_wake (p : Pool ρ π α) (i j : Nat) : (p.wake i).worker? j = p.worker? j := by
  rw [worker?, wake, worker?, List.getElem?_modify]
  cases p.stations[j]? with
  | none => rfl
  | some station =>
      apply congrArg some
      dsimp only
      split
      · split <;> rfl
      · rfl

theorem worker?_forget_self {job : Nat} (h : p.worker? i = some w) :
    (p.forget i job).worker? i = some (w.onChannel job Channel.forget) := by
  rw [forget, h]
  exact worker?_setWorker_self h _

theorem worker?_forget_of_ne (h : i ≠ j) (job : Nat) : (p.forget i job).worker? j = p.worker? j := by
  rw [forget]
  split
  · rfl
  · exact worker?_setWorker_of_ne h _

/-- The pool in which both workers have a job to start with. -/
def startBoth (p : Pool ρ π α) (places : Both Nat) (workers : Both (Worker ρ π α)) : Pool ρ π α :=
  (((p.setWorker places.left workers.left).setWorker places.right workers.right).wake
    places.left).wake places.right

def forgetBoth (p : Pool ρ π α) (places jobs : Both Nat) : Pool ρ π α :=
  (p.forget places.left jobs.left).forget places.right jobs.right

theorem worker?_startBoth (hne : places.left ≠ places.right) {workers : Both (Worker ρ π α)}
    (hworkers : ∀ side, p.worker? (places.on side) = some (workers.on side))
    (workers' : Both (Worker ρ π α)) (side : Side) :
    (p.startBoth places workers').worker? (places.on side) = some (workers'.on side) := by
  rw [startBoth, worker?_wake, worker?_wake]
  cases side with
  | left =>
      rw [Both.on, worker?_setWorker_of_ne hne.symm]
      exact worker?_setWorker_self (hworkers .left) _
  | right =>
      have hright := (worker?_setWorker_of_ne hne workers'.left).trans (hworkers .right)
      exact worker?_setWorker_self hright _

theorem worker?_forgetBoth (hne : places.left ≠ places.right) {side : Side}
    (hw : p.worker? (places.on side) = some w) (jobs : Both Nat) :
    (p.forgetBoth places jobs).worker? (places.on side) =
      some (w.onChannel (jobs.on side) Channel.forget) := by
  rw [forgetBoth]
  cases side with
  | left =>
      rw [Both.on, worker?_forget_of_ne hne.symm]
      exact worker?_forget_self hw
  | right =>
      have hright := (worker?_forget_of_ne hne jobs.left).trans hw
      exact worker?_forget_self hright

theorem runSplit_of_start {workers : Both (Worker ρ π α)} {requests : Both ρ} {s : SplitRun ρ π α}
    (hworkers : ∀ side, p.worker? (places.on side) = some (workers.on side))
    (hstart : SplitRun.start workers requests = (.ok s, s.workers)) :
    let r := (p.startBoth places s.workers).followBoth load places s.listeners
    p.runSplit load places requests =
      (.ok r.1, r.2.forgetBoth places ⟨r.1.left.job, r.1.right.job⟩) := by
  have hleft := hworkers .left
  have hright := hworkers .right
  simp only [Both.on] at hleft hright
  simp only [runSplit, hleft, hright, hstart]
  rfl

/-- Two workers of a pool that are free do a request each, as if the other were not there, and are
free again. -/
theorem runSplit_settles (load : Workload ρ π α) (hne : places.left ≠ places.right)
    {workers : Both (Worker ρ π α)}
    (hworkers : ∀ side, p.worker? (places.on side) = some (workers.on side))
    (hreachable : ∀ side, (workers.on side).Reachable load.course)
    (hidle : ∀ side, (workers.on side).Idle) (requests : Both ρ) :
    ∃ ls p', p.runSplit load places requests = (.ok ls, p') ∧ ∀ side,
      (ls.on side).outcome = some (load.course (requests.on side)).outcome ∧
      (ls.on side).told = (load.course (requests.on side)).notices ∧
      ∃ w, p'.worker? (places.on side) = some w ∧ w.Idle := by
  obtain ⟨s, hstart, hside⟩ := SplitRun.start_of_idle hreachable hidle requests
  refine ⟨_, _, runSplit_of_start hworkers hstart, ?_⟩
  have hstarted := worker?_startBoth hne hworkers s.workers
  have hfollowed := isDone_followBoth hne load (p.startBoth places s.workers) s.listeners (by
    intro side
    obtain ⟨job, -, hfollowing⟩ := hside side
    exact ⟨_, _, _, hstarted side, hfollowing⟩)
  intro side
  obtain ⟨job, hreserved, hfollowing⟩ := hside side
  obtain ⟨w, hw, hleads⟩ := leads_followBoth hne load _ s.listeners side _ (hstarted side)
  have hdone := hfollowed side
  have hheard := hleads.following hfollowing
  obtain ⟨houtcome, htold⟩ := hheard.knows.of_isDone hdone
  refine ⟨houtcome, Array.toList_inj.mp htold, _, worker?_forgetBoth hne hw _, ?_⟩
  have hfree := hheard.idle (hleads.reserved hreserved) hdone
  exact ⟨hfree.open_eq, hfree.running, hfree.busy_eq⟩

end Pool

end OrbitImage
