import OrbitImage.Proofs.Worker.Waiting
/-!
What the handle of a job gives. Once a worker has accepted a job, its handle gives the events of
that job, in order, and nothing else; the job comes to its end even if no more jobs can be
submitted; and who waits for the end hears of it.
-/
namespace OrbitImage

namespace Worker

variable {ρ π α : Type} {course : ρ → Course π α} {w w' : Worker ρ π α} {caller job : Nat}
  {request : ρ} {channel : Channel π α}

theorem send_accepted (hclaim : w.claims[caller]? = some request)
    (h : w.send caller = some (.accepted job, w')) :
    job = w.jobs.length ∧ w'.jobs = w.jobs ++ [⟨request, {}⟩] := by
  rw [send, hclaim] at h
  dsimp only at h
  split at h
  · cases h
  · split at h
    · cases h
    · cases h
      exact ⟨rfl, rfl⟩

/-! ### What was received -/

namespace Sound

theorem received_le (h : w.Sound course) (hentry : w.jobs[job]? = some ⟨request, channel⟩) :
    channel.received ≤ channel.sent.size := by
  obtain ⟨_, -, hc⟩ := h.carries job _ hentry
  exact hc.received_le

theorem length_heard (h : w.Sound course) (hentry : w.jobs[job]? = some ⟨request, channel⟩) :
    channel.heard.length = channel.received :=
  List.length_take_of_le (h.received_le hentry)

theorem heard_prefix (h : w.Sound course) (hentry : w.jobs[job]? = some ⟨request, channel⟩) :
    channel.heard <+: (course request).events :=
  (List.take_prefix ..).trans (h.sent_prefix hentry)

theorem heard_eq_of_isOver (h : w.Sound course) (hentry : w.jobs[job]? = some ⟨request, channel⟩)
    (hreceiver : channel.hasReceiver = true) (hover : channel.isOver = true) :
    channel.heard = (course request).events := by
  rw [Channel.isOver, Bool.and_eq_true, Bool.not_eq_true', Option.isNone_iff_eq_none] at hover
  obtain ⟨hsender, hnext⟩ := hover
  have hpending : job ∉ w.pending := by
    rw [← h.hasSender job _ hentry, hsender]
    exact Bool.false_ne_true
  rw [← h.sent_eq hentry hreceiver hpending]
  exact List.take_of_length_le (Array.getElem?_eq_none_iff.mp hnext)

theorem heard_eq_of_finished (h : w.Sound course)
    (hentry : w.jobs[job]? = some ⟨request, channel⟩) {outcome : Except Fault α}
    (hmem : .finished outcome ∈ channel.heard) : channel.heard = (course request).events := by
  obtain ⟨rest, heq⟩ := h.heard_prefix hentry
  rw [Course.eq_nil_of_finished heq hmem, List.append_nil] at heq
  exact heq

theorem next?_of_finished (h : w.Sound course) (hentry : w.jobs[job]? = some ⟨request, channel⟩)
    {outcome : Except Fault α} (hmem : .finished outcome ∈ channel.heard) :
    channel.next? = none := by
  have hreceived := h.length_heard hentry
  rw [h.heard_eq_of_finished hentry hmem] at hreceived
  have hsent := (h.sent_prefix hentry).length_le
  rw [Array.length_toList] at hsent
  exact Array.getElem?_eq_none (by omega)

/-- The end of a job is the last thing to be received. -/
theorem received_le_of_unfinished (h : w.Sound course)
    (hentry : w.jobs[job]? = some ⟨request, channel⟩)
    (hunheard : ∀ outcome, .finished outcome ∉ channel.heard) :
    channel.received ≤ (course request).notices.size := by
  apply Decidable.byContradiction
  intro hgt
  have hlength := h.length_heard hentry
  have hprefix := h.heard_prefix hentry
  have heq := hprefix.eq_of_length_le (by rw [hlength, Course.length_events]; omega)
  apply hunheard (course request).outcome
  rw [heq, Course.events]
  exact List.mem_append_right _ List.mem_cons_self

end Sound

/-- What the handle of a job gives at any time. -/
structure Delivers (course : ρ → Course π α) (w : Worker ρ π α) (job : Nat) (request : ρ)
    (channel : Channel π α) : Prop where
  heard_prefix : channel.heard <+: (course request).events
  heard_eq : channel.hasReceiver = true → channel.isOver = true →
    channel.heard = (course request).events
  heard_end : ∀ outcome, .finished outcome ∈ channel.heard →
    channel.heard = (course request).events ∧ channel.next? = none
  /-- Nothing but the thread, and only while it is at the job, sends anything to the handle. -/
  sent_own : ∀ m channel', (w.move course m).jobs[job]? = some ⟨request, channel'⟩ →
    channel'.sent ≠ channel.sent → m = .advance ∧ w.thread.job? = some job

theorem Sound.delivers (h : w.Sound course) (hentry : w.jobs[job]? = some ⟨request, channel⟩) :
    w.Delivers course job request channel where
  heard_prefix := h.heard_prefix hentry
  heard_eq := h.heard_eq_of_isOver hentry
  heard_end := by
    intro outcome hmem
    exact ⟨h.heard_eq_of_finished hentry hmem, h.next?_of_finished hentry hmem⟩
  sent_own := by
    intro m channel' hentry' hsent
    obtain ⟨_, hentry'', htouch⟩ := (step_move w m : Step course w m _).touch hentry
    rw [hentry'] at hentry''
    cases hentry''
    cases htouch with
    | leave => exact absurd rfl hsent
    | receive => exact absurd rfl hsent
    | forget => exact absurd rfl hsent
    | send _ hjob => exact ⟨rfl, hjob⟩
    | close => exact absurd rfl hsent

end Worker

namespace Scene

variable {ρ π α : Type} {course : ρ → Course π α}

/-- Whoever waits hears nothing but what the job comes to, and in the end hears that. -/
structure Awaits (course : ρ → Course π α) (s : Scene ρ π α) (c : Course π α) (start : Nat)
    (schedule : Nat → Turn ρ) : Prop where
  outcome_cases : ∀ n, (s.play course schedule n).listener.outcome = none ∨
    (s.play course schedule n).listener.outcome = some c.outcome
  told_prefix : ∀ n, (s.play course schedule n).listener.told.toList <+: c.notices.toList.drop start
  outcome_eq : Turn.Fair schedule → ∃ n, ∀ m ≥ n,
    (s.play course schedule m).listener.outcome = some c.outcome ∧
    (s.play course schedule m).listener.told.toList = c.notices.toList.drop start

theorem Following.awaits {s : Scene ρ π α} {request : ρ} {job start : Nat}
    (h : s.Following course request job start) {schedule : Nat → Turn ρ}
    (hspares : ∀ n, (schedule n).Spares job) : s.Awaits course (course request) start schedule where
  outcome_cases := by
    intro n
    rw [(h.play hspares n).knows.outcome_eq]
    split
    · exact .inl rfl
    · exact .inr rfl
  told_prefix := by
    intro n
    exact (h.play hspares n).knows.told_prefix
  outcome_eq := by
    intro hfair
    obtain ⟨n, hdone⟩ := h.eventually_done hspares hfair
    refine ⟨n, ?_⟩
    intro m hm
    exact (h.play hspares m).knows.of_isDone (hdone m hm)

end Scene

namespace Worker

variable {ρ π α : Type} {course : ρ → Course π α} {w w' : Worker ρ π α} {caller job : Nat}
  {request : ρ}

/-- Who takes over the handle of a job, before the end of the job is received, can follow it. -/
theorem Reachable.following {channel : Channel π α} (hw : w.Reachable course)
    (hentry : w.jobs[job]? = some ⟨request, channel⟩) (hreceiver : channel.hasReceiver = true)
    (hunheard : ∀ outcome, .finished outcome ∉ channel.heard) :
    (⟨{ job }, w⟩ : Scene ρ π α).Following course request job channel.received := by
  have hreceived := received_of_jobs hentry
  refine ⟨hw, rfl, ⟨channel, hentry, hreceiver⟩, Nat.le_of_eq hreceived.symm, ?_⟩
  rw [hreceived]
  exact Listener.knows_new _ (hw.sound.received_le_of_unfinished hentry hunheard)

theorem accepted_delivers (hw : w.Reachable course) (hclaim : w.claims[caller]? = some request)
    (haccept : w.send caller = some (.accepted job, w')) (moves : List (Move ρ)) :
    ∃ channel, (w'.run course moves).jobs[job]? = some ⟨request, channel⟩ ∧
      (w'.run course moves).Delivers course job request channel ∧
      (w'.rank course ≤ moves.countP Move.isAdvance → channel.hasSender = false ∧
        (channel.hasReceiver = true → channel.sent.toList = (course request).events)) ∧
      (channel.hasReceiver = true → (∀ outcome, .finished outcome ∉ channel.heard) →
        ∀ schedule : Nat → Turn ρ, (∀ n, (schedule n).Spares job) →
          (⟨{ job }, w'.run course moves⟩ : Scene ρ π α).Awaits course (course request)
            channel.received schedule) := by
  obtain ⟨rfl, hjobs⟩ := send_accepted hclaim haccept
  have hnew : w'.jobs[w.jobs.length]? = some ⟨request, {}⟩ := by
    rw [hjobs, List.getElem?_concat_length]
  have hw' := hw.send haccept
  have hrun := hw'.run moves
  obtain ⟨channel, hentry⟩ : ∃ channel, (w'.run course moves).jobs[w.jobs.length]? = _ :=
    exists_channel_run hnew moves
  refine ⟨channel, hentry, hrun.sound.delivers hentry, ?_, ?_⟩
  · intro hadvances
    have hover := not_pending_run hw' hnew hadvances
    constructor
    · rw [← Bool.not_eq_true, hrun.sound.hasSender _ _ hentry]
      exact hover
    · intro hreceiver
      exact hrun.sound.sent_eq hentry hreceiver hover
  · intro hreceiver hunheard schedule hspares
    exact (hrun.following hentry hreceiver hunheard).awaits hspares

/-- No more jobs can be submitted as soon as this one is, and it is waited for. -/
theorem accepted_delivers_after_close :
    let course : Nat → Course Nat Nat := fun value => ⟨#[value], .ok value⟩
    let w := run course { name := "left" } [.claim 7, .send 0, .close]
    let schedule : Nat → Turn Nat := fun n => if n % 2 = 0 then .look else .move .advance
    ∃ n, ∀ m ≥ n,
      ((⟨{ job := 0 }, w⟩ : Scene Nat Nat Nat).play course schedule m).listener.outcome =
        some (.ok 7) ∧
      ((⟨{ job := 0 }, w⟩ : Scene Nat Nat Nat).play course schedule m).listener.told.toList = [7] := by
  intro course w schedule
  have hreachable : Reachable course (run course { name := "left" } [.claim 7]) := ⟨_, _, rfl⟩
  have hclaim : (run course { name := "left" } [.claim 7]).claims[0]? = some 7 := rfl
  have haccept : (run course { name := "left" } [.claim 7]).send 0 =
      some (.accepted 0, run course { name := "left" } [.claim 7, .send 0]) := rfl
  obtain ⟨channel, hentry, -, -, hawaits⟩ := accepted_delivers hreachable hclaim haccept [.close]
  obtain rfl : ({} : Channel Nat Nat) = channel := congrArg Job.channel (Option.some.inj hentry)
  have hspares : ∀ n, (schedule n).Spares 0 := by
    intro n
    simp only [schedule]
    split
    · exact ⟨nofun, nofun⟩
    · exact ⟨nofun, nofun⟩
  apply (hawaits rfl nofun schedule hspares).outcome_eq
  constructor
  · intro n
    exact ⟨2 * n, by omega, if_pos (by omega)⟩
  · intro n
    exact ⟨2 * n + 1, by omega, if_neg (by omega)⟩

/-- Who has received the end of a job waits for it in vain. -/
theorem gone_after_end :
    let course : Nat → Course Nat Nat := fun value => ⟨#[], .ok value⟩
    let w := run course { name := "left" }
      [.claim 7, .send 0, .advance, .advance, .advance, .advance, .receive 0]
    (w.jobs[0]?).map (fun entry => (entry.request, entry.channel.hasReceiver)) = some (7, true) ∧
      (({ job := 0 } : Listener Nat Nat).poll w).1.outcome = some (.error .gone) ∧
      some (.error .gone) ≠ some (course 7).outcome :=
  ⟨rfl, rfl, nofun⟩

end Worker

end OrbitImage
