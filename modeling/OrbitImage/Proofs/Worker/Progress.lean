import OrbitImage.Proofs.Worker.Delivery
/-!
Why jobs come to their ends: how many steps of the thread a job is away from its end, at most. Each
step of the thread makes it one less, nothing that callers do makes it more, and the thread can go
on as long as it is not zero.
-/
namespace OrbitImage

def Move.isAdvance {ρ : Type} : Move ρ → Bool
  | .advance => true
  | _ => false

theorem Thread.rank_pos {π α : Type} {t : Thread π α} {job : Nat} (h : t.job? = some job) :
    0 < t.rank := by
  cases t with
  | waiting | stopped => cases h
  | working | ending | closing => exact Nat.succ_pos _

namespace Worker

variable {ρ π α : Type} {course : ρ → Course π α} {w w' : Worker ρ π α} {job : Nat}

/-! ### Channels -/

/-- What a move does to the channel of a job. -/
inductive Touch (w : Worker ρ π α) (job : Nat) (channel : Channel π α) :
    Move ρ → Channel π α → Prop
  | leave (m : Move ρ) : Touch w job channel m channel
  | receive {event : Event π α} (hnext : channel.next? = some event) :
      Touch w job channel (.receive job) channel.pass
  | forget : Touch w job channel (.forget job) channel.forget
  | send (event : Event π α) (hjob : w.thread.job? = some job) :
      Touch w job channel .advance (channel.send event)
  | close (hjob : w.thread.job? = some job) : Touch w job channel .advance channel.close

variable {m : Move ρ} {request : ρ} {channel : Channel π α}

theorem touch_of_onChannel {i : Nat} {f : Channel π α → Channel π α}
    (hentry : w.jobs[job]? = some ⟨request, channel⟩) (hjobs : w'.jobs = (w.onChannel i f).jobs)
    (hf : i = job → Touch w job channel m (f channel)) :
    ∃ channel', w'.jobs[job]? = some ⟨request, channel'⟩ ∧ Touch w job channel m channel' := by
  rw [hjobs, jobs_onChannel, hentry]
  by_cases hi : i = job
  · rw [if_pos hi]
    exact ⟨f channel, rfl, hf hi⟩
  · rw [if_neg hi]
    exact ⟨channel, rfl, .leave m⟩

theorem Step.touch (hstep : Step course w m w') (hentry : w.jobs[job]? = some ⟨request, channel⟩) :
    ∃ channel', w'.jobs[job]? = some ⟨request, channel'⟩ ∧ Touch w job channel m channel' := by
  cases hstep with
  | stay => exact ⟨channel, hentry, .leave _⟩
  | claim => exact ⟨channel, hentry, .leave _⟩
  | accept =>
      refine ⟨channel, ?_, .leave _⟩
      rw [List.getElem?_append_left (List.getElem?_eq_some_iff.mp hentry).1]
      exact hentry
  | refuse => exact ⟨channel, hentry, .leave _⟩
  | withdraw => exact ⟨channel, hentry, .leave _⟩
  | close => exact ⟨channel, hentry, .leave _⟩
  | receive hnext =>
      refine touch_of_onChannel hentry rfl ?_
      rintro rfl
      rw [channel?, hentry] at hnext
      exact .receive hnext
  | forget i =>
      refine touch_of_onChannel hentry rfl ?_
      rintro rfl
      exact .forget
  | take => exact ⟨channel, hentry, .leave _⟩
  | tell hthread =>
      refine touch_of_onChannel (f := (Channel.send · _)) hentry rfl ?_
      rintro rfl
      exact .send _ (by rw [hthread]; rfl)
  | clear => exact ⟨channel, hentry, .leave _⟩
  | finish hthread =>
      refine touch_of_onChannel (f := (Channel.send · _)) hentry rfl ?_
      rintro rfl
      exact .send _ (by rw [hthread]; rfl)
  | disconnect hthread =>
      refine touch_of_onChannel hentry rfl ?_
      rintro rfl
      exact .close (by rw [hthread]; rfl)
  | stop => exact ⟨channel, hentry, .leave _⟩

theorem exists_channel_run (hentry : w.jobs[job]? = some ⟨request, channel⟩)
    (moves : List (Move ρ)) :
    ∃ channel', (w.run course moves).jobs[job]? = some ⟨request, channel'⟩ := by
  induction moves generalizing w channel with
  | nil => exact ⟨channel, hentry⟩
  | cons m moves ih =>
      obtain ⟨_, hentry', -⟩ := (step_move w m).touch hentry
      exact ih hentry'

/-! ### The way to the end of a job -/

/-- How many steps of the thread a job is away from its end, at most. -/
def delay (course : ρ → Course π α) (w : Worker ρ π α) (job : Nat) : Nat :=
  if w.thread.job? = some job then w.thread.rank
  else if job ∈ w.queue.map Prod.fst then w.rank course
  else 0

theorem delay_of_current (h : w.thread.job? = some job) : w.delay course job = w.thread.rank :=
  if_pos h

theorem delay_of_not_pending (h : job ∉ w.pending) : w.delay course job = 0 := by
  rw [mem_pending, not_or] at h
  rw [delay, if_neg h.1, if_neg h.2]

theorem delay_le_rank : w.delay course job ≤ w.rank course := by
  rw [delay]
  split
  · exact Nat.le_add_left ..
  · split
    · exact Nat.le_refl _
    · exact Nat.zero_le _

theorem delay_pos (h : job ∈ w.pending) : 0 < w.delay course job := by
  by_cases hcurrent : w.thread.job? = some job
  · rw [delay_of_current hcurrent]
    exact Thread.rank_pos hcurrent
  · have hqueued := (mem_pending.mp h).resolve_left hcurrent
    rw [delay, if_neg hcurrent, if_pos hqueued, rank]
    cases hqueue : w.queue with
    | nil =>
        rw [hqueue] at hqueued
        cases hqueued
    | cons =>
        rw [total]
        omega

theorem exists_advance (hw : w.Guarded) (h : job ∈ w.pending) :
    ∃ w', w.advance course = some w' := by
  cases hthread : w.thread with
  | waiting =>
      have hidle : w.thread.job? ≠ some job := by rw [hthread]; exact nofun
      have hqueued := (mem_pending.mp h).resolve_left hidle
      cases hqueue : w.queue with
      | nil =>
          rw [hqueue] at hqueued
          cases hqueued
      | cons => exact ⟨_, by rw [advance, hthread, hqueue]⟩
  | working _ rest =>
      cases rest with
      | nil => exact ⟨_, by rw [advance, hthread]⟩
      | cons => exact ⟨_, by rw [advance, hthread]⟩
  | ending => exact ⟨_, by rw [advance, hthread]⟩
  | closing => exact ⟨_, by rw [advance, hthread]⟩
  | stopped =>
      rw [pending, hw.queue_eq (by rw [hthread]; rfl), hthread] at h
      cases h

theorem mem_pending_of_advance (hstep : Step course w .advance w') (h : job ∈ w'.pending) :
    job ∈ w.pending := by
  rw [mem_pending] at h ⊢
  cases hstep with
  | stay => exact h
  | take hthread hqueue =>
      rw [hqueue, List.map_cons, List.mem_cons]
      rcases h with h | h
      · exact .inr (.inl (Option.some.inj h).symm)
      · exact .inr (.inr h)
  | tell hthread => rw [hthread]; exact h
  | clear hthread => rw [hthread]; exact h
  | finish hthread => rw [hthread]; exact h
  | disconnect => exact .inr (h.resolve_left nofun)
  | stop => exact .inr (h.resolve_left nofun)

theorem delay_advance_of_current (hw : w.Sound course) (h : w.advance course = some w')
    (hjob : w.thread.job? = some job) : w'.delay course job < w.delay course job := by
  rw [delay_of_current hjob]
  have hqueued := hw.not_queued hjob
  cases step_of_advance h with
  | stay => exact absurd (rank_advance h) (Nat.lt_irrefl _)
  | take hthread =>
      rw [hthread] at hjob
      cases hjob
  | tell hthread =>
      rw [hthread] at hjob ⊢
      rw [delay_of_current hjob]
      exact Nat.lt_succ_self _
  | clear hthread =>
      rw [hthread] at hjob ⊢
      rw [delay_of_current hjob]
      exact Nat.lt_succ_self _
  | finish hthread =>
      rw [hthread] at hjob ⊢
      rw [delay_of_current hjob]
      exact Nat.lt_succ_self _
  | disconnect hthread =>
      rw [hthread, delay_of_not_pending]
      · exact Nat.succ_pos _
      · exact hqueued
  | stop hthread =>
      rw [hthread] at hjob
      cases hjob

theorem delay_advance (hw : w.Sound course) (h : w.advance course = some w') (job : Nat) :
    w'.delay course job ≤ w.delay course job - 1 := by
  by_cases hjob : w.thread.job? = some job
  · exact Nat.le_sub_one_of_lt (delay_advance_of_current hw h hjob)
  · by_cases hqueued : job ∈ w.queue.map Prod.fst
    · rw [show w.delay course job = w.rank course by rw [delay, if_neg hjob, if_pos hqueued]]
      exact Nat.le_sub_one_of_lt (Nat.lt_of_le_of_lt delay_le_rank (rank_advance h))
    · have hover : job ∉ w.pending := by
        rw [mem_pending, not_or]
        exact ⟨hjob, hqueued⟩
      rw [delay_of_not_pending fun hmem => hover (mem_pending_of_advance (step_of_advance h) hmem)]
      exact Nat.zero_le _

/-- Nothing that callers do puts off the end of a job. -/
theorem delay_of_caller (hw : w.Reachable course) (hjob : job < w.jobs.length)
    (hstep : Step course w m w') (hm : m.isAdvance = false) :
    w'.delay course job = w.delay course job := by
  cases hstep with
  | stay => rfl
  | claim => rfl
  | accept hclaim =>
      -- The caller that sends its job found the queue empty.
      have hqueue := hw.guarded.queue_eq_nil_of_claim hclaim
      rw [delay, delay]
      simp only [hqueue, List.nil_append, List.map_cons, List.map_nil, List.mem_singleton,
        Nat.ne_of_lt hjob, List.not_mem_nil, if_false]
  | refuse => rfl
  | withdraw => rfl
  | close => rfl
  | receive => rfl
  | forget => rfl
  | _ => cases hm

theorem delay_move (hw : w.Reachable course) (hjob : job < w.jobs.length) (m : Move ρ) :
    (w.move course m).delay course job ≤
      w.delay course job - if m.isAdvance then 1 else 0 := by
  cases hm : m.isAdvance with
  | false => exact Nat.le_of_eq (delay_of_caller hw hjob (step_move w m) hm)
  | true =>
      cases m with
      | advance =>
          cases h : w.advance course with
          | some w' =>
              rw [move, h]
              exact delay_advance hw.sound h job
          | none =>
              have hover : job ∉ w.pending := by
                intro hmem
                have hadvance : ∃ w', w.advance course = some w' := exists_advance hw.guarded hmem
                rw [h] at hadvance
                obtain ⟨w', hnone⟩ := hadvance
                cases hnone
              rw [move, h, Option.getD_none, delay_of_not_pending hover]
              exact Nat.zero_le _
      | _ => cases hm

/-- After that many steps of the thread, whatever callers do meanwhile, the job is over. -/
theorem delay_run (hw : w.Reachable course) (hentry : w.jobs[job]? = some ⟨request, channel⟩)
    (moves : List (Move ρ)) :
    (w.run course moves).delay course job ≤ w.delay course job - moves.countP Move.isAdvance := by
  induction moves generalizing w channel with
  | nil => exact Nat.le_refl _
  | cons m moves ih =>
      have hfirst := delay_move hw (List.getElem?_eq_some_iff.mp hentry).1 m
      obtain ⟨_, hentry', -⟩ := (step_move w m).touch hentry
      have hrest := ih (hw.move m) hentry'
      rw [List.countP_cons, Nat.add_comm, ← Nat.sub_sub]
      exact Nat.le_trans hrest (Nat.sub_le_sub_right hfirst _)

/-- A job is over once the thread has made as many steps as it can without another job. -/
theorem not_pending_run (hw : w.Reachable course) (hentry : w.jobs[job]? = some ⟨request, channel⟩)
    {moves : List (Move ρ)} (hadvances : w.rank course ≤ moves.countP Move.isAdvance) :
    job ∉ (w.run course moves).pending := by
  have hdelay : (w.run course moves).delay course job = 0 := by
    have hrank : w.delay course job ≤ w.rank course := delay_le_rank
    have hleft := delay_run hw hentry moves
    omega
  intro hpending
  exact Nat.ne_of_gt (delay_pos hpending) hdelay

end Worker

end OrbitImage
