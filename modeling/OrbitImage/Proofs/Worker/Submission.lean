import OrbitImage.Proofs.Worker.Delivery
/-!
What callers find when they submit. A caller that has set the flag can send its job; a caller is
told that the worker is busy only while another has the slot; and the caller of the last job, once
it has received the end of it, finds the worker free.
-/
namespace OrbitImage

namespace Worker

variable {ρ π α : Type} {course : ρ → Course π α} {w w' : Worker ρ π α} {caller job : Nat}
  {request : ρ} {channel : Channel π α}

/-! ### The last job -/

theorem Sound.last_pending (h : w.Sound course) (hjob : w.pending.getLast? = some job) :
    job + 1 = w.jobs.length := by
  obtain ⟨ended, hended, heq⟩ := h.pending_eq
  rw [heq, List.getLast?_range'] at hjob
  split at hjob
  · cases hjob
  · cases hjob
    omega

theorem Sound.queue_eq_nil_of_last (h : w.Sound course) (hlast : job + 1 = w.jobs.length)
    (hqueued : job ∉ w.queue.map Prod.fst) : w.queue = [] := by
  rcases List.eq_nil_or_concat w.queue with hqueue | ⟨queue, ⟨i, request⟩, hqueue⟩
  · exact hqueue
  · have hi : w.pending.getLast? = some i := by
      rw [pending, hqueue, List.concat_eq_append, List.map_append, ← List.append_assoc]
      exact List.getLast?_concat
    have hsame : i = job := Nat.succ.inj ((h.last_pending hi).trans hlast.symm)
    apply absurd _ hqueued
    rw [hqueue, hsame, List.concat_eq_append, List.map_append]
    exact List.mem_append_right _ List.mem_cons_self

/-- Once the end of the last job is sent, nothing is queued and nothing is generated. -/
theorem Sound.free_of_sent (h : w.Sound course) (hlast : job + 1 = w.jobs.length)
    (hentry : w.jobs[job]? = some ⟨request, channel⟩) {outcome : Except Fault α}
    (hsent : .finished outcome ∈ channel.sent.toList) :
    w.queue = [] ∧ w.thread.isGenerating = false := by
  have hnothing := h.toSend_eq_nil hentry hsent
  have hqueued : job ∉ w.queue.map Prod.fst := by
    intro hmem
    have hother : w.thread.job? ≠ some job := fun hjob => h.not_queued hjob hmem
    rw [toSend_of_queued hother hmem] at hnothing
    exact List.append_ne_nil_of_right_ne_nil _ (List.cons_ne_nil _ _) hnothing
  have hqueue := h.queue_eq_nil_of_last hlast hqueued
  refine ⟨hqueue, ?_⟩
  cases hthread : w.thread with
  | working i rest outcome =>
      have hi : w.pending.getLast? = some i := by
        rw [pending, hqueue, hthread]
        rfl
      have hsame : i = job := Nat.succ.inj ((h.last_pending hi).trans hlast.symm)
      rw [toSend_of_current (by rw [hthread, hsame]; rfl), hthread] at hnothing
      exact absurd hnothing (List.append_ne_nil_of_right_ne_nil _ (List.cons_ne_nil _ _))
  | _ => rfl

/-! ### Submitting -/

theorem claim_of_idle (hclosed : w.closed = false) (hthread : w.thread.isStopped = false)
    (hbusy : w.busy = false) (request : ρ) :
    w.claim request = .ok { w with busy := true, claims := w.claims ++ [request] } := by
  rw [claim, hclosed, hthread, hbusy]
  rfl

theorem busy_of_claim (h : w.claim request = .error .busy) : w.busy = true := by
  rw [claim] at h
  split at h
  · cases h
  · split at h
    next hbusy => exact hbusy
    next => cases h

/-- Whoever has set the flag of a running thread can send its job. -/
theorem Guarded.send_eq (h : w.Guarded) (hthread : w.thread.isStopped = false)
    (hclaim : w.claims[caller]? = some request) :
    w.send caller = some (.accepted w.jobs.length,
      { w with
        claims := w.claims.eraseIdx caller
        queue := [(w.jobs.length, request)]
        jobs := w.jobs ++ [⟨request, {}⟩] }) := by
  have hqueue := h.queue_eq_nil_of_claim hclaim
  rw [send, hclaim]
  simp only [hthread, hqueue, capacity]
  rfl

theorem Guarded.busy_iff (h : w.Guarded) (hthread : w.thread.isStopped = false) :
    w.busy = true ↔ w.claims ≠ [] ∨ w.queue ≠ [] ∨ w.thread.isGenerating = true := by
  have hslot := h.occupancy_eq hthread
  rw [occupancy] at hslot
  rw [← List.length_pos_iff, ← List.length_pos_iff, ← Bool.toNat_eq_one, ← Bool.toNat_eq_one]
  have hbusy := Bool.toNat_le w.busy
  have hgenerating := Bool.toNat_le w.thread.isGenerating
  omega

theorem submit_of_accepted {claimed w' : Worker ρ π α} (hclaim : w.claim request = .ok claimed)
    (hsend : claimed.send w.claims.length = some (.accepted job, w')) :
    w.submit request = .ok (job, w') := by
  simp only [submit, hclaim, hsend, bind, Except.bind, pure, Except.pure]

theorem exists_claim_of_submit (h : w.submit request = .ok (job, w')) :
    ∃ claimed, w.claim request = .ok claimed ∧
      claimed.send w.claims.length = some (.accepted job, w') := by
  cases hclaim : w.claim request with
  | error fault =>
      rw [submit, hclaim] at h
      cases h
  | ok claimed =>
      refine ⟨claimed, rfl, ?_⟩
      cases hsend : claimed.send w.claims.length with
      | none =>
          simp only [submit, hclaim, hsend, bind, Except.bind] at h
          cases h
      | some sent =>
          obtain ⟨result, sent⟩ := sent
          cases result with
          | accepted i =>
              rw [submit_of_accepted hclaim hsend] at h
              cases h
              rfl
          | full | gone =>
              simp only [submit, hclaim, hsend, bind, Except.bind] at h
              cases h

theorem Guarded.submit_of_idle (h : w.Guarded) (hclosed : w.closed = false)
    (hthread : w.thread.isStopped = false) (hbusy : w.busy = false) (request : ρ) :
    w.submit request = .ok (w.jobs.length,
      { w with
        busy := true
        queue := [(w.jobs.length, request)]
        jobs := w.jobs ++ [⟨request, {}⟩] }) := by
  have hcaller : (w.claims ++ [request])[w.claims.length]? = some request :=
    List.getElem?_concat_length
  have hsend := (h.claim hthread hbusy request).send_eq hthread hcaller
  rw [submit_of_accepted (claim_of_idle hclosed hthread hbusy request) hsend]
  simp only [List.eraseIdx_append_of_length_le (Nat.le_refl _), Nat.sub_self, List.eraseIdx_zero,
    List.tail_cons, List.append_nil]

/-- Who has received the end of the last job finds the worker free, unless somebody else has set
the flag since. -/
theorem Reachable.busy_of_heard (h : w.Reachable course) (hthread : w.thread.isStopped = false)
    (hentry : w.jobs[job]? = some ⟨request, channel⟩) (hlast : job + 1 = w.jobs.length)
    (hclaims : w.claims = []) {outcome : Except Fault α}
    (hheard : .finished outcome ∈ channel.heard) : w.busy = false := by
  obtain ⟨hqueue, hgenerating⟩ := h.sound.free_of_sent hlast hentry (List.mem_of_mem_take hheard)
  rw [← Bool.not_eq_true, h.guarded.busy_iff hthread, hclaims, hqueue, hgenerating]
  simp

/-- How a running worker stands to its callers. -/
structure OneSlot (w : Worker ρ π α) : Prop where
  queue_length_le : w.queue.length ≤ 1
  busy_iff : w.busy = true ↔ w.claims ≠ [] ∨ w.queue ≠ [] ∨ w.thread.isGenerating = true
  occupancy_le : w.occupancy ≤ 1
  accepted : ∀ caller < w.claims.length, ∃ w', w.send caller = some (.accepted w.jobs.length, w')
  refused : ∀ request, w.claim request = .error .busy → w.claims ≠ [] ∨ ∃ job < w.jobs.length,
    job ∈ w.queue.map Prod.fst ∨ w.thread.isGenerating = true ∧ w.thread.job? = some job
  idle_of_heard : ∀ job request channel outcome, w.jobs[job]? = some ⟨request, channel⟩ →
    job + 1 = w.jobs.length → w.claims = [] → .finished outcome ∈ channel.heard →
    w.busy = false ∧ (w.closed = false → ∀ request,
      ∃ w', w.submit request = .ok (w.jobs.length, w'))

theorem run_one_slot (course : ρ → Course π α) (name : String) (moves : List (Move ρ))
    (hthread : (run course { name } moves).thread.isStopped = false) :
    (run course { name } moves).OneSlot := by
  have hw : Reachable course (run course { name } moves) := ⟨name, moves, rfl⟩
  generalize run course { name } moves = w at hthread hw
  have hguarded := hw.guarded
  refine ⟨hguarded.queue_length_le, hguarded.busy_iff hthread, hguarded.occupancy_le hthread,
    ?_, ?_, ?_⟩
  · intro caller hcaller
    exact ⟨_, hguarded.send_eq hthread (List.getElem?_eq_getElem hcaller)⟩
  · intro request hrefused
    rcases (hguarded.busy_iff hthread).mp (busy_of_claim hrefused) with hclaims | hqueue | hgenerating
    · exact .inl hclaims
    · obtain ⟨entry, hmem⟩ := List.exists_mem_of_ne_nil _ hqueue
      have hjob := List.mem_map_of_mem (f := Prod.fst) hmem
      exact .inr ⟨entry.1, hw.sound.pending_lt (mem_pending.mpr (.inr hjob)), .inl hjob⟩
    · obtain ⟨job, hjob⟩ : ∃ job, w.thread.job? = some job := by
        cases ht : w.thread with
        | working job => exact ⟨job, rfl⟩
        | _ => rw [ht] at hgenerating; cases hgenerating
      exact .inr ⟨job, hw.sound.pending_lt (mem_pending.mpr (.inl hjob)), .inr ⟨hgenerating, hjob⟩⟩
  · intro job request channel outcome hentry hlast hclaims hheard
    have hbusy := hw.busy_of_heard hthread hentry hlast hclaims hheard
    refine ⟨hbusy, ?_⟩
    intro hclosed request'
    exact ⟨_, hguarded.submit_of_idle hclosed hthread hbusy request'⟩

theorem run_one_slot_after_end :
    let course : Nat → Course Nat Nat := fun value => ⟨#[value], .ok value⟩
    let w := run course { name := "left" }
      [.claim 7, .send 0, .advance, .advance, .advance, .advance, .receive 0, .receive 0]
    w.busy = false ∧ ∃ w', w.submit 8 = .ok (1, w') := by
  intro course w
  have hslot : w.OneSlot := run_one_slot course "left" _ rfl
  have hheard : Event.finished (.ok 7) ∈ [Event.progress 7, Event.finished (.ok 7)] :=
    .tail _ (.head _)
  obtain ⟨hbusy, hsubmit⟩ := hslot.idle_of_heard 0 7 _ (.ok 7) rfl rfl rfl hheard
  exact ⟨hbusy, hsubmit rfl 8⟩

/-- A caller that submits again as soon as the flag is cleared then receives the end of its first
job while its second job takes the slot. -/
theorem busy_after_earlier_end :
    let course : Nat → Course Nat Nat := fun value => ⟨#[], .ok value⟩
    let w := run course { name := "left" }
      [.claim 7, .send 0, .advance, .advance, .claim 8, .send 0, .advance, .receive 0]
    (w.jobs[0]?).map (fun entry => entry.channel.heard) = some [.finished (.ok 7)] ∧
      w.claims = [] ∧ w.thread.isStopped = false ∧ w.busy = true ∧ w.claim 9 = .error .busy :=
  ⟨rfl, rfl, rfl, rfl, rfl⟩

end Worker

end OrbitImage
