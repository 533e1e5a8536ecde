import OrbitImage.Proofs.Worker.Slot
/-!
What jobs send. Jobs come to their ends in the order in which they were accepted; the thread sends
the events of one job after the other, each on the channel of its own job, and what a channel has
carried and what is still to be sent make up all events of the job, whatever callers do meanwhile.
-/
namespace OrbitImage

/-! ### Events -/

/-- All that a job sends: its notices, then its end. -/
def Course.events {π α : Type} (c : Course π α) : List (Event π α) :=
  c.notices.toList.map .progress ++ [.finished c.outcome]

theorem getElem?_concat {β : Type} {l : List β} {b c : β} {i : Nat} (h : (l ++ [b])[i]? = some c) :
    i < l.length ∧ l[i]? = some c ∨ i = l.length ∧ c = b := by
  rcases Nat.lt_trichotomy i l.length with hlt | rfl | hgt
  · rw [List.getElem?_append_left hlt] at h
    exact .inl ⟨hlt, h⟩
  · rw [List.getElem?_concat_length] at h
    exact .inr ⟨rfl, (Option.some.inj h).symm⟩
  · rw [List.getElem?_eq_none (by rw [List.length_append]; exact hgt)] at h
    cases h

theorem Course.length_events {π α : Type} (c : Course π α) :
    c.events.length = c.notices.size + 1 := by
  rw [events, List.length_append, List.length_map, Array.length_toList, List.length_singleton]

theorem Course.notice_of_progress {π α : Type} {c : Course π α} {i : Nat} {value : π}
    (h : c.events[i]? = some (.progress value)) :
    i < c.notices.size ∧ c.notices.toList[i]? = some value := by
  rcases getElem?_concat h with ⟨hlt, hi⟩ | ⟨-, heq⟩
  · rw [List.length_map, Array.length_toList] at hlt
    rw [List.getElem?_map, Option.map_eq_some_iff] at hi
    obtain ⟨value', hi, heq⟩ := hi
    cases heq
    exact ⟨hlt, hi⟩
  · cases heq

theorem Course.outcome_of_finished {π α : Type} {c : Course π α} {i : Nat} {outcome : Except Fault α}
    (h : c.events[i]? = some (.finished outcome)) : i = c.notices.size ∧ outcome = c.outcome := by
  rcases getElem?_concat h with ⟨-, hi⟩ | ⟨hi, heq⟩
  · rw [List.getElem?_map, Option.map_eq_some_iff] at hi
    obtain ⟨value, -, heq⟩ := hi
    cases heq
  · rw [List.length_map, Array.length_toList] at hi
    cases heq
    exact ⟨hi, rfl⟩

/-- Nothing of a job comes after its end. -/
theorem Course.eq_nil_of_finished {π α : Type} {c : Course π α} {sent rest : List (Event π α)}
    {outcome : Except Fault α} (h : sent ++ rest = c.events) (hmem : .finished outcome ∈ sent) :
    rest = [] := by
  obtain ⟨i, hi⟩ := List.getElem?_of_mem hmem
  have hlt := (List.getElem?_eq_some_iff.mp hi).1
  have hend := outcome_of_finished (h ▸ (List.getElem?_append_left hlt).trans hi)
  have hlength := congrArg List.length h
  rw [List.length_append, length_events] at hlength
  exact List.eq_nil_of_length_eq_zero (by omega)

namespace Channel

variable {π α : Type}

/-- What was received so far. -/
def heard (c : Channel π α) : List (Event π α) :=
  c.sent.toList.take c.received

/-- Some events were sent; all of them were, unless the receiver is gone. -/
structure Carries (c : Channel π α) (events : List (Event π α)) : Prop where
  received_le : c.received ≤ c.sent.size
  sent_prefix : c.sent.toList <+: events
  sent_eq : c.hasReceiver = true → c.sent.toList = events

theorem carries_new : ({} : Channel π α).Carries [] :=
  ⟨Nat.le_refl 0, List.prefix_refl [], fun _ => rfl⟩

theorem Carries.send {c : Channel π α} {events : List (Event π α)} (h : c.Carries events)
    (event : Event π α) : (c.send event).Carries (events ++ [event]) := by
  cases hreceiver : c.hasReceiver with
  | true =>
      have hsent : (c.sent.push event).toList = events ++ [event] := by
        rw [Array.toList_push, h.sent_eq hreceiver]
      rw [Channel.send, if_pos hreceiver]
      refine ⟨?_, ⟨[], ?_⟩, fun _ => hsent⟩
      · rw [Array.size_push]
        exact Nat.le_succ_of_le h.received_le
      · rw [List.append_nil, hsent]
  | false =>
      rw [Channel.send, if_neg (by rw [hreceiver]; decide)]
      refine ⟨h.received_le, h.sent_prefix.trans (List.prefix_append _ _), ?_⟩
      intro hreceiver'
      rw [hreceiver] at hreceiver'
      cases hreceiver'

theorem Carries.close {c : Channel π α} {events : List (Event π α)} (h : c.Carries events) :
    c.close.Carries events :=
  ⟨h.received_le, h.sent_prefix, h.sent_eq⟩

theorem Carries.forget {c : Channel π α} {events : List (Event π α)} (h : c.Carries events) :
    c.forget.Carries events :=
  ⟨h.received_le, h.sent_prefix, fun hreceiver => by cases hreceiver⟩

theorem received_lt {c : Channel π α} {event : Event π α} (h : c.next? = some event) :
    c.received < c.sent.size :=
  (Array.getElem?_eq_some_iff.mp h).1

theorem Carries.pass {c : Channel π α} {events : List (Event π α)} (h : c.Carries events)
    {event : Event π α} (hnext : c.next? = some event) : c.pass.Carries events :=
  ⟨received_lt hnext, h.sent_prefix, h.sent_eq⟩

theorem hasSender_send (c : Channel π α) (event : Event π α) :
    (c.send event).hasSender = c.hasSender := by
  rw [send]
  split <;> rfl

theorem hasReceiver_send (c : Channel π α) (event : Event π α) :
    (c.send event).hasReceiver = c.hasReceiver := by
  rw [send]
  split <;> rfl

theorem received_send (c : Channel π α) (event : Event π α) :
    (c.send event).received = c.received := by
  rw [send]
  split <;> rfl

end Channel

namespace Thread

variable {π α : Type}

/-- The job the thread is at, until the channel of the job is closed. -/
def job? : Thread π α → Option Nat
  | .working job _ _ | .ending job _ | .closing job => some job
  | .waiting | .stopped => none

def rest : Thread π α → List (Event π α)
  | .working _ rest outcome => rest.map .progress ++ [.finished outcome]
  | .ending _ outcome => [.finished outcome]
  | .waiting | .closing _ | .stopped => []

end Thread

/-! ### Jobs that are not over -/

namespace Worker

variable {ρ π α : Type}

/-- The jobs that are not over, in the order of their ends. -/
def pending (w : Worker ρ π α) : List Nat :=
  w.thread.job?.toList ++ w.queue.map Prod.fst

/-- What a job has still to send, of all its events. -/
def toSend (w : Worker ρ π α) (events : List (Event π α)) (job : Nat) : List (Event π α) :=
  if w.thread.job? = some job then w.thread.rest
  else if job ∈ w.queue.map Prod.fst then events
  else []

theorem mem_pending {w : Worker ρ π α} {job : Nat} :
    job ∈ w.pending ↔ w.thread.job? = some job ∨ job ∈ w.queue.map Prod.fst := by
  rw [pending, List.mem_append, Option.mem_toList]

theorem toSend_of_current {w : Worker ρ π α} {job : Nat} (h : w.thread.job? = some job)
    (events : List (Event π α)) : w.toSend events job = w.thread.rest :=
  if_pos h

theorem toSend_of_queued {w : Worker ρ π α} {job : Nat} (hcurrent : w.thread.job? ≠ some job)
    (h : job ∈ w.queue.map Prod.fst) (events : List (Event π α)) : w.toSend events job = events := by
  rw [toSend, if_neg hcurrent, if_pos h]

/-- What the thread does to its own job leaves other jobs alone. -/
theorem append_toSend_of_other {w w' : Worker ρ π α} {job : Nat} {events all : List (Event π α)}
    (hcurrent : w.thread.job? ≠ some job) (hcurrent' : w'.thread.job? ≠ some job)
    (hqueue : job ∈ w'.queue.map Prod.fst ↔ job ∈ w.queue.map Prod.fst)
    (h : events ++ w.toSend all job = all) : events ++ w'.toSend all job = all := by
  rw [toSend, if_neg hcurrent] at h
  rw [toSend, if_neg hcurrent']
  simp only [hqueue]
  exact h

theorem toSend_of_not_pending {w : Worker ρ π α} {job : Nat} (h : job ∉ w.pending)
    (events : List (Event π α)) : w.toSend events job = [] := by
  rw [mem_pending, not_or] at h
  rw [toSend, if_neg h.1, if_neg h.2]

/-- The jobs that are not over are the last ones; a job in the queue keeps its request; the channel
of a job carries what the job does not still have to send, and is open as long as it is not over. -/
structure Sound (course : ρ → Course π α) (w : Worker ρ π α) : Prop where
  pending_eq : ∃ ended ≤ w.jobs.length, w.pending = List.range' ended (w.jobs.length - ended)
  queued : ∀ job request, (job, request) ∈ w.queue → (w.jobs[job]?).map Job.request = some request
  carries : ∀ job entry, w.jobs[job]? = some entry → ∃ events,
    events ++ w.toSend (course entry.request).events job = (course entry.request).events ∧
    entry.channel.Carries events
  hasSender : ∀ job entry, w.jobs[job]? = some entry →
    (entry.channel.hasSender = true ↔ job ∈ w.pending)

theorem sound_new (course : ρ → Course π α) (name : String) :
    ({ name } : Worker ρ π α).Sound course where
  pending_eq := ⟨0, Nat.le_refl 0, rfl⟩
  queued := by
    intro job request h
    cases h
  carries := by
    intro job entry h
    cases h
  hasSender := by
    intro job entry h
    cases h

namespace Sound

variable {course : ρ → Course π α} {w : Worker ρ π α}

theorem pending_nodup (h : w.Sound course) : w.pending.Nodup := by
  obtain ⟨ended, -, heq⟩ := h.pending_eq
  rw [heq]
  exact List.nodup_range'

theorem pending_lt (h : w.Sound course) {job : Nat} (hjob : job ∈ w.pending) :
    job < w.jobs.length := by
  obtain ⟨ended, hended, heq⟩ := h.pending_eq
  rw [heq, List.mem_range'_1] at hjob
  omega

theorem not_queued (h : w.Sound course) {job : Nat} (hjob : w.thread.job? = some job) :
    job ∉ w.queue.map Prod.fst := by
  have hnodup := h.pending_nodup
  rw [pending, hjob] at hnodup
  exact (List.nodup_cons.mp hnodup).1

theorem of_eq (h : w.Sound course) {w' : Worker ρ π α} (hjob : w'.thread.job? = w.thread.job?)
    (hrest : w'.thread.rest = w.thread.rest) (hqueue : w'.queue = w.queue)
    (hjobs : w'.jobs = w.jobs) : w'.Sound course := by
  have hpending : w'.pending = w.pending := by rw [pending, pending, hjob, hqueue]
  refine ⟨?_, ?_, ?_, ?_⟩
  · rw [hpending, hjobs]
    exact h.pending_eq
  · rw [hqueue, hjobs]
    exact h.queued
  · intro job entry hentry
    rw [hjobs] at hentry
    rw [toSend, hjob, hrest, hqueue]
    exact h.carries job entry hentry
  · intro job entry hentry
    rw [hjobs] at hentry
    rw [hpending]
    exact h.hasSender job entry hentry

/-- A caller does something to the channel of a job that keeps what the channel carries. -/
theorem onChannel (h : w.Sound course) (job : Nat) {f : Channel π α → Channel π α}
    (hcarries : ∀ entry events, w.jobs[job]? = some entry → entry.channel.Carries events →
      (f entry.channel).Carries events)
    (hsender : ∀ c : Channel π α, (f c).hasSender = c.hasSender) :
    (w.onChannel job f).Sound course := by
  refine ⟨?_, ?_, ?_, ?_⟩
  · rw [length_jobs_onChannel]
    exact h.pending_eq
  · intro i request hi
    rw [request_onChannel]
    exact h.queued i request hi
  · intro i entry' hentry'
    obtain ⟨entry, hentry, hrequest, hchannel⟩ := exists_of_jobs_onChannel hentry'
    obtain ⟨events, heq, hc⟩ := h.carries i entry hentry
    rw [hrequest]
    refine ⟨events, heq, ?_⟩
    rw [hchannel]
    split
    next hi => exact hcarries entry events (hi ▸ hentry) hc
    next => exact hc
  · intro i entry' hentry'
    obtain ⟨entry, hentry, -, hchannel⟩ := exists_of_jobs_onChannel hentry'
    have hsame : entry'.channel.hasSender = entry.channel.hasSender := by
      rw [hchannel]
      split
      · exact hsender _
      · rfl
    rw [hsame]
    exact h.hasSender i entry hentry

/-- The thread sends the first of the events that its job has left. -/
theorem post (h : w.Sound course) {thread : Thread π α} {job : Nat} {event : Event π α}
    (hjob : w.thread.job? = some job) (hjob' : thread.job? = some job)
    (hrest : w.thread.rest = event :: thread.rest) :
    ({ w.post job event with thread } : Worker ρ π α).Sound course := by
  have hpending : ({ w.post job event with thread } : Worker ρ π α).pending = w.pending := by
    simp only [pending, Worker.post, queue_onChannel, hjob, hjob']
  refine ⟨?_, ?_, ?_, ?_⟩
  · rw [hpending]
    simp only [Worker.post, length_jobs_onChannel]
    exact h.pending_eq
  · intro i request hi
    simp only [Worker.post, request_onChannel]
    exact h.queued i request hi
  · intro i entry' hentry'
    change (w.onChannel job (·.send event)).jobs[i]? = some entry' at hentry'
    obtain ⟨entry, hentry, hrequest, hchannel⟩ := exists_of_jobs_onChannel hentry'
    obtain ⟨events, heq, hc⟩ := h.carries i entry hentry
    rw [hrequest, hchannel]
    by_cases hi : job = i
    · subst hi
      rw [toSend_of_current hjob, hrest] at heq
      refine ⟨events ++ [event], ?_, ?_⟩
      · rw [toSend_of_current hjob', List.append_assoc]
        exact heq
      · rw [if_pos rfl]
        exact hc.send event
    · have hother : some job ≠ some i := fun heq => hi (Option.some.inj heq)
      refine ⟨events, append_toSend_of_other (w := w) ?_ ?_ Iff.rfl heq, ?_⟩
      · rw [hjob]
        exact hother
      · rw [hjob']
        exact hother
      · rw [if_neg hi]
        exact hc
  · intro i entry' hentry'
    change (w.onChannel job (·.send event)).jobs[i]? = some entry' at hentry'
    obtain ⟨entry, hentry, -, hchannel⟩ := exists_of_jobs_onChannel hentry'
    have hsame : entry'.channel.hasSender = entry.channel.hasSender := by
      rw [hchannel]
      split
      · exact Channel.hasSender_send _ _
      · rfl
    rw [hpending, hsame]
    exact h.hasSender i entry hentry

theorem accept (h : w.Sound course) (request : ρ) (claims : List ρ) :
    ({ w with
      claims
      queue := w.queue ++ [(w.jobs.length, request)]
      jobs := w.jobs ++ [⟨request, {}⟩] } : Worker ρ π α).Sound course := by
  have hnew : w.jobs.length ∉ w.pending := fun hmem => Nat.lt_irrefl _ (h.pending_lt hmem)
  have hthread : w.thread.job? ≠ some w.jobs.length := fun hjob => hnew (mem_pending.mpr (.inl hjob))
  refine ⟨?_, ?_, ?_, ?_⟩
  · obtain ⟨ended, hended, heq⟩ := h.pending_eq
    refine ⟨ended, ?_, ?_⟩
    · rw [List.length_append]
      exact Nat.le_add_right_of_le hended
    · rw [List.length_append, List.length_singleton, Nat.sub_add_comm hended, List.range'_1_concat,
        ← heq, Nat.add_sub_of_le hended, pending, pending, List.map_append, List.append_assoc]
      rfl
  · intro i request' hi
    rcases List.mem_append.mp hi with hi | hi
    · have hlt : i < w.jobs.length := h.pending_lt (mem_pending.mpr (.inr (List.mem_map_of_mem hi)))
      rw [List.getElem?_append_left hlt]
      exact h.queued i request' hi
    · obtain ⟨rfl, rfl⟩ := Prod.mk.inj (List.mem_singleton.mp hi)
      rw [List.getElem?_concat_length]
      rfl
  · intro i entry hentry
    rcases getElem?_concat hentry with ⟨hlt, hentry⟩ | ⟨rfl, rfl⟩
    · obtain ⟨events, heq, hc⟩ := h.carries i entry hentry
      refine ⟨events, ?_, hc⟩
      rw [toSend, List.map_append, List.map_singleton]
      simp only [List.mem_append, List.mem_singleton, Nat.ne_of_lt hlt, or_false]
      exact heq
    · refine ⟨[], ?_, Channel.carries_new⟩
      rw [toSend, if_neg hthread, if_pos (by simp), List.nil_append]
  · intro i entry hentry
    rw [mem_pending, List.map_append, List.map_singleton, List.mem_append, List.mem_singleton]
    rcases getElem?_concat hentry with ⟨hlt, hentry⟩ | ⟨rfl, rfl⟩
    · rw [h.hasSender i entry hentry, mem_pending, or_iff_left (Nat.ne_of_lt hlt)]
    · exact iff_of_true rfl (.inr (.inr rfl))

theorem take (h : w.Sound course) {job : Nat} {request : ρ} {queue : List (Nat × ρ)}
    (hthread : w.thread = .waiting) (hqueue : w.queue = (job, request) :: queue) :
    ({ w with
      queue
      thread := .working job (course request).notices.toList (course request).outcome }
        : Worker ρ π α).Sound course := by
  have hpending : ({ w with
      queue
      thread := .working job (course request).notices.toList (course request).outcome }
        : Worker ρ π α).pending = w.pending := by
    simp only [pending, hthread, hqueue, Thread.job?, Option.toList_some, Option.toList_none,
      List.map_cons, List.nil_append, List.cons_append]
  refine ⟨?_, ?_, ?_, ?_⟩
  · rw [hpending]
    exact h.pending_eq
  · intro i request' hi
    apply h.queued i request'
    rw [hqueue]
    exact List.mem_cons_of_mem _ hi
  · intro i entry hentry
    obtain ⟨events, heq, hc⟩ := h.carries i entry hentry
    refine ⟨events, ?_, hc⟩
    have hidle : w.thread.job? ≠ some i := by rw [hthread]; exact nofun
    by_cases hi : job = i
    · subst hi
      have hrequest := h.queued job request (by rw [hqueue]; exact List.mem_cons_self)
      rw [show w.jobs[job]? = some entry from hentry] at hrequest
      rw [toSend_of_queued hidle (by rw [hqueue]; exact List.mem_cons_self)] at heq
      rw [toSend_of_current rfl]
      cases hrequest
      exact heq
    · refine append_toSend_of_other hidle ?_ ?_ heq
      · exact fun heq => hi (Option.some.inj heq)
      · rw [hqueue, List.map_cons, List.mem_cons, or_iff_right (Ne.symm hi)]
  · intro i entry hentry
    rw [hpending]
    exact h.hasSender i entry hentry

/-- The thread closes the channel of its job, which then is over. -/
theorem disconnect (h : w.Sound course) {job : Nat} (hthread : w.thread = .closing job) :
    ({ w.onChannel job Channel.close with thread := .waiting } : Worker ρ π α).Sound course := by
  have hjob : w.thread.job? = some job := by rw [hthread]; rfl
  have hqueued := h.not_queued hjob
  refine ⟨?_, ?_, ?_, ?_⟩
  · obtain ⟨ended, hended, heq⟩ := h.pending_eq
    rw [pending, hjob, Option.toList_some, List.singleton_append] at heq
    -- The range is not empty, and its first number is the job that is over now.
    cases hcount : w.jobs.length - ended with
    | zero =>
        rw [hcount] at heq
        cases heq
    | succ count =>
        rw [hcount, List.range'_succ] at heq
        refine ⟨ended + 1, by rw [length_jobs_onChannel]; omega, ?_⟩
        rw [length_jobs_onChannel, show w.jobs.length - (ended + 1) = count by omega]
        exact (List.cons.inj heq).2
  · intro i request hi
    simp only [request_onChannel]
    exact h.queued i request hi
  · intro i entry' hentry'
    change (w.onChannel job Channel.close).jobs[i]? = some entry' at hentry'
    obtain ⟨entry, hentry, hrequest, hchannel⟩ := exists_of_jobs_onChannel hentry'
    obtain ⟨events, heq, hc⟩ := h.carries i entry hentry
    rw [hrequest, hchannel]
    by_cases hi : job = i
    · subst hi
      rw [toSend_of_current hjob, hthread] at heq
      refine ⟨events, ?_, ?_⟩
      · rw [toSend_of_not_pending]
        · exact heq
        · exact hqueued
      · rw [if_pos rfl]
        exact hc.close
    · refine ⟨events, append_toSend_of_other (w := w) ?_ ?_ Iff.rfl heq, ?_⟩
      · rw [hjob]
        exact fun heq => hi (Option.some.inj heq)
      · exact nofun
      · rw [if_neg hi]
        exact hc
  · intro i entry' hentry'
    change (w.onChannel job Channel.close).jobs[i]? = some entry' at hentry'
    obtain ⟨entry, hentry, -, hchannel⟩ := exists_of_jobs_onChannel hentry'
    rw [hchannel]
    by_cases hi : job = i
    · subst hi
      rw [if_pos rfl]
      exact iff_of_false nofun hqueued
    · rw [if_neg hi, h.hasSender i entry hentry, mem_pending, mem_pending, hjob,
        or_iff_right fun heq => hi (Option.some.inj heq)]
      exact (or_iff_right nofun).symm

theorem step {w' : Worker ρ π α} {m : Move ρ} (h : w.Sound course)
    (hstep : Step course w m w') : w'.Sound course := by
  cases hstep with
  | stay => exact h
  | claim request => exact h.of_eq rfl rfl rfl rfl
  | accept => exact h.accept _ _
  | refuse => exact h.of_eq rfl rfl rfl rfl
  | withdraw => exact h.of_eq rfl rfl rfl rfl
  | close => exact h.of_eq rfl rfl rfl rfl
  | @receive job event hnext =>
      apply h.onChannel job
      · intro entry events hentry hc
        rw [channel?, hentry] at hnext
        exact hc.pass hnext
      · intro c
        rfl
  | forget job =>
      apply h.onChannel
      · intro entry events _ hc
        exact hc.forget
      · intro c
        rfl
  | take hthread hqueue => exact h.take hthread hqueue
  | tell hthread => exact h.post (by rw [hthread]; rfl) rfl (by rw [hthread]; rfl)
  | clear hthread => exact h.of_eq (by rw [hthread]; rfl) (by rw [hthread]; rfl) rfl rfl
  | finish hthread => exact h.post (by rw [hthread]; rfl) rfl (by rw [hthread]; rfl)
  | disconnect hthread => exact h.disconnect hthread
  | stop hthread => exact h.of_eq (by rw [hthread]; rfl) (by rw [hthread]; rfl) rfl rfl

/-! What a channel has carried. -/

variable {job : Nat} {request : ρ} {channel : Channel π α}

theorem sent_prefix (h : w.Sound course) (hentry : w.jobs[job]? = some ⟨request, channel⟩) :
    channel.sent.toList <+: (course request).events := by
  obtain ⟨events, heq, hc⟩ := h.carries job _ hentry
  exact hc.sent_prefix.trans ⟨_, heq⟩

theorem event_of_next (h : w.Sound course) (hentry : w.jobs[job]? = some ⟨request, channel⟩)
    {event : Event π α} (hnext : channel.next? = some event) :
    (course request).events[channel.received]? = some event := by
  obtain ⟨rest, heq⟩ := h.sent_prefix hentry
  have hlt : channel.received < channel.sent.toList.length := Channel.received_lt hnext
  rw [← heq, List.getElem?_append_left hlt, Array.getElem?_toList]
  exact hnext

theorem sent_eq (h : w.Sound course) (hentry : w.jobs[job]? = some ⟨request, channel⟩)
    (hreceiver : channel.hasReceiver = true) (hover : job ∉ w.pending) :
    channel.sent.toList = (course request).events := by
  obtain ⟨events, heq, hc⟩ := h.carries job _ hentry
  rw [toSend_of_not_pending hover, List.append_nil] at heq
  rw [hc.sent_eq hreceiver, heq]

theorem toSend_eq_nil (h : w.Sound course) (hentry : w.jobs[job]? = some ⟨request, channel⟩)
    {outcome : Except Fault α} (hmem : .finished outcome ∈ channel.sent.toList) :
    w.toSend (course request).events job = [] := by
  obtain ⟨events, heq, hc⟩ := h.carries job _ hentry
  exact Course.eq_nil_of_finished heq (hc.sent_prefix.subset hmem)

end Sound

/-! ### Workers that have run -/

theorem sound_run (course : ρ → Course π α) (name : String) (moves : List (Move ρ)) :
    (run course { name } moves).Sound course :=
  run_induction (fun _ _ _ h hstep => h.step hstep) (sound_new course name) moves

/-- What a new worker can come to. -/
def Reachable (course : ρ → Course π α) (w : Worker ρ π α) : Prop :=
  ∃ name moves, w = run course { name } moves

namespace Reachable

variable {course : ρ → Course π α} {w : Worker ρ π α}

theorem guarded (h : w.Reachable course) : w.Guarded := by
  obtain ⟨name, moves, rfl⟩ := h
  exact guarded_run course name moves

theorem sound (h : w.Reachable course) : w.Sound course := by
  obtain ⟨name, moves, rfl⟩ := h
  exact sound_run course name moves

theorem run (h : w.Reachable course) (moves : List (Move ρ)) :
    (w.run course moves).Reachable course := by
  obtain ⟨name, before, rfl⟩ := h
  exact ⟨name, before ++ moves, (List.foldl_append ..).symm⟩

theorem move (h : w.Reachable course) (m : Move ρ) : (w.move course m).Reachable course :=
  h.run [m]

theorem claim (h : w.Reachable course) {w' : Worker ρ π α} {request : ρ}
    (hclaim : w.claim request = .ok w') : w'.Reachable course := by
  have hmove : w.move course (.claim request) = w' := by
    rw [Worker.move, hclaim]
    rfl
  rw [← hmove]
  exact h.move _

theorem send (h : w.Reachable course) {w' : Worker ρ π α} {caller : Nat} {result : Submission}
    (hsend : w.send caller = some (result, w')) : w'.Reachable course := by
  have hmove : w.move course (.send caller) = w' := by
    rw [Worker.move, hsend]
    rfl
  rw [← hmove]
  exact h.move _

end Reachable

end Worker

end OrbitImage
