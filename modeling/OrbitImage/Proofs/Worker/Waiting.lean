import OrbitImage.Proofs.Worker.Progress
import OrbitImage.Worker.Listener
/-!
Callers that follow a job to its end. A listener and the worker of its job take their turns in any
order, other callers come between as they like; only the handle of the job is the listener's own.
The listener hears of the end of the job, if it looks again and again and the thread is not stopped
from going on, and of nothing but what the job comes to.
-/
namespace OrbitImage

/-- A number that never grows, and again and again falls unless it is zero, comes to zero. -/
theorem eventually_eq_zero {f : Nat → Nat} {start : Nat} (hmono : ∀ n ≥ start, f (n + 1) ≤ f n)
    (hfall : ∀ n ≥ start, ∃ m ≥ n, f (m + 1) ≤ f m - 1) : ∃ n ≥ start, ∀ m ≥ n, f m = 0 := by
  have hle : ∀ n ≥ start, ∀ k, f (n + k) ≤ f n := by
    intro n hn k
    induction k with
    | zero => exact Nat.le_refl _
    | succ k ih => exact Nat.le_trans (hmono (n + k) (by omega)) ih
  have hbounded : ∀ bound, ∀ n ≥ start, f n ≤ bound → ∃ m ≥ start, f m = 0 := by
    intro bound
    induction bound with
    | zero =>
        intro n hn hzero
        exact ⟨n, hn, Nat.le_zero.mp hzero⟩
    | succ bound ih =>
        intro n hn hbound
        obtain ⟨m, hm, hlt⟩ := hfall n hn
        obtain ⟨k, rfl⟩ := Nat.exists_eq_add_of_le hm
        have hk := hle n hn k
        exact ih (n + k + 1) (by omega) (by omega)
  obtain ⟨n, hn, hzero⟩ := hbounded (f start) start (Nat.le_refl _) (Nat.le_refl _)
  refine ⟨n, hn, ?_⟩
  intro m hm
  obtain ⟨k, rfl⟩ := Nat.exists_eq_add_of_le hm
  exact Nat.le_zero.mp (hzero ▸ hle n hn k)

/-! ### Listeners -/

namespace Listener

variable {ρ π α : Type} {l : Listener π α} {c : Course π α} {start received : Nat}

/-- Knows of a course what is in its events from `start` on, up to the number received. -/
structure Knows (l : Listener π α) (c : Course π α) (start received : Nat) : Prop where
  told_eq : l.told.toList = (c.notices.toList.take received).drop start
  outcome_eq : l.outcome = if received ≤ c.notices.size then none else some c.outcome

theorem knows_new (job : Nat) (hstart : start ≤ c.notices.size) :
    ({ job } : Listener π α).Knows c start start := by
  refine ⟨?_, (if_pos hstart).symm⟩
  rw [List.drop_take_self]

namespace Knows

theorem hear (h : l.Knows c start received) (hstart : start ≤ received) {event : Event π α}
    (hevent : c.events[received]? = some event) : (l.hear event).Knows c start (received + 1) := by
  cases event with
  | progress value =>
      obtain ⟨hlt, hvalue⟩ := Course.notice_of_progress hevent
      constructor
      · have hlength : start ≤ (c.notices.toList.take received).length := by
          rw [List.length_take, Array.length_toList]
          omega
        rw [List.take_add_one, hvalue, List.drop_append_of_le_length hlength, ← h.told_eq]
        exact Array.toList_push
      · rw [if_pos (Nat.succ_le_of_lt hlt)]
        exact h.outcome_eq.trans (if_pos (Nat.le_of_lt hlt))
  | finished outcome =>
      obtain ⟨rfl, rfl⟩ := Course.outcome_of_finished hevent
      constructor
      · rw [List.take_of_length_le (by rw [Array.length_toList]; exact Nat.le_succ _)]
        refine h.told_eq.trans ?_
        rw [List.take_of_length_le (Nat.le_of_eq Array.length_toList)]
      · rw [if_neg (Nat.not_succ_le_self _)]
        rfl

theorem isDone_iff (h : l.Knows c start received) : l.isDone = true ↔ c.notices.size < received := by
  rw [isDone, h.outcome_eq]
  split
  next hle => exact iff_of_false nofun (Nat.not_lt_of_le hle)
  next hlt => exact iff_of_true rfl (Nat.lt_of_not_le hlt)

theorem told_prefix (h : l.Knows c start received) : l.told.toList <+: c.notices.toList.drop start := by
  rw [h.told_eq, List.drop_take]
  exact List.take_prefix ..

theorem of_isDone (h : l.Knows c start received) (hdone : l.isDone = true) :
    l.outcome = some c.outcome ∧ l.told.toList = c.notices.toList.drop start := by
  have hlt := h.isDone_iff.mp hdone
  constructor
  · rw [h.outcome_eq, if_neg (Nat.not_le_of_lt hlt)]
  · rw [h.told_eq, List.take_of_length_le (by rw [Array.length_toList]; exact Nat.le_of_lt hlt)]

end Knows

theorem poll_of_event {w : Worker ρ π α} {event : Event π α} (hdone : l.isDone = false)
    (h : (w.channel? l.job).bind Channel.next? = some event) :
    l.poll w = (l.hear event, w.onChannel l.job Channel.pass) := by
  rw [poll, if_neg (by rw [hdone]; decide), Worker.receive, h]

theorem poll_of_nothing {w : Worker ρ π α} (hdone : l.isDone = false)
    (h : (w.channel? l.job).bind Channel.next? = none) (hopen : w.isOver l.job = false) :
    l.poll w = (l, w) := by
  rw [poll, if_neg (by rw [hdone]; decide), Worker.receive, h]
  dsimp only
  rw [if_neg (by rw [hopen]; decide)]

/-- All that looking does to a worker is to receive an event. -/
theorem worker_poll (l : Listener π α) (w : Worker ρ π α) :
    (l.poll w).2 = if l.isDone then w else (w.receive l.job).2 := by
  rw [poll]
  split
  · rfl
  · rcases w.receive l.job with ⟨event, w'⟩
    cases event <;> rfl

end Listener

/-! ### Turns -/

/-- Whose turn it is: the listener looks, somebody else makes a move, or nothing happens here. -/
inductive Turn (ρ : Type)
  | look
  | move (m : Move ρ)
  | pause

namespace Turn

variable {ρ : Type}

/-- The handle of a job is left to whoever holds it. -/
def Spares (job : Nat) (t : Turn ρ) : Prop :=
  t ≠ .move (.receive job) ∧ t ≠ .move (.forget job)

/-- The listener and the thread come up again and again. -/
structure Fair (schedule : Nat → Turn ρ) : Prop where
  looks : ∀ n, ∃ m ≥ n, schedule m = .look
  advances : ∀ n, ∃ m ≥ n, schedule m = .move .advance

end Turn

structure Scene (ρ π α : Type) where
  listener : Listener π α
  worker : Worker ρ π α

namespace Scene

variable {ρ π α : Type}

def turn (course : ρ → Course π α) (s : Scene ρ π α) : Turn ρ → Scene ρ π α
  | .look => ⟨(s.listener.poll s.worker).1, (s.listener.poll s.worker).2⟩
  | .move m => { s with worker := s.worker.move course m }
  | .pause => s

def play (course : ρ → Course π α) (s : Scene ρ π α) (schedule : Nat → Turn ρ) : Nat → Scene ρ π α
  | 0 => s
  | n + 1 => (s.play course schedule n).turn course (schedule n)

end Scene

namespace Worker

variable {ρ π α : Type} {w : Worker ρ π α} {job : Nat}

def received (w : Worker ρ π α) (job : Nat) : Nat :=
  (w.channel? job).elim 0 Channel.received

theorem received_of_jobs {request : ρ} {channel : Channel π α}
    (h : w.jobs[job]? = some ⟨request, channel⟩) : w.received job = channel.received := by
  rw [received, channel?, h]
  rfl

theorem receive_of_event {event : Event π α}
    (h : (w.channel? job).bind Channel.next? = some event) :
    (w.receive job).2 = w.onChannel job Channel.pass := by
  rw [receive, h]

theorem receive_of_nothing (h : (w.channel? job).bind Channel.next? = none) :
    (w.receive job).2 = w := by
  rw [receive, h]

theorem received_receive {event : Event π α}
    (h : (w.channel? job).bind Channel.next? = some event) :
    (w.receive job).2.received job = w.received job + 1 := by
  obtain ⟨channel, hchannel, -⟩ := Option.bind_eq_some_iff.mp h
  obtain ⟨entry, hentry, rfl⟩ := Option.map_eq_some_iff.mp hchannel
  rw [receive_of_event h, received_of_jobs hentry, received, channel?, jobs_onChannel, if_pos rfl,
    hentry]
  rfl

theorem delay_receive (course : ρ → Course π α) (w : Worker ρ π α) (i job : Nat) :
    (w.receive i).2.delay course job = w.delay course job := by
  rw [receive]
  split <;> rfl

end Worker

namespace Scene

variable {ρ π α : Type} {course : ρ → Course π α} {s : Scene ρ π α} {request : ρ} {job start : Nat}

/-- The listener holds the handle of a job, and knows what was received since it took it over. -/
structure Following (course : ρ → Course π α) (request : ρ) (job start : Nat)
    (s : Scene ρ π α) : Prop where
  reachable : s.worker.Reachable course
  job_eq : s.listener.job = job
  exists_channel : ∃ channel, s.worker.jobs[job]? = some ⟨request, channel⟩ ∧
    channel.hasReceiver = true
  start_le : start ≤ s.worker.received job
  knows : s.listener.Knows (course request) start (s.worker.received job)

namespace Following

/-- When the job is over and its end was not heard, there is something to hear. -/
theorem exists_event (h : s.Following course request job start)
    (hdone : s.listener.isDone = false) (hover : job ∉ s.worker.pending) :
    ∃ event, (s.worker.channel? job).bind Channel.next? = some event := by
  obtain ⟨channel, hentry, hreceiver⟩ := h.exists_channel
  have hsent := h.reachable.sound.sent_eq hentry hreceiver hover
  have hsize : channel.sent.size = (course request).notices.size + 1 := by
    rw [← Array.length_toList, hsent, Course.length_events]
  have hunheard : ¬ (course request).notices.size < channel.received := by
    rw [← Worker.received_of_jobs hentry, ← h.knows.isDone_iff, hdone]
    exact nofun
  have hlt : channel.received < channel.sent.size := by omega
  refine ⟨channel.sent[channel.received], ?_⟩
  rw [Worker.channel?, hentry]
  exact Array.getElem?_eq_getElem hlt

theorem isOver_eq_false (h : s.Following course request job start)
    (hdone : s.listener.isDone = false)
    (hnext : (s.worker.channel? job).bind Channel.next? = none) : s.worker.isOver job = false := by
  obtain ⟨channel, hentry, -⟩ := h.exists_channel
  have hsender : channel.hasSender = true := by
    rw [h.reachable.sound.hasSender job _ hentry]
    apply Decidable.byContradiction
    intro hover
    obtain ⟨event, hevent⟩ := h.exists_event hdone hover
    rw [hnext] at hevent
    cases hevent
  rw [Worker.isOver, Worker.channel?, hentry]
  change channel.isOver = false
  rw [Channel.isOver, hsender]
  rfl

theorem look (h : s.Following course request job start) :
    (s.turn course .look).Following course request job start := by
  cases hdone : s.listener.isDone with
  | true =>
      rw [turn, Listener.poll, if_pos hdone]
      exact h
  | false =>
      cases hnext : (s.worker.channel? s.listener.job).bind Channel.next? with
      | none =>
          rw [turn, Listener.poll_of_nothing hdone hnext]
          · exact h
          · rw [h.job_eq] at hnext ⊢
            exact h.isOver_eq_false hdone hnext
      | some event =>
          rw [turn, Listener.poll_of_event hdone hnext]
          rw [h.job_eq] at hnext ⊢
          obtain ⟨channel, hentry, hreceiver⟩ := h.exists_channel
          have hevent : (course request).events[s.worker.received job]? = some event := by
            rw [Worker.received_of_jobs hentry]
            rw [Worker.channel?, hentry] at hnext
            exact h.reachable.sound.event_of_next hentry hnext
          rw [← Worker.receive_of_event hnext]
          refine ⟨h.reachable.move (.receive job), ?_, ⟨channel.pass, ?_, hreceiver⟩, ?_, ?_⟩
          · rw [← h.job_eq]
            cases event <;> rfl
          · rw [Worker.receive_of_event hnext, Worker.jobs_onChannel, if_pos rfl, hentry]
            rfl
          · rw [Worker.received_receive hnext]
            exact Nat.le_succ_of_le h.start_le
          · rw [Worker.received_receive hnext]
            exact h.knows.hear h.start_le hevent

/-- What others do, as long as they leave the handle alone, keeps what was received. -/
theorem channel_move (h : s.Following course request job start) {m : Move ρ}
    (hm : (Turn.move m).Spares job) :
    (∃ channel, (s.worker.move course m).jobs[job]? = some ⟨request, channel⟩ ∧
      channel.hasReceiver = true) ∧
    (s.worker.move course m).received job = s.worker.received job := by
  obtain ⟨channel, hentry, hreceiver⟩ := h.exists_channel
  have hstep : Worker.Step course s.worker m (s.worker.move course m) := Worker.step_move _ _
  obtain ⟨channel', hentry', htouch⟩ := hstep.touch hentry
  rw [Worker.received_of_jobs hentry', Worker.received_of_jobs hentry]
  have hkept : channel'.hasReceiver = channel.hasReceiver ∧ channel'.received = channel.received := by
    cases htouch with
    | leave => exact ⟨rfl, rfl⟩
    | receive => exact absurd rfl hm.1
    | forget => exact absurd rfl hm.2
    | send => exact ⟨Channel.hasReceiver_send .., Channel.received_send ..⟩
    | close => exact ⟨rfl, rfl⟩
  exact ⟨⟨channel', hentry', hkept.1.trans hreceiver⟩, hkept.2⟩

theorem move (h : s.Following course request job start) {m : Move ρ}
    (hm : (Turn.move m).Spares job) : (s.turn course (.move m)).Following course request job start := by
  obtain ⟨hchannel, hreceived⟩ := h.channel_move hm
  refine ⟨h.reachable.move m, h.job_eq, hchannel, ?_, ?_⟩
  · rw [turn, hreceived]
    exact h.start_le
  · rw [turn, hreceived]
    exact h.knows

theorem turn (h : s.Following course request job start) {t : Turn ρ} (ht : t.Spares job) :
    (s.turn course t).Following course request job start := by
  cases t with
  | look => exact h.look
  | move m => exact h.move ht
  | pause => exact h

theorem play (h : s.Following course request job start) {schedule : Nat → Turn ρ}
    (hspares : ∀ n, (schedule n).Spares job) (n : Nat) :
    (s.play course schedule n).Following course request job start := by
  induction n with
  | zero => exact h
  | succ n ih => exact ih.turn (hspares n)

/-! First the thread comes to the end of the job, then the listener hears of it. -/

theorem delay_look (s : Scene ρ π α) (job : Nat) :
    (s.turn course .look).worker.delay course job = s.worker.delay course job := by
  change (s.listener.poll s.worker).2.delay course job = _
  rw [Listener.worker_poll]
  split
  · rfl
  · exact Worker.delay_receive ..

theorem delay_turn (h : s.Following course request job start) (t : Turn ρ) :
    (s.turn course t).worker.delay course job ≤ s.worker.delay course job := by
  cases t with
  | look => exact Nat.le_of_eq (delay_look s job)
  | move m =>
      obtain ⟨channel, hentry, -⟩ := h.exists_channel
      have hjob := (List.getElem?_eq_some_iff.mp hentry).1
      exact Nat.le_trans (Worker.delay_move h.reachable hjob m) (Nat.sub_le ..)
  | pause => exact Nat.le_refl _

theorem delay_advance (h : s.Following course request job start) :
    (s.turn course (.move .advance)).worker.delay course job ≤ s.worker.delay course job - 1 := by
  obtain ⟨channel, hentry, -⟩ := h.exists_channel
  have hjob := (List.getElem?_eq_some_iff.mp hentry).1
  exact Worker.delay_move h.reachable hjob .advance

theorem received_look (h : s.Following course request job start) :
    s.worker.received job ≤ (s.turn course .look).worker.received job := by
  change _ ≤ (s.listener.poll s.worker).2.received job
  rw [Listener.worker_poll, h.job_eq]
  split
  · exact Nat.le_refl _
  · cases hnext : (s.worker.channel? job).bind Channel.next? with
    | none => exact Nat.le_of_eq (by rw [Worker.receive_of_nothing hnext])
    | some event => exact Nat.le_of_lt (Nat.lt_of_succ_le (Nat.le_of_eq (Worker.received_receive hnext).symm))

theorem received_turn (h : s.Following course request job start) {t : Turn ρ} (ht : t.Spares job) :
    s.worker.received job ≤ (s.turn course t).worker.received job := by
  cases t with
  | look => exact h.received_look
  | move m => exact Nat.le_of_eq (h.channel_move ht).2.symm
  | pause => exact Nat.le_refl _

theorem received_look_of_over (h : s.Following course request job start)
    (hdone : s.listener.isDone = false) (hover : job ∉ s.worker.pending) :
    (s.turn course .look).worker.received job = s.worker.received job + 1 := by
  obtain ⟨event, hevent⟩ := h.exists_event hdone hover
  change (s.listener.poll s.worker).2.received job = _
  rw [Listener.worker_poll, h.job_eq, if_neg (by rw [hdone]; decide)]
  exact Worker.received_receive hevent

variable {schedule : Nat → Turn ρ}

theorem eventually_over (h : s.Following course request job start)
    (hspares : ∀ n, (schedule n).Spares job) (hfair : Turn.Fair schedule) :
    ∃ n, ∀ m ≥ n, job ∉ (s.play course schedule m).worker.pending := by
  have hmono : ∀ n ≥ 0, (s.play course schedule (n + 1)).worker.delay course job ≤
      (s.play course schedule n).worker.delay course job := by
    intro n _
    exact (h.play hspares n).delay_turn (schedule n)
  have hfall : ∀ n ≥ 0, ∃ m ≥ n, (s.play course schedule (m + 1)).worker.delay course job ≤
      (s.play course schedule m).worker.delay course job - 1 := by
    intro n _
    obtain ⟨m, hm, hadvance⟩ := hfair.advances n
    refine ⟨m, hm, ?_⟩
    rw [Scene.play, hadvance]
    exact (h.play hspares m).delay_advance
  obtain ⟨n, -, hzero⟩ : ∃ n ≥ 0, ∀ m ≥ n, (s.play course schedule m).worker.delay course job = 0 :=
    eventually_eq_zero hmono hfall
  refine ⟨n, ?_⟩
  intro m hm hpending
  exact Nat.ne_of_gt (Worker.delay_pos hpending) (hzero m hm)

theorem eventually_done (h : s.Following course request job start)
    (hspares : ∀ n, (schedule n).Spares job) (hfair : Turn.Fair schedule) :
    ∃ n, ∀ m ≥ n, (s.play course schedule m).listener.isDone = true := by
  obtain ⟨ended, hover⟩ := h.eventually_over hspares hfair
  -- From then on, each look is one event nearer to the end.
  have hmono : ∀ n ≥ ended,
      (course request).notices.size + 1 - (s.play course schedule (n + 1)).worker.received job ≤
        (course request).notices.size + 1 - (s.play course schedule n).worker.received job := by
    intro n _
    exact Nat.sub_le_sub_left ((h.play hspares n).received_turn (hspares n)) _
  have hfall : ∀ n ≥ ended, ∃ m ≥ n,
      (course request).notices.size + 1 - (s.play course schedule (m + 1)).worker.received job ≤
        (course request).notices.size + 1 - (s.play course schedule m).worker.received job - 1 := by
    intro n hn
    obtain ⟨m, hm, hlook⟩ := hfair.looks n
    have hfollowing := h.play hspares m
    refine ⟨m, hm, ?_⟩
    rw [Scene.play, hlook]
    cases hdone : (s.play course schedule m).listener.isDone with
    | true =>
        have hheard := hfollowing.knows.isDone_iff.mp hdone
        have hkept := hfollowing.received_look
        omega
    | false =>
        rw [hfollowing.received_look_of_over hdone (hover m (Nat.le_trans hn hm))]
        omega
  obtain ⟨n, -, hzero⟩ : ∃ n ≥ ended, ∀ m ≥ n,
      (course request).notices.size + 1 - (s.play course schedule m).worker.received job = 0 :=
    eventually_eq_zero hmono hfall
  refine ⟨n, ?_⟩
  intro m hm
  rw [(h.play hspares m).knows.isDone_iff]
  have hreceived := hzero m hm
  omega

end Following

end Scene

end OrbitImage
