import Mathlib.Algebra.Order.Field.Rat
import Mathlib.Data.List.Sort
import Mathlib.Tactic.NormNum
import Mathlib.Tactic.Ring
import OrbitImage.Proofs.Image.Painting
/-!
What is notified on the way. Whatever a reporter is asked for, it notifies the running maximum, so
its notices never decrease. The schedules of images ask for percentages that rise by themselves, and
so the notices of an image are these, one for each multiple of the interval, and 100 at the end.
-/
namespace OrbitImage

/-- Exact percentages. -/
instance instPercentRat : Percent ℚ where
  whole n := n

/-- What a reporter is asked for. -/
inductive ReporterCall (α : Type)
  | phase (offset span : α)
  | tick (i : Nat)
  | finish

namespace Reporter

/-! ### Intervals -/

theorem intervalOf_pos (total : Nat) : 0 < intervalOf total := by
  unfold intervalOf
  split
  · decide
  · exact Nat.pos_of_ne_zero ‹_›

theorem interval_pos {α : Type} (r : Reporter α) : 0 < r.interval :=
  intervalOf_pos r.total

theorem intervalOf_of_le {total : Nat} (h : 100 ≤ total) : intervalOf total = total / 100 := by
  unfold intervalOf
  split
  · omega
  · rfl

/-- The multiples of an interval among the steps of a phase, as multiples. -/
def marks (total interval : Nat) : List Nat :=
  (List.range total).filter (· * interval < total)

theorem mem_marks {total interval k : Nat} (h : 0 < interval) :
    k ∈ marks total interval ↔ k * interval < total := by
  have hle : k ≤ k * interval := Nat.le_mul_of_pos_right k h
  simp only [marks, List.mem_filter, List.mem_range, decide_eq_true_eq]
  omega

theorem marks_sorted (total interval : Nat) : (marks total interval).Pairwise (· < ·) :=
  List.pairwise_lt_range.filter _

theorem marks_eq_cons {total : Nat} (h : 0 < total) (interval : Nat) :
    ∃ ks, marks total interval = 0 :: ks := by
  obtain ⟨count, rfl⟩ := Nat.exists_eq_succ_of_ne_zero (Nat.ne_of_gt h)
  rw [marks, List.range_succ_eq_map, List.filter_cons, if_pos (by simp)]
  exact ⟨_, rfl⟩

theorem map_marks {total interval : Nat} (h : 0 < interval) :
    (marks total interval).map (· * interval) = (List.range total).filter (interval ∣ ·) := by
  have hsorted : ((marks total interval).map (· * interval)).Pairwise (· < ·) :=
    (marks_sorted total interval).map _ fun _ _ hlt => Nat.mul_lt_mul_of_pos_right hlt h
  refine hsorted.eq_of_mem_iff (List.pairwise_lt_range.filter _) fun i => ?_
  simp only [List.mem_map, mem_marks h, List.mem_filter, List.mem_range, decide_eq_true_eq]
  constructor
  · rintro ⟨k, hk, rfl⟩
    exact ⟨hk, Nat.dvd_mul_left interval k⟩
  · rintro ⟨hi, k, rfl⟩
    exact ⟨k, by rwa [Nat.mul_comm], Nat.mul_comm k interval⟩

/-! ### Whatever a reporter is asked for -/

section
variable {α : Type} [Percent α]

def call (r : Reporter α) : ReporterCall α → Reporter α
  | .phase offset span => r.phase offset span
  | .tick i => r.tick i
  | .finish => r.finish

/-- Where step `i` stands between the ends of its phase. -/
def place (r : Reporter α) (i : Nat) : α :=
  r.offset + Percent.whole i / Percent.whole r.total * r.span

theorem tick_eq (r : Reporter α) (i : Nat) :
    r.tick i = if r.interval ∣ i then r.notify (r.place i) else r := by
  rw [tick]
  by_cases h : r.interval ∣ i
  · rw [if_pos h, if_pos (Nat.mod_eq_zero_of_dvd h)]
    rfl
  · rw [if_neg h, if_neg (mt Nat.dvd_of_mod_eq_zero h)]

theorem sent_notify (r : Reporter α) (value : α) :
    (r.notify value).sent = r.sent.push (max value r.last) := rfl

theorem ticks_eq_foldl (r : Reporter α) (i count : Nat) :
    r.ticks i count = ((List.range' i count).map .tick).foldl call r := by
  induction count generalizing r i with
  | zero => rfl
  | succ count ih => rw [ticks, ih]; rfl

/-- The notices never decrease, and none of them is above the last. -/
structure Rising [Preorder α] (r : Reporter α) : Prop where
  sorted : r.sent.toList.Pairwise (· ≤ ·)
  le_last : ∀ p ∈ r.sent.toList, p ≤ r.last

variable [Preorder α]

theorem rising_start (total : Nat) : (start total : Reporter α).Rising :=
  ⟨.nil, fun _ h => nomatch h⟩

-- Nothing else is needed of the numbers: a division by zero may give whatever it likes.
variable (hmax : ∀ a b : α, b ≤ max a b)
include hmax

namespace Rising

theorem notify {r : Reporter α} (h : r.Rising) (value : α) : (r.notify value).Rising := by
  have hlast : r.last ≤ max value r.last := hmax value r.last
  have hsent : (r.notify value).sent.toList = r.sent.toList ++ [max value r.last] := by
    rw [sent_notify, Array.toList_push]
  constructor
  · rw [hsent, List.pairwise_append]
    refine ⟨h.sorted, List.pairwise_singleton .., fun p hp q hq => ?_⟩
    rw [List.mem_singleton.mp hq]
    exact le_trans (h.le_last p hp) hlast
  · intro p hp
    rw [hsent, List.mem_append, List.mem_singleton] at hp
    rcases hp with hp | rfl
    · exact le_trans (h.le_last p hp) hlast
    · exact le_refl _

theorem call {r : Reporter α} (h : r.Rising) (c : ReporterCall α) : (r.call c).Rising := by
  cases c with
  | phase offset span => exact ⟨h.sorted, h.le_last⟩
  | finish => exact h.notify hmax _
  | tick i =>
      rw [Reporter.call, tick_eq]
      split
      · exact h.notify hmax _
      · exact h

theorem calls {r : Reporter α} (h : r.Rising) (cs : List (ReporterCall α)) :
    (cs.foldl Reporter.call r).Rising := by
  induction cs generalizing r with
  | nil => exact h
  | cons c cs ih => exact ih (h.call hmax c)

theorem step {r : Reporter α} (h : r.Rising) (s : ProgressStep α) : (r.step s).Rising := by
  cases s with
  | phase offset span => exact h.call hmax (.phase offset span)
  | finish => exact h.call hmax .finish
  | all =>
      rw [Reporter.step, ticks_eq_foldl]
      exact h.calls hmax _

theorem steps {r : Reporter α} (h : r.Rising) (schedule : List (ProgressStep α)) :
    (schedule.foldl Reporter.step r).Rising := by
  induction schedule generalizing r with
  | nil => exact h
  | cons s schedule ih => exact ih (h.step hmax s)

end Rising

end

/-! ### Percentages that rise by themselves -/

/-- The values are notified as they are, and the last notice is then at most `top`. -/
structure Sends (r r' : Reporter ℚ) (values : List ℚ) (top : ℚ) : Prop where
  sent : r'.sent.toList = r.sent.toList ++ values
  last : r'.last ≤ top
  total : r'.total = r.total

theorem Sends.trans {r r' r'' : Reporter ℚ} {values values' : List ℚ} {top top' : ℚ}
    (h : Sends r r' values top) (h' : Sends r' r'' values' top') :
    Sends r r'' (values ++ values') top' :=
  ⟨by rw [h'.sent, h.sent, List.append_assoc], h'.last, h'.total.trans h.total⟩

theorem sends_notify {r : Reporter ℚ} {value : ℚ} (h : r.last ≤ value) :
    Sends r (r.notify value) [value] value := by
  have hmax : max value r.last = value := max_eq_left h
  exact ⟨by rw [sent_notify, Array.toList_push, hmax], le_of_eq hmax, rfl⟩

theorem place_eq (r : Reporter ℚ) (i : Nat) : r.place i = r.offset + i / r.total * r.span := rfl

theorem place_mono {r : Reporter ℚ} (h : 0 ≤ r.span) {i j : Nat} (hij : i ≤ j) :
    r.place i ≤ r.place j := by
  have hquotient : (i : ℚ) / r.total ≤ j / r.total :=
    div_le_div_of_nonneg_right (Nat.cast_le.mpr hij) (Nat.cast_nonneg _)
  exact (add_le_add_iff_left _).mpr (mul_le_mul_of_nonneg_right hquotient h)

theorem place_zero (r : Reporter ℚ) : r.place 0 = r.offset := by
  rw [place_eq, Nat.cast_zero, zero_div, zero_mul, add_zero]

theorem place_total {r : Reporter ℚ} (h : 0 < r.total) : r.place r.total = r.offset + r.span := by
  have hne : (r.total : ℚ) ≠ 0 := Nat.cast_ne_zero.mpr (Nat.ne_of_gt h)
  rw [place_eq, div_self hne, one_mul]

@[simp] theorem place_tick (r : Reporter ℚ) (i j : Nat) : (r.tick i).place j = r.place j := by
  rw [tick_eq]
  split <;> rfl

@[simp] theorem interval_tick (r : Reporter ℚ) (i : Nat) : (r.tick i).interval = r.interval := by
  rw [tick_eq]
  split <;> rfl

@[simp] theorem span_tick (r : Reporter ℚ) (i : Nat) : (r.tick i).span = r.span := by
  rw [tick_eq]
  split <;> rfl

theorem sends_tick {r : Reporter ℚ} {i : Nat} (hspan : 0 ≤ r.span) (h : r.last ≤ r.place i) :
    Sends r (r.tick i) (([i].filter (r.interval ∣ ·)).map r.place) (r.place (i + 1)) := by
  have hnext : r.place i ≤ r.place (i + 1) := place_mono hspan (Nat.le_succ i)
  rw [tick_eq]
  by_cases hi : r.interval ∣ i
  · obtain ⟨hsent, hlast, htotal⟩ := sends_notify h
    simp only [hi, if_true, List.filter_cons, decide_true, List.filter_nil, List.map_cons,
      List.map_nil]
    exact ⟨hsent, le_trans hlast hnext, htotal⟩
  · simp only [hi, if_false, List.filter_cons, decide_false, List.filter_nil, List.map_nil,
      Bool.false_eq_true]
    exact ⟨(List.append_nil _).symm, le_trans h hnext, rfl⟩

/-- The running maximum changes nothing, for the place of a step is above those before it. -/
theorem sends_ticks {r : Reporter ℚ} {i : Nat} (hspan : 0 ≤ r.span) (h : r.last ≤ r.place i)
    (count : Nat) :
    Sends r (r.ticks i count) (((List.range' i count).filter (r.interval ∣ ·)).map r.place)
      (r.place (i + count)) := by
  induction count generalizing r i with
  | zero => exact ⟨(List.append_nil _).symm, h, rfl⟩
  | succ count ih =>
      have hfirst := sends_tick hspan h
      have hrest := ih (r := r.tick i) (i := i + 1) (by rwa [span_tick])
        (by rw [place_tick]; exact hfirst.last)
      have hplace : (r.tick i).place = r.place := funext (place_tick r i)
      rw [interval_tick, hplace] at hrest
      have hboth := hfirst.trans hrest
      rw [← List.map_append, ← List.filter_append, List.singleton_append, ← List.range'_succ,
        Nat.add_assoc, Nat.add_comm 1 count] at hboth
      exact hboth

/-- All steps of a phase, of which the reporter notifies the multiples of its interval. -/
theorem sends_all {r : Reporter ℚ} {total : Nat} (htotal : r.total = total) (hmany : 100 ≤ total)
    (hspan : 0 ≤ r.span) (h : r.last ≤ r.offset) :
    Sends r (r.step .all)
      ((marks total (total / 100)).map
        fun k : ℕ => r.offset + r.span * k * (total / 100 : ℕ) / total) (r.offset + r.span) := by
  subst htotal
  have hsends := sends_ticks hspan (h.trans_eq r.place_zero.symm) r.total
  have hinterval : r.interval = r.total / 100 := intervalOf_of_le hmany
  have hplace : (r.place ∘ (· * (r.total / 100))) =
      fun k : ℕ => r.offset + r.span * k * (r.total / 100 : ℕ) / r.total := by
    funext k
    rw [Function.comp_apply, place_eq, Nat.cast_mul]
    ring
  rw [← List.range_eq_range', ← map_marks r.interval_pos, List.map_map, Nat.zero_add,
    place_total (Nat.lt_of_lt_of_le (by decide) hmany), hinterval, hplace] at hsends
  exact hsends

theorem sends_phase {r : Reporter ℚ} {total : Nat} (htotal : r.total = total)
    (hmany : 100 ≤ total) {offset span : ℚ} (hspan : 0 ≤ span) (h : r.last ≤ offset) :
    Sends r ((r.step (.phase offset span)).step .all)
      ((marks total (total / 100)).map
        fun k : ℕ => offset + span * k * (total / 100 : ℕ) / total) (offset + span) :=
  have hphase : Sends r (r.step (.phase offset span)) [] offset :=
    ⟨(List.append_nil _).symm, h, rfl⟩
  hphase.trans (sends_all htotal hmany hspan h)

/-! ### Schedules -/

section
variable {total : Nat} (h : 100 ≤ total)
include h

theorem sends_plain :
    Sends (start total) ([.all, .finish].foldl step (start total))
      ((marks total (total / 100)).map (fun k : ℕ => 100 * (k : ℚ) * (total / 100 : ℕ) / total) ++
        [100]) 100 := by
  have hall := sends_all (r := start total) rfl h (show (0 : ℚ) ≤ 100 by decide) (le_refl (0 : ℚ))
  have hzero (q : ℚ) : (start total).offset + q = q := zero_add q
  simp only [hzero] at hall
  exact hall.trans (sends_notify hall.last)

theorem sends_stretched :
    Sends (start total)
      ([.phase 0 50, .all, .phase 50 50, .all, .finish].foldl step (start total))
      ((marks total (total / 100)).map (fun k : ℕ => 50 * (k : ℚ) * (total / 100 : ℕ) / total) ++
        (marks total (total / 100)).map
          (fun k : ℕ => 50 + 50 * (k : ℚ) * (total / 100 : ℕ) / total) ++ [100]) 100 := by
  have hhalf : (0 : ℚ) ≤ 50 := by decide
  have hfirst := sends_phase (r := start total) rfl h hhalf (le_refl (0 : ℚ))
  simp only [zero_add] at hfirst
  have hsecond := sends_phase hfirst.total h hhalf hfirst.last
  have hwhole : (50 : ℚ) + 50 = 100 := by norm_num
  rw [hwhole] at hsecond
  exact (hfirst.trans hsecond).trans (sends_notify hsecond.last)

end

end Reporter

/-! ### The notices of an image -/

namespace Request
open Reporter

theorem hundred_le_pixels (r : Request) : 100 ≤ r.resolution.pixels := by
  cases r.resolution <;> decide

theorem isBuffered_eq_false_iff {r : Request} :
    r.isBuffered = false ↔ r.mode = .pair ∨ r.contrast.enabled = false := by
  rw [isBuffered, Bool.and_eq_false_iff, decide_eq_false_iff_not, not_not]

theorem progress_eq (r : Request) :
    let total := r.resolution.pixels
    let n := total / 100
    (r.progress ℚ).toList =
      if r.mode = .pair ∨ r.contrast.enabled = false then
        (marks total n).map (fun k : ℕ => 100 * (k : ℚ) * n / total) ++ [100]
      else (marks total n).map (fun k : ℕ => 50 * (k : ℚ) * n / total) ++
        (marks total n).map (fun k : ℕ => 50 + 50 * (k : ℚ) * n / total) ++ [100] := by
  intro total n
  by_cases h : r.mode = .pair ∨ r.contrast.enabled = false
  · rw [if_pos h, progress, schedule, isBuffered_eq_false_iff.mpr h]
    exact (sends_plain r.hundred_le_pixels).sent
  · have hbuffered : r.isBuffered = true := by
      rwa [← isBuffered_eq_false_iff, Bool.not_eq_false] at h
    rw [if_neg h, progress, schedule, hbuffered]
    exact (sends_stretched r.hundred_le_pixels).sent

theorem progress_sorted (r : Request) : (r.progress ℚ).toList.Pairwise (· ≤ ·) :=
  ((rising_start _).steps le_max_right r.schedule).sorted

theorem exists_progress_eq (r : Request) : ∃ qs, (r.progress ℚ).toList = 0 :: qs ++ [100] := by
  obtain ⟨ks, hks⟩ := marks_eq_cons r.resolution.pixels_pos (r.resolution.pixels / 100)
  rw [progress_eq, hks]
  split
  · rw [List.map_cons, Nat.cast_zero, mul_zero, zero_mul, zero_div]
    exact ⟨_, rfl⟩
  · rw [List.map_cons, Nat.cast_zero, mul_zero, zero_mul, zero_div, List.cons_append]
    exact ⟨_, rfl⟩

/-- What lies between the first notice and the last lies between their values. -/
theorem progress_bounds (r : Request) : ∀ p ∈ (r.progress ℚ).toList, 0 ≤ p ∧ p ≤ 100 := by
  intro p hp
  obtain ⟨qs, hqs⟩ := r.exists_progress_eq
  have hsorted := r.progress_sorted
  rw [hqs] at hp hsorted
  have hlast : ∀ q ∈ 0 :: qs, q ≤ 100 := fun q hq =>
    (List.pairwise_append.mp hsorted).2.2 q hq 100 (List.mem_singleton_self 100)
  constructor
  · rcases List.mem_cons.mp hp with rfl | hp
    · exact le_refl 0
    · exact List.rel_of_pairwise_cons hsorted hp
  · rcases List.mem_append.mp hp with hp | hp
    · exact hlast p hp
    · exact le_of_eq (List.mem_singleton.mp hp)

theorem notices_of_outcome {r : Request} {image : Image}
    (h : (r.generate ℚ).outcome = .ok image) : (r.generate ℚ).notices = r.progress ℚ := by
  unfold generate at h ⊢
  split at h
  · cases h
  · rfl

theorem notices_of_fault {r : Request} {fault : Fault}
    (h : (r.generate ℚ).outcome = .error fault) : (r.generate ℚ).notices = #[] := by
  unfold generate at h ⊢
  split at h
  · rfl
  · cases h

end Request

/-- An image without a stretch notifies the multiples of a hundredth of its steps in one phase, a
stretched one in two, and then 100; a request without an image notifies nothing. A reporter may be
asked for whatever one likes: what it notifies never decreases. -/
theorem Request.generate_notifies (r : Request) :
    let total := r.resolution.side.toNat * r.resolution.side.toNat
    let n := total / 100
    let notices := (r.generate ℚ).notices.toList
    (∀ image, (r.generate ℚ).outcome = .ok image →
      (∃ ks : List ℕ, ks.Pairwise (· < ·) ∧ (∀ k, k ∈ ks ↔ k * n < total) ∧
        notices = if r.mode = .pair ∨ r.contrast.enabled = false
          then ks.map (fun k : ℕ => 100 * (k : ℚ) * n / total) ++ [100]
          else ks.map (fun k : ℕ => 50 * (k : ℚ) * n / total) ++
            ks.map (fun k : ℕ => 50 + 50 * (k : ℚ) * n / total) ++ [100]) ∧
      notices.head? = some 0 ∧ notices.Pairwise (· ≤ ·) ∧
      (∀ p ∈ notices, 0 ≤ p ∧ p ≤ 100) ∧ notices.getLast? = some 100) ∧
    (∀ fault, (r.generate ℚ).outcome = .error fault → notices = []) ∧
    ∀ (steps : ℕ) (calls : List (ReporterCall ℚ)),
      let reporter := calls.foldl Reporter.call (Reporter.start steps)
      1 ≤ reporter.interval ∧
      (∀ i, (reporter.tick i).sent =
        if reporter.interval ∣ i then reporter.sent.push (max (reporter.place i) reporter.last)
        else reporter.sent) ∧
      reporter.sent.toList.Pairwise (· ≤ ·) := by
  intro total n notices
  refine ⟨fun image himage => ?_, fun fault hfault => ?_, fun steps calls => ⟨?_, ?_, ?_⟩⟩
  · have hnotices : notices = (r.progress ℚ).toList :=
      congrArg Array.toList (notices_of_outcome himage)
    have hn : 0 < n := Nat.div_pos r.hundred_le_pixels (by decide)
    obtain ⟨qs, hqs⟩ := r.exists_progress_eq
    rw [hnotices]
    refine ⟨⟨Reporter.marks total n, Reporter.marks_sorted total n,
      fun k => Reporter.mem_marks hn, r.progress_eq⟩, ?_, r.progress_sorted, r.progress_bounds, ?_⟩
    · rw [hqs]
      rfl
    · rw [hqs, List.getLast?_concat]
  · exact congrArg Array.toList (notices_of_fault hfault)
  · exact Reporter.interval_pos _
  · intro i
    rw [Reporter.tick_eq]
    split <;> rfl
  · exact ((Reporter.rising_start steps).calls le_max_right calls).sorted

/-- A stretched image of 256 by 256 pixels: the second phase goes on from 50 in steps of 655. -/
theorem Request.generate_notifies_two_phases :
    let r : Request := { ofBuiltIn .lcg with mode := .hamming, contrast := .observed }
    ∃ image, (r.generate ℚ).outcome = .ok image ∧
      (50 + 50 * ((3 : ℕ) : ℚ) * (655 : ℕ) / (65536 : ℕ)) ∈ (r.generate ℚ).notices.toList ∧
      (r.generate ℚ).notices.toList.head? = some 0 ∧
      (r.generate ℚ).notices.toList.getLast? = some 100 := by
  intro r
  have hgenerator : r.generator = .ok (.builtIn .lcg) := by decide +kernel
  have houtcome : (r.generate ℚ).outcome = .ok (r.synthesize (.builtIn .lcg)) := by
    rw [generate, hgenerator]
  obtain ⟨⟨ks, -, hks, hnotices⟩, hhead, -, -, hlast⟩ := r.generate_notifies.1 _ houtcome
  have hthree : 3 ∈ ks := (hks 3).mpr (by decide)
  have hsize : r.resolution.side.toNat * r.resolution.side.toNat = 65536 := by
    decide
  have hinterval : 65536 / 100 = 655 := rfl
  refine ⟨_, houtcome, ?_, hhead, hlast⟩
  rw [hnotices, if_neg (by decide), hsize, hinterval, List.mem_append, List.mem_append]
  exact .inl (.inr (List.mem_map.mpr ⟨3, hthree, rfl⟩))

end OrbitImage
