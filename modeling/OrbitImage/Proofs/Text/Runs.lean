/-!
Maximal runs of characters with a property. A run at the start of a text ends in one place only, in
front of a character without the property or of nothing; so every text has exactly one list of its
runs.
-/
namespace OrbitImage.Text

/-- The maximal runs of characters with a property, from left to right. -/
inductive Runs (p : Char → Bool) : List Char → List (List Char) → Prop
  | nil : Runs p [] []
  | gap {c cs runs} : p c = false → Runs p cs runs → Runs p (c :: cs) runs
  | run {run cs runs} : run ≠ [] → (∀ c ∈ run, p c) → (∀ c ∈ cs.head?, p c = false) →
      Runs p cs runs → Runs p (run ++ cs) (run :: runs)

theorem takeWhile_append {p : Char → Bool} {cs rest : List Char} (h : ∀ c ∈ cs, p c)
    (hr : ∀ c ∈ rest.head?, p c = false) : (cs ++ rest).takeWhile p = cs := by
  rw [List.takeWhile_append_of_pos h]
  cases rest with
  | nil => simp
  | cons c rest => simp [hr c rfl]

theorem dropWhile_append {p : Char → Bool} {cs rest : List Char} (h : ∀ c ∈ cs, p c)
    (hr : ∀ c ∈ rest.head?, p c = false) : (cs ++ rest).dropWhile p = rest := by
  rw [List.dropWhile_append_of_pos h]
  cases rest with
  | nil => rfl
  | cons c rest => simp [hr c rfl]

/-- A run at the start of a text ends in one place only. -/
theorem run_append_inj {p : Char → Bool} {run run' cs cs' : List Char} (h : ∀ c ∈ run, p c)
    (h' : ∀ c ∈ run', p c) (hcs : ∀ c ∈ cs.head?, p c = false)
    (hcs' : ∀ c ∈ cs'.head?, p c = false) (heq : run ++ cs = run' ++ cs') :
    run = run' ∧ cs = cs' := by
  have hsame : run = run' := by
    rw [← takeWhile_append h hcs, heq, takeWhile_append h' hcs']
  subst hsame
  exact ⟨rfl, List.append_cancel_left heq⟩

theorem exists_runs (p : Char → Bool) (cs : List Char) : ∃ runs, Runs p cs runs := by
  induction cs with
  | nil => exact ⟨[], .nil⟩
  | cons c cs ih =>
      obtain ⟨runs, hruns⟩ := ih
      cases hc : p c with
      | false => exact ⟨runs, .gap hc hruns⟩
      | true =>
          have halone : (∀ d ∈ cs.head?, p d = false) → Runs p ([c] ++ cs) ([c] :: runs) :=
            fun hcs => .run (by simp) (by simpa using hc) hcs hruns
          cases hruns with
          | nil => exact ⟨_, halone (by simp)⟩
          | gap hd hrest => exact ⟨_, halone (by simpa using hd)⟩
          | @run run cs runs hne hall hcs hrest =>
              have hlonger : Runs p ((c :: run) ++ cs) ((c :: run) :: runs) :=
                .run (by simp) (List.forall_mem_cons.mpr ⟨hc, hall⟩) hcs hrest
              exact ⟨_, hlonger⟩

namespace Runs

variable {p : Char → Bool} {c : Char} {cs run : List Char} {runs : List (List Char)}

theorem eq_nil (h : Runs p [] runs) : runs = [] := by
  generalize hnil : [] = cs at h
  cases h with
  | nil => rfl
  | gap => cases hnil
  | run hne => exact absurd (List.append_eq_nil_iff.mp hnil.symm).1 hne

theorem of_gap (h : Runs p (c :: cs) runs) (hc : p c = false) : Runs p cs runs := by
  generalize hcons : c :: cs = ds at h
  cases h with
  | nil => cases hcons
  | gap hd hrest =>
      cases hcons
      exact hrest
  | @run run rest runs hne hall hrest hruns =>
      obtain ⟨d, ds, rfl⟩ := List.exists_cons_of_ne_nil hne
      obtain ⟨rfl, -⟩ := List.cons.inj hcons
      rw [hall c List.mem_cons_self] at hc
      cases hc

/-- A run is as long as it can be, so it is the one in front. -/
theorem of_run (h : Runs p (run ++ cs) runs) (hne : run ≠ []) (hall : ∀ c ∈ run, p c)
    (hcs : ∀ c ∈ cs.head?, p c = false) : ∃ rest, runs = run :: rest ∧ Runs p cs rest := by
  generalize happend : run ++ cs = ds at h
  cases h with
  | nil => exact absurd (List.append_eq_nil_iff.mp happend).1 hne
  | gap hc =>
      obtain ⟨d, ds, rfl⟩ := List.exists_cons_of_ne_nil hne
      obtain ⟨rfl, -⟩ := List.cons.inj happend
      rw [hall d List.mem_cons_self] at hc
      cases hc
  | @run piece rest runs hpne hpall hrest hruns =>
      obtain ⟨rfl, rfl⟩ := run_append_inj hall hpall hcs hrest happend
      exact ⟨runs, rfl, hruns⟩

theorem forall_mem (h : Runs p cs runs) : ∀ run ∈ runs, run ≠ [] ∧ ∀ c ∈ run, p c := by
  induction h with
  | nil => simp
  | gap hc hrest ih => exact ih
  | run hne hall hcs hrest ih => exact List.forall_mem_cons.mpr ⟨⟨hne, hall⟩, ih⟩

theorem unique {runs' : List (List Char)} (h : Runs p cs runs) (h' : Runs p cs runs') :
    runs' = runs := by
  induction h generalizing runs' with
  | nil => exact h'.eq_nil
  | gap hc hrest ih => exact ih (h'.of_gap hc)
  | run hne hall hcs hrest ih =>
      obtain ⟨rest, rfl, hrest'⟩ := h'.of_run hne hall hcs
      rw [ih hrest']

end Runs

end OrbitImage.Text
