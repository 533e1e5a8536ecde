import OrbitImage.Proofs.Image.Painting
import OrbitImage.Proofs.Session.Panel
/-!
Which settings of a request its image depends on. The mode decides whether the bit plane, the
contrast and the scale of pairs are read at all, the contrast decides which of its own fields are
read, and of equation and name only one is read. Requests that agree on what is read come to the
same image and notify the same percentages.
-/
namespace OrbitImage
namespace Request

/-! ### The generator -/

/-- The generator that a request selects. With a built-in generator the equation is not looked at;
without its name the equation is. -/
inductive Selects (r : Request) : Generator → Prop
  | builtIn {b : BuiltIn} (huse : r.useBuiltIn = true) (hname : r.builtInName ≠ "")
      (hfind : BuiltIn.find? r.builtInName = some b) : Selects r (.builtIn b)
  | equation {p : Program} (hnone : r.useBuiltIn = false ∨ r.builtInName = "")
      (hcompile : Program.compile r.equation = .ok p) : Selects r (.custom p)

theorem selectsBuiltIn_iff (r : Request) :
    r.selectsBuiltIn = true ↔ r.useBuiltIn = true ∧ r.builtInName ≠ "" := by
  rw [selectsBuiltIn, Bool.and_eq_true, Bool.not_eq_true', ← Bool.not_eq_true,
    String.isEmpty_iff]

theorem generator_eq_ok_iff_selects {r : Request} {g : Generator} :
    r.generator = .ok g ↔ r.bitPlane ≤ 31 ∧ r.Selects g := by
  rw [generator_eq_ok_iff]
  refine and_congr_right fun _ => ?_
  by_cases hbuiltIn : r.selectsBuiltIn = true
  · obtain ⟨huse, hname⟩ := r.selectsBuiltIn_iff.mp hbuiltIn
    rw [if_pos hbuiltIn]
    constructor
    · rintro ⟨b, hfind, rfl⟩
      exact .builtIn huse hname hfind
    · intro h
      cases h with
      | builtIn _ _ hfind => exact ⟨_, hfind, rfl⟩
      | equation hnone =>
          rw [huse] at hnone
          exact absurd (hnone.resolve_left nofun) hname
  · rw [if_neg hbuiltIn]
    constructor
    · rintro ⟨p, hcompile, rfl⟩
      refine .equation ?_ hcompile
      rw [selectsBuiltIn_iff, Decidable.not_and_iff_or_not] at hbuiltIn
      exact hbuiltIn.imp (Bool.not_eq_true _).mp Decidable.not_not.mp
    · intro h
      cases h with
      | builtIn huse hname => exact absurd (r.selectsBuiltIn_iff.mpr ⟨huse, hname⟩) hbuiltIn
      | equation _ hcompile => exact ⟨_, hcompile, rfl⟩

variable {α : Type} [Percent α]

theorem generate_of_generator_eq {r : Request} {g : Generator} (h : r.generator = .ok g) :
    r.generate α = ⟨r.progress α, .ok (r.synthesize g)⟩ := by
  rw [generate, h]

/-- A request is accepted only if its bit plane exists, whether or not it is shown. -/
theorem generator_of_outcome {r : Request} {g : Generator}
    (h : ∃ image, (r.generate α).outcome = .ok image) (hselects : r.Selects g) :
    r.generator = .ok g := by
  obtain ⟨image, himage⟩ := h
  cases hg : r.generator with
  | ok g' =>
      rw [← hg]
      exact generator_eq_ok_iff_selects.mpr ⟨(generator_eq_ok_iff.mp hg).1, hselects⟩
  | error fault =>
      rw [generate, hg] at himage
      cases himage

/-! ### The other settings -/

/-- Two requests are the same in what their images may depend on, the generator apart. -/
structure Agrees (r r' : Request) : Prop where
  seed : r.seed = r'.seed
  resolution : r.resolution = r'.resolution
  mode : r.mode = r'.mode
  bitPlane : r.mode = .bitPlane → r.bitPlane = r'.bitPlane
  pairScale : r.mode = .pair → r.pairScale = r'.pairScale
  enabled : r.mode ≠ .pair → r.contrast.enabled = r'.contrast.enabled
  auto : r.mode ≠ .pair → r.contrast.enabled = true → r.contrast.auto = r'.contrast.auto
  fixed : r.mode ≠ .pair → r.contrast.enabled = true → r.contrast.auto = false →
    r.contrast.min = r'.contrast.min ∧ r.contrast.max = r'.contrast.max

namespace Agrees

variable {r r' : Request} (h : r.Agrees r')
include h

/-- Only one mode reads the bit plane. -/
theorem gray_eq : r.mode.gray r.bitPlane = r'.mode.gray r'.bitPlane := by
  funext previous x
  rw [← h.mode]
  cases hmode : r.mode with
  | bitPlane => rw [h.bitPlane hmode]
  | raw | hamming | pair | transition => rfl

theorem imageOf_eq : r.imageOf = r'.imageOf := by
  funext pixels bits range
  rw [imageOf, imageOf, h.resolution]

theorem bounds_eq (hmode : r.mode ≠ .pair) (hon : r.contrast.enabled = true) :
    r.contrast.bounds = r'.contrast.bounds := by
  funext observed
  rw [Contrast.bounds, Contrast.bounds, ← h.auto hmode hon]
  cases hauto : r.contrast.auto with
  | true => rfl
  | false =>
      obtain ⟨hmin, hmax⟩ := h.fixed hmode hon hauto
      rw [hmin, hmax]

theorem singlePass_eq (g : Generator) : r.singlePass g = r'.singlePass g := by
  rw [singlePass, singlePass, h.gray_eq, h.imageOf_eq, h.resolution, h.seed]

theorem twoPass_eq (hmode : r.mode ≠ .pair) (hon : r.contrast.enabled = true) (g : Generator) :
    r.twoPass g = r'.twoPass g := by
  rw [twoPass, twoPass, h.gray_eq, h.imageOf_eq, h.bounds_eq hmode hon, h.resolution, h.seed]

theorem densityMap_eq (hmode : r.mode = .pair) (g : Generator) :
    r.densityMap g = r'.densityMap g := by
  rw [densityMap, densityMap, h.pairScale hmode, h.resolution, h.seed]

theorem synthesize_eq (g : Generator) : r.synthesize g = r'.synthesize g := by
  by_cases hmode : r.mode = .pair
  · have hmode' : r'.mode = .pair := h.mode ▸ hmode
    rw [synthesize, synthesize, hmode, hmode', h.densityMap_eq hmode]
  · have hmode' : r'.mode ≠ .pair := h.mode ▸ hmode
    rw [synthesize_of_ne_pair hmode, synthesize_of_ne_pair hmode', ← h.enabled hmode]
    cases hon : r.contrast.enabled with
    | true => exact h.twoPass_eq hmode hon g
    | false => exact h.singlePass_eq g

theorem isBuffered_eq : r.isBuffered = r'.isBuffered := by
  by_cases hmode : r.mode = .pair
  · simp only [isBuffered, ← h.mode, hmode, ne_eq, not_true, decide_false, Bool.false_and]
  · rw [isBuffered, isBuffered, ← h.mode, h.enabled hmode]

theorem progress_eq : r.progress α = r'.progress α := by
  rw [progress, progress, schedule, schedule, h.isBuffered_eq, h.resolution]

end Agrees

theorem generate_eq_of_agrees {r r' : Request} {g : Generator}
    (haccepted : ∃ image, (r.generate α).outcome = .ok image)
    (haccepted' : ∃ image, (r'.generate α).outcome = .ok image)
    (hselects : r.Selects g) (hselects' : r'.Selects g) (h : r.Agrees r') :
    r.generate α = r'.generate α := by
  rw [generate_of_generator_eq (generator_of_outcome haccepted hselects),
    generate_of_generator_eq (generator_of_outcome haccepted' hselects'), h.progress_eq,
    h.synthesize_eq g]

/-- An equation that is none, a bit plane, fixed bounds and a scale of pairs, none of them read. -/
theorem generate_eq_of_agrees_idle_settings :
    let r : Request :=
      { equation := "((", mode := .transition, useBuiltIn := true, builtInName := " LCG " }
    let r' : Request :=
      { equation := "x + 1", mode := .transition, bitPlane := 17,
        contrast := { auto := false, min := 9, max := 30 }, useBuiltIn := true,
        builtInName := "lcg", pairScale := .linear }
    r.generate Float = r'.generate Float := by
  intro r r'
  have hselects : r.Selects (.builtIn .lcg) := .builtIn rfl (by decide) (by decide +kernel)
  have hselects' : r'.Selects (.builtIn .lcg) := .builtIn rfl (by decide) (by decide +kernel)
  have hgenerator := generator_eq_ok_iff_selects.mpr ⟨(by decide : r.bitPlane ≤ 31), hselects⟩
  have hgenerator' := generator_eq_ok_iff_selects.mpr ⟨(by decide : r'.bitPlane ≤ 31), hselects'⟩
  have haccepted : ∃ image, (r.generate Float).outcome = .ok image :=
    ⟨r.synthesize (.builtIn .lcg), by rw [generate_of_generator_eq hgenerator]⟩
  have haccepted' : ∃ image, (r'.generate Float).outcome = .ok image :=
    ⟨r'.synthesize (.builtIn .lcg), by rw [generate_of_generator_eq hgenerator']⟩
  exact generate_eq_of_agrees haccepted haccepted' hselects hselects'
    ⟨rfl, rfl, rfl, nofun, nofun, fun _ => rfl, nofun, nofun⟩

end Request

end OrbitImage
