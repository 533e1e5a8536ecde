import OrbitImage.Command.Split
import OrbitImage.Proofs.Host.World
import OrbitImage.Proofs.Session.RoundTrip
/-!
Sessions as they are exported. The panels that arguments come to, saved and read again, come to
themselves: without any other argument, and with the same ones.
-/
namespace OrbitImage

theorem Panel.checked_eq_ok_iff {p q : Panel} :
    p.checked = .ok q ↔ q = p ∧ ∃ r, p.toRequest = .ok r := by
  simp only [checked, bind_eq_ok_iff, pure_eq_ok_iff, exists_and_right, and_comm (a := q = p)]

namespace Options

/-- Options that have nothing to change once others are applied. -/
def CoveredBy (o o' : Options) : Prop :=
  ∀ p, o.apply (o'.apply p) = o'.apply p

theorem apply_empty (p : Panel) : ({} : Options).apply p = p :=
  rfl

theorem coveredBy_empty (o : Options) : CoveredBy {} o :=
  fun p => apply_empty (o.apply p)

theorem contrastOver_contrastOver (o : Options) (contrast : Contrast) :
    o.contrastOver (o.contrastOver contrast) = o.contrastOver contrast := by
  unfold contrastOver
  cases o.contrastMin with
  | none =>
      cases o.contrastMax with
      | none => cases o.contrast <;> rfl
      | some high => rfl
  | some low => rfl

/-- Options are covered by themselves with another seed, if they give none. -/
theorem coveredBy_of_seed {o : Options} {seed : Option UInt32} (h : o.seed = none ∨ o.seed = seed)
    (randomSeed : Bool) : o.CoveredBy { o with seed, randomSeed } := by
  intro p
  have hseed : o.seed.getD (seed.getD p.seed) = seed.getD p.seed := by
    obtain h | h := h
    · rw [h, Option.getD_none]
    · cases seed <;> simp [h]
  have hmode : (if o.bitPlane.isSome then Mode.bitPlane
      else o.mode.getD (if o.bitPlane.isSome then .bitPlane else o.mode.getD p.mode)) =
        if o.bitPlane.isSome then .bitPlane else o.mode.getD p.mode := by
    split
    · rfl
    · cases o.mode <;> rfl
  have hgiven : ∀ {α : Type} (given : Option α) (a : α),
      given.getD (given.getD a) = given.getD a := by
    intro α given a
    cases given <;> rfl
  have hcontrast := o.contrastOver_contrastOver p.contrast
  simp only [apply, contrastOver] at hcontrast ⊢
  simp only [hseed, hmode, hgiven, hcontrast]

theorem coveredBy_self (o : Options) : o.CoveredBy o :=
  coveredBy_of_seed (.inr rfl) o.randomSeed

/-- The options before a seed was drawn. -/
theorem coveredBy_roll {o : Options} (h : o.randomSeed → o.seed = none) (drawn : UInt32) :
    o.CoveredBy (o.roll drawn).1 := by
  unfold roll
  split
  · next hrandom => exact coveredBy_of_seed (.inl (h hrandom)) false
  · exact o.coveredBy_self

end Options

namespace World

/-- What a command starts from: what a session file holds, if one is given, or else a default. -/
def start {α β : Type} [Saved α] (w : World) (session : Option String) (of : α → β) (default : β) :
    Except Fault β :=
  match session with
  | some path => of <$> w.load path
  | none => .ok default

theorem run_start {α β γ : Type} [Saved α] (w : World) (session : Option String) (of : α → β)
    (default : β) (next : β → Except Fault γ) :
    w.run (do
      let start ← match session with
        | some path => do
          let saved ← Host.load (α := α) path
          pure (of saved)
        | none => pure default
      next start) = (w.start session of default >>= next, w) := by
  cases session with
  | none => rfl
  | some path =>
      cases hload : w.load (α := α) path with
      | ok saved =>
          have hrun : w.run (Host.load (α := α) path) = (.ok saved, w) := by rw [run_load, hload]
          simp only [start, hload]
          exact run_bind_of_ok hrun
      | error fault =>
          have hrun : w.run (Host.load (α := α) path) = (.error fault, w) := by rw [run_load, hload]
          simp only [start, hload]
          exact run_bind_of_error hrun

/-- What is settled comes from a drawn number, and from a world with the same files. -/
theorem of_run_settle {α β : Type} {options : Options} {of : Options → α}
    {resolve : α → Command (StateM World) β} {a : α} {b : β} {w w' : World}
    (h : w.run (do
      let a := of (← Host.rollSeed options)
      return (a, ← resolve a)) = (.ok (a, b), w')) :
    ∃ rolled drawn, SameFiles w rolled ∧ a = of (options.roll drawn).1 ∧
      rolled.run (resolve a) = (.ok b, w') := by
  obtain ⟨rolled, drawn, hroll, hsame⟩ := w.run_rollSeed options
  rw [run_bind_of_ok hroll, run_bind_eq_ok_iff] at h
  obtain ⟨q, resolved, hresolve, hpure⟩ := h
  rw [run_pure] at hpure
  cases hpure
  exact ⟨rolled, drawn, hsame, rfl, hresolve⟩

end World

namespace RenderArguments

variable {m : Type → Type} [Host m]

/-- The arguments with a seed drawn if one is asked for, and the panel to render. -/
def settle (a : RenderArguments) : Command m (RenderArguments × Panel) := do
  let a := { a with options := ← Host.rollSeed a.options }
  return (a, ← a.resolve)

/-- The request for the panel to render. -/
def request (a : RenderArguments) : Command m Request := do
  (← a.resolve).toRequest

/-- A panel that has the source of the arguments is left as it is. -/
theorem withSource_of_source {a : RenderArguments} {start q p : Panel}
    (h : a.withSource start = .ok q) (hequation : p.equation = q.equation)
    (hname : p.builtInName = q.builtInName) : a.withSource p = .ok p := by
  obtain ⟨equation, seed, resolution, mode, bitPlane, name, contrast, pairScale⟩ := p
  obtain rfl : equation = q.equation := hequation
  obtain rfl : name = q.builtInName := hname
  unfold withSource at h ⊢
  cases hpreset : a.preset with
  | none =>
      simp only [hpreset, pure_bind, pure_eq_ok_iff] at h ⊢
      rw [h]
      cases a.equation <;> cases a.builtIn <;> rfl
  | some preset =>
      cases hfind : Preset.find? preset with
      | none =>
          simp only [hpreset, hfind] at h
          cases h
      | some preset =>
          simp only [hpreset, hfind, pure_bind, pure_eq_ok_iff] at h ⊢
          rw [h]
          cases a.equation <;> cases a.builtIn <;> rfl

/-- Arguments that have nothing to change on a panel that others came to: those without a source, or
with the same one. -/
structure CoveredBy (a b : RenderArguments) : Prop where
  source : a.preset = none ∧ a.equation = none ∧ a.builtIn = none ∨
    a.preset = b.preset ∧ a.equation = b.equation ∧ a.builtIn = b.builtIn
  options : a.options.CoveredBy b.options

theorem coveredBy_empty (a : RenderArguments) (session : Option String) :
    CoveredBy { session } a :=
  ⟨.inl ⟨rfl, rfl, rfl⟩, Options.coveredBy_empty _⟩

theorem coveredBy_self (a : RenderArguments) (session : Option String) :
    CoveredBy { a with session } a :=
  ⟨.inr ⟨rfl, rfl, rfl⟩, a.options.coveredBy_self⟩

/-- The arguments before a seed was drawn. -/
theorem coveredBy_roll {a : RenderArguments} (h : a.options.randomSeed → a.options.seed = none)
    (drawn : UInt32) (session : Option String) :
    CoveredBy { a with session } { a with options := (a.options.roll drawn).1 } :=
  ⟨.inr ⟨rfl, rfl, rfl⟩, Options.coveredBy_roll h drawn⟩

theorem panel_again {a b : RenderArguments} {start p : Panel} (hcovered : a.CoveredBy b)
    (h : b.panel start = .ok p) : a.panel p = .ok p := by
  obtain ⟨q, hq, hchecked⟩ := bind_eq_ok_iff.mp h
  obtain ⟨rfl, hrequest⟩ := Panel.checked_eq_ok_iff.mp hchecked
  have hkept : a.withSource (b.options.apply q) = .ok (b.options.apply q) := by
    obtain ⟨hpreset, hequation, hbuiltIn⟩ | ⟨hpreset, hequation, hbuiltIn⟩ := hcovered.source
    · rw [withSource, hpreset, hequation, hbuiltIn]
      rfl
    · have hagain := withSource_of_source (p := b.options.apply q) hq rfl rfl
      rw [withSource, hpreset, hequation, hbuiltIn]
      exact hagain
  rw [panel, hkept]
  change (a.options.apply (b.options.apply q)).checked = _
  rw [hcovered.options q]
  exact Panel.checked_eq_ok_iff.mpr ⟨rfl, hrequest⟩

theorem exists_request_of_panel {a : RenderArguments} {start p : Panel}
    (h : a.panel start = .ok p) : ∃ r, p.toRequest = .ok r := by
  obtain ⟨q, -, hchecked⟩ := bind_eq_ok_iff.mp h
  obtain ⟨hp, hrequest⟩ := Panel.checked_eq_ok_iff.mp hchecked
  rwa [hp]

theorem run_resolve (w : World) (a : RenderArguments) :
    w.run a.resolve = (w.start a.session Session.panel {} >>= a.panel, w) :=
  w.run_start a.session Session.panel {} a.panel

theorem of_run_settle {a b : RenderArguments} {p : Panel} {w w' : World}
    (h : w.run a.settle = (.ok (b, p), w')) :
    (∃ drawn, b = { a with options := (a.options.roll drawn).1 }) ∧
      ∃ start, b.panel start = .ok p := by
  obtain ⟨rolled, drawn, -, hb, hresolve⟩ := World.of_run_settle h
  rw [run_resolve, Prod.mk.injEq, bind_eq_ok_iff] at hresolve
  obtain ⟨⟨start, -, hpanel⟩, -⟩ := hresolve
  exact ⟨⟨drawn, hb⟩, start, hpanel⟩

theorem run_of_saved {c : RenderArguments} {p : Panel} {r : Request} {w : World} {path : String}
    {s : Session} (hsession : c.session = some path) (hload : w.load path = .ok s)
    (hpanel : c.panel s.panel = .ok p) (hrequest : p.toRequest = .ok r) :
    w.run c.resolve = (.ok p, w) ∧ w.run c.request = (.ok r, w) := by
  have hresolve : w.run c.resolve = (.ok p, w) := by
    simp only [run_resolve, World.start, hsession, hload]
    exact congrArg (·, w) hpanel
  refine ⟨hresolve, ?_⟩
  rw [request, World.run_bind_of_ok hresolve, hrequest]
  exact w.run_lift (.ok r)

end RenderArguments

namespace Panel

/-- A panel that names the source is left as it is. -/
theorem withSource_of_source {p q : Panel} {source : String}
    (hequation : p.equation = (q.withSource source).equation)
    (hname : p.builtInName = (q.withSource source).builtInName) : p.withSource source = p := by
  obtain ⟨equation, seed, resolution, mode, bitPlane, name, contrast, pairScale⟩ := p
  unfold withSource at hequation hname ⊢
  cases h : BuiltIn.find? source with
  | none =>
      simp only [h] at hequation hname ⊢
      rw [hequation, hname]
  | some b =>
      simp only [h] at hname ⊢
      rw [hname]

/-- The panel with another source, if one is given. -/
def withSource? (p : Panel) (source : Option String) : Panel :=
  match source with
  | some source => p.withSource source
  | none => p

theorem withSource?_of_source {p q : Panel} {source source' : Option String}
    (h : source = none ∨ source = source')
    (hequation : p.equation = (q.withSource? source').equation)
    (hname : p.builtInName = (q.withSource? source').builtInName) : p.withSource? source = p := by
  obtain rfl | rfl := h
  · rfl
  · cases source with
    | none => rfl
    | some source =>
        simp only [withSource?] at hequation hname ⊢
        exact withSource_of_source hequation hname

end Panel

namespace SplitArguments

variable {m : Type → Type} [Host m]

/-- The arguments with a seed drawn if one is asked for, and the panels to render. -/
def settle (a : SplitArguments) : Command m (SplitArguments × Both Panel) := do
  let a := { a with options := ← Host.rollSeed a.options }
  return (a, ← a.resolve)

/-- The requests for the panels to render. -/
def requests (a : SplitArguments) : Command m (Both Request) := do
  let panels ← a.resolve
  return ⟨← panels.left.toRequest, ← panels.right.toRequest⟩

theorem run_resolve (w : World) (a : SplitArguments) :
    w.run a.resolve =
      (w.start a.session (fun s : SplitSession => Both.mk s.left s.right) defaultPanels >>=
        a.panels, w) :=
  w.run_start a.session _ defaultPanels a.panels

theorem run_resolve_default {a : SplitArguments} {p : Both Panel} {w : World}
    (hsession : a.session = none) (h : a.panels defaultPanels = .ok p) :
    w.run a.resolve = (.ok p, w) := by
  simp only [run_resolve, World.start, hsession]
  exact congrArg (·, w) h

/-- Arguments that have nothing to change on panels that others came to. -/
structure CoveredBy (a b : SplitArguments) : Prop where
  left : a.left = none ∨ a.left = b.left
  right : a.right = none ∨ a.right = b.right
  options : a.options.CoveredBy b.options
  seed : ∀ seed, a.seedOnRight (b.seedOnRight seed) = b.seedOnRight seed

/-- Only a session is given. -/
theorem coveredBy_empty (a : SplitArguments) (session : Option String) : CoveredBy { session } a :=
  ⟨.inl rfl, .inl rfl, Options.coveredBy_empty _, fun _ => rfl⟩

theorem seedOnRight_seedOnRight {a b : SplitArguments} (hright : a.rightSeed = b.rightSeed)
    (hseed : a.options.seed = none ∨ a.options.seed = b.options.seed) (seed : UInt32) :
    a.seedOnRight (b.seedOnRight seed) = b.seedOnRight seed := by
  unfold seedOnRight
  rw [hright]
  obtain hseed | hseed := hseed
  · rw [hseed]
    cases b.rightSeed <;> cases b.options.seed <;> rfl
  · rw [hseed]
    cases b.rightSeed <;> cases b.options.seed <;> rfl

theorem coveredBy_self (a : SplitArguments) (session : Option String) :
    CoveredBy { a with session } a :=
  ⟨.inr rfl, .inr rfl, a.options.coveredBy_self, seedOnRight_seedOnRight rfl (.inr rfl)⟩

/-- The arguments before a seed was drawn. -/
theorem coveredBy_roll {a : SplitArguments} (h : a.options.randomSeed → a.options.seed = none)
    (drawn : UInt32) (session : Option String) :
    CoveredBy { a with session } { a with options := (a.options.roll drawn).1 } := by
  refine ⟨.inr rfl, .inr rfl, Options.coveredBy_roll h drawn, seedOnRight_seedOnRight rfl ?_⟩
  by_cases hrandom : a.options.randomSeed
  · exact .inl (h hrandom)
  · refine .inr ?_
    rw [Options.roll, if_neg hrandom]

/-- A seed for both sides says nothing of the seed on the right that it replaces. -/
theorem seedOnRight_getD (a : SplitArguments) (seed : UInt32) :
    a.seedOnRight (a.options.seed.getD seed) = a.seedOnRight seed := by
  unfold seedOnRight
  cases a.rightSeed <;> cases a.options.seed <;> rfl

/-- The panel on the left, unchecked. -/
def leftPanel (a : SplitArguments) (start : Panel) : Panel :=
  a.options.apply (start.withSource? a.left)

/-- The panel on the right, unchecked. -/
def rightPanel (a : SplitArguments) (start : Panel) : Panel :=
  let p := a.options.apply (start.withSource? a.right)
  { p with seed := a.seedOnRight p.seed }

theorem panels_eq_ok_iff {a : SplitArguments} {start p : Both Panel} :
    a.panels start = .ok p ↔
      (a.leftPanel start.left).checked = .ok p.left ∧
        (a.rightPanel start.right).checked = .ok p.right := by
  change (do return (⟨← (a.leftPanel start.left).checked, ← (a.rightPanel start.right).checked⟩ :
    Both Panel)) = Except.ok p ↔ _
  simp only [bind_eq_ok_iff, pure_eq_ok_iff]
  constructor
  · rintro ⟨left, hleft, right, hright, rfl⟩
    exact ⟨hleft, hright⟩
  · rintro ⟨hleft, hright⟩
    exact ⟨p.left, hleft, p.right, hright, rfl⟩

theorem leftPanel_again {a b : SplitArguments} (h : a.CoveredBy b) (start : Panel) :
    a.leftPanel (b.leftPanel start) = b.leftPanel start := by
  have hsource : (b.leftPanel start).withSource? a.left = b.leftPanel start :=
    Panel.withSource?_of_source (q := start) h.left rfl rfl
  rw [leftPanel, hsource]
  exact h.options _

theorem rightPanel_again {a b : SplitArguments} (h : a.CoveredBy b) (start : Panel) :
    a.rightPanel (b.rightPanel start) = b.rightPanel start := by
  have hsource : (b.rightPanel start).withSource? a.right = b.rightPanel start :=
    Panel.withSource?_of_source (q := start) h.right rfl rfl
  let q := b.options.apply (start.withSource? b.right)
  have hoptions : a.options.apply (b.rightPanel start) =
      { q with seed := a.options.seed.getD (b.seedOnRight q.seed) } := by
    have hq : a.options.apply q = q := h.options _
    exact congrArg (fun p : Panel =>
      { p with seed := a.options.seed.getD (b.seedOnRight q.seed) }) hq
  rw [rightPanel, hsource, hoptions]
  change ({ q with seed := a.seedOnRight (a.options.seed.getD (b.seedOnRight q.seed)) } : Panel) = _
  rw [seedOnRight_getD, h.seed]
  rfl

theorem panels_again {a b : SplitArguments} {start p : Both Panel} (hcovered : a.CoveredBy b)
    (h : b.panels start = .ok p) : a.panels p = .ok p := by
  obtain ⟨hleft, hright⟩ := panels_eq_ok_iff.mp h
  obtain ⟨hl, hleftRequest⟩ := Panel.checked_eq_ok_iff.mp hleft
  obtain ⟨hr, hrightRequest⟩ := Panel.checked_eq_ok_iff.mp hright
  rw [panels_eq_ok_iff, Panel.checked_eq_ok_iff, Panel.checked_eq_ok_iff, hl, hr,
    leftPanel_again hcovered, rightPanel_again hcovered]
  exact ⟨⟨rfl, hleftRequest⟩, rfl, hrightRequest⟩

theorem exists_requests_of_panels {a : SplitArguments} {start p : Both Panel}
    (h : a.panels start = .ok p) :
    ∃ r : Both Request, p.left.toRequest = .ok r.left ∧ p.right.toRequest = .ok r.right := by
  obtain ⟨hleft, hright⟩ := panels_eq_ok_iff.mp h
  obtain ⟨hl, left, hleftRequest⟩ := Panel.checked_eq_ok_iff.mp hleft
  obtain ⟨hr, right, hrightRequest⟩ := Panel.checked_eq_ok_iff.mp hright
  rw [hl, hr]
  exact ⟨⟨left, right⟩, hleftRequest, hrightRequest⟩

theorem of_run_settle {a b : SplitArguments} {p : Both Panel} {w w' : World}
    (h : w.run a.settle = (.ok (b, p), w')) :
    World.SameFiles w w' ∧ (∃ drawn, b = { a with options := (a.options.roll drawn).1 }) ∧
      ∃ start, b.panels start = .ok p := by
  obtain ⟨rolled, drawn, hsame, hb, hresolve⟩ := World.of_run_settle h
  rw [run_resolve, Prod.mk.injEq, bind_eq_ok_iff] at hresolve
  obtain ⟨⟨start, -, hpanels⟩, rfl⟩ := hresolve
  exact ⟨hsame, ⟨drawn, hb⟩, start, hpanels⟩

theorem run_of_saved {c : SplitArguments} {p : Both Panel} {r : Both Request} {w : World}
    {path : String} {s : SplitSession} (hsession : c.session = some path)
    (hload : w.load path = .ok s) (hpanels : c.panels ⟨s.left, s.right⟩ = .ok p)
    (hleft : p.left.toRequest = .ok r.left) (hright : p.right.toRequest = .ok r.right) :
    w.run c.resolve = (.ok p, w) ∧ w.run c.requests = (.ok r, w) := by
  have hresolve : w.run c.resolve = (.ok p, w) := by
    simp only [run_resolve, World.start, hsession, hload]
    exact congrArg (·, w) hpanels
  refine ⟨hresolve, ?_⟩
  rw [requests, World.run_bind_of_ok hresolve, hleft, hright]
  exact (World.run_bind_of_ok (w.run_lift (.ok r.left))).trans
    (World.run_bind_of_ok (w.run_lift (.ok r.right)))

end SplitArguments

/-- An exported session reproduces its run. The settings that arguments come to are saved to a file
that is read as JSON; then they come from this file again, with the same requests: without any other
argument, with the arguments that were settled, and with the arguments as they were given, a seed to
be drawn included unless another one was given besides. -/
theorem exported_session_reproduces :
    (∀ (a b : RenderArguments) (p : Panel) (time : Option String) (path : String) (w w₁ w₂ : World),
      w.run a.settle = (.ok (b, p), w₁) → Host.isYaml path = false →
      w₁.run (Host.save path ({ panel := p, timestamp := time } : Session)) = (.ok (), w₂) →
      ∃ r, p.toRequest = .ok r ∧ ∀ c : RenderArguments,
        c = { session := some path } ∨ c = { b with session := some path } ∨
          (a.options.randomSeed → a.options.seed = none) ∧ c = { a with session := some path } →
        w₂.run c.resolve = (.ok p, w₂) ∧ w₂.run c.request = (.ok r, w₂)) ∧
    (∀ (a b : SplitArguments) (p : Both Panel) (time : Option String) (path : String)
      (w w₁ w₂ : World),
      w.run a.settle = (.ok (b, p), w₁) → Host.isYaml path = false →
      w₁.run (Host.save path
        ({ left := p.left, right := p.right, timestamp := time } : SplitSession)) = (.ok (), w₂) →
      ∃ r : Both Request, p.left.toRequest = .ok r.left ∧ p.right.toRequest = .ok r.right ∧
        ∀ c : SplitArguments,
          c = { session := some path } ∨ c = { b with session := some path } ∨
            (a.options.randomSeed → a.options.seed = none) ∧ c = { a with session := some path } →
          w₂.run c.resolve = (.ok p, w₂) ∧ w₂.run c.requests = (.ok r, w₂)) := by
  constructor
  · intro a b p time path w w₁ w₂ hsettle hjson hsave
    obtain ⟨⟨drawn, hb⟩, start, hpanel⟩ := RenderArguments.of_run_settle hsettle
    obtain ⟨r, hrequest⟩ := RenderArguments.exists_request_of_panel hpanel
    have hread := Session.ofJson_text ⟨p, time⟩
    have hload := World.load_of_run_save hread hjson hsave
    refine ⟨r, hrequest, ?_⟩
    intro c hc
    have hcovered : c.session = some path ∧ c.CoveredBy b := by
      obtain rfl | rfl | ⟨hseed, rfl⟩ := hc
      · exact ⟨rfl, b.coveredBy_empty _⟩
      · exact ⟨rfl, b.coveredBy_self _⟩
      · exact ⟨rfl, hb ▸ RenderArguments.coveredBy_roll hseed drawn _⟩
    have hagain := RenderArguments.panel_again hcovered.2 hpanel
    exact RenderArguments.run_of_saved hcovered.1 hload hagain hrequest
  · intro a b p time path w w₁ w₂ hsettle hjson hsave
    obtain ⟨-, ⟨drawn, hb⟩, start, hpanels⟩ := SplitArguments.of_run_settle hsettle
    obtain ⟨r, hleft, hright⟩ := SplitArguments.exists_requests_of_panels hpanels
    have hread := SplitSession.ofJson_text ⟨p.left, p.right, time⟩
    have hload := World.load_of_run_save hread hjson hsave
    refine ⟨r, hleft, hright, ?_⟩
    intro c hc
    have hcovered : c.session = some path ∧ c.CoveredBy b := by
      obtain rfl | rfl | ⟨hseed, rfl⟩ := hc
      · exact ⟨rfl, b.coveredBy_empty _⟩
      · exact ⟨rfl, b.coveredBy_self _⟩
      · exact ⟨rfl, hb ▸ SplitArguments.coveredBy_roll hseed drawn _⟩
    have hagain := SplitArguments.panels_again hcovered.2 hpanels
    exact SplitArguments.run_of_saved hcovered.1 hload hagain hleft hright

/-- A drawn seed, a bound of the contrast, and another seed on the right. -/
theorem exported_session_reproduces_drawn :
    let w : World := { entries := [], here := [], encoder := .png, random := [7] }
    let options : Options := { randomSeed := true, contrastMin := some 9 }
    let settled : Options := { seed := some 7, contrastMin := some 9 }
    let a : RenderArguments := { equation := some "x + 1", options }
    let p : Panel := { equation := "x + 1", seed := 7, contrast := .fixed 9 255 }
    let b : SplitArguments := { right := some "x + 1", options, rightSeed := some 5 }
    let q : Both Panel := ⟨{ p with equation := defaultEquation }, { p with seed := 5 }⟩
    (∃ w₁ w₂, w.run a.settle = (.ok ({ a with options := settled }, p), w₁) ∧
      w₁.run (Host.save "run.json" ({ panel := p } : Session)) = (.ok (), w₂) ∧
      w₂.run (RenderArguments.resolve { session := some "run.json" }) = (.ok p, w₂) ∧
      w₂.run ({ a with session := some "run.json" } : RenderArguments).resolve = (.ok p, w₂)) ∧
    ∃ w₁ w₂, w.run b.settle = (.ok ({ b with options := settled }, q), w₁) ∧
      w₁.run (Host.save "run.json" ({ left := q.left, right := q.right } : SplitSession)) =
        (.ok (), w₂) ∧
      w₂.run (SplitArguments.resolve { session := some "run.json" }) = (.ok q, w₂) ∧
      w₂.run ({ b with session := some "run.json" } : SplitArguments).resolve = (.ok q, w₂) := by
  intro w options settled a p b q
  let w₁ : World := (w.run (Host.rollSeed options)).2
  have hjson : Host.isYaml "run.json" = false := by decide
  have hplace : World.entry? w₁ ["run.json"] = none := rfl
  have htakes : w₁.Takes "run.json" ["run.json"] := ⟨by decide, by simp [hplace], by decide⟩
  have hsave : ∀ {α : Type} [Saved α] (s : α), w₁.run (Host.save "run.json" s) =
      (.ok (), w₁.put ["run.json"] (.text (Saved.text s))) := by
    intro α _ s
    rw [World.run_save, World.write_of_takes htakes]
  obtain ⟨hrender, hsplit⟩ := exported_session_reproduces
  constructor
  · have hsettle : w.run a.settle = (.ok ({ a with options := settled }, p), w₁) := rfl
    obtain ⟨r, -, hagain⟩ := hrender _ _ p none "run.json" w w₁ _ hsettle hjson (hsave _)
    exact ⟨w₁, _, hsettle, hsave _, (hagain _ (.inl rfl)).1,
      (hagain _ (.inr (.inr ⟨fun _ => rfl, rfl⟩))).1⟩
  · have hfind : BuiltIn.find? "x + 1" = none := by decide +kernel
    have hpanels : ({ b with options := settled } : SplitArguments).panels
        SplitArguments.defaultPanels = .ok q := by
      refine SplitArguments.panels_eq_ok_iff.mpr ⟨rfl, ?_⟩
      simp only [SplitArguments.rightPanel, b, Panel.withSource?, Panel.withSource, hfind]
      rfl
    have hresolve : w₁.run ({ b with options := settled } : SplitArguments).resolve =
        (.ok q, w₁) :=
      SplitArguments.run_resolve_default rfl hpanels
    have hroll : w.run (Host.rollSeed options) = (.ok settled, w₁) := rfl
    have hsettle : w.run b.settle = (.ok ({ b with options := settled }, q), w₁) :=
      (World.run_bind_of_ok hroll).trans (World.run_bind_of_ok hresolve)
    obtain ⟨r, -, -, hagain⟩ := hsplit _ _ q none "run.json" w w₁ _ hsettle hjson (hsave _)
    exact ⟨w₁, _, hsettle, hsave _, (hagain _ (.inl rfl)).1,
      (hagain _ (.inr (.inr ⟨fun _ => rfl, rfl⟩))).1⟩

end OrbitImage
