import OrbitImage.Proofs.Command.Export
/-!
Which setting wins. Options, sources named by arguments and session files are layers: each gives
some settings and leaves others open. The panel that a command comes to has each of its settings
from the first layer that gives it.
-/
namespace OrbitImage

/-! ### Layers -/

/-- Settings of a panel, of which each may be left open. -/
structure Layer where
  equation : Option String := none
  seed : Option UInt32 := none
  resolution : Option Resolution := none
  mode : Option Mode := none
  bitPlane : Option UInt8 := none
  builtInName : Option String := none
  contrast : Option Contrast := none
  pairScale : Option PairScale := none

namespace Layer

def ofPanel (p : Panel) : Layer :=
  ⟨some p.equation, some p.seed, some p.resolution, some p.mode, some p.bitPlane,
    some p.builtInName, some p.contrast, some p.pairScale⟩

/-- An equation takes the place of a built-in generator. -/
def ofEquation (equation : String) : Layer :=
  { equation := some equation, builtInName := some "" }

/-- The equation stays beside a built-in generator, but is not looked at. -/
def ofBuiltIn (b : BuiltIn) : Layer :=
  { builtInName := some b.id }

/-- A text that may name a built-in generator. -/
def ofText (text : String) : Layer :=
  match BuiltIn.find? text with
  | some b => ofBuiltIn b
  | none => ofEquation text

/-- A bit wins over a mode, and a bound of the contrast over the observed one. -/
def ofOptions (o : Options) : Layer :=
  { seed := o.seed
    resolution := o.resolution
    mode := o.bitPlane.map (fun _ => .bitPlane) <|> o.mode
    bitPlane := o.bitPlane
    contrast := o.contrastMin.map (.fixed · (o.contrastMax.getD 255)) <|>
      o.contrastMax.map (.fixed 0) <|> if o.contrast then some .observed else none
    pairScale := o.pairScale }

/-- Each setting from the first layer that gives it, or else from a default. -/
def settle (layers : List Layer) (default : Panel) : Panel :=
  { equation := (layers.findSome? equation).getD default.equation
    seed := (layers.findSome? seed).getD default.seed
    resolution := (layers.findSome? resolution).getD default.resolution
    mode := (layers.findSome? mode).getD default.mode
    bitPlane := (layers.findSome? bitPlane).getD default.bitPlane
    builtInName := (layers.findSome? builtInName).getD default.builtInName
    contrast := (layers.findSome? contrast).getD default.contrast
    pairScale := (layers.findSome? pairScale).getD default.pairScale }

theorem settle_append (layers layers' : List Layer) (default : Panel) :
    settle (layers ++ layers') default = settle layers (settle layers' default) := by
  simp only [settle, List.findSome?_append, Option.getD_or]

theorem settle_cons (layer : Layer) (layers : List Layer) (default : Panel) :
    settle (layer :: layers) default = settle [layer] (settle layers default) :=
  settle_append [layer] layers default

theorem settle_ofPanel (p : Option Panel) (default : Panel) :
    settle (p.map ofPanel).toList default = p.getD default := by
  cases p <;> rfl

theorem findSome?_singleton {α : Type} (layer : Layer) (setting : Layer → Option α) :
    [layer].findSome? setting = setting layer := by
  rw [List.findSome?_cons]
  cases setting layer <;> rfl

theorem settle_ofOptions (o : Options) (p : Panel) : settle [ofOptions o] p = o.apply p := by
  have hmode : (ofOptions o).mode.getD p.mode =
      if o.bitPlane.isSome then .bitPlane else o.mode.getD p.mode := by
    unfold ofOptions
    cases o.bitPlane <;> rfl
  have hcontrast : (ofOptions o).contrast.getD p.contrast = o.contrastOver p.contrast := by
    unfold ofOptions Options.contrastOver
    cases o.contrastMin with
    | some low => rfl
    | none =>
        cases o.contrastMax with
        | some high => rfl
        | none => cases o.contrast <;> rfl
  simp only [settle, Options.apply, findSome?_singleton, hmode, hcontrast]
  rfl

theorem settle_ofText (text : String) (p : Panel) : settle [ofText text] p = p.withSource text := by
  unfold ofText Panel.withSource
  cases BuiltIn.find? text <;> rfl

end Layer

/-- What a panel selects. -/
inductive Source
  | builtIn (name : String)
  | equation (text : String)
  deriving DecidableEq, Repr

def Source.ofText (text : String) : Source :=
  match BuiltIn.find? text with
  | some b => .builtIn b.id
  | none => .equation text

namespace Panel

def source (p : Panel) : Source :=
  if p.builtInName.isEmpty then .equation p.equation else .builtIn p.builtInName

/-- The bit plane exists, and a built-in generator that is named is known. -/
def Valid (p : Panel) : Prop :=
  p.bitPlane ≤ 31 ∧ (p.builtInName = "" ∨ ∃ b, BuiltIn.find? p.builtInName = some b)

theorem exists_toRequest_iff {p : Panel} : (∃ r, p.toRequest = .ok r) ↔ p.Valid := by
  simp only [toRequest_eq_ok_iff]
  constructor
  · rintro ⟨r, hbit, ⟨hname, -⟩ | ⟨b, hb, -⟩⟩
    · exact ⟨hbit, .inl hname⟩
    · exact ⟨hbit, .inr ⟨b, hb⟩⟩
  · rintro ⟨hbit, hname | ⟨b, hb⟩⟩
    · exact ⟨_, hbit, .inl ⟨hname, rfl⟩⟩
    · exact ⟨_, hbit, .inr ⟨b, hb, rfl⟩⟩

theorem checked_eq_ok_iff_valid {p q : Panel} : p.checked = .ok q ↔ q = p ∧ p.Valid := by
  rw [checked_eq_ok_iff, exists_toRequest_iff]

end Panel

/-- A command starts from what it is told to load, if that can be loaded, or from its default. -/
theorem World.start_eq_ok_iff {α β : Type} [Saved α] {w : World} {session : Option String}
    {of : α → β} {default s : β} :
    w.start session of default = .ok s ↔
      ∃ config : Option β, session.map (fun path => of <$> w.load path) = config.map .ok ∧
        s = config.getD default := by
  cases session with
  | none =>
      constructor
      · rintro ⟨⟩
        exact ⟨none, rfl, rfl⟩
      · rintro ⟨config, hconfig, rfl⟩
        cases config with
        | none => rfl
        | some s => cases hconfig
  | some path =>
      constructor
      · intro h
        exact ⟨some s, congrArg some h, rfl⟩
      · rintro ⟨config, hconfig, rfl⟩
        cases config with
        | none => cases hconfig
        | some s => exact Option.some_inj.mp hconfig

/-! ### One image -/

namespace RenderArguments

/-- The panel and the preset are what the arguments name, if they name any. -/
structure Reads (a : RenderArguments) (w : World) (config : Option Panel)
    (preset : Option Preset) : Prop where
  config : a.session.map (fun path => Session.panel <$> w.load path) = config.map .ok
  preset : a.preset.map Preset.find? = preset.map some

/-- Of the sources the built-in generator comes first, then the equation, then the preset. -/
def sources (a : RenderArguments) (preset : Option Preset) : List Layer :=
  (a.builtIn.map Layer.ofBuiltIn).toList ++ (a.equation.map Layer.ofEquation).toList ++
    (preset.map (Layer.ofEquation ·.equation)).toList

def layers (a : RenderArguments) (config : Option Panel) (preset : Option Preset) : List Layer :=
  .ofOptions a.options :: a.sources preset ++ (config.map Layer.ofPanel).toList

/-- The panel for what the arguments name. -/
def settled (a : RenderArguments) (config : Option Panel) (preset : Option Preset) : Panel :=
  Layer.settle (a.layers config preset) {}

theorem withSource_of_no_preset {a : RenderArguments} (h : a.preset = none) (start : Panel) :
    a.withSource start = .ok (Layer.settle (a.sources none) start) := by
  rw [withSource, h, sources]
  cases a.builtIn <;> cases a.equation <;> rfl

theorem withSource_of_preset {a : RenderArguments} {name : String} (h : a.preset = some name)
    {preset : Preset} (hfind : Preset.find? name = some preset) (start : Panel) :
    a.withSource start = .ok (Layer.settle (a.sources preset) start) := by
  rw [withSource, h, sources]
  simp only [hfind]
  cases a.builtIn <;> cases a.equation <;> rfl

theorem withSource_of_unknown {a : RenderArguments} {name : String} (h : a.preset = some name)
    (hfind : Preset.find? name = none) (start : Panel) :
    a.withSource start = .error (.setting (.unknownPreset name)) := by
  rw [withSource, h]
  simp only [hfind]
  rfl

theorem withSource_eq_ok_iff {a : RenderArguments} {start p : Panel} :
    a.withSource start = .ok p ↔ ∃ preset, a.preset.map Preset.find? = preset.map some ∧
      p = Layer.settle (a.sources preset) start := by
  cases hpreset : a.preset with
  | none =>
      rw [withSource_of_no_preset hpreset, Except.ok.injEq]
      constructor
      · rintro rfl
        exact ⟨none, rfl, rfl⟩
      · rintro ⟨preset, hnone, rfl⟩
        obtain rfl : preset = none := Option.map_eq_none_iff.mp hnone.symm
        rfl
  | some name =>
      cases hfind : Preset.find? name with
      | none =>
          rw [withSource_of_unknown hpreset hfind, Option.map_some, hfind]
          constructor
          · intro h
            cases h
          · rintro ⟨preset, hsome, -⟩
            obtain ⟨_, -, h⟩ := Option.map_eq_some_iff.mp hsome.symm
            cases h
      | some q =>
          rw [withSource_of_preset hpreset hfind, Except.ok.injEq, Option.map_some, hfind]
          constructor
          · rintro rfl
            exact ⟨q, rfl, rfl⟩
          · rintro ⟨preset, hsome, rfl⟩
            obtain ⟨_, rfl, h⟩ := Option.map_eq_some_iff.mp hsome.symm
            rw [Option.some_inj.mp h]

/-- The panel of arguments, with each setting from the first layer that gives it. -/
theorem panel_eq_ok_iff {a : RenderArguments} {config : Option Panel} {p : Panel} :
    a.panel (config.getD {}) = .ok p ↔
      ∃ preset, a.preset.map Preset.find? = preset.map some ∧
        p = a.settled config preset ∧ p.Valid := by
  have hlayers (preset : Option Preset) : a.settled config preset =
      a.options.apply (Layer.settle (a.sources preset) (config.getD {})) := by
    rw [settled, layers, List.cons_append, Layer.settle_cons, Layer.settle_append,
      Layer.settle_ofPanel, Layer.settle_ofOptions]
  rw [panel, bind_eq_ok_iff]
  simp only [withSource_eq_ok_iff, Panel.checked_eq_ok_iff_valid, hlayers]
  constructor
  · rintro ⟨_, ⟨preset, hpreset, rfl⟩, rfl, hvalid⟩
    exact ⟨preset, hpreset, rfl, hvalid⟩
  · rintro ⟨preset, hpreset, rfl, hvalid⟩
    exact ⟨_, ⟨preset, hpreset, rfl⟩, rfl, hvalid⟩

theorem outcome_eq_ok_iff {a : RenderArguments} {w : World} {p : Panel} :
    (w.start a.session Session.panel {} >>= a.panel) = .ok p ↔
      ∃ config preset, a.Reads w config preset ∧ p = a.settled config preset ∧ p.Valid := by
  rw [bind_eq_ok_iff]
  simp only [World.start_eq_ok_iff]
  constructor
  · rintro ⟨_, ⟨config, hconfig, rfl⟩, hpanel⟩
    obtain ⟨preset, hpreset, hp, hvalid⟩ := panel_eq_ok_iff.mp hpanel
    exact ⟨config, preset, ⟨hconfig, hpreset⟩, hp, hvalid⟩
  · rintro ⟨config, preset, hreads, hp, hvalid⟩
    exact ⟨_, ⟨config, hreads.config, rfl⟩, panel_eq_ok_iff.mpr ⟨preset, hreads.preset, hp, hvalid⟩⟩

end RenderArguments

/-! ### Two images -/

namespace SplitArguments

/-- The panels are what the arguments name, if they name any. -/
def Reads (a : SplitArguments) (w : World) (config : Option (Both Panel)) : Prop :=
  a.session.map (fun path => (fun s : SplitSession => Both.mk s.left s.right) <$> w.load path) =
    config.map .ok

/-- The layers of a side, without the seed that only the right side has. -/
def layers (a : SplitArguments) (text : Option String) (config : Option Panel) : List Layer :=
  .ofOptions a.options :: (text.map Layer.ofText).toList ++ (config.map Layer.ofPanel).toList

/-- The seed on the right: its own, or the one after the seed of the options. -/
def rightLayer (a : SplitArguments) : Layer :=
  { seed := a.rightSeed <|> a.options.seed.map (· + 1) }

/-- The panels for what the arguments name. -/
def settled (a : SplitArguments) (config : Option (Both Panel)) : Both Panel :=
  { left := Layer.settle (a.layers a.left (config.map (·.left))) {}
    right := Layer.settle (a.rightLayer :: a.layers a.right (config.map (·.right)))
      { seed := defaultSeed + 1 } }

theorem settle_layers (a : SplitArguments) (text : Option String) (config : Option Panel)
    (default : Panel) :
    Layer.settle (a.layers text config) default =
      a.options.apply ((config.getD default).withSource? text) := by
  rw [layers, List.cons_append, Layer.settle_cons, Layer.settle_append, Layer.settle_ofPanel,
    Layer.settle_ofOptions]
  cases text with
  | none => rfl
  | some text => exact congrArg a.options.apply (Layer.settle_ofText text _)

theorem settle_rightLayer (a : SplitArguments) (p : Panel) :
    Layer.settle [a.rightLayer] p = { p with seed := a.seedOnRight p.seed } := by
  unfold rightLayer seedOnRight
  cases a.rightSeed <;> cases a.options.seed <;> rfl

theorem settled_left (a : SplitArguments) (config : Option (Both Panel)) :
    (a.settled config).left = a.leftPanel (config.getD defaultPanels).left := by
  refine (a.settle_layers a.left (config.map (·.left)) {}).trans ?_
  rw [leftPanel]
  cases config <;> rfl

theorem settled_right (a : SplitArguments) (config : Option (Both Panel)) :
    (a.settled config).right = a.rightPanel (config.getD defaultPanels).right := by
  refine (Layer.settle_cons a.rightLayer _ _).trans ?_
  rw [settle_layers, settle_rightLayer, rightPanel]
  cases config <;> rfl

theorem outcome_eq_ok_iff {a : SplitArguments} {w : World} {p : Both Panel} :
    (w.start a.session (fun s : SplitSession => Both.mk s.left s.right) defaultPanels >>=
        a.panels) = .ok p ↔
      ∃ config : Option (Both Panel), a.Reads w config ∧
        p = a.settled config ∧ p.left.Valid ∧ p.right.Valid := by
  rw [bind_eq_ok_iff]
  simp only [World.start_eq_ok_iff, panels_eq_ok_iff, Panel.checked_eq_ok_iff_valid]
  constructor
  · rintro ⟨_, ⟨config, hconfig, rfl⟩, ⟨hleft, hl⟩, hright, hr⟩
    rw [← settled_left] at hleft hl
    rw [← settled_right] at hright hr
    have hp : p = a.settled config :=
      calc p = ⟨p.left, p.right⟩ := rfl
        _ = a.settled config := by rw [hleft, hright]
    exact ⟨config, hconfig, hp, hleft ▸ hl, hright ▸ hr⟩
  · rintro ⟨config, hconfig, rfl, hl, hr⟩
    refine ⟨_, ⟨config, hconfig, rfl⟩, ?_⟩
    rw [← settled_left, ← settled_right]
    exact ⟨⟨rfl, hl⟩, rfl, hr⟩

end SplitArguments

end OrbitImage
