import OrbitImage.Proofs.Command.Export
import OrbitImage.Proofs.Image.Raster
/-!
How a split run ends, by how its sides end. A side without an image leaves the other side alone; but
if the image of the left side cannot be written, the run ends there.
-/
namespace OrbitImage

/-- How a side ends: its image is written, nothing was generated, or its image is not written, but at
most a part of it. -/
inductive SideEnd
  | written (raster : Raster)
  | failed (fault : Fault)
  | refused (fault : Fault) (part? : Option ByteArray)

namespace SideEnd

/-- What a side says to the command: nothing, a fault to keep, or a fault that ends it. -/
def result : SideEnd → Except Fault (Option Fault)
  | written _ => .ok none
  | failed fault => .ok (some fault)
  | refused fault _ => .error fault

/-- The outcome of a command from the ends of its sides. -/
def outcome : SideEnd → SideEnd → Except Fault Unit
  | refused fault _, _ => .error fault
  | _, refused fault _ => .error fault
  | failed fault, _ => .error fault
  | written _, failed fault => .error fault
  | written _, written _ => .ok ()

/-- The side ends the command. -/
def isRefused : SideEnd → Bool
  | refused _ _ => true
  | _ => false

theorem isRefused_of_result {e : SideEnd} {fault : Fault} (h : e.result = .error fault) :
    e.isRefused ∧ ∀ other, outcome e other = .error fault := by
  cases e with
  | written raster => cases h
  | failed kept => cases h
  | refused found part? =>
      cases h
      exact ⟨rfl, fun other => rfl⟩

theorem not_isRefused_of_result {e : SideEnd} {kept : Option Fault} (h : e.result = .ok kept) :
    ¬e.isRefused := by
  cases e with
  | written raster => exact Bool.false_ne_true
  | failed fault => exact Bool.false_ne_true
  | refused fault part? => cases h

/-- The outcome from the faults that the sides keep. -/
def verdict (left right : Option Fault) : Except Fault Unit :=
  match left <|> right with
  | some fault => .error fault
  | none => .ok ()

theorem outcome_eq (left right : SideEnd) :
    outcome left right = (do verdict (← left.result) (← right.result)) := by
  cases left <;> cases right <;> rfl

theorem outcome_eq_ok_iff {left right : SideEnd} :
    outcome left right = .ok () ↔
      (∃ raster, left = written raster) ∧ ∃ raster, right = written raster := by
  cases left <;> cases right <;> simp [outcome]

/-- What a side puts at its path. -/
def entry? : SideEnd → Option Entry
  | written raster => some (.image raster)
  | failed _ => none
  | refused _ part? => part?.map .ofBytes

theorem entry?_ne_directory {e : SideEnd} {entry : Entry} (h : e.entry? = some entry) :
    entry ≠ .directory := by
  cases e with
  | written raster =>
      cases h
      simp
  | failed fault => cases h
  | refused fault part? =>
      obtain ⟨bytes, -, rfl⟩ := Option.map_eq_some_iff.mp h
      unfold Entry.ofBytes
      split <;> simp

/-- What a side leaves behind: what it puts at its path, or the files as they were. -/
def Leaves (e : SideEnd) (path : String) (w w' : World) : Prop :=
  match e.entry? with
  | some entry => ∃ location, w.Takes path location ∧ World.SameFiles (w.put location entry) w'
  | none => World.SameFiles w w'

theorem leaves_of_entry {e : SideEnd} {entry : Entry} (h : e.entry? = some entry)
    {path : String} {w w' : World} : e.Leaves path w w' ↔
      ∃ location, w.Takes path location ∧ World.SameFiles (w.put location entry) w' := by
  rw [Leaves, h]

theorem leaves_of_none {e : SideEnd} (h : e.entry? = none) {path : String} {w w' : World} :
    e.Leaves path w w' ↔ World.SameFiles w w' := by
  rw [Leaves, h]

namespace Leaves

variable {e : SideEnd} {path : String} {w told w' w'' : World}

theorem of_sameFiles (h : e.Leaves path told w') (hsame : World.SameFiles w told) :
    e.Leaves path w w' := by
  cases hentry : e.entry? with
  | some entry =>
      obtain ⟨location, htakes, hfiles⟩ := (leaves_of_entry hentry).mp h
      exact (leaves_of_entry hentry).mpr
        ⟨location, hsame.sameDirectories.takes.mp htakes, (hsame.put _ _).trans hfiles⟩
  | none => exact (leaves_of_none hentry).mpr (hsame.trans ((leaves_of_none hentry).mp h))

theorem trans_sameFiles (h : e.Leaves path w w') (hsame : World.SameFiles w' w'') :
    e.Leaves path w w'' := by
  cases hentry : e.entry? with
  | some entry =>
      obtain ⟨location, htakes, hfiles⟩ := (leaves_of_entry hentry).mp h
      exact (leaves_of_entry hentry).mpr ⟨location, htakes, hfiles.trans hsame⟩
  | none => exact (leaves_of_none hentry).mpr (((leaves_of_none hentry).mp h).trans hsame)

/-- A written image is what its path leads to. -/
theorem holds {raster : Raster} (h : (written raster).Leaves path w w') :
    w'.Holds path (.image raster) := by
  obtain ⟨location, htakes, hfiles⟩ := h
  have hput := World.holds_of_write (by simp) (World.write_of_takes htakes (.image raster))
  exact hfiles.holds.mpr hput

theorem sameDirectories (h : e.Leaves path w w') : World.SameDirectories w w' := by
  cases hentry : e.entry? with
  | some entry =>
      obtain ⟨location, htakes, hfiles⟩ := (leaves_of_entry hentry).mp h
      have hput := World.SameDirectories.put htakes.free (entry?_ne_directory hentry)
      exact hput.trans hfiles.sameDirectories
  | none => exact ((leaves_of_none hentry).mp h).sameDirectories

/-- What stands elsewhere stays. -/
theorem keeps {other : String} {entry : Entry} {place : Location} (h : e.Leaves path w w')
    (hholds : w.Holds other entry) (hplace : w.locate (World.stepsOf other) = .ok place)
    (hne : ∀ location, w.Takes path location → place ≠ location) : w'.Holds other entry := by
  cases hentry : e.entry? with
  | some written =>
      obtain ⟨location, htakes, hfiles⟩ := (leaves_of_entry hentry).mp h
      exact hfiles.holds.mpr
        (hholds.write hplace (entry?_ne_directory hentry) htakes (hne location htakes))
  | none => exact ((leaves_of_none hentry).mp h).holds.mpr hholds

/-- One side leaves the place of the other as it is. -/
theorem place_suffixed {output : String} {side : Side}
    (h : e.Leaves (Path.suffixed output side.name) w w') (other : Side) :
    w'.place (Path.suffixed output other.name) = w.place (Path.suffixed output other.name) := by
  cases hentry : e.entry? with
  | some entry =>
      obtain ⟨location, htakes, -⟩ := (leaves_of_entry hentry).mp h
      exact htakes.place_suffixed h.sameDirectories other
  | none => exact ((leaves_of_none hentry).mp h).place _

end Leaves

/-! ### Writing an image -/

/-- How the writing of an image ends: first its format must be known, then there must be a place, and
then the encoder must take all of it. -/
def ofWriting (w : World) (path : String) (raster : Raster) : SideEnd :=
  match w.encoder.refusal? (Path.extension? path), w.place path,
    w.encoder.encode (Path.extension? path) raster with
  | some reason, _, _ => refused (.file path (.noImageWritten reason)) none
  | none, .error refusal, _ => refused (.file path (.noImageWritten refusal.reason)) none
  | none, .ok _, .part bytes reason => refused (.file path (.noImageWritten reason)) (some bytes)
  | none, .ok _, .whole _ => written raster

theorem ofWriting_congr {w w' : World} {path : String} (hencoder : w'.encoder = w.encoder)
    (hplace : w'.place path = w.place path) (raster : Raster) :
    ofWriting w' path raster = ofWriting w path raster := by
  simp only [ofWriting, hencoder, hplace]

theorem ofWriting_of_takesImage {w : World} {path : String} {raster : Raster}
    (h : w.TakesImage path raster) : ofWriting w path raster = written raster := by
  obtain ⟨bytes, hencoded⟩ := h.encoded
  obtain ⟨location, htakes⟩ := h.takes
  simp only [ofWriting, h.known, hencoded, World.place_eq_ok_iff.mpr htakes]

/-- An image that is not written ends the command. -/
theorem result_ofWriting {w : World} {path : String} {raster : Raster} {kept : Option Fault}
    (h : (ofWriting w path raster).result = .ok kept) : kept = none := by
  unfold ofWriting at h
  split at h <;> cases h
  rfl

theorem ofWriting_of_place {w : World} {path : String} {raster : Raster} {refusal : FileRefusal}
    (hknown : w.encoder.refusal? (Path.extension? path) = none)
    (hplace : w.place path = .error refusal) :
    ofWriting w path raster = refused (.file path (.noImageWritten refusal.reason)) none := by
  simp only [ofWriting, hknown, hplace]

/-- What becomes of an image is said and left behind as its end has it. -/
theorem writeImage_of_ofWriting (w : World) (path : String) (raster : Raster) :
    ((w.writeImage path raster).1.mapError fun reason => .file path (.noImageWritten reason)) =
        (ofWriting w path raster).result.map (fun _ => ()) ∧
      (ofWriting w path raster).Leaves path w (w.writeImage path raster).2 := by
  unfold World.writeImage ofWriting
  cases w.encoder.refusal? (Path.extension? path) with
  | some reason => exact ⟨rfl, rfl, rfl, rfl⟩
  | none =>
      cases hplace : w.place path with
      | error refusal => exact ⟨rfl, rfl, rfl, rfl⟩
      | ok location =>
          have htakes := World.place_eq_ok_iff.mp hplace
          cases w.encoder.encode (Path.extension? path) raster with
          | whole bytes => exact ⟨rfl, location, htakes, rfl, rfl, rfl⟩
          | part bytes reason => exact ⟨rfl, location, htakes, rfl, rfl, rfl⟩

end SideEnd

/-- The image that a panel comes to. -/
def Panel.image (p : Panel) : Except Fault Image := do
  ((← p.toRequest).generate Float).outcome

theorem Panel.exists_synthesize {p : Panel} {image : Image} (h : p.image = .ok image) :
    ∃ (r : Request) (g : Generator), image = r.synthesize g := by
  obtain ⟨r, -, hr⟩ := bind_eq_ok_iff.mp h
  cases hg : r.generator with
  | error fault =>
      rw [Request.generate, hg] at hr
      cases hr
  | ok g =>
      rw [Request.generate, hg] at hr
      cases hr
      exact ⟨r, g, rfl⟩

namespace SplitArguments

variable {m : Type → Type} [Host m]

/-- The path for the image of a side. -/
def path (a : SplitArguments) (side : Side) : String :=
  Path.suffixed a.output side.name

/-- How a side ends in a world. -/
def ending (a : SplitArguments) (w : World) (side : Side) (panel : Panel) : SideEnd :=
  match panel.image with
  | .error fault => .failed fault
  | .ok image =>
    match image.enlarge a.scale with
    | .error fault => .refused fault none
    | .ok raster => .ofWriting w (a.path side) raster

theorem ending_congr {a : SplitArguments} {w w' : World} {side : Side}
    (hencoder : w'.encoder = w.encoder) (hplace : w'.place (a.path side) = w.place (a.path side))
    (panel : Panel) : a.ending w' side panel = a.ending w side panel := by
  simp only [ending, SideEnd.ofWriting_congr hencoder hplace]

theorem ending_of_sameFiles {w w' : World} (h : World.SameFiles w w') (a : SplitArguments)
    (side : Side) (panel : Panel) : a.ending w' side panel = a.ending w side panel :=
  ending_congr h.encoder (h.place _) panel

/-- How one side ends does not depend on how the other has ended. -/
theorem ending_of_leaves {a : SplitArguments} {w w' : World} {e : SideEnd} {side : Side}
    (h : e.Leaves (a.path side) w w') (other : Side) (panel : Panel) :
    a.ending w' other panel = a.ending w other panel :=
  ending_congr h.sameDirectories.encoder (h.place_suffixed other) panel

/-- A side by itself: what it says, and what it leaves behind. -/
theorem run_finish (a : SplitArguments) (side : Side) (panel : Panel) (w : World) :
    ∃ w', w.run (a.finish side panel panel.image) = ((a.ending w side panel).result, w') ∧
      (a.ending w side panel).Leaves (a.path side) w w' := by
  cases himage : panel.image with
  | error fault =>
      have hending : a.ending w side panel = .failed fault := by rw [ending, himage]
      rw [hending]
      exact ⟨_, rfl, rfl, rfl, rfl⟩
  | ok image =>
      obtain ⟨told, hreport, hfiles⟩ := w.run_reportImage image panel.contrast
      rw [finish, World.run_bind_of_ok hreport, ← ending_of_sameFiles hfiles]
      have hsave := told.run_saveImage (a.path side) image a.scale
      cases henlarge : image.enlarge a.scale with
      | error fault =>
          have hending : a.ending told side panel = .refused fault none := by
            simp only [ending, himage, henlarge]
          rw [henlarge] at hsave
          rw [hending]
          exact ⟨told, World.run_bind_of_error hsave, hfiles⟩
      | ok raster =>
          have hending : a.ending told side panel = .ofWriting told (a.path side) raster := by
            simp only [ending, himage, henlarge]
          obtain ⟨hsaid, hleaves⟩ := SideEnd.writeImage_of_ofWriting told (a.path side) raster
          simp only [henlarge, hsaid] at hsave
          rw [hending]
          cases hresult : (SideEnd.ofWriting told (a.path side) raster).result with
          | error fault =>
              rw [hresult] at hsave
              exact ⟨_, World.run_bind_of_error hsave, hleaves.of_sameFiles hfiles⟩
          | ok kept =>
              cases SideEnd.result_ofWriting hresult
              rw [hresult] at hsave
              refine ⟨_, World.run_bind_of_ok hsave, ?_⟩
              refine (hleaves.of_sameFiles hfiles).trans_sameFiles ?_
              exact ⟨rfl, rfl, rfl⟩

/-! ### Both sides -/

/-- Saves the panels to render, if they are to be saved. -/
def saveSession (a : SplitArguments) (p : Both Panel) : Command m Unit := do
  if let some path := a.saveTo then
    Host.save path ({ left := p.left, right := p.right, timestamp := some (← (Host.clock : m _)) } :
      SplitSession)
    Host.status "Exported" (← Host.shown path)

/-- Everything before the images: the seed, the panels to render and the session file. -/
def prepare (a : SplitArguments) : Command m (SplitArguments × Both Panel) := do
  let (a, p) ← a.settle
  a.saveSession p
  return (a, p)

/-- The end of a run: the first fault that was kept, if there is one. -/
def conclude (left right : Option Fault) : Command m Unit :=
  match left <|> right with
  | some fault => throw fault
  | none => return ()

/-- Everything after. -/
def draw (a : SplitArguments) (p : Both Panel) : Command m Unit := do
  Host.status "Left" p.left.text
  Host.status "Right" p.right.text
  let onLeft := (← p.left.toRequest).generate Float
  let onRight := (← p.right.toRequest).generate Float
  conclude (← a.finish .left p.left onLeft.outcome) (← a.finish .right p.right onRight.outcome)

theorem run_eq_of_prepare {a b : SplitArguments} {p : Both Panel} {w w' : World}
    (h : w.run a.prepare = (.ok (b, p), w')) : w.run a.run = w'.run (b.draw p) := by
  obtain ⟨⟨c, q⟩, settled, hsettle, h⟩ := World.run_bind_eq_ok_iff.mp h
  obtain ⟨⟨⟩, saved, hsave, h⟩ := World.run_bind_eq_ok_iff.mp h
  rw [World.run_pure] at h
  cases h
  obtain ⟨options, rolled, hroll, hsettle⟩ := World.run_bind_eq_ok_iff.mp hsettle
  obtain ⟨panels, resolved, hresolve, hsettle⟩ := World.run_bind_eq_ok_iff.mp hsettle
  rw [World.run_pure] at hsettle
  cases hsettle
  rw [run, World.run_bind_of_ok hroll, World.run_bind_of_ok hresolve,
    ← World.run_bind_of_ok (f := fun _ => draw _ p) hsave]
  obtain ⟨left, right⟩ := p
  cases hpath : a.saveTo <;> simp only [saveSession, draw, pure_bind, bind_assoc] <;> rfl

theorem run_conclude (w : World) (left right : Option Fault) :
    w.run (conclude left right) = (SideEnd.verdict left right, w) := by
  cases left <;> cases right <;> rfl

/-- The end of a run from the side that comes last. -/
theorem run_last {command : Command (StateM World) (Option Fault)} {e : SideEnd} {w w' : World}
    (h : w.run command = (e.result, w')) (kept : Option Fault) :
    w.run (do conclude kept (← command)) = ((do SideEnd.verdict kept (← e.result)), w') := by
  cases e with
  | written raster => exact (World.run_bind_of_ok h).trans (run_conclude w' kept none)
  | failed fault => exact (World.run_bind_of_ok h).trans (run_conclude w' kept (some fault))
  | refused fault => exact World.run_bind_of_error h

theorem run_draw (a : SplitArguments) {p : Both Panel} {r : Both Request}
    (hleft : p.left.toRequest = .ok r.left) (hright : p.right.toRequest = .ok r.right) (w : World) :
    ∃ w', w.run (a.draw p) =
        ((a.ending w .left p.left).outcome (a.ending w .right p.right), w') ∧
      ((a.ending w .left p.left).isRefused →
        (a.ending w .left p.left).Leaves (a.path .left) w w') ∧
      (¬(a.ending w .left p.left).isRefused → ∃ between,
        (a.ending w .left p.left).Leaves (a.path .left) w between ∧
          (a.ending w .right p.right).Leaves (a.path .right) between w') := by
  have himage : ∀ {q : Panel} {request : Request}, q.toRequest = .ok request →
      q.image = (request.generate Float).outcome := by
    intro q request h
    rw [Panel.image, h]
    rfl
  let leftLine := Host.statusLine "Left" p.left.text
  let rightLine := Host.statusLine "Right" p.right.text
  let told : World := { w with notes := (w.notes.push leftLine).push rightLine }
  have htold : World.SameFiles w told := ⟨rfl, rfl, rfl⟩
  obtain ⟨between, hrunLeft, hleaves⟩ := a.run_finish .left p.left told
  obtain ⟨w', hrunRight, hleaves'⟩ := a.run_finish .right p.right between
  have hdraw : w.run (a.draw p) = told.run (do
      conclude (← a.finish .left p.left p.left.image)
        (← a.finish .right p.right p.right.image)) := by
    rw [himage hleft, himage hright, draw, hleft, hright]
    rfl
  -- neither the lines told nor what the left side leaves change how a side ends
  rw [ending_of_leaves hleaves] at hrunRight hleaves'
  rw [ending_of_sameFiles htold] at hrunLeft hleaves hrunRight hleaves'
  replace hleaves := hleaves.of_sameFiles htold
  rw [hdraw]
  cases hresult : (a.ending w .left p.left).result with
  | error fault =>
      obtain ⟨hrefused, houtcome⟩ := SideEnd.isRefused_of_result hresult
      rw [hresult] at hrunLeft
      rw [houtcome]
      exact ⟨between, World.run_bind_of_error hrunLeft, fun _ => hleaves,
        fun hnot => absurd hrefused hnot⟩
  | ok kept =>
      have hnot := SideEnd.not_isRefused_of_result hresult
      rw [hresult] at hrunLeft
      refine ⟨w', ?_, fun hrefused => absurd hrefused hnot,
        fun _ => ⟨between, hleaves, hleaves'⟩⟩
      rw [World.run_bind_of_ok hrunLeft, run_last hrunRight kept, SideEnd.outcome_eq, hresult]
      rfl

theorem run_saveSession {a : SplitArguments} {p : Both Panel} {u : Unit} {w w' : World}
    (h : w.run (a.saveSession p) = (.ok u, w')) : World.SameDirectories w w' := by
  cases hpath : a.saveTo with
  | none =>
      simp only [saveSession, hpath] at h
      cases h
      exact World.SameFiles.sameDirectories ⟨rfl, rfl, rfl⟩
  | some path =>
      simp only [saveSession, hpath] at h
      obtain ⟨time, timed, hclock, h⟩ := World.run_bind_eq_ok_iff.mp h
      obtain ⟨u', saved, hsave, hstatus⟩ := World.run_bind_eq_ok_iff.mp h
      cases hclock
      cases hstatus
      exact (World.sameDirectories_of_run_save hsave).trans
        (World.SameFiles.sameDirectories ⟨rfl, rfl, rfl⟩)

theorem of_run_prepare {a b : SplitArguments} {p : Both Panel} {w w' : World}
    (h : w.run a.prepare = (.ok (b, p), w')) :
    (∃ options, b = { a with options }) ∧ World.SameDirectories w w' ∧
      ∃ r : Both Request, p.left.toRequest = .ok r.left ∧ p.right.toRequest = .ok r.right := by
  obtain ⟨⟨c, q⟩, settled, hsettle, h⟩ := World.run_bind_eq_ok_iff.mp h
  obtain ⟨u, saved, hsave, h⟩ := World.run_bind_eq_ok_iff.mp h
  rw [World.run_pure] at h
  cases h
  obtain ⟨hfiles, ⟨drawn, hb⟩, start, hpanels⟩ := of_run_settle hsettle
  exact ⟨⟨_, hb⟩, hfiles.sameDirectories.trans (run_saveSession hsave),
    exists_requests_of_panels hpanels⟩

/-- The image of a panel is enlarged by every factor allowed, and how its side ends is then up to the
writing of the raster. -/
theorem exists_ending {a : SplitArguments} {panel : Panel} {image : Image}
    (himage : panel.image = .ok image) (hscale : a.scale ≤ Raster.maxScale) :
    ∃ raster, image.enlarge a.scale = .ok raster ∧
      ∀ w side, a.ending w side panel = .ofWriting w (a.path side) raster := by
  obtain ⟨r, g, rfl⟩ := Panel.exists_synthesize himage
  obtain ⟨raster, hraster⟩ := r.exists_enlarge_synthesize g hscale
  refine ⟨raster, hraster, fun w side => ?_⟩
  simp only [ending, himage, hraster]

/-! ### Panels of built-in generators -/

/-- A default panel of a built-in generator. -/
def builtInPanel (b : BuiltIn) (seed : UInt32) : Panel :=
  { seed, builtInName := b.id }

theorem toRequest_builtInPanel (b : BuiltIn) (seed : UInt32) :
    (builtInPanel b seed).toRequest =
      .ok ((builtInPanel b seed).equationRequest.withBuiltIn b) := by
  have hbit : (0 : UInt8) ≤ 31 := by decide
  exact Panel.toRequest_eq_ok_iff.mpr ⟨hbit, .inr ⟨b, b.find?_id, rfl⟩⟩

theorem exists_image_builtInPanel (b : BuiltIn) (seed : UInt32) :
    ∃ image, (builtInPanel b seed).image = .ok image := by
  let r : Request := (builtInPanel b seed).equationRequest.withBuiltIn b
  have hgenerator : r.generator = .ok (.builtIn b) := by
    have hselects : r.selectsBuiltIn := by cases b <;> rfl
    have hbit : (0 : UInt8) ≤ 31 := by decide
    rw [Request.generator_eq_ok_iff, if_pos hselects]
    exact ⟨hbit, b, b.find?_id, rfl⟩
  refine ⟨r.synthesize (.builtIn b), ?_⟩
  rw [Panel.image, toRequest_builtInPanel]
  change (r.generate Float).outcome = _
  rw [Request.generate, hgenerator]

theorem run_prepare_builtIn (w : World) (b c : BuiltIn) (output : String) :
    w.run (prepare { left := some b.id, right := some c.id, output }) =
      (.ok ({ left := some b.id, right := some c.id, output },
        ⟨builtInPanel b defaultSeed, builtInPanel c (defaultSeed + 1)⟩), w) := by
  let a : SplitArguments := { left := some b.id, right := some c.id, output }
  let p : Both Panel := ⟨builtInPanel b defaultSeed, builtInPanel c (defaultSeed + 1)⟩
  have hpanels : a.panels defaultPanels = .ok p := by
    rw [panels_eq_ok_iff, Panel.checked_eq_ok_iff, Panel.checked_eq_ok_iff]
    simp only [leftPanel, rightPanel, a, Panel.withSource?, Panel.withSource, BuiltIn.find?_id]
    exact ⟨⟨rfl, _, toRequest_builtInPanel b defaultSeed⟩,
      rfl, _, toRequest_builtInPanel c (defaultSeed + 1)⟩
  have hresolve : w.run a.resolve = (.ok p, w) := run_resolve_default rfl hpanels
  have hroll : w.run (Host.rollSeed a.options) = (.ok a.options, w) := rfl
  have hsettle : w.run a.settle = (.ok (a, p), w) :=
    (World.run_bind_of_ok hroll).trans (World.run_bind_of_ok hresolve)
  exact World.run_bind_of_ok hsettle

/-! ### Whole runs -/

/-- The two images of a split run, once its panels are known and its session is saved. Each side ends
in its own way, whatever becomes of the other. The outcome follows from how the two sides end, and is
good exactly if both images are written. The image of a side is what its path leads to in the end if
it was generated and can be written, but for one case: an image on the left that is not written ends
the run, and then nothing else is written either. -/
theorem run_draws_sides (a b : SplitArguments) (p : Both Panel) (w w₁ : World)
    (h : w.run a.prepare = (.ok (b, p), w₁)) :
    ∃ w', w.run a.run = ((a.ending w₁ .left p.left).outcome (a.ending w₁ .right p.right), w') ∧
      ((w.run a.run).1 = .ok () ↔
        ∀ side, ∃ raster, a.ending w₁ side (p.on side) = .written raster) ∧
      (∀ side image, (p.on side).image = .ok image → a.scale ≤ Raster.maxScale →
        ∃ raster, image.enlarge a.scale = .ok raster ∧
          (w.TakesImage (a.path side) raster →
            (side = .right → ∀ other left, p.left.image = .ok other →
              other.enlarge a.scale = .ok left → w.TakesImage (a.path .left) left) →
            w'.Holds (a.path side) (.image raster))) ∧
      ((a.ending w₁ .left p.left).isRefused →
        (a.ending w₁ .left p.left).Leaves (a.path .left) w₁ w') := by
  obtain ⟨⟨options, rfl⟩, hsame, r, hleft, hright⟩ := of_run_prepare h
  obtain ⟨w', hrun, hrefused, hdrawn⟩ := run_draw { a with options } hleft hright w₁
  have hending : ∀ side panel, ({ a with options } : SplitArguments).ending w₁ side panel =
      a.ending w₁ side panel := fun _ _ => rfl
  simp only [hending] at hrun hrefused hdrawn
  rw [run_eq_of_prepare h, hrun]
  refine ⟨w', rfl, ?_, ?_, hrefused⟩
  · rw [SideEnd.outcome_eq_ok_iff]
    constructor
    · rintro ⟨hl, hr⟩ (_ | _)
      · exact hl
      · exact hr
    · exact fun hsides => ⟨hsides .left, hsides .right⟩
  · intro side image himage hscale
    obtain ⟨raster, hraster, hending⟩ := exists_ending himage hscale
    refine ⟨raster, hraster, fun htakes hother => ?_⟩
    have hwritten : a.ending w₁ side (p.on side) = .written raster :=
      (hending w₁ side).trans (SideEnd.ofWriting_of_takesImage (hsame.takesImage.mpr htakes))
    cases side with
    | left =>
        have hwritten : a.ending w₁ .left p.left = .written raster := hwritten
        obtain ⟨between, hbetween, hleaves⟩ := hdrawn (by simp [hwritten, SideEnd.isRefused])
        rw [hwritten] at hbetween
        obtain ⟨place, htakesLeft, -⟩ := id hbetween
        have hleft := hbetween.sameDirectories.takes.mpr htakesLeft
        exact hleaves.keeps hbetween.holds hleft.locate fun _ hright => hleft.suffixed_ne hright
    | right =>
        have hwritten : a.ending w₁ .right p.right = .written raster := hwritten
        have hnot : ¬(a.ending w₁ .left p.left).isRefused := by
          cases hleftImage : p.left.image with
          | error cause => simp [ending, hleftImage, SideEnd.isRefused]
          | ok other =>
              obtain ⟨left, hleftRaster, hleftEnding⟩ := exists_ending hleftImage hscale
              have hleftTakes := hother rfl other left hleftImage hleftRaster
              rw [hleftEnding, SideEnd.ofWriting_of_takesImage (hsame.takesImage.mpr hleftTakes)]
              exact Bool.false_ne_true
        obtain ⟨between, hbetween, hleaves⟩ := hdrawn hnot
        rw [hwritten] at hleaves
        exact hleaves.holds

/-- The image on the left is written, and the one on the right cannot be. -/
theorem run_draws_sides_left :
    let w : World :=
      { entries := [(["cmp-right.png"], .directory)], here := [], encoder := .png }
    let a : SplitArguments := { left := some "lcg", right := some "bad2", output := "cmp.png" }
    ∃ raster, (w.run a.run).2.Holds "cmp-left.png" (.image raster) ∧
      (w.run a.run).1 =
        .error (.file "cmp-right.png" (.noImageWritten "Is a directory (os error 21)")) := by
  intro w a
  let p : Both Panel := ⟨builtInPanel .lcg defaultSeed, builtInPanel .timesTwo (defaultSeed + 1)⟩
  have hprepare : w.run a.prepare = (.ok (a, p), w) :=
    run_prepare_builtIn w .lcg .timesTwo "cmp.png"
  have hscale : a.scale ≤ Raster.maxScale := by decide
  have hleftPath : a.path .left = "cmp-left.png" := by decide
  have hrightPath : a.path .right = "cmp-right.png" := by decide
  have hleft : ∀ raster, w.TakesImage (a.path .left) raster := by
    intro raster
    have hplace : World.entry? w ["cmp-left.png"] = none := rfl
    rw [hleftPath]
    exact ⟨by decide, ⟨_, rfl⟩, ["cmp-left.png"], by decide, by simp [hplace], by decide⟩
  have hright : w.place (a.path .right) = .error .isDirectory := by
    rw [hrightPath]
    rfl
  obtain ⟨left, hleftImage⟩ := exists_image_builtInPanel .lcg defaultSeed
  obtain ⟨right, hrightImage⟩ := exists_image_builtInPanel .timesTwo (defaultSeed + 1)
  obtain ⟨w', hrun, -, hdrawn, -⟩ := run_draws_sides a a p w w hprepare
  obtain ⟨raster, hraster, hholds⟩ := hdrawn .left left hleftImage hscale
  obtain ⟨_, -, hleftEnding⟩ := exists_ending hleftImage hscale
  obtain ⟨_, -, hrightEnding⟩ := exists_ending hrightImage hscale
  rw [hleftEnding, SideEnd.ofWriting_of_takesImage (hleft _), hrightEnding,
    SideEnd.ofWriting_of_place (by decide) hright, hrightPath] at hrun
  rw [hleftPath] at hholds
  rw [hrun]
  exact ⟨raster, hholds (hleftPath ▸ hleft raster) (fun h => by cases h), rfl⟩

/-- Here the image on the right was generated and can be written, and yet it is not. -/
theorem run_leaves_right_side :
    let w : World :=
      { entries := [(["cmp-left.png"], .directory)], here := [], encoder := .png }
    let a : SplitArguments := { left := some "lcg", right := some "bad2", output := "cmp.png" }
    ∃ p image raster, w.run a.prepare = (.ok (a, p), w) ∧ p.right.image = .ok image ∧
      image.enlarge a.scale = .ok raster ∧ w.TakesImage (a.path .right) raster ∧
      (w.run a.run).1 =
        .error (.file "cmp-left.png" (.noImageWritten "Is a directory (os error 21)")) ∧
      ¬(w.run a.run).2.Holds (a.path .right) (.image raster) := by
  intro w a
  let p : Both Panel := ⟨builtInPanel .lcg defaultSeed, builtInPanel .timesTwo (defaultSeed + 1)⟩
  have hprepare : w.run a.prepare = (.ok (a, p), w) :=
    run_prepare_builtIn w .lcg .timesTwo "cmp.png"
  have hscale : a.scale ≤ Raster.maxScale := by decide
  have hleftPath : a.path .left = "cmp-left.png" := by decide
  have hrightPath : a.path .right = "cmp-right.png" := by decide
  have hlocate : w.locate (World.stepsOf "cmp-right.png") = .ok ["cmp-right.png"] := by decide
  have hplace : World.entry? w ["cmp-right.png"] = none := rfl
  have hleft : w.place (a.path .left) = .error .isDirectory := by
    rw [hleftPath]
    rfl
  obtain ⟨left, hleftImage⟩ := exists_image_builtInPanel .lcg defaultSeed
  obtain ⟨right, hrightImage⟩ := exists_image_builtInPanel .timesTwo (defaultSeed + 1)
  obtain ⟨raster, hraster, -⟩ := exists_ending (a := a) hrightImage hscale
  have hright : w.TakesImage (a.path .right) raster := by
    rw [hrightPath]
    exact ⟨by decide, ⟨_, rfl⟩, ["cmp-right.png"], hlocate, by simp [hplace], by decide⟩
  obtain ⟨_, -, hleftEnding⟩ := exists_ending (a := a) hleftImage hscale
  have hrefused := (hleftEnding w .left).trans (SideEnd.ofWriting_of_place (by decide) hleft)
  obtain ⟨-, -, r, hleftRequest, hrightRequest⟩ := of_run_prepare hprepare
  obtain ⟨w', hrun, hleaves, -⟩ := run_draw a hleftRequest hrightRequest w
  rw [hrefused] at hrun hleaves
  have hfiles : World.SameFiles w w' := hleaves rfl
  rw [hleftPath] at hrun
  rw [run_eq_of_prepare hprepare, hrun]
  refine ⟨p, right, raster, hprepare, hrightImage, hraster, hright, rfl, ?_⟩
  rw [hfiles.holds, hrightPath]
  rintro ⟨location, hfound, hentry⟩
  cases hlocate.symm.trans hfound
  rw [hplace] at hentry
  cases hentry

end SplitArguments

end OrbitImage
