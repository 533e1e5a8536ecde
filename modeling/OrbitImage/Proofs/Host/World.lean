import Mathlib.Data.List.DropRight
import OrbitImage.Command.Render
import OrbitImage.Host.World
import OrbitImage.Proofs.Session.Panel
import OrbitImage.Proofs.Text.Path
/-!
Commands on a host that is a value. Main results: a path leads to what was written to it; which paths
can be written to does not change when files are written; and of the paths for two sides neither is
in the way of the other.
-/
namespace OrbitImage.World

/-! ### Places -/

theorem entry?_of_ne_nil (w : World) {location : Location} (h : location ≠ []) :
    w.entry? location = (w.entries.find? (·.1 = location)).map Prod.snd := by
  cases location with
  | nil => exact absurd rfl h
  | cons step location => rfl

theorem entry?_put_self (w : World) {location : Location} (h : location ≠ []) (entry : Entry) :
    entry? (w.put location entry) location = some entry := by
  rw [entry?_of_ne_nil _ h]
  simp [put]

theorem entry?_put_of_ne (w : World) {place location : Location} (h : place ≠ location)
    (entry : Entry) : entry? (w.put location entry) place = w.entry? place := by
  by_cases hplace : place = []
  · rw [hplace]
    rfl
  · have hfind : (w.put location entry).entries.find? (·.1 = place) =
        w.entries.find? (·.1 = place) := by
      rw [put, List.find?_cons_of_neg (by simpa using Ne.symm h), List.find?_filter]
      congr 1
      funext a
      by_cases ha : a.1 = place <;> simp [ha, h]
    rw [entry?_of_ne_nil _ hplace, entry?_of_ne_nil _ hplace, hfind]

/-- The place that a step leads to. -/
def turn (location : Location) (step : String) : Location :=
  if step = "" ∨ step = "." then location
  else if step = ".." then location.drop 1
  else step :: location

theorem follow_eq_ok_iff {w : World} {location place : Location} {step : String} :
    w.follow location step = .ok place ↔
      w.entry? location = some .directory ∧ turn location step = place := by
  unfold follow turn
  split
  · next h => split_ifs <;> simp [h]
  · next h hdirectory => exact ⟨fun h => (by cases h), fun ⟨h', _⟩ => (by simp_all)⟩
  · next h => simp [h]

theorem fileAt_eq_ok_iff {w : World} {location place : Location} :
    w.fileAt location = .ok place ↔ w.entry? location ≠ some .directory ∧ location = place := by
  unfold fileAt
  split
  · next h => simp [h]
  · next h => simpa using fun _ => h

/-- The place from which the last step of a path is made. -/
def parent (w : World) : List String → Except FileRefusal Location
  | "" :: steps => steps.foldlM w.follow []
  | steps => steps.foldlM w.follow w.here

theorem locate_append (w : World) (before : List String) {name : String} (hname : name ≠ "") :
    w.locate (before ++ [name]) = (do w.follow (← w.parent before) name) := by
  cases before with
  | nil => simp [locate, parent, hname]
  | cons step steps =>
      by_cases hstep : step = "" <;> simp [locate, parent, hstep]

/-- An ordinary name leads down from a directory. -/
theorem locate_append_eq_ok_iff {w : World} {before : List String} {name : String}
    {location : Location} (h : Path.Ordinary name) :
    w.locate (before ++ [name]) = .ok location ↔
      ∃ place, w.parent before = .ok place ∧ w.entry? place = some .directory ∧
        location = name :: place := by
  have hturn : ∀ place, turn place name = name :: place := by
    intro place
    simp [turn, h.ne_empty, h.ne_dot, h.ne_up]
  rw [w.locate_append before h.ne_empty, bind_eq_ok_iff]
  simp only [follow_eq_ok_iff, hturn, eq_comm (a := location)]

/-- The paths for all sides are alike but for their last steps. -/
theorem exists_stepsOf_suffixed (path : String) :
    ∃ before, ∀ side : Side, stepsOf (Path.suffixed path side.name) =
      before ++ [Path.suffixedName path side.name] := by
  obtain ⟨segments, hsplit⟩ := Path.exists_split_suffixed path
  refine ⟨segments.map String.ofList, fun side => ?_⟩
  have hslash : '/' ∉ side.name.toList := by cases side <;> decide
  rw [stepsOf, hsplit _ hslash, List.map_append, List.map_singleton, String.ofList_toList]

/-! ### Directories -/

/-- Worlds with the same directories, which are in the same one, and with the same encoder. -/
structure SameDirectories (w w' : World) : Prop where
  here : w'.here = w.here
  encoder : w'.encoder = w.encoder
  isDirectory : ∀ location,
    w'.entry? location = some .directory ↔ w.entry? location = some .directory

namespace SameDirectories

variable {w w' w'' : World}

theorem trans (h : SameDirectories w w') (h' : SameDirectories w' w'') : SameDirectories w w'' :=
  ⟨h'.here.trans h.here, h'.encoder.trans h.encoder,
    fun location => (h'.isDirectory location).trans (h.isDirectory location)⟩

/-- A file is put where no directory is. -/
theorem put {location : Location} {entry : Entry} (hplace : w.entry? location ≠ some .directory)
    (hentry : entry ≠ .directory) : SameDirectories w (w.put location entry) := by
  refine ⟨rfl, rfl, fun place => ?_⟩
  by_cases h : place = location
  · have hne : location ≠ [] := by
      rintro rfl
      exact hplace rfl
    rw [h, entry?_put_self w hne]
    simp [hentry, hplace]
  · rw [entry?_put_of_ne w h]

theorem follow (h : SameDirectories w w') (location place : Location) (step : String) :
    w'.follow location step = .ok place ↔ w.follow location step = .ok place := by
  rw [follow_eq_ok_iff, follow_eq_ok_iff, h.isDirectory]

theorem foldlM_follow (h : SameDirectories w w') (steps : List String) (start place : Location) :
    steps.foldlM w'.follow start = .ok place ↔ steps.foldlM w.follow start = .ok place := by
  induction steps generalizing start with
  | nil => exact Iff.rfl
  | cons step steps ih =>
      simp only [List.foldlM_cons, bind_eq_ok_iff, h.follow, ih]

theorem parent (h : SameDirectories w w') (before : List String) (place : Location) :
    w'.parent before = .ok place ↔ w.parent before = .ok place := by
  unfold World.parent
  split
  · exact h.foldlM_follow _ _ _
  · rw [h.here]
    exact h.foldlM_follow _ _ _

theorem locate (h : SameDirectories w w') (path : List String) (place : Location) :
    w'.locate path = .ok place ↔ w.locate path = .ok place := by
  unfold World.locate
  split
  · exact Iff.rfl
  · exact h.foldlM_follow _ _ _
  · rw [h.here]
    exact h.foldlM_follow _ _ _

theorem fileAt (h : SameDirectories w w') (location : Location) :
    w'.fileAt location = w.fileAt location := by
  have hdirectory := h.isDirectory location
  unfold World.fileAt
  split <;> split <;> simp_all

end SameDirectories

/-! ### Files -/

/-- A path can be written to: it leads to a place without a directory and ends in no slash. -/
structure Takes (w : World) (path : String) (location : Location) : Prop where
  locate : w.locate (stepsOf path) = .ok location
  free : w.entry? location ≠ some .directory
  named : (stepsOf path).rdropWhile (· = "") = stepsOf path

/-- A path leads to an entry. -/
def Holds (w : World) (path : String) (entry : Entry) : Prop :=
  ∃ location, w.locate (stepsOf path) = .ok location ∧ w.entry? location = some entry

section

variable {w w' : World} {path : String} {location : Location} {entry : Entry}

theorem SameDirectories.takes (h : SameDirectories w w') :
    w'.Takes path location ↔ w.Takes path location := by
  constructor
  · rintro ⟨hlocate, hfree, hnamed⟩
    exact ⟨(h.locate _ _).mp hlocate, fun hd => hfree ((h.isDirectory _).mpr hd), hnamed⟩
  · rintro ⟨hlocate, hfree, hnamed⟩
    exact ⟨(h.locate _ _).mpr hlocate, fun hd => hfree ((h.isDirectory _).mp hd), hnamed⟩

/-- The place to write to is the one that the path leads to. -/
theorem place_of_named (w : World) (h : (stepsOf path).rdropWhile (· = "") = stepsOf path) :
    w.place path = (do w.fileAt (← w.locate (stepsOf path))) := by
  have hnamed : ((stepsOf path).reverse.dropWhile (· = "")).reverse = stepsOf path := h
  unfold place
  simp only [hnamed, ite_self, if_true, bind_pure]

theorem place_eq_ok_iff : w.place path = .ok location ↔ w.Takes path location := by
  constructor
  · intro h
    unfold place at h
    obtain ⟨found, hlocate, h⟩ := bind_eq_ok_iff.mp h
    obtain ⟨file, hfile, h⟩ := bind_eq_ok_iff.mp h
    obtain ⟨hfree, rfl⟩ := fileAt_eq_ok_iff.mp hfile
    by_cases hnamed : stepsOf path = ((stepsOf path).reverse.dropWhile (· = "")).reverse
    · rw [if_pos hnamed] at h
      cases h
      rw [← hnamed, ite_self] at hlocate
      exact ⟨hlocate, hfree, hnamed.symm⟩
    · rw [if_neg hnamed] at h
      cases h
  · intro h
    rw [w.place_of_named h.named, h.locate]
    exact fileAt_eq_ok_iff.mpr ⟨h.free, rfl⟩

theorem write_of_takes (h : w.Takes path location) (entry : Entry) :
    w.write path entry = .ok (w.put location entry) := by
  rw [write, place_eq_ok_iff.mpr h]
  rfl

theorem exists_takes_of_write (h : w.write path entry = .ok w') :
    ∃ location, w.Takes path location ∧ w' = w.put location entry := by
  obtain ⟨location, hplace, h⟩ := bind_eq_ok_iff.mp h
  cases h
  exact ⟨location, place_eq_ok_iff.mp hplace, rfl⟩

theorem sameDirectories_of_write (hentry : entry ≠ .directory)
    (h : w.write path entry = .ok w') : SameDirectories w w' := by
  obtain ⟨location, htakes, rfl⟩ := exists_takes_of_write h
  exact SameDirectories.put htakes.free hentry

theorem Takes.ne_nil (h : w.Takes path location) : location ≠ [] := by
  rintro rfl
  exact h.free rfl

/-- What was written to a path is what it leads to. -/
theorem holds_of_write (hentry : entry ≠ .directory) (h : w.write path entry = .ok w') :
    w'.Holds path entry := by
  have hsame := sameDirectories_of_write hentry h
  obtain ⟨location, htakes, rfl⟩ := exists_takes_of_write h
  exact ⟨location, (hsame.locate _ _).mpr htakes.locate, entry?_put_self w htakes.ne_nil entry⟩

theorem readText_of_holds {s : String} (h : w.Holds path (.text s)) : w.readText path = .ok s := by
  obtain ⟨location, hlocate, hentry⟩ := h
  refine bind_eq_ok_iff.mpr ⟨location, hlocate, ?_⟩
  simp only [hentry]
  rfl

/-- An image can be written to a path: its format is known, the encoder takes all of it, and there is
a place for it. -/
structure TakesImage (w : World) (path : String) (raster : Raster) : Prop where
  known : w.encoder.refusal? (Path.extension? path) = none
  encoded : ∃ bytes, w.encoder.encode (Path.extension? path) raster = .whole bytes
  takes : ∃ location, w.Takes path location

theorem SameDirectories.takesImage (h : SameDirectories w w') {raster : Raster} :
    w'.TakesImage path raster ↔ w.TakesImage path raster := by
  have htakes : (∃ location, w'.Takes path location) ↔ ∃ location, w.Takes path location :=
    exists_congr fun location => h.takes
  constructor
  · rintro ⟨hknown, hencoded, hplace⟩
    exact ⟨h.encoder ▸ hknown, h.encoder ▸ hencoded, htakes.mp hplace⟩
  · rintro ⟨hknown, hencoded, hplace⟩
    exact ⟨h.encoder ▸ hknown, h.encoder ▸ hencoded, htakes.mpr hplace⟩

/-- What a path leads to stays when something is written to another place. -/
theorem Holds.write {place : Location} {other : String} {written : Entry}
    (h : w.Holds path entry) (hlocate : w.locate (stepsOf path) = .ok place)
    (hwritten : written ≠ .directory) (htakes : w.Takes other location) (hne : place ≠ location) :
    (w.put location written).Holds path entry := by
  obtain ⟨_, hfound, hentry⟩ := h
  cases hlocate.symm.trans hfound
  have hsame := SameDirectories.put htakes.free hwritten
  exact ⟨place, (hsame.locate _ _).mpr hlocate, by rw [entry?_put_of_ne w hne, hentry]⟩

/-- The paths for the two sides lead to different places. -/
theorem Takes.suffixed_ne {output : String} {left right : Location}
    (hleft : w.Takes (Path.suffixed output Side.left.name) left)
    (hright : w.Takes (Path.suffixed output Side.right.name) right) : left ≠ right := by
  obtain ⟨before, hsteps⟩ := exists_stepsOf_suffixed output
  have hlast : ∀ {side : Side} {location : Location},
      w.Takes (Path.suffixed output side.name) location →
        location.head? = some (Path.suffixedName output side.name) := by
    intro side location htakes
    have hlocate := htakes.locate
    rw [hsteps, locate_append_eq_ok_iff (Path.ordinary_suffixedName output side.name)] at hlocate
    obtain ⟨place, -, -, rfl⟩ := hlocate
    rfl
  intro heq
  have hname := (hlast hleft).symm.trans (heq ▸ hlast hright)
  exact Path.suffixedName_left_ne_right output (Option.some.inj hname)

theorem stepsOf_suffixed_named (output : String) (side : Side) :
    (stepsOf (Path.suffixed output side.name)).rdropWhile (· = "") =
      stepsOf (Path.suffixed output side.name) := by
  obtain ⟨before, hsteps⟩ := exists_stepsOf_suffixed output
  have hempty := (Path.ordinary_suffixedName output side.name).ne_empty
  rw [hsteps, List.rdropWhile_concat_neg _ _ _ (by simpa using hempty)]

/-- What is written to the path of one side changes nothing about the path of the other. -/
theorem Takes.place_suffixed {output : String} {side : Side}
    (h : w.Takes (Path.suffixed output side.name) location) (hsame : SameDirectories w w')
    (other : Side) :
    w'.place (Path.suffixed output other.name) = w.place (Path.suffixed output other.name) := by
  obtain ⟨before, hsteps⟩ := exists_stepsOf_suffixed output
  have hlocate := h.locate
  rw [hsteps, locate_append_eq_ok_iff (Path.ordinary_suffixedName output side.name)] at hlocate
  obtain ⟨place, hparent, hdirectory, -⟩ := hlocate
  have hordinary := Path.ordinary_suffixedName output other.name
  have hfound : w.locate (before ++ [Path.suffixedName output other.name]) =
      .ok (Path.suffixedName output other.name :: place) :=
    (locate_append_eq_ok_iff hordinary).mpr ⟨place, hparent, hdirectory, rfl⟩
  rw [place_of_named w' (stepsOf_suffixed_named output other),
    place_of_named w (stepsOf_suffixed_named output other), hsteps, hfound,
    (hsame.locate _ _).mpr hfound]
  exact hsame.fileAt _

end

/-! ### Commands -/

/-- What a command comes to in a world, and the world that it leaves. -/
def run {α : Type} (w : World) (command : Command (StateM World) α) : Except Fault α × World :=
  Id.run (StateT.run (ExceptT.run command) w)

section

variable {α β : Type} {w w' : World} {command : Command (StateM World) α}
  {f : α → Command (StateM World) β}

theorem run_pure (w : World) (a : α) :
    w.run (pure a : Command (StateM World) α) = (.ok a, w) :=
  rfl

theorem run_lift (w : World) (a : Except Fault α) :
    w.run (liftM a : Command (StateM World) α) = (a, w) :=
  rfl

/-- An action of the host. -/
theorem run_action (w : World) (action : StateM World α) :
    w.run (liftM action : Command (StateM World) α) = (.ok (action.run w).1, (action.run w).2) :=
  rfl

theorem run_bind (w : World) (command : Command (StateM World) α)
    (f : α → Command (StateM World) β) :
    w.run (command >>= f) =
      match w.run command with
      | (.ok a, w') => w'.run (f a)
      | (.error fault, w') => (.error fault, w') := by
  simp only [run, ExceptT.run_bind, StateT.run_bind]
  cases h : (ExceptT.run command).run w with
  | mk outcome w' => cases outcome <;> rfl

theorem run_bind_of_ok {a : α} (h : w.run command = (.ok a, w')) :
    w.run (command >>= f) = w'.run (f a) := by
  rw [run_bind, h]

theorem run_bind_of_error {fault : Fault} (h : w.run command = (.error fault, w')) :
    w.run (command >>= f) = (.error fault, w') := by
  rw [run_bind, h]

theorem run_bind_eq_ok_iff {b : β} {w'' : World} :
    w.run (command >>= f) = (.ok b, w'') ↔
      ∃ a w', w.run command = (.ok a, w') ∧ w'.run (f a) = (.ok b, w'') := by
  rw [run_bind]
  cases w.run command with
  | mk outcome w' => cases outcome <;> simp

end

/-- Worlds with the same files, which are in the same directory, and with the same encoder. -/
structure SameFiles (w w' : World) : Prop where
  entries : w'.entries = w.entries
  here : w'.here = w.here
  encoder : w'.encoder = w.encoder

namespace SameFiles

variable {w w' w'' : World}

theorem trans (h : SameFiles w w') (h' : SameFiles w' w'') : SameFiles w w'' :=
  ⟨h'.entries.trans h.entries, h'.here.trans h.here, h'.encoder.trans h.encoder⟩

theorem entry? (h : SameFiles w w') (location : Location) :
    w'.entry? location = w.entry? location := by
  cases location with
  | nil => rfl
  | cons step location => simp only [ World.entry?, h.entries]

theorem sameDirectories (h : SameFiles w w') : SameDirectories w w' :=
  ⟨h.here, h.encoder, fun location => by rw [h.entry?]⟩

theorem holds (h : SameFiles w w') {path : String} {entry : Entry} :
    w'.Holds path entry ↔ w.Holds path entry :=
  exists_congr fun location =>
    and_congr (h.sameDirectories.locate _ location) (by rw [h.entry?])

theorem place (h : SameFiles w w') (path : String) : w'.place path = w.place path := by
  have hfollow : w'.follow = w.follow := by
    funext location step
    rw [World.follow, World.follow, h.entry?]
  have hfile : w'.fileAt = w.fileAt := by
    funext location
    rw [World.fileAt, World.fileAt, h.entry?]
  have hlocate : w'.locate = w.locate := by
    funext steps
    rw [World.locate.eq_def, World.locate.eq_def, hfollow, h.here]
  rw [World.place, World.place, hlocate, hfile]

theorem put (h : SameFiles w w') (location : Location) (entry : Entry) :
    SameFiles (w.put location entry) (w'.put location entry) :=
  ⟨by simp only [World.put, h.entries], h.here, h.encoder⟩

end SameFiles

theorem run_status (w : World) (verb message : String) :
    w.run (Host.status verb message) =
      (.ok (), { w with notes := w.notes.push (Host.statusLine verb message) }) :=
  rfl

theorem run_reportImage (w : World) (image : Image) (contrast : Contrast) :
    ∃ w', w.run (Host.reportImage image contrast) = (.ok (), w') ∧ SameFiles w w' := by
  have hlines : ∀ (lines : List (String × String)) (w : World), ∃ w',
      w.run (lines.forM fun line => Host.status line.1 line.2) = (.ok (), w') ∧
        SameFiles w w' := by
    intro lines
    induction lines with
    | nil => exact fun w => ⟨w, rfl, rfl, rfl, rfl⟩
    | cons line lines ih =>
        intro w
        let told : World := { w with notes := w.notes.push (Host.statusLine line.1 line.2) }
        obtain ⟨w', hrun, hsame⟩ := ih told
        have htold : SameFiles w told := ⟨rfl, rfl, rfl⟩
        refine ⟨w', ?_, htold.trans hsame⟩
        change w.run (Host.status line.1 line.2 >>= fun _ =>
          lines.forM fun line => Host.status line.1 line.2) = _
        rw [run_bind_of_ok (run_status w line.1 line.2)]
        exact hrun
  exact hlines _ w

/-- A seed is drawn only if one is asked for. -/
theorem run_rollSeed (w : World) (options : Options) :
    ∃ w' drawn, w.run (Host.rollSeed options) = (.ok (options.roll drawn).1, w') ∧
      SameFiles w w' := by
  by_cases h : options.randomSeed
  · have hdraw : w.run (Host.randomWord : StateM World UInt32) =
        (.ok (w.random.headD 0), { w with random := w.random.drop 1 }) := rfl
    have hroll : options.roll (w.random.headD 0) =
        ({ options with seed := some (w.random.headD 0), randomSeed := false },
          some (w.random.headD 0)) := if_pos h
    rw [Host.rollSeed, if_pos h, run_bind_of_ok hdraw]
    simp only [hroll]
    let line := Host.statusLine "Seed" ("random seed " ++ toString (w.random.headD 0))
    exact ⟨{ w with random := w.random.drop 1, notes := w.notes.push line },
      w.random.headD 0, by rw [hroll]; rfl, rfl, rfl, rfl⟩
  · have hroll : (options.roll 0).1 = options := by rw [Options.roll, if_neg h]
    rw [Host.rollSeed, if_neg h]
    exact ⟨w, 0, by rw [hroll]; rfl, rfl, rfl, rfl⟩

/-- The value that a file holds as a document. -/
def load {α : Type} [Saved α] (w : World) (path : String) : Except Fault α :=
  match w.readText path with
  | .error refusal => .error (.file path (.unreadable refusal.reason))
  | .ok text => if Host.isYaml path then Saved.ofYaml path text else Saved.ofJson text

theorem run_load {α : Type} [Saved α] (w : World) (path : String) :
    w.run (Host.load (α := α) path) = (w.load path, w) := by
  have hread : w.run (Host.readText path : StateM World _) =
      (.ok ((w.readText path).mapError FileRefusal.reason), w) := rfl
  rw [Host.load, run_bind_of_ok hread, load]
  cases w.readText path with
  | error refusal => rfl
  | ok text =>
    change w.run (if _ then _ else _) = _
    split <;> rfl

theorem run_writeText (w : World) (path text : String) :
    w.run (Host.writeText path text : StateM World _) =
      match w.write path (.text text) with
      | .ok w' => (.ok (.ok ()), w')
      | .error refusal => (.ok (.error refusal.reason), w) := by
  cases h : w.write path (.text text) <;>
    · simp only [run_action, Host.writeText, StateT.run_bind, StateT.run_get, pure_bind, h]
      rfl

theorem run_writeImage (w : World) (path : String) (raster : Raster) :
    w.run (Host.writeImage path raster : StateM World _) =
      (.ok (w.writeImage path raster).1, (w.writeImage path raster).2) :=
  rfl

theorem run_save {α : Type} [Saved α] (w : World) (path : String) (a : α) :
    w.run (Host.save path a) =
      match w.write path (.text (Saved.text a)) with
      | .ok w' => (.ok (), w')
      | .error refusal => (.error (.file path (.unwritable refusal.reason)), w) := by
  rw [Host.save, run_bind, run_writeText]
  cases w.write path (.text (Saved.text a)) <;> rfl

theorem write_of_run_save {α : Type} [Saved α] {a : α} {u : Unit} {w w' : World}
    {path : String} (h : w.run (Host.save path a) = (.ok u, w')) :
    w.write path (.text (Saved.text a)) = .ok w' := by
  rw [run_save] at h
  cases hwrite : w.write path (.text (Saved.text a)) with
  | error refusal =>
      rw [hwrite] at h
      cases h
  | ok written =>
      rw [hwrite] at h
      cases h
      rfl

theorem sameDirectories_of_run_save {α : Type} [Saved α] {a : α} {u : Unit} {w w' : World}
    {path : String} (h : w.run (Host.save path a) = (.ok u, w')) : SameDirectories w w' :=
  sameDirectories_of_write (by simp) (write_of_run_save h)

/-- What was saved is loaded again, if it is read back from its text. -/
theorem load_of_run_save {α : Type} [Saved α] {a : α} {w w' : World} {path : String}
    (hread : Saved.ofJson (Saved.text a) = Except.ok a) (hjson : Host.isYaml path = false)
    (h : w.run (Host.save path a) = (.ok (), w')) : w'.load path = Except.ok a := by
  have hholds := holds_of_write (by simp) (write_of_run_save h)
  simp only [load, readText_of_holds hholds, hjson, hread, Bool.false_eq_true, if_false]

theorem run_saveImage (w : World) (path : String) (image : Image) (scale : UInt32) :
    w.run (Host.saveImage path image scale) =
      match image.enlarge scale with
      | .error fault => (.error fault, w)
      | .ok raster =>
        let (outcome, w') := w.writeImage path raster
        (outcome.mapError fun reason => .file path (.noImageWritten reason), w') := by
  cases henlarge : image.enlarge scale with
  | error fault =>
      rw [Host.saveImage, henlarge]
      exact run_bind_of_error (run_lift w (.error fault))
  | ok raster =>
      rw [Host.saveImage, henlarge, run_bind_of_ok (run_lift w (.ok raster)), run_bind,
        run_writeImage]
      cases h : (w.writeImage path raster).1 <;> simp only [h] <;> rfl

end OrbitImage.World
