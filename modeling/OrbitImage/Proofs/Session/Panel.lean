import OrbitImage.Image.Painting
import OrbitImage.Session.Panel
/-!
Panels and requests. A panel has a request exactly if its bit plane exists and it names either no
built-in generator or a known one; the panel of this request differs only in that the generator is
named by its id. The panel of a request keeps everything that the image depends on.
-/
namespace OrbitImage

theorem bind_eq_ok_iff {ε α β : Type} {x : Except ε α} {f : α → Except ε β} {b : β} :
    x >>= f = .ok b ↔ ∃ a, x = .ok a ∧ f a = .ok b := by
  cases x with
  | error e => exact ⟨fun h => (by cases h), fun ⟨a, ha, _⟩ => (by cases ha)⟩
  | ok a =>
      constructor
      · exact fun h => ⟨a, rfl, h⟩
      · rintro ⟨_, ⟨⟩, h⟩
        exact h

theorem pure_eq_ok_iff {ε α : Type} {a b : α} : (pure a : Except ε α) = .ok b ↔ b = a :=
  ⟨fun h => (by cases h; rfl), fun h => h ▸ rfl⟩

namespace BuiltIn

theorem find?_id (b : BuiltIn) : find? b.id = some b := by
  cases b <;> decide +kernel

theorem find?_empty : find? "" = none := by
  decide +kernel

theorem parse_eq_ok_iff {name : String} {b : BuiltIn} :
    parse name = .ok b ↔ find? name = some b := by
  unfold parse
  cases find? name <;> simp

end BuiltIn

namespace Request

theorem validate_eq_ok_iff {r : Request} {u : Unit} : r.validate = .ok u ↔ r.bitPlane ≤ 31 := by
  rw [validate, ← UInt8.not_lt]
  split <;> simp_all

/-- A request has a generator if its bit plane exists and what it selects has one: the built-in
generator with its name, or else its equation. -/
theorem generator_eq_ok_iff {r : Request} {g : Generator} :
    r.generator = .ok g ↔ r.bitPlane ≤ 31 ∧
      if r.selectsBuiltIn then ∃ b, BuiltIn.find? r.builtInName = some b ∧ g = .builtIn b
      else ∃ p, Program.compile r.equation = .ok p ∧ g = .custom p := by
  rw [generator, bind_eq_ok_iff]
  simp only [validate_eq_ok_iff, exists_and_left, exists_const]
  refine and_congr_right fun _ => ?_
  split
  · simp only [bind_eq_ok_iff, BuiltIn.parse_eq_ok_iff, pure_eq_ok_iff]
  · cases Program.compile r.equation with
    | ok p => simp [pure_eq_ok_iff]
    | error fault => exact ⟨fun h => (by cases h), fun ⟨_, h, _⟩ => (by cases h)⟩

/-- Of the two fields that select a generator the image knows nothing. -/
theorem generate_of_generator {r : Request} {useBuiltIn : Bool} {name : String}
    (h : ({ r with useBuiltIn, builtInName := name } : Request).generator = r.generator)
    (α : Type) [Percent α] :
    ({ r with useBuiltIn, builtInName := name } : Request).generate α = r.generate α := by
  unfold generate
  rw [h]
  rfl

end Request

namespace Panel

/-- The panel with its generator named by its id, if it names a known one. -/
def canonical (p : Panel) : Panel :=
  match BuiltIn.find? p.builtInName with
  | some b => { p with builtInName := b.id }
  | none => p

/-- The request for the equation of a panel. -/
def equationRequest (p : Panel) : Request :=
  { equation := p.equation
    seed := p.seed
    resolution := p.resolution
    mode := p.mode
    bitPlane := p.bitPlane
    contrast := p.contrast
    pairScale := p.pairScale }

theorem toRequest_eq_ok_iff {p : Panel} {r : Request} :
    p.toRequest = .ok r ↔ p.bitPlane ≤ 31 ∧
      (p.builtInName = "" ∧ r = p.equationRequest ∨
        ∃ b, BuiltIn.find? p.builtInName = some b ∧ r = p.equationRequest.withBuiltIn b) := by
  have hchecked : ∀ q : Request, q.bitPlane = p.bitPlane →
      ((do q.validate; return q) = (.ok r : Except Fault Request) ↔ p.bitPlane ≤ 31 ∧ r = q) := by
    intro q hq
    simp only [bind_eq_ok_iff, Request.validate_eq_ok_iff, pure_eq_ok_iff, exists_and_left,
      exists_const, hq]
  unfold toRequest
  by_cases hname : p.builtInName = ""
  · rw [if_pos (String.isEmpty_iff.mpr hname), pure_bind, hname, BuiltIn.find?_empty]
    refine (hchecked p.equationRequest rfl).trans ?_
    simp
  · rw [if_neg (fun h => hname (String.isEmpty_iff.mp h)), bind_eq_ok_iff]
    simp only [BuiltIn.parse_eq_ok_iff, pure_bind, hname, false_and, false_or]
    constructor
    · rintro ⟨b, hb, h⟩
      obtain ⟨hbit, hr⟩ := (hchecked (p.equationRequest.withBuiltIn b) rfl).mp h
      exact ⟨hbit, b, hb, hr⟩
    · rintro ⟨hbit, b, hb, hr⟩
      exact ⟨b, hb, (hchecked (p.equationRequest.withBuiltIn b) rfl).mpr ⟨hbit, hr⟩⟩

theorem canonical_of_find? {p : Panel} {b : BuiltIn} (h : BuiltIn.find? p.builtInName = some b) :
    p.canonical = { p with builtInName := b.id } := by
  rw [canonical, h]

theorem canonical_of_empty {p : Panel} (h : p.builtInName = "") : p.canonical = p := by
  rw [canonical, h, BuiltIn.find?_empty]

/-- The panel of a panel's request. -/
theorem ofRequest_of_toRequest {p : Panel} {r : Request} (h : p.toRequest = .ok r) :
    ofRequest r = p.canonical := by
  obtain ⟨-, ⟨hname, rfl⟩ | ⟨b, hb, rfl⟩⟩ := toRequest_eq_ok_iff.mp h
  · rw [canonical_of_empty hname]
    simp [ofRequest, equationRequest, ← hname]
  · rw [canonical_of_find? hb]
    rfl

/-- The generator is named by its id now, and found under it again. -/
theorem toRequest_canonical {p : Panel} {r : Request} (h : p.toRequest = .ok r) :
    p.canonical.toRequest = .ok r := by
  obtain ⟨hbit, ⟨hname, rfl⟩ | ⟨b, hb, rfl⟩⟩ := toRequest_eq_ok_iff.mp h
  · rwa [canonical_of_empty hname]
  · rw [canonical_of_find? hb]
    exact toRequest_eq_ok_iff.mpr ⟨hbit, .inr ⟨b, BuiltIn.find?_id b, rfl⟩⟩

/-- What a request selects is what its panel names. -/
theorem builtInName_ofRequest (r : Request) :
    (ofRequest r).builtInName = if r.selectsBuiltIn then r.builtInName else "" := by
  by_cases hname : r.builtInName = "" <;> cases huse : r.useBuiltIn <;>
    simp [ofRequest, Request.selectsBuiltIn, hname, huse]

/-- A request and the request of its panel differ in the two fields that select a generator, and
select the same. -/
theorem exists_eq_of_toRequest {r r' : Request} (h : (ofRequest r).toRequest = .ok r') :
    ∃ useBuiltIn name, r' = { r with useBuiltIn, builtInName := name } ∧
      r'.generator = r.generator := by
  obtain ⟨hbit, hsource⟩ := toRequest_eq_ok_iff.mp h
  rw [builtInName_ofRequest] at hsource
  cases hselects : r.selectsBuiltIn with
  | false =>
      simp only [hselects, Bool.false_eq_true, if_false, BuiltIn.find?_empty] at hsource
      obtain ⟨-, rfl⟩ | ⟨_, ⟨⟩, -⟩ := hsource
      have hplain : (ofRequest r).equationRequest.selectsBuiltIn = false := rfl
      have hvalid : (ofRequest r).equationRequest.validate = r.validate := rfl
      have hequation : (ofRequest r).equationRequest.equation = r.equation := rfl
      refine ⟨false, "", rfl, ?_⟩
      simp only [Request.generator, hselects, hplain, hvalid, hequation, Bool.false_eq_true,
        if_false]
  | true =>
      have hname : r.builtInName ≠ "" := by
        intro hname
        simp [Request.selectsBuiltIn, hname] at hselects
      simp only [hselects, if_true, hname, false_and, false_or] at hsource
      obtain ⟨b, hb, rfl⟩ := hsource
      refine ⟨true, b.id, rfl, ?_⟩
      have hgenerator : ∀ q : Request, q.bitPlane = r.bitPlane → q.selectsBuiltIn →
          BuiltIn.find? q.builtInName = some b → q.generator = .ok (.builtIn b) := by
        intro q hq hqs hqb
        rw [Request.generator_eq_ok_iff, if_pos hqs, hq]
        exact ⟨hbit, b, hqb, rfl⟩
      rw [hgenerator r rfl hselects hb]
      exact hgenerator _ rfl (by cases b <;> rfl) (BuiltIn.find?_id b)

/-- A request without a panel's request has no generator. -/
theorem exists_toRequest_of_generator {r : Request} {g : Generator} (h : r.generator = .ok g) :
    ∃ r', (ofRequest r).toRequest = .ok r' := by
  obtain ⟨hbit, hsource⟩ := Request.generator_eq_ok_iff.mp h
  simp only [toRequest_eq_ok_iff, builtInName_ofRequest]
  split at hsource
  case isTrue hselects =>
    obtain ⟨b, hb, -⟩ := hsource
    exact ⟨_, hbit, .inr ⟨b, by rwa [if_pos hselects], rfl⟩⟩
  case isFalse hselects => exact ⟨_, hbit, .inl ⟨if_neg hselects, rfl⟩⟩

/-- Panels and requests say the same of an image. A panel has a request exactly if its bit plane
exists and it names a known generator or none; the panel of this request is the canonical one, and
has the same request. A request and the request of its panel have the same generator, image and
percentages; a request whose panel has none has no generator either. -/
theorem describes_same_generation :
    (∀ p : Panel,
      ((∃ r, p.toRequest = .ok r) ↔
        p.bitPlane ≤ 31 ∧ (p.builtInName = "" ∨ ∃ b, BuiltIn.find? p.builtInName = some b)) ∧
      ∀ r, p.toRequest = .ok r →
        ofRequest r = p.canonical ∧ (ofRequest r).toRequest = .ok r) ∧
    ∀ r : Request,
      (∀ r', (ofRequest r).toRequest = .ok r' →
        r'.generator = r.generator ∧ ∀ (α : Type) [Percent α], r'.generate α = r.generate α) ∧
      ∀ fault, (ofRequest r).toRequest = .error fault → ∃ cause, r.generator = .error cause := by
  refine ⟨fun p => ⟨?_, fun r h => ?_⟩, fun r => ⟨fun r' h => ?_, fun fault h => ?_⟩⟩
  · simp only [toRequest_eq_ok_iff]
    constructor
    · rintro ⟨r, hbit, ⟨hname, -⟩ | ⟨b, hb, -⟩⟩
      · exact ⟨hbit, .inl hname⟩
      · exact ⟨hbit, .inr ⟨b, hb⟩⟩
    · rintro ⟨hbit, hname | ⟨b, hb⟩⟩
      · exact ⟨_, hbit, .inl ⟨hname, rfl⟩⟩
      · exact ⟨_, hbit, .inr ⟨b, hb, rfl⟩⟩
  · have hpanel := ofRequest_of_toRequest h
    exact ⟨hpanel, hpanel ▸ toRequest_canonical h⟩
  · obtain ⟨useBuiltIn, name, rfl, hgenerator⟩ := exists_eq_of_toRequest h
    exact ⟨hgenerator, fun α _ => Request.generate_of_generator hgenerator α⟩
  · cases hgenerator : r.generator with
    | error cause => exact ⟨cause, rfl⟩
    | ok g =>
        obtain ⟨r', hr'⟩ := exists_toRequest_of_generator hgenerator
        rw [h] at hr'
        cases hr'

/-- A longer name between blanks gives way to the id, and a name that is not used is dropped. -/
theorem describes_same_generation_named :
    (∃ r, ({ builtInName := " XorShift " } : Panel).toRequest = .ok r ∧
      ofRequest r = { builtInName := "xorshift32" }) ∧
    ∃ r', (ofRequest { equation := "x + 1", builtInName := "none" }).toRequest = .ok r' ∧
      r'.builtInName = "" ∧
      r'.generate Float =
        Request.generate Float { equation := "x + 1", builtInName := "none" } := by
  have hfind : BuiltIn.find? " XorShift " = some .xorshift32 := by decide +kernel
  have hnamed : ({ builtInName := " XorShift " } : Panel).toRequest =
      .ok (({ } : Panel).equationRequest.withBuiltIn .xorshift32) :=
    toRequest_eq_ok_iff.mpr ⟨by decide, .inr ⟨_, hfind, rfl⟩⟩
  have hplain : (ofRequest { equation := "x + 1", builtInName := "none" }).toRequest =
      .ok { equation := "x + 1" } :=
    toRequest_eq_ok_iff.mpr ⟨by decide, .inl ⟨rfl, rfl⟩⟩
  obtain ⟨hpanel, -⟩ := (describes_same_generation.1 _).2 _ hnamed
  obtain ⟨-, hgenerate⟩ := (describes_same_generation.2 _).1 _ hplain
  rw [canonical_of_find? (p := { builtInName := " XorShift " }) hfind] at hpanel
  exact ⟨⟨_, hnamed, hpanel⟩, _, hplain, rfl, hgenerate Float⟩

end Panel

end OrbitImage
