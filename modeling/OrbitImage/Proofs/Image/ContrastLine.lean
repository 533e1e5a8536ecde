import OrbitImage.Command.Render
import OrbitImage.Proofs.Image.Orbit
import OrbitImage.Proofs.Image.Stretch
import OrbitImage.Proofs.Text.Numeral
/-!
What the line about the contrast says, against what the stretch did. The line is written from the
range that an image keeps and the settings, after the image is painted; each of its forms tells how
the image came from the plain one, and no text has two forms.
-/
namespace OrbitImage

/-! ### The forms of the line -/

/-- What a line about the contrast says of the bounds it names; a stretch may also name the levels
that there were before. -/
inductive ContrastVerdict where
  | range
  | narrow
  | stretched (observed : Option (UInt8 × UInt8))

@[ext]
structure ContrastLine where
  low : UInt8
  high : UInt8
  verdict : ContrastVerdict

namespace ContrastLine

def span (low high : UInt8) : String :=
  toString low ++ ".." ++ toString high

theorem toList_span (low high : UInt8) :
    (span low high).toList =
      Nat.toDigits 10 low.toNat ++ ('.' :: '.' :: Nat.toDigits 10 high.toNat) := by
  have hdigits (n : UInt8) : (toString n).toList = Nat.toDigits 10 n.toNat := Nat.toList_repr
  rw [span, String.toList_append, String.toList_append, hdigits, hdigits, List.append_assoc]
  rfl

/-- Two levels can be read back if no digit stands behind them. -/
theorem span_append_inj {low high low' high' : UInt8} {cs ds : List Char}
    (hcs : ∀ c ∈ cs.head?, c.isDigit = false) (hds : ∀ c ∈ ds.head?, c.isDigit = false)
    (h : (span low high).toList ++ cs = (span low' high').toList ++ ds) :
    low = low' ∧ high = high' ∧ cs = ds := by
  have hdots (rest : List Char) : ∀ c ∈ ('.' :: rest).head?, c.isDigit = false := by
    rintro _ ⟨⟩
    rfl
  rw [toList_span, toList_span, List.append_assoc, List.append_assoc] at h
  obtain ⟨hlow, hrest⟩ := Text.toDigits_append_inj (hdots _) (hdots _) h
  obtain ⟨hhigh, hend⟩ :=
    Text.toDigits_append_inj hcs hds (List.cons.inj (List.cons.inj hrest).2).2
  exact ⟨UInt8.toNat_inj.mp hlow, UInt8.toNat_inj.mp hhigh, hend⟩

end ContrastLine

namespace ContrastVerdict

open ContrastLine (span span_append_inj)

/-- What stands before the bounds. -/
def verb : ContrastVerdict → String
  | range | narrow => "range "
  | stretched _ => "stretched "

/-- What stands behind the bounds. -/
def rest : ContrastVerdict → String
  | range => ""
  | narrow => ", too narrow to stretch"
  | stretched none => " to 0..255"
  | stretched (some (least, greatest)) =>
    " to 0..255" ++ (" (observed " ++ span least greatest ++ ")")

theorem verb_eq_of_append {v v' : ContrastVerdict} {cs ds : List Char}
    (h : v.verb.toList ++ cs = v'.verb.toList ++ ds) : v.verb = v'.verb := by
  cases v <;> cases v' <;> first | rfl | simp [verb] at h

theorem head?_rest (v : ContrastVerdict) : ∀ c ∈ v.rest.toList.head?, c.isDigit = false := by
  rcases v with _ | _ | _ | ⟨least, greatest⟩ <;> simp [rest]

/-- What stands behind the bounds is said by one verdict only. -/
theorem rest_injective {v v' : ContrastVerdict} (h : v.rest.toList = v'.rest.toList) : v = v' := by
  rcases v with _ | _ | _ | ⟨least, greatest⟩ <;>
    rcases v' with _ | _ | _ | ⟨least', greatest'⟩ <;>
    first | rfl | simp [rest] at h
  -- Only two stretches that both name the levels before are left.
  rw [← List.append_nil (span least greatest).toList,
    ← List.append_nil (span least' greatest').toList] at h
  obtain ⟨rfl, rfl, -⟩ := span_append_inj (by simp) (by simp) h
  rfl

end ContrastVerdict

namespace ContrastLine

def text (line : ContrastLine) : String :=
  line.verdict.verb ++ span line.low line.high ++ line.verdict.rest

example : text ⟨100, 150, .stretched (some (40, 200))⟩ =
    "stretched 100..150 to 0..255 (observed 40..200)" := by
  decide +kernel

theorem text_injective {line line' : ContrastLine} (h : line.text = line'.text) : line = line' := by
  have hlist := congrArg String.toList h
  simp only [text, String.toList_append, List.append_assoc] at hlist
  rw [ContrastVerdict.verb_eq_of_append hlist] at hlist
  obtain ⟨hlow, hhigh, hrest⟩ := span_append_inj (ContrastVerdict.head?_rest _)
    (ContrastVerdict.head?_rest _) (List.append_cancel_left hlist)
  exact ContrastLine.ext hlow hhigh (ContrastVerdict.rest_injective hrest)

end ContrastLine

/-! ### The line of a setting -/

namespace Contrast

def line (c : Contrast) (observed : GrayRange) : ContrastLine :=
  if c.enabled then
    let (low, high) := c.bounds observed
    if high ≤ low then ⟨low, high, .narrow⟩
    else ⟨low, high, .stretched (if c.auto then none else some (observed.min, observed.max))⟩
  else ⟨observed.min, observed.max, .range⟩

theorem summary_eq_text (c : Contrast) (observed : GrayRange) :
    c.summary observed = (c.line observed).text := by
  rw [summary, line, ContrastLine.text]
  cases c.enabled with
  | false => exact (String.append_empty).symm
  | true =>
      rcases c.bounds observed with ⟨low, high⟩
      by_cases hroom : high ≤ low
      · simp only [if_pos hroom, if_true]
        rfl
      · simp only [if_neg hroom, if_true]
        cases c.auto with
        | true => exact String.append_empty
        | false => exact String.append_assoc

end Contrast

/-- The line is there if the image keeps a range, and only then. -/
theorem Image.contrast_mem_report_iff (image : Image) (c : Contrast) (text : String) :
    ("Contrast", text) ∈ image.report c ↔
      ∃ min max, image.darkest = some min ∧ image.brightest = some max ∧
        text = c.summary ⟨min, max⟩ := by
  rw [report]
  cases image.stats <;> cases image.darkest <;> cases image.brightest <;> simp

/-! ### What the line tells -/

/-- The darkest and the brightest level that an image keeps are those that it shows. -/
structure Image.Ranges (image : Image) (darkest brightest : UInt8) : Prop where
  darkest_eq : image.darkest = some darkest
  brightest_eq : image.brightest = some brightest
  shown : (∃ col row, image.grayAt? col row = some darkest) ∧
    ∃ col row, image.grayAt? col row = some brightest
  bounds : ∀ col row gray, image.grayAt? col row = some gray → darkest ≤ gray ∧ gray ≤ brightest

/-- What is so of an image and the plain image behind it, when the plain image ranges from
`darkest` to `brightest` and the line is right. -/
def ContrastLine.Tells (line : ContrastLine) (c : Contrast) (plain drawn : Image)
    (darkest brightest : UInt8) : Prop :=
  match line.verdict with
  | .range =>
    c.enabled = false ∧ line.low = darkest ∧ line.high = brightest ∧ drawn = plain
  | .narrow =>
    c.enabled = true ∧ line.high ≤ line.low ∧
    (line.low, line.high) = (if c.auto then (darkest, brightest) else (c.min, c.max)) ∧
    drawn = plain
  | .stretched observed =>
    c.enabled = true ∧ line.low < line.high ∧
    (line.low, line.high) = (if c.auto then (darkest, brightest) else (c.min, c.max)) ∧
    observed = (if c.auto then none else some (darkest, brightest)) ∧
    plain.Stretches drawn line.low line.high

namespace Request

/-- The range of the levels before a stretch. -/
def levelRange (r : Request) (g : Generator) : GrayRange :=
  (r.levels g).foldl GrayRange.observe {}

theorem imageOfLevels_ranges (r : Request) (g : Generator) :
    (r.imageOfLevels g (r.levels g)).Ranges (r.levelRange g).min (r.levelRange g).max := by
  obtain ⟨_, _, ⟨⟩, ⟨⟩, hdarkest, hbrightest, hbounds⟩ := r.exists_range g
  exact ⟨rfl, rfl, ⟨hdarkest, hbrightest⟩, hbounds⟩

/-- The range that an image keeps is that of the levels before a stretch. -/
theorem synthesize_range {r : Request} (hmode : r.mode ≠ .pair) (g : Generator) :
    (r.synthesize g).darkest = some (r.levelRange g).min ∧
      (r.synthesize g).brightest = some (r.levelRange g).max := by
  cases hon : r.contrast.enabled with
  | false =>
      rw [show r.synthesize g = _ from synthesize_plain hmode hon g]
      exact ⟨rfl, rfl⟩
  | true =>
      rw [show r.synthesize g = _ from synthesize_drawn hmode hon g rfl]
      exact ⟨rfl, rfl⟩

/-- The request without its stretch. -/
def unstretched (r : Request) : Request :=
  { r with contrast := { r.contrast with enabled := false } }

theorem tells_line {r : Request} (hmode : r.mode ≠ .pair) (g : Generator) :
    (r.contrast.line (r.levelRange g)).Tells r.contrast (r.unstretched.synthesize g)
      (r.synthesize g) (r.levelRange g).min (r.levelRange g).max := by
  have hplain : r.unstretched.synthesize g = r.imageOfLevels g (r.levels g) :=
    synthesize_plain hmode rfl g
  rw [hplain, Contrast.line]
  cases hon : r.contrast.enabled with
  | false => exact ⟨hon, rfl, rfl, synthesize_plain hmode hon g⟩
  | true =>
      rcases hbounds : r.contrast.bounds (r.levelRange g) with ⟨low, high⟩
      have hpair : (low, high) =
          if r.contrast.auto then ((r.levelRange g).min, (r.levelRange g).max)
          else (r.contrast.min, r.contrast.max) := hbounds.symm
      have hdrawn : r.synthesize g = _ := synthesize_drawn hmode hon g hbounds
      simp only [if_true]
      split
      · next hroom =>
        refine ⟨hon, hroom, hpair, ?_⟩
        exact synthesize_drawn_eq hmode hon g hbounds fun hlt =>
          absurd hroom (UInt8.not_le.mpr hlt)
      · next hroom =>
        refine ⟨hon, UInt8.not_le.mp hroom, hpair, rfl, ?_⟩
        rw [hdrawn]
        exact imageOfLevels_stretches r g low high

/-- The line is written from the settings and the range that the image keeps, and its text alone
tells how the image came from the plain one. -/
theorem report_tells_stretch (r : Request) (g : Generator) :
    let plain := r.unstretched.synthesize g
    let drawn := r.synthesize g
    (r.mode = .pair → ∀ text, ("Contrast", text) ∉ drawn.report r.contrast) ∧
    (r.mode ≠ .pair → ∃ darkest brightest, plain.Ranges darkest brightest ∧
      (∃ line : ContrastLine, ∀ text,
        ("Contrast", text) ∈ drawn.report r.contrast ↔ text = line.text) ∧
      ∀ line : ContrastLine, ("Contrast", line.text) ∈ drawn.report r.contrast →
        line.Tells r.contrast plain drawn darkest brightest) := by
  intro plain drawn
  constructor
  · intro hmode text hmem
    obtain ⟨_, _, hdarkest, -⟩ := (drawn.contrast_mem_report_iff _ text).mp hmem
    simp only [drawn, synthesize, hmode, densityMap, reduceCtorEq] at hdarkest
  · intro hmode
    obtain ⟨hdarkest, hbrightest⟩ := synthesize_range hmode g
    have hplain : plain = r.imageOfLevels g (r.levels g) := synthesize_plain hmode rfl g
    have hreport (text : String) : ("Contrast", text) ∈ drawn.report r.contrast ↔
        text = (r.contrast.line (r.levelRange g)).text := by
      rw [Image.contrast_mem_report_iff, hdarkest, hbrightest, ← Contrast.summary_eq_text]
      simp
    refine ⟨_, _, hplain ▸ r.imageOfLevels_ranges g, ⟨_, hreport⟩, ?_⟩
    intro line hline
    rw [ContrastLine.text_injective ((hreport line.text).mp hline)]
    exact tells_line hmode g

/-- Crossed bounds are reported as too narrow, whatever the levels are, and change none. -/
theorem report_tells_stretch_crossed :
    let r : Request := { mode := .raw, seed := 7, contrast := .fixed 200 100 }
    let g := Generator.builtIn .lcg
    ("Contrast", "range 200..100, too narrow to stretch") ∈ (r.synthesize g).report r.contrast ∧
      r.synthesize g = r.unstretched.synthesize g := by
  intro r g
  have hmode : r.mode ≠ .pair := by decide
  let line : ContrastLine := ⟨200, 100, .narrow⟩
  have htext : line.text = "range 200..100, too narrow to stretch" := by decide +kernel
  have hsummary (observed : GrayRange) : r.contrast.summary observed = line.text :=
    Contrast.summary_eq_text _ observed
  have hmem : ("Contrast", line.text) ∈ (r.synthesize g).report r.contrast := by
    obtain ⟨hdarkest, hbrightest⟩ := synthesize_range hmode g
    exact (Image.contrast_mem_report_iff _ _ _).mpr
      ⟨_, _, hdarkest, hbrightest, (hsummary _).symm⟩
  obtain ⟨-, htells⟩ := report_tells_stretch r g
  obtain ⟨_, _, -, -, hline⟩ := htells hmode
  obtain ⟨-, -, -, hsame⟩ := hline line hmem
  rw [← htext]
  exact ⟨hmem, hsame⟩

end Request

end OrbitImage
