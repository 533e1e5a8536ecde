import OrbitImage.Image.Balance
/-!
Short texts about images and their progress.
-/
namespace OrbitImage

def plural (n : Nat) (one many : String) : String :=
  toString n ++ " " ++ if n = 1 then one else many

/-- How many bits are biased, and the worst of them. -/
def BitStat.summary (entries : List BitStat) : String :=
  match worst? entries with
  | some s =>
    plural (biased entries) "bit" "bits" ++ " biased, worst bit " ++ toString s.bit ++ " at " ++
      tenths (s.proportion * 100) ++ "% set"
  | none => "no bits"

/-- A bar of cells, filled from the left; a half filled cell is filled. -/
def progressBar (percent : Float) (width : UInt64) : String :=
  let clamped := if percent < 0 then 0 else if percent > 100 then 100 else percent
  let filled := (clamped / 100 * width.toFloat).round.toUInt64
  "[" ++ "".pushn '#' filled.toNat ++ "".pushn '.' (width - filled).toNat ++ "]"

/-- What a contrast setting did to an image of the observed range. -/
def Contrast.summary (c : Contrast) (observed : GrayRange) : String :=
  let span (low high : UInt8) : String := toString low ++ ".." ++ toString high
  if c.enabled then
    let (low, high) := c.bounds observed
    if high ≤ low then "range " ++ span low high ++ ", too narrow to stretch"
    else
      "stretched " ++ span low high ++ " to 0..255" ++
        if c.auto then "" else " (observed " ++ span observed.min observed.max ++ ")"
  else "range " ++ span observed.min observed.max

end OrbitImage
