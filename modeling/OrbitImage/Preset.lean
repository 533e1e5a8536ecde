import OrbitImage.Text.Basic
/-!
Named example equations. A preset is found by its name or by its slug, in any letter case.
-/
namespace OrbitImage

structure Preset where
  name : String
  equation : String
  deriving DecidableEq, Repr

namespace Preset

def isAlphanumeric (c : Char) : Bool :=
  c.isDigit || ('a' ≤ c && c ≤ 'z') || ('A' ≤ c && c ≤ 'Z')

/-- Adds a character to a slug, which is held last character first. A letter or digit is added in
lower case; anything else adds a dash, but not at the start and not after a dash. -/
def extend (slug : List Char) (c : Char) : List Char :=
  if isAlphanumeric c then c.toLower :: slug
  else
    match slug with
    | [] => []
    | '-' :: _ => slug
    | _ => '-' :: slug

def slugChars (name : List Char) : List Char :=
  ((name.foldl extend []).dropWhile (· = '-')).reverse

/-- The name in lower case, with single dashes between its words. -/
def slug (p : Preset) : String :=
  String.ofList (slugChars p.name.toList)

def all : List Preset :=
  [⟨"LCG", "(x * 1664525) + 1013904223"⟩,
   ⟨"Xorshift32", "x ^ (x << 13)"⟩,
   ⟨"Xorshift with ROL", "x ^ (x ROL 13)"⟩,
   ⟨"Counter", "x + 1"⟩,
   ⟨"Bad (Low Bits)", "x + 4"⟩,
   ⟨"Complex Mix", "(x ^ (x >> 15)) * (x | 0x55555555)"⟩]

/-- The preset with a name or slug, but for blanks around it and the case of A to Z. -/
def find? (name : String) : Option Preset :=
  let wanted := Text.lowerAscii (Text.trim name)
  all.find? fun p => Text.lowerAscii p.name = wanted || Text.lowerAscii p.slug = wanted

end Preset

end OrbitImage
