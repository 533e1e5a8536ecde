/-!
White space and letter case in texts. Main definitions: `isBlank`, the code points with the Unicode
property White_Space; `strip` and `trim`, which remove them everywhere or at both ends; and `lower`.
-/
namespace OrbitImage.Text

/-- The twenty-five code points with the property White_Space. -/
def isBlank (c : Char) : Bool :=
  let n := c.toNat
  (0x09 ≤ n && n ≤ 0x0D) || n == 0x20 || n == 0x85 || n == 0xA0 || n == 0x1680 ||
    (0x2000 ≤ n && n ≤ 0x200A) || n == 0x2028 || n == 0x2029 || n == 0x202F || n == 0x205F ||
    n == 0x3000

def strip (s : String) : List Char :=
  s.toList.filter (!isBlank ·)

def trimChars (cs : List Char) : List Char :=
  ((cs.dropWhile isBlank).reverse.dropWhile isBlank).reverse

def trim (s : String) : String :=
  String.ofList (trimChars s.toList)

/-- Lower case, exact wherever the result holds an ASCII letter, which is all that a comparison with
an ASCII name needs: beside A to Z these are the Kelvin sign and the dotted capital I, which becomes
two characters. -/
def lowerChar (c : Char) : List Char :=
  if c = '\u212A' then ['k']
  else if c = '\u0130' then ['i', '\u0307']
  else [c.toLower]

def lower (s : String) : String :=
  String.ofList (s.toList.flatMap lowerChar)

/-- Lower case of the letters A to Z alone. -/
def lowerAscii (s : String) : String :=
  String.ofList (s.toList.map Char.toLower)

end OrbitImage.Text
