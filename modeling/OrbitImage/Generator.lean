import OrbitImage.BuiltIn
import OrbitImage.Equation.Program
/-!
Generators: each value is a function of the one before. Main definitions: `Generator.step`;
`Generator.orbit`, the values from a seed on; and `Generator.sample`, the first of them.
-/
namespace OrbitImage

inductive Generator
  | custom (program : Program)
  | builtIn (b : BuiltIn)
  deriving DecidableEq

namespace Generator

def step : Generator → UInt32 → UInt32
  | custom program, x => program.eval x
  | builtIn b, x => b.step x

/-- The value after a number of steps from a seed. -/
def orbit (g : Generator) (seed : UInt32) : Nat → UInt32
  | 0 => seed
  | k + 1 => g.step (g.orbit seed k)

def extend (g : Generator) : Nat → UInt32 → Array UInt32 → Array UInt32
  | 0, _, values => values
  | count + 1, x, values =>
    let next := g.step x
    extend g count next (values.push next)

/-- The first `count` values after the seed. -/
def sample (g : Generator) (seed : UInt32) (count : Nat) : Array UInt32 :=
  g.extend count seed (Array.emptyWithCapacity count)

def text : Generator → String
  | custom program => "custom [" ++ program.text ++ "]"
  | builtIn b => "built-in " ++ b.id

end Generator

end OrbitImage
