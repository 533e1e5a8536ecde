/-!
Kinds of faults, each with its code and the words its messages start with.
-/
namespace OrbitImage

inductive FaultKind
  | policy
  | lexical
  | grammar
  | internal
  | setting
  | file
  | busy
  | gone
  /-- The program itself breaks off; nobody is told a code or a reason. -/
  | abort
  deriving DecidableEq, Repr

def FaultKind.code : FaultKind → String
  | .policy => "bitviz::policy"
  | .lexical => "bitviz::lex"
  | .grammar => "bitviz::parse"
  | .internal => "bitviz::internal"
  | .setting => "bitviz::config"
  | .file => "bitviz::io"
  | .busy | .gone => "bitviz::worker"
  | .abort => ""

/-- What a message of this kind starts with. -/
def FaultKind.heading : FaultKind → String
  | .lexical => "Lexical error: "
  | .grammar => "Syntax error: "
  | .internal => "Internal consistency failure: "
  | .setting => "Configuration error: "
  | .file => "IO error with "
  | .policy | .busy | .gone | .abort => ""

end OrbitImage
