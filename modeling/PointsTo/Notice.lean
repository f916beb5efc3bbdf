/-!
# Notices

What the library reports while it works, each with a severity. A reader who asks
for one severity also gets every more severe notice.
-/

namespace PointsTo

/-- How much a notice matters, from the most to the least severe. -/
inductive Severity
  | error | warn | info | debug | trace
  deriving DecidableEq, Ord

/-- A line of the record of a run. -/
structure Notice where
  severity : Severity
  text : String
  deriving DecidableEq

/-- Whether a reader who asks for `level` gets a notice of severity `s`. -/
def Severity.reaches (s level : Severity) : Bool := (compare s level).isLE

def Severity.name : Severity → String
  | .error => "ERROR"
  | .warn => "WARN"
  | .info => "INFO"
  | .debug => "DEBUG"
  | .trace => "TRACE"

def Notice.line (n : Notice) : String := s!"{n.severity.name} {n.text}"

end PointsTo
