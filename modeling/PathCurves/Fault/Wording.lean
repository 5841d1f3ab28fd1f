/-
Faults in words. `Fault.message` is one line for a reader; `Fault.inspect` spells out the
cause with its fields.
-/
import PathCurves.Fault
import PathCurves.Text.Quoted

namespace PathCurves

open Text (quoted)

/-- The letter of an axis. -/
def Axis.letter : Axis → String
  | .x => "x"
  | .y => "y"

/-- The letter of an axis among other names. -/
def Axis.capital : Axis → String
  | .x => "X"
  | .y => "Y"

/-- What a count is called in messages. -/
def Count.name : Count → String
  | .samples => "num_points"
  | .fresnelSteps => "fresnel_steps"
  | .pathPoints => "path points"

/-- What is said of bytes that are not text. -/
def ReadFailure.notUtf8Message : String := "stream did not contain valid UTF-8"

/-- The message of a failure to read. -/
def ReadFailure.message : ReadFailure → String
  | .notUtf8 => notUtf8Message
  | .system code _ description => s!"{description} (os error {code})"
  | .broken reason => reason

/-- A record of named fields. -/
def record (name : String) (fields : List (String × String)) : String :=
  let body := ", ".intercalate (fields.map fun (field, value) => field ++ ": " ++ value)
  name ++ " \x7b " ++ body ++ " \x7d"

/-- The cause of a failure to read, spelt out. -/
def ReadFailure.inspect : ReadFailure → String
  | .notUtf8 => record "Error" [("kind", "InvalidData"), ("message", quoted notUtf8Message)]
  | .system code kind description =>
    record "Os" [("code", toString code), ("kind", kind), ("message", quoted description)]
  | .broken reason => record "Custom" [("kind", "Other"), ("error", quoted reason)]

namespace Fault

/-- The reason that is given where a deltoid cannot be drawn. -/
def unboundedRadiusReason : String := "deltoid radius must be finite"

/-- The message of a fault. -/
def message : Fault → String
  | .flatAnchor axis => s!"rescale span along {axis.letter} is zero"
  | .collinear => "points do not determine a unique circle"
  | .noChord => "zero-length chord"
  | .emptySegment => "curve segment must contain at least one point"
  | .unboundedRadius => s!"degenerate geometry: {unboundedRadiusReason}"
  | .outOfRange start stop length =>
    s!"index range [{start}, {stop}] is invalid for a path of {length} points"
  | .tooFew count given least => s!"{count.name} = {given} is below the minimum of {least}"
  | .malformedLine number text =>
    s!"line {number}: expected two numbers, found {quoted text}"
  | .invalidIndex text => s!"expected a non-negative index, found {quoted text}"
  | .unreadable failure => failure.message

/-- The part of the library that a fault belongs to. -/
def family : Fault → String
  | .flatAnchor _ | .collinear | .noChord | .emptySegment | .unboundedRadius => "Geometry"
  | .outOfRange _ _ _ | .tooFew _ _ _ => "Operation"
  | .malformedLine _ _ | .invalidIndex _ => "Parse"
  | .unreadable _ => "Io"

/-- The cause of a fault, with all that it carries. -/
def cause : Fault → String
  | .flatAnchor axis => record "DegenerateAnchor" [("axis", axis.capital)]
  | .collinear => "CollinearInput"
  | .noChord => "DegenerateChord"
  | .emptySegment => "EmptySegment"
  | .unboundedRadius => s!"Degenerate({quoted unboundedRadiusReason})"
  | .outOfRange start stop length =>
    record "IndexRange"
      [("start", toString start), ("end", toString stop), ("len", toString length)]
  | .tooFew count given least =>
    record "InsufficientSamples"
      [("parameter", quoted count.name), ("value", toString given), ("min", toString least)]
  | .malformedLine number text =>
    record "MalformedLine" [("line", toString number), ("content", quoted text)]
  | .invalidIndex text => record "InvalidIndex" [("value", quoted text)]
  | .unreadable failure => failure.inspect

/-- A fault spelt out: its family, and in it the cause. -/
def inspect (fault : Fault) : String := s!"{fault.family}({fault.cause})"

end Fault

end PathCurves
