/-
The report on a path: the path with a spiral in place of a run of its points, the arc that is
fitted to it, and the circle of that arc, as three blocks of lines. The lines are written one
after the other, and none is taken back where a later step fails.
-/
import PathCurves.Fault.Wording
import PathCurves.Polyline.Fit
import PathCurves.Polyline.Printer
import PathCurves.Polyline.Reader
import PathCurves.Scalar.Double
import PathCurves.Text.Index

namespace PathCurves.Report

/-- Where the path comes from: one is built in, for when no file is named. -/
inductive Origin where
  | builtIn
  | file (source : ByteSource)
  | unavailable (failure : ReadFailure)
deriving DecidableEq, Repr

/-- The path that is reported on when none is named: seven points up and down a slope. -/
def examplePath : Polyline Float :=
  .ofCoordinates [(0.0, 0.0), (1.0, 1.5), (2.0, 3.0), (3.0, 5.0), (4.0, 3.5), (5.0, 2.0), (6.0, 1.0)]

/-- The path of an origin. -/
def Origin.path : Origin → Except Fault (Polyline Float)
  | .builtIn => .ok examplePath
  | .file source => Polyline.read source
  | .unavailable failure => .error (.unreadable failure)

/-- The run of points to replace: the two bounds given first, or without two of them all but
the first two points and the last. -/
def range (bounds : List String) (length : Nat) : Except Fault (Nat × Nat) :=
  match bounds with
  | start :: stop :: _ => do
    let start ← Text.parseIndex start
    let stop ← Text.parseIndex stop
    return (start, stop)
  | _ => .ok (2, length - 2)

/-- How many points stand for the circle. -/
def circlePoints : Nat := 100

/-- A program that writes lines as it goes on, after those that are written already. Where it
stops at a fault, the lines before it stay. -/
abbrev Writer (α : Type) : Type := EStateM Fault (Array String) α

/-- The result of an operation, or a stop at its fault. -/
def attempt {α : Type} : Except Fault α → Writer α
  | .ok a => pure a
  | .error fault => throw fault

/-- Writes one line. -/
def writeLine (line : String) : Writer Unit := modify (·.push line)

/-- Writes the lines of points. -/
def writePoints (points : List (Point Float)) : Writer Unit :=
  points.forM fun p => writeLine p.line

/-- Writes the three blocks, with an empty line between one and the next. The circle is sampled
only after two of them are written. -/
def writeBlocks (spliced : Polyline Float) (fit : ArcFit Float) : Writer Unit := do
  writePoints spliced.points
  writeLine ""
  writePoints fit.segment.points
  writeLine ""
  let circle ← attempt (fit.circle.sample circlePoints)
  writePoints circle.points

/-- Writes the report. -/
def report (origin : Origin) (bounds : List String) : Writer Unit := do
  let path ← attempt origin.path
  let (start, stop) ← attempt (range bounds path.length)
  let spliced ← attempt (path.spliceSpiral start stop {})
  let fit ← attempt (path.fitArc {})
  writeBlocks spliced fit

/-- What a run of the program leaves behind. -/
structure Outcome where
  code : UInt8
  output : List String
  complaint : Option String
deriving DecidableEq, Repr

/-- A run of the program. -/
def run (origin : Origin) (bounds : List String) : Outcome :=
  match (report origin bounds).run #[] with
  | .ok _ written => ⟨0, written.toList, none⟩
  | .error fault written => ⟨1, written.toList, some s!"Error: {fault.inspect}"⟩

end PathCurves.Report
