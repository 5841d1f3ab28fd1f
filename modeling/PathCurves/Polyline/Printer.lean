/-
Writing points as text, one a line: the two coordinates with a space between them.
-/
import PathCurves.Polyline
import PathCurves.Text.Positional

namespace PathCurves

/-- The line of a point. -/
def Point.line (p : Point Float) : String :=
  String.ofList (Text.ofDouble p.x ++ ' ' :: Text.ofDouble p.y)

/-- The lines of points, in order. -/
def Point.lines (points : List (Point Float)) : List String := points.map Point.line

/-- The text of a path: the lines of its points, each ended by a line feed. -/
def Polyline.print (path : Polyline Float) : String :=
  String.join ((Point.lines path.points).map (· ++ "\n"))

end PathCurves
