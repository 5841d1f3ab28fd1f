/-
Paths: the points that are edited. A run of consecutive points can be replaced by a
segment (`splice`); positions count from zero and both ends of the run belong to it. Main
statements: `splice_of_covers` and `splice_of_not_covers`, a splice succeeds exactly on the
runs that the path covers.
-/
import PathCurves.Segment

namespace PathCurves

/-- An open path through points, in order; it may have none. -/
structure Polyline (α : Type) where
  points : List (Point α) := []
deriving BEq, DecidableEq, Repr, Inhabited

namespace Polyline

variable {α : Type}

/-- The path through points that are given by pairs of coordinates. -/
def ofCoordinates (pairs : List (α × α)) : Polyline α :=
  ⟨pairs.map fun (x, y) => ⟨x, y⟩⟩

/-- How many points the path has. -/
def length (path : Polyline α) : Nat := path.points.length

/-- Whether the path has no point. -/
def isEmpty (path : Polyline α) : Bool := path.points.isEmpty

/-- The point at a position, if the path reaches that far. -/
def get? (path : Polyline α) (position : Nat) : Option (Point α) := path.points[position]?

/-- The positions from `start` to `stop` are a run of points of the path. -/
def Covers (path : Polyline α) (start stop : Nat) : Prop := start ≤ stop ∧ stop < path.length

instance : GetElem (Polyline α) Nat (Point α) fun path position => position < path.length where
  getElem path position h := path.points[position]

theorem get?_eq_some_iff {path : Polyline α} {position : Nat} {p : Point α} :
    path.get? position = some p ↔ ∃ h : position < path.length, path[position] = p :=
  List.getElem?_eq_some_iff

theorem Covers.exists_ends {path : Polyline α} {start stop : Nat} (h : path.Covers start stop) :
    ∃ a b, path.get? start = some a ∧ path.get? stop = some b :=
  ⟨_, _, get?_eq_some_iff.mpr ⟨Nat.lt_of_le_of_lt h.1 h.2, rfl⟩, get?_eq_some_iff.mpr ⟨h.2, rfl⟩⟩

instance (path : Polyline α) (start stop : Nat) : Decidable (path.Covers start stop) :=
  inferInstanceAs (Decidable (_ ∧ _))

/-- The path with the points from `start` to `stop` replaced by a segment. -/
def splice (path : Polyline α) (start stop : Nat) (segment : Segment α) :
    Except Fault (Polyline α) :=
  if path.Covers start stop then
    .ok ⟨path.points.take start ++ segment.points ++ path.points.drop (stop + 1)⟩
  else .error (.outOfRange start stop path.length)

theorem splice_of_covers {path : Polyline α} {start stop : Nat} (h : path.Covers start stop)
    (segment : Segment α) :
    path.splice start stop segment =
      .ok ⟨path.points.take start ++ segment.points ++ path.points.drop (stop + 1)⟩ :=
  if_pos h

theorem splice_of_not_covers {path : Polyline α} {start stop : Nat}
    (h : ¬ path.Covers start stop) (segment : Segment α) :
    path.splice start stop segment = .error (.outOfRange start stop path.length) :=
  if_neg h

end Polyline

/-- A segment is a path of its own. -/
def Segment.toPolyline {α : Type} (s : Segment α) : Polyline α := ⟨s.points⟩

end PathCurves
