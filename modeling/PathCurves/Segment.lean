/-
Curve segments: runs of points with at least one point. Every generated curve is one.
Main statements: `length_sampled`, a sampled curve has as many points as were asked for, and
`ofPoints_eq_ok_iff`, which lists of points are segments.
-/
import PathCurves.Fault
import PathCurves.Point
import PathCurves.Spacing

namespace PathCurves

/-- The points of a piece of a curve, in order; there is at least one. -/
structure Segment (α : Type) where
  points : List (Point α)
  nonempty : points ≠ []
deriving DecidableEq, Repr

namespace Segment

variable {α : Type}

/-- The points as a segment, if there are any. -/
def ofPoints (points : List (Point α)) : Except Fault (Segment α) :=
  if h : points = [] then .error .emptySegment else .ok ⟨points, h⟩

theorem ofPoints_eq_ok_iff {points : List (Point α)} {s : Segment α} :
    ofPoints points = .ok s ↔ points = s.points := by
  unfold ofPoints
  split
  · next h =>
    refine ⟨?_, ?_⟩
    · intro hs
      cases hs
    · intro hs
      exact absurd (hs ▸ h) s.nonempty
  · refine ⟨?_, ?_⟩
    · intro hs
      cases hs
      rfl
    · intro hs
      subst hs
      rfl

/-- How many points the segment has. -/
def length (s : Segment α) : Nat := s.points.length

/-- Whether the segment has no point, which never happens. -/
def isEmpty (s : Segment α) : Bool := s.points.isEmpty

/-- The point that the segment starts from. -/
def first (s : Segment α) : Point α := s.points.head s.nonempty

/-- The point that the segment ends in. -/
def last (s : Segment α) : Point α := s.points.getLast s.nonempty

/-- The curve `f` at `count` evenly spaced parameters from `start` to `stop`. -/
def sampled [Scalar α] (f : α → Point α) (start stop : α) (count : Nat) (h : 2 ≤ count) :
    Segment α where
  points := (spaced start stop count).map f
  nonempty := by simpa using spaced_ne_nil start stop (by omega : 0 < count)

theorem points_sampled [Scalar α] (f : α → Point α) (start stop : α) (count : Nat)
    (h : 2 ≤ count) :
    (sampled f start stop count h).points = (spaced start stop count).map f := rfl

@[simp] theorem length_sampled [Scalar α] (f : α → Point α) (start stop : α) (count : Nat)
    (h : 2 ≤ count) : (sampled f start stop count h).length = count := by
  simp [sampled, length]

theorem first_sampled [Scalar α] (f : α → Point α) (start stop : α) (count : Nat)
    (h : 2 ≤ count) : (sampled f start stop count h).first =
      f (start + stride start stop count * ((0 : Nat) : α)) := by
  simp only [sampled, first, List.head_map, head_spaced start stop h]

theorem last_sampled [Scalar α] (f : α → Point α) (start stop : α) (count : Nat)
    (h : 2 ≤ count) : (sampled f start stop count h).last = f stop := by
  simp only [sampled, last, List.getLast_map, getLast_spaced start stop h]

@[simp] theorem isEmpty_eq_false (s : Segment α) : s.isEmpty = false := by
  simpa [isEmpty] using s.nonempty

theorem length_pos (s : Segment α) : 0 < s.length :=
  List.length_pos_iff.mpr s.nonempty

end Segment

end PathCurves
