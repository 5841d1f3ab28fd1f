/-
Chords: pairs of points far enough apart to have a direction.
-/
import PathCurves.Fault
import PathCurves.Point

namespace PathCurves.Point

variable {α : Type} [Scalar α]

/-- Two points that span no chord: they are less than the tolerance apart. -/
def Near (a b : Point α) : Prop := (b - a).norm < Scalar.tolerance

instance (a b : Point α) : Decidable (Near a b) :=
  inferInstanceAs (Decidable (_ < _))

/-- The direction from `a` to `b` in degrees, measured from the first axis to the left. -/
def heading [Trig α] (a b : Point α) : Except Fault α :=
  if Near a b then .error .noChord
  else
    let d := b - a
    .ok (Scalar.degrees (Trig.atan2 d.y d.x))

theorem heading_of_not_near [Trig α] {a b : Point α} (h : ¬ Near a b) :
    heading a b = .ok (Scalar.degrees (Trig.atan2 (b - a).y (b - a).x)) :=
  if_neg h

end PathCurves.Point
