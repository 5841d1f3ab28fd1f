/-
Circles, as sampled curves. Main statement: `length_of_sample`, a sampled circle has as many
points as were asked for.
-/
import PathCurves.Segment

namespace PathCurves

/-- A circle by its centre and its radius. -/
structure Circle (α : Type) where
  centre : Point α
  radius : α
deriving BEq, DecidableEq, Repr

namespace Circle

variable {α : Type} [Scalar α] [Trig α]

/-- The point of the circle in the direction of an angle in radians. -/
def pointAt (c : Circle α) (angle : α) : Point α :=
  c.centre + (⟨Trig.cos angle, Trig.sin angle⟩ : Point α) * c.radius

/-- One full turn of the circle, both ends included, in at least two samples. -/
def sample (c : Circle α) (count : Nat) : Except Fault (Segment α) :=
  if h : 2 ≤ count then .ok (.sampled c.pointAt 0.0 (2.0 * Scalar.pi) count h)
  else .error (.tooFew .samples count 2)

theorem length_of_sample {c : Circle α} {count : Nat} {s : Segment α}
    (h : c.sample count = .ok s) : s.length = count := by
  unfold sample at h
  split at h
  · next hcount =>
    cases h
    exact Segment.length_sampled _ _ _ _ hcount
  · cases h

end Circle

end PathCurves
