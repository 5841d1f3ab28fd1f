/-
Arcs of the deltoid, the curve with three cusps that a point of a circle traces when the
circle rolls inside one of three times its size. Main statements: `trace_eq_ok_iff`, when there
is an arc and what it is, and `length_of_trace`, it has as many points as were asked for.
-/
import PathCurves.Segment
import PathCurves.Sweep

namespace PathCurves

/-- What determines an arc of a deltoid, which has its cusps on the circle of `radius` around
`centre`. -/
structure Deltoid (α : Type) where
  radius : α
  sweep : Sweep α
  centre : Point α
  samples : Nat
deriving BEq, DecidableEq, Repr

namespace Deltoid

/-- How many points an arc has unless the caller says otherwise. -/
def defaultSamples : Nat := 500

variable {α : Type} [Scalar α]

/-- An arc around the origin. -/
def atOrigin (radius : α) (sweep : Sweep α) : Deltoid α :=
  ⟨radius, sweep, Point.origin, defaultSamples⟩

variable [Trig α]

/-- The deltoid around the origin with a cusp at `(3, 0)`. -/
def canonical (t : α) : Point α :=
  ⟨2.0 * Trig.cos t + Trig.cos (2.0 * t), 2.0 * Trig.sin t - Trig.sin (2.0 * t)⟩

/-- The point of the curve at a parameter in radians: the canonical one scaled, turned and
moved, in that order. -/
def pointAt (d : Deltoid α) (t : α) : Point α :=
  Point.turned (Scalar.radians d.sweep.turn) (canonical t * (d.radius / 3.0)) + d.centre

/-- The arc, in at least two samples of a curve of finite size. -/
def trace (d : Deltoid α) : Except Fault (Segment α) :=
  if h : 2 ≤ d.samples then
    if Scalar.isFinite d.radius then
      let ends := d.sweep.radians
      .ok (.sampled d.pointAt ends.1 ends.2 d.samples h)
    else .error .unboundedRadius
  else .error (.tooFew .samples d.samples 2)

theorem trace_eq_ok_iff {d : Deltoid α} {s : Segment α} :
    d.trace = .ok s ↔ ∃ h : 2 ≤ d.samples, Scalar.isFinite d.radius = true ∧
      s = .sampled d.pointAt d.sweep.radians.1 d.sweep.radians.2 d.samples h := by
  unfold trace
  refine ⟨?_, ?_⟩
  · intro h
    split at h
    · next hcount =>
      split at h
      · next hfinite =>
        cases h
        exact ⟨hcount, hfinite, rfl⟩
      · cases h
    · cases h
  · intro h
    obtain ⟨hcount, hfinite, rfl⟩ := h
    rw [dif_pos hcount, if_pos hfinite]

theorem length_of_trace {d : Deltoid α} {s : Segment α} (h : d.trace = .ok s) :
    s.length = d.samples := by
  obtain ⟨hcount, -, rfl⟩ := trace_eq_ok_iff.mp h
  exact Segment.length_sampled _ _ _ _ hcount

end Deltoid

end PathCurves
