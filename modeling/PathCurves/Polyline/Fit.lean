/-
Curves fitted to a path: a spiral in place of a run of its points, and the deltoid arc
that its first, middle and last points determine. Main statements: `spliceSpiral_eq_ok` and
`fitArc_eq_ok`, what the result is made from when there is one.
-/
import PathCurves.Circle.Chord
import PathCurves.Polyline
import PathCurves.Sampling

namespace PathCurves

/-- A deltoid arc fitted to a path, with the circle through the cusps of the deltoid and the
direction, in degrees, from the first point of the path to its last. -/
structure ArcFit (α : Type) where
  circle : Circle α
  heading : α
  segment : Segment α
deriving DecidableEq, Repr

namespace Polyline

variable {α : Type} [Scalar α] [Trig α]

/-- The path with the points from `start` to `stop` replaced by the spiral between the
first and the last of them. -/
def spliceSpiral (path : Polyline α) (start stop : Nat) (sampling : Sampling) :
    Except Fault (Polyline α) :=
  if h : path.Covers start stop then
    have hstop : stop < path.length := h.2
    have hstart : start < path.length := Nat.lt_of_le_of_lt h.1 h.2
    do
      let spiral ← Spiral.trace
        ⟨path[start], path[stop], sampling.spiralPoints, 1.0, sampling.fresnelSteps⟩
      path.splice start stop spiral
  else .error (.outOfRange start stop path.length)

/-- What a path with a spiral in it is made from: the points before and after the run, and the
trace of the spiral. -/
theorem spliceSpiral_eq_ok {path spliced : Polyline α} {start stop : Nat} {sampling : Sampling}
    (h : path.spliceSpiral start stop sampling = .ok spliced) :
    ∃ (_ : path.Covers start stop) (_ : start < path.length) (_ : stop < path.length)
      (spiral : Segment α), Spiral.trace
        ⟨path[start], path[stop], sampling.spiralPoints, 1.0, sampling.fresnelSteps⟩ = .ok spiral ∧
      spliced.points = path.points.take start ++ spiral.points ++ path.points.drop (stop + 1) := by
  unfold spliceSpiral at h
  split at h
  · next hcovers =>
    obtain ⟨spiral, hspiral, h⟩ := Except.bind_eq_ok_iff.mp h
    rw [splice_of_covers hcovers] at h
    cases h
    exact ⟨hcovers, Nat.lt_of_le_of_lt hcovers.1 hcovers.2, hcovers.2, spiral, hspiral, rfl⟩
  · cases h

theorem spliceSpiral_of_not_covers {path : Polyline α} {start stop : Nat}
    (h : ¬ path.Covers start stop) (sampling : Sampling) :
    path.spliceSpiral start stop sampling = .error (.outOfRange start stop path.length) :=
  dif_neg h

theorem spliceSpiral_of_get? {path : Polyline α} {start stop : Nat} {a b : Point α}
    (hle : start ≤ stop) (ha : path.get? start = some a) (hb : path.get? stop = some b)
    (sampling : Sampling) : path.spliceSpiral start stop sampling =
      (Spiral.trace ⟨a, b, sampling.spiralPoints, 1.0, sampling.fresnelSteps⟩ >>= fun spiral =>
        path.splice start stop spiral) := by
  obtain ⟨_, rfl⟩ := get?_eq_some_iff.mp ha
  obtain ⟨hstop, rfl⟩ := get?_eq_some_iff.mp hb
  exact dif_pos ⟨hle, hstop⟩

/-- The stretch of the deltoid that is fitted to a path: from a cusp over the next one to
the third. -/
def arcSweep : Sweep α := .unturned 0.0 240.0

/-- How far the first cusp lies to the right of the direction of the path, in degrees. -/
def cuspOffset : α := 30.0

/-- The deltoid arc fitted to the first, middle and last points of a path, which has at
least three. -/
def fitArc (path : Polyline α) (sampling : Sampling) : Except Fault (ArcFit α) :=
  if h : 3 ≤ path.length then do
    let first := path[0]
    let last := path[path.length - 1]
    let middle := path[path.length / 2]
    let circle ← Circle.ofChord first last middle
    let heading ← Point.heading first last
    let segment ← Deltoid.trace
      ⟨circle.radius, arcSweep.turnedBy (heading - cuspOffset), circle.centre,
        sampling.deltoidPoints⟩
    return ⟨circle, heading, segment⟩
  else .error (.tooFew .pathPoints path.length 3)

/-- What a fitted arc is made from: the circle, the direction and the trace of the deltoid. -/
theorem fitArc_eq_ok {path : Polyline α} {sampling : Sampling} {fit : ArcFit α}
    (h : path.fitArc sampling = .ok fit) :
    ∃ hlen : 3 ≤ path.length,
      Circle.ofChord path[0] path[path.length - 1] path[path.length / 2] = .ok fit.circle ∧
      Point.heading path[0] path[path.length - 1] = .ok fit.heading ∧
      Deltoid.trace ⟨fit.circle.radius, arcSweep.turnedBy (fit.heading - cuspOffset),
        fit.circle.centre, sampling.deltoidPoints⟩ = .ok fit.segment := by
  unfold fitArc at h
  split at h
  · next hlen =>
    obtain ⟨circle, hcircle, h⟩ := Except.bind_eq_ok_iff.mp h
    obtain ⟨heading, hheading, h⟩ := Except.bind_eq_ok_iff.mp h
    obtain ⟨segment, hsegment, h⟩ := Except.bind_eq_ok_iff.mp h
    cases h
    exact ⟨hlen, hcircle, hheading, hsegment⟩
  · cases h

theorem fitArc_of_trace {path : Polyline α} {sampling : Sampling} {circle : Circle α}
    {heading : α} {segment : Segment α} (hlen : 3 ≤ path.length)
    (hcircle : Circle.ofChord path[0] path[path.length - 1] path[path.length / 2] = .ok circle)
    (hheading : Point.heading path[0] path[path.length - 1] = .ok heading)
    (htrace : Deltoid.trace ⟨circle.radius, arcSweep.turnedBy (heading - cuspOffset),
      circle.centre, sampling.deltoidPoints⟩ = .ok segment) :
    path.fitArc sampling = .ok ⟨circle, heading, segment⟩ := by
  simp only [fitArc, dif_pos hlen, hcircle, hheading, bind, Except.bind, htrace]
  rfl

end Polyline

end PathCurves
