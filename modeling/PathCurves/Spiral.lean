/-
Euler spirals between two anchors: the curve whose coordinates are the Fresnel integrals,
stretched along each axis until it spans the anchors' box. Main statements: `trace_eq_ok_iff`,
when there is a spiral and what it is, and `length_of_trace`, it has as many points as were
asked for.
-/
import PathCurves.Extent
import PathCurves.Fresnel
import PathCurves.Segment

namespace PathCurves

/-- What determines a spiral: the anchors of the smallest and of the greatest raw coordinates, and
the upper bound `rate` of the Fresnel integrals at its last sample. `steps` counts the positions of
each Fresnel sum. -/
structure Spiral (α : Type) where
  start : Point α
  stop : Point α
  samples : Nat
  rate : α
  steps : Nat
deriving BEq, DecidableEq, Repr

namespace Spiral

/-- How many points a spiral has unless the caller says otherwise. -/
def defaultSamples : Nat := 100

variable {α : Type} [Scalar α]

/-- The spiral of unit rate between two anchors. -/
def between (start stop : Point α) : Spiral α :=
  ⟨start, stop, defaultSamples, 1.0, Fresnel.defaultSteps⟩

variable [Trig α]

/-- The spiral before it is stretched. -/
@[specialize] def raw (s : Spiral α) : List (Point α) :=
  let scale := Scalar.sqrt (Scalar.pi / 2.0 : α)
  (spaced 0.0 1.0 s.samples).map fun t =>
    let sums := Fresnel.sums (s.rate * t) s.steps
    ⟨sums.1 * scale, sums.2 * scale⟩

/-- The spiral between its anchors, which must differ along both axes. -/
def trace (s : Spiral α) : Except Fault (Segment α) :=
  if s.samples < 2 then .error (.tooFew .samples s.samples 2)
  else if s.start.x == s.stop.x then .error (.flatAnchor .x)
  else if s.start.y == s.stop.y then .error (.flatAnchor .y)
  else if s.steps < 2 then .error (.tooFew .fresnelSteps s.steps 2)
  else do
    let raw := s.raw
    let xs ← rescale .x s.start.x s.stop.x (raw.map Point.x)
    let ys ← rescale .y s.start.y s.stop.y (raw.map Point.y)
    Segment.ofPoints (List.zipWith Point.mk xs ys)

theorem trace_eq_ok_iff {s : Spiral α} {segment : Segment α} :
    s.trace = .ok segment ↔ 2 ≤ s.samples ∧ ¬ (s.start.x == s.stop.x) = true ∧
      ¬ (s.start.y == s.stop.y) = true ∧ 2 ≤ s.steps ∧
      ∃ xs ys, rescale .x s.start.x s.stop.x (s.raw.map Point.x) = .ok xs ∧
        rescale .y s.start.y s.stop.y (s.raw.map Point.y) = .ok ys ∧
        List.zipWith Point.mk xs ys = segment.points := by
  unfold trace
  refine ⟨?_, ?_⟩
  · intro h
    split at h
    · cases h
    · next hsamples =>
      split at h
      · cases h
      · next hx =>
        split at h
        · cases h
        · next hy =>
          split at h
          · cases h
          · next hsteps =>
            obtain ⟨xs, hxs, h⟩ := Except.bind_eq_ok_iff.mp h
            obtain ⟨ys, hys, h⟩ := Except.bind_eq_ok_iff.mp h
            exact ⟨Nat.not_lt.mp hsamples, hx, hy, Nat.not_lt.mp hsteps, xs, ys, hxs, hys,
              Segment.ofPoints_eq_ok_iff.mp h⟩
  · intro h
    obtain ⟨hsamples, hx, hy, hsteps, xs, ys, hxs, hys, h⟩ := h
    rw [if_neg (Nat.not_lt.mpr hsamples), if_neg hx, if_neg hy, if_neg (Nat.not_lt.mpr hsteps)]
    exact Except.bind_eq_ok_iff.mpr ⟨xs, hxs, Except.bind_eq_ok_iff.mpr
      ⟨ys, hys, Segment.ofPoints_eq_ok_iff.mpr h⟩⟩

@[simp] theorem length_raw (s : Spiral α) : s.raw.length = s.samples := by
  simp [raw]

/-- Once both coordinates are rescaled, nothing stops the trace. -/
theorem exists_trace_of_rescale {s : Spiral α} {xs ys : List α} (hsamples : 2 ≤ s.samples)
    (hx : ¬ (s.start.x == s.stop.x) = true) (hy : ¬ (s.start.y == s.stop.y) = true)
    (hsteps : 2 ≤ s.steps) (hxs : rescale .x s.start.x s.stop.x (s.raw.map Point.x) = .ok xs)
    (hys : rescale .y s.start.y s.stop.y (s.raw.map Point.y) = .ok ys) :
    ∃ segment : Segment α, List.zipWith Point.mk xs ys = segment.points ∧
      s.trace = .ok segment := by
  have hlength : (List.zipWith Point.mk xs ys).length = s.samples := by
    simp [length_of_rescale hxs, length_of_rescale hys]
  have hne : List.zipWith Point.mk xs ys ≠ [] := List.ne_nil_of_length_pos (by omega)
  exact ⟨⟨_, hne⟩, rfl, trace_eq_ok_iff.mpr ⟨hsamples, hx, hy, hsteps, xs, ys, hxs, hys, rfl⟩⟩

theorem length_of_trace {s : Spiral α} {segment : Segment α} (h : s.trace = .ok segment) :
    segment.length = s.samples := by
  obtain ⟨-, -, -, -, xs, ys, hxs, hys, h⟩ := trace_eq_ok_iff.mp h
  have hx := length_of_rescale hxs
  have hy := length_of_rescale hys
  rw [List.length_map, length_raw] at hx hy
  rw [Segment.length, ← h, List.length_zipWith, hx, hy, Nat.min_self]

end Spiral

end PathCurves
