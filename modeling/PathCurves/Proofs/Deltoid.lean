/-
Deltoid arcs over the real numbers. Main statements: `first_trace` and `last_trace`, the ends
of an arc, and `pointAt_zero` and `pointAt_two_thirds`, the first and the third cusp.
-/
import Mathlib
import PathCurves.Polyline.Fit
import PathCurves.Proofs.Extent

namespace PathCurves

namespace Deltoid

theorem first_trace {d : Deltoid ℝ} {s : Segment ℝ} (h : d.trace = .ok s) :
    s.first = d.pointAt (Scalar.radians d.sweep.start) := by
  obtain ⟨hcount, -, rfl⟩ := trace_eq_ok_iff.mp h
  exact Segment.first_sampled_exact _ _ _ hcount

theorem last_trace {d : Deltoid ℝ} {s : Segment ℝ} (h : d.trace = .ok s) :
    s.last = d.pointAt (Scalar.radians d.sweep.stop) := by
  obtain ⟨hcount, -, rfl⟩ := trace_eq_ok_iff.mp h
  exact Segment.last_sampled _ _ _ _ hcount

/-! ## The cusps -/

theorem canonical_zero : canonical (0 : ℝ) = ⟨3, 0⟩ := by
  simp only [canonical, Trig.cos, Trig.sin]
  norm_num

/-- Two thirds of a turn from the first cusp lies the third one. -/
theorem canonical_two_thirds : canonical (4 * Real.pi / 3) = ⟨-3 / 2, -3 / 2 * √3⟩ := by
  have hcos : Real.cos (4 * Real.pi / 3) = -1 / 2 := by
    rw [show 4 * Real.pi / 3 = Real.pi / 3 + Real.pi by ring, Real.cos_add_pi,
      Real.cos_pi_div_three]
    norm_num
  have hsin : Real.sin (4 * Real.pi / 3) = -√3 / 2 := by
    rw [show 4 * Real.pi / 3 = Real.pi / 3 + Real.pi by ring, Real.sin_add_pi,
      Real.sin_pi_div_three]
    ring
  have htwo : (2.0 : ℝ) = 2 := by norm_num
  have hroot : √3 ^ 2 = (3 : ℝ) := Real.sq_sqrt (by norm_num)
  simp only [canonical, Trig.cos, Trig.sin, htwo, Real.cos_two_mul, Real.sin_two_mul, hcos, hsin,
    Point.mk.injEq]
  constructor
  · norm_num
  · ring

theorem pointAt_zero (d : Deltoid ℝ) :
    d.pointAt 0 = ⟨d.radius * Real.cos (Scalar.radians d.sweep.turn) + d.centre.x,
      d.radius * Real.sin (Scalar.radians d.sweep.turn) + d.centre.y⟩ := by
  have hthree : (3.0 : ℝ) = 3 := by norm_num
  ext
  · simp only [pointAt, canonical_zero, Point.turned, Trig.cos, Trig.sin, Point.add_x,
      Point.mul_x, Point.mul_y, hthree]
    ring
  · simp only [pointAt, canonical_zero, Point.turned, Trig.cos, Trig.sin, Point.add_y,
      Point.mul_x, Point.mul_y, hthree]
    ring

theorem pointAt_two_thirds (d : Deltoid ℝ) :
    d.pointAt (4 * Real.pi / 3) =
      ⟨d.radius * (√3 / 2 * Real.sin (Scalar.radians d.sweep.turn) -
          Real.cos (Scalar.radians d.sweep.turn) / 2) + d.centre.x,
        d.radius * (-(√3 / 2) * Real.cos (Scalar.radians d.sweep.turn) -
          Real.sin (Scalar.radians d.sweep.turn) / 2) + d.centre.y⟩ := by
  have hthree : (3.0 : ℝ) = 3 := by norm_num
  ext
  · simp only [pointAt, canonical_two_thirds, Point.turned, Trig.cos, Trig.sin, Point.add_x,
      Point.mul_x, Point.mul_y, hthree]
    ring
  · simp only [pointAt, canonical_two_thirds, Point.turned, Trig.cos, Trig.sin, Point.add_y,
      Point.mul_x, Point.mul_y, hthree]
    ring

end Deltoid

end PathCurves
