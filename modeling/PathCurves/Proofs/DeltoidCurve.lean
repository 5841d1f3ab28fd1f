/-
The deltoid as a curve, over the real numbers.

How far the canonical point lies from the origin, and the value of `x ^ 3 - 3 * x * y ^ 2` there,
depend on the parameter only through the cosine of its triple (`normSq_canonical`,
`cubic_canonical`). The equation of the curve is a relation between these two, so every canonical
point solves it at every size (`onCurve_canonical`). A sample of an arc is such a point once the
arc has been moved back to the origin and turned back. Main statement: `onCurve_of_trace`.
-/
import Mathlib
import PathCurves.Deltoid
import PathCurves.Proofs.Exact

namespace PathCurves

/-! ## Turned displacements -/

namespace Scalar

variable {K : Type} [Field K] [LinearOrder K] [Exact K]

theorem radians_add (a b : K) : radians (a + b) = radians a + radians b :=
  add_mul a b _

theorem radians_neg (a : K) : radians (-a) = -radians a :=
  neg_mul a _

end Scalar

namespace Point

theorem turned_mul {K : Type} [Field K] [LinearOrder K] [Exact K] [Trig K] (angle s : K)
    (p : Point K) : (p * s).turned angle = p.turned angle * s := by
  ext
  · simp only [turned, mul_x, mul_y]
    ring
  · simp only [turned, mul_x, mul_y]
    ring

@[simp] theorem turned_zero (p : Point ℝ) : p.turned 0 = p := by
  ext <;> simp [turned, Trig.cos, Trig.sin]

theorem turned_turned (a b : ℝ) (p : Point ℝ) : (p.turned b).turned a = p.turned (a + b) := by
  ext
  · simp only [turned, Trig.cos, Trig.sin, Real.cos_add, Real.sin_add]
    ring
  · simp only [turned, Trig.cos, Trig.sin, Real.cos_add, Real.sin_add]
    ring

theorem normSq_turned (a : ℝ) (p : Point ℝ) : (p.turned a).normSq = p.normSq := by
  simp only [normSq, turned, Trig.cos, Trig.sin]
  linear_combination (p.x ^ 2 + p.y ^ 2) * Real.cos_sq_add_sin_sq a

theorem norm_turned (a : ℝ) (p : Point ℝ) : (p.turned a).norm = p.norm :=
  norm_eq_norm_iff.mpr (normSq_turned a p)

end Point

namespace Deltoid

/-! ## The canonical deltoid -/

/-- The coordinates in terms of the cosine and the sine of the parameter itself. -/
theorem canonical_eq (t : ℝ) : canonical t =
    ⟨2 * Real.cos t + (2 * Real.cos t ^ 2 - 1), 2 * Real.sin t - 2 * Real.sin t * Real.cos t⟩ := by
  have htwo : (2.0 : ℝ) = 2 := by norm_num
  simp only [canonical, Trig.cos, Trig.sin, htwo, Real.cos_two_mul, Real.sin_two_mul]

theorem normSq_canonical (t : ℝ) : (canonical t).normSq = 5 + 4 * Real.cos (3 * t) := by
  rw [canonical_eq, Point.normSq, Real.cos_three_mul]
  linear_combination 4 * (1 - Real.cos t) ^ 2 * Real.sin_sq_add_cos_sq t

theorem cubic_canonical (t : ℝ) :
    (canonical t).x ^ 3 - 3 * (canonical t).x * (canonical t).y ^ 2 =
      11 + 14 * Real.cos (3 * t) + 2 * Real.cos (3 * t) ^ 2 := by
  rw [canonical_eq, Real.cos_three_mul]
  linear_combination -12 * (2 * Real.cos t + (2 * Real.cos t ^ 2 - 1)) * (1 - Real.cos t) ^ 2 *
    Real.sin_sq_add_cos_sq t

theorem normSq_canonical_mem (t : ℝ) : (canonical t).normSq ∈ Set.Icc (1 : ℝ) 9 := by
  rw [normSq_canonical]
  constructor
  · linarith [Real.neg_one_le_cos (3 * t)]
  · linarith [Real.cos_le_one (3 * t)]

/-! ## The equation -/

/-- The equation of the deltoid around the origin that has a cusp at `(r, 0)`. -/
def OnCurve (r : ℝ) (p : Point ℝ) : Prop :=
  (p.x ^ 2 + p.y ^ 2) ^ 2 + 2 * r ^ 2 * (p.x ^ 2 + p.y ^ 2) - r ^ 4 / 3 =
    8 / 3 * r * (p.x ^ 3 - 3 * p.x * p.y ^ 2)

/-- Both sides are the same polynomial in the cosine of the triple parameter. -/
theorem onCurve_canonical (r t : ℝ) : OnCurve r (canonical t * (r / 3)) := by
  have hsq : ((canonical t).x * (r / 3)) ^ 2 + ((canonical t).y * (r / 3)) ^ 2 =
      (5 + 4 * Real.cos (3 * t)) * (r / 3) ^ 2 := by
    rw [← normSq_canonical, Point.normSq]
    ring
  have hcubic : ((canonical t).x * (r / 3)) ^ 3 -
      3 * ((canonical t).x * (r / 3)) * ((canonical t).y * (r / 3)) ^ 2 =
        (11 + 14 * Real.cos (3 * t) + 2 * Real.cos (3 * t) ^ 2) * (r / 3) ^ 3 := by
    rw [← cubic_canonical]
    ring
  rw [OnCurve, Point.mul_x, Point.mul_y, hsq, hcubic]
  ring

/-! ## Arcs -/

/-- What is left of a point of the curve when it is moved back to the origin. -/
theorem pointAt_sub_centre (d : Deltoid ℝ) (t : ℝ) :
    d.pointAt t - d.centre =
      (canonical t * (d.radius / 3)).turned (Scalar.radians d.sweep.turn) := by
  have hthree : (3.0 : ℝ) = 3 := by norm_num
  ext
  · rw [Point.sub_x, pointAt, hthree, Point.add_x, add_sub_cancel_right]
  · rw [Point.sub_y, pointAt, hthree, Point.add_y, add_sub_cancel_right]

theorem turned_pointAt_sub_centre (d : Deltoid ℝ) (t : ℝ) :
    (d.pointAt t - d.centre).turned (Scalar.radians (-d.sweep.turn)) =
      canonical t * (d.radius / 3) := by
  rw [pointAt_sub_centre, Point.turned_turned, Scalar.radians_neg, neg_add_cancel,
    Point.turned_zero]

theorem norm_pointAt_sub_centre_sq (d : Deltoid ℝ) (t : ℝ) :
    (d.pointAt t - d.centre).norm ^ 2 = (canonical t).normSq * (|d.radius| / 3) ^ 2 := by
  rw [pointAt_sub_centre, Point.norm_turned, Point.norm_sq, div_pow, sq_abs]
  simp only [Point.normSq, Point.mul_x, Point.mul_y]
  ring

/-- No point of the curve is nearer to the centre than a third of the radius, and none is farther
away than the radius. -/
theorem norm_pointAt_sub_centre_mem (d : Deltoid ℝ) (t : ℝ) :
    (d.pointAt t - d.centre).norm ∈ Set.Icc (|d.radius| / 3) |d.radius| := by
  obtain ⟨hlow, hhigh⟩ := normSq_canonical_mem t
  have hnorm := norm_pointAt_sub_centre_sq d t
  constructor
  · rw [← sq_le_sq₀ (by positivity) (Point.norm_nonneg _), hnorm]
    exact le_mul_of_one_le_left (sq_nonneg _) hlow
  · rw [← sq_le_sq₀ (Point.norm_nonneg _) (abs_nonneg _), hnorm]
    calc (canonical t).normSq * (|d.radius| / 3) ^ 2
        ≤ 9 * (|d.radius| / 3) ^ 2 := mul_le_mul_of_nonneg_right hhigh (sq_nonneg _)
      _ = |d.radius| ^ 2 := by ring

/-- An arc of at least two samples can be traced at any radius. Its samples solve the equation of
the deltoid once they have been moved back to the origin and turned back, and their distance from
the centre is between a third of the radius and the radius. -/
theorem onCurve_of_trace {d : Deltoid ℝ} (h : 2 ≤ d.samples) :
    ∃ s, d.trace = .ok s ∧ s.length = d.samples ∧ ∀ q ∈ s.points,
      OnCurve d.radius ((q - d.centre).turned (Scalar.radians (-d.sweep.turn))) ∧
      |d.radius| / 3 ≤ (q - d.centre).norm ∧ (q - d.centre).norm ≤ |d.radius| := by
  refine ⟨_, trace_eq_ok_iff.mpr ⟨h, rfl, rfl⟩, Segment.length_sampled _ _ _ _ h, fun q hq => ?_⟩
  rw [Segment.points_sampled] at hq
  obtain ⟨t, -, rfl⟩ := List.mem_map.mp hq
  rw [turned_pointAt_sub_centre]
  exact ⟨onCurve_canonical d.radius t, norm_pointAt_sub_centre_mem d t⟩

/-- An arc that runs backwards over a cusp, mirrored by its negative radius. -/
theorem onCurve_of_trace_example : ∃ s,
    (⟨-3, ⟨90, -30, 15⟩, ⟨1, 2⟩, 4⟩ : Deltoid ℝ).trace = .ok s ∧ s.length = 4 ∧
      ∀ q ∈ s.points,
        OnCurve (-3) ((q - ⟨1, 2⟩).turned (Scalar.radians (-15))) ∧
        1 ≤ (q - ⟨1, 2⟩).norm ∧ (q - ⟨1, 2⟩).norm ≤ 3 := by
  obtain ⟨s, htrace, hlength, hcurve⟩ :=
    onCurve_of_trace (d := ⟨-3, ⟨90, -30, 15⟩, ⟨1, 2⟩, 4⟩) (by decide)
  refine ⟨s, htrace, hlength, fun q hq => ?_⟩
  obtain ⟨hequation, hlow, hhigh⟩ := hcurve q hq
  norm_num at hlow hhigh
  exact ⟨hequation, hlow, hhigh⟩

end Deltoid

end PathCurves
