/-
Points on one line, over exact numbers, and the circle that they do not determine.

Of three collinear points the bisectors have one slope, so they do not meet
(`FirstFault.of_collinear`). But a bisector is drawn as a vertical line where its points are level
up to the tolerance, and each of the two bisectors is judged by itself: of a segment that is just
too tilted and a shorter part of it, one can be level and the other not. Then the two lines, one
vertical and one steep, do meet (`exists_ofChord_of_level_ne`). `ofChord_of_collinear` says that
this is the only way to a circle of collinear points.
-/
import Mathlib
import PathCurves.Proofs.ArcFaults
import PathCurves.Proofs.Bisector

namespace PathCurves

/-! ## Three points on a line -/

namespace Point

section

variable {K : Type} [Field K]

/-- There is a line that runs through all three points. -/
def Collinear (a b m : Point K) : Prop := ∃ l : Line K, a ∈ l ∧ b ∈ l ∧ m ∈ l

/-- Two points have a line through them, with every third point that lies in the same direction
from the first one. -/
theorem exists_line {a b : Point K} (hne : a ≠ b) : ∃ l : Line K, ∀ q : Point K,
    q ∈ l ↔ (b.x - a.x) * (q.y - a.y) = (b.y - a.y) * (q.x - a.x) := by
  by_cases hx : b.x - a.x = 0
  · have hy : b.y - a.y ≠ 0 := fun hy =>
      hne (Point.ext (sub_eq_zero.mp hx).symm (sub_eq_zero.mp hy).symm)
    refine ⟨.vertical a.x, fun q => ?_⟩
    rw [Line.mem_vertical, hx, zero_mul, eq_comm (a := (0 : K)), mul_eq_zero, or_iff_right hy,
      sub_eq_zero]
  · refine ⟨.sloped ((b.y - a.y) / (b.x - a.x)) (a.y - (b.y - a.y) / (b.x - a.x) * a.x),
      fun q => ?_⟩
    rw [Line.mem_sloped]
    field_simp
    refine ⟨?_, ?_⟩
    · intro h
      linear_combination h
    · intro h
      linear_combination h

/-- Points are collinear when the second and the third one lie in the same direction from the
first, or the other way round. -/
theorem collinear_iff {a b m : Point K} :
    Collinear a b m ↔ (b.x - a.x) * (m.y - a.y) = (b.y - a.y) * (m.x - a.x) := by
  refine ⟨?_, fun h => ?_⟩
  · rintro ⟨l, ha, hb, hm⟩
    cases l with
    | vertical x =>
      rw [Line.mem_vertical] at ha hb hm
      rw [ha, hb, hm, sub_self, zero_mul, mul_zero]
    | sloped slope intercept =>
      rw [Line.mem_sloped] at ha hb hm
      rw [ha, hb, hm]
      ring
  · by_cases hb : a = b
    · subst hb
      by_cases hm : a = m
      · exact hm ▸ ⟨.vertical a.x, rfl, rfl, rfl⟩
      · obtain ⟨l, hl⟩ := exists_line hm
        exact ⟨l, (hl a).mpr (by ring), (hl a).mpr (by ring), (hl m).mpr (by ring)⟩
    · obtain ⟨l, hl⟩ := exists_line hb
      exact ⟨l, (hl a).mpr (by ring), (hl b).mpr (by ring), (hl m).mpr h⟩

end

/-- Two points whose bisector counts as vertical. -/
def Level {α : Type} [Scalar α] (a b : Point α) : Prop :=
  Scalar.abs (b - a).y < Scalar.tolerance

end Point

namespace Line

variable {α : Type} [Scalar α] {a b : Point α}

theorem bisector_of_level (hnear : ¬ Point.Near a b) (h : Point.Level a b) :
    bisector a b = some (.vertical (Point.midpoint a b).x) := by
  rw [bisector, if_neg hnear]
  exact if_pos h

theorem bisector_of_not_level (hnear : ¬ Point.Near a b) (h : ¬ Point.Level a b) :
    bisector a b = some (.sloped (-(b - a).x / (b - a).y)
      ((Point.midpoint a b).y - -(b - a).x / (b - a).y * (Point.midpoint a b).x)) := by
  rw [bisector, if_neg hnear]
  exact if_neg h

end Line

variable {K : Type} [Field K] [LinearOrder K] [IsStrictOrderedRing K] [Exact K]
  {a b m : Point K}

theorem Line.meet_of_slope_eq (s i₁ i₂ : K) : Line.meet (.sloped s i₁) (.sloped s i₂) = none := by
  refine if_pos ?_
  rw [Scalar.abs_eq, sub_self, abs_zero]
  exact Scalar.tolerance_pos

namespace Circle

/-! ## The circle of a chord and a point on its line -/

/-- Where both bisectors are drawn in the same form, they do not meet. -/
theorem FirstFault.of_collinear (hchord : ¬ Point.Near a b) (hline : Point.Collinear a b m)
    (h : Point.Near a m ∨ (Point.Level a b ↔ Point.Level a m)) :
    FirstFault a b m .collinear := by
  rcases Classical.em (Point.Near a m) with hnear | hnear
  · exact .near hchord hnear
  have hsame := h.resolve_left hnear
  by_cases hlevel : Point.Level a b
  · exact .parallel hchord (Line.bisector_of_level hchord hlevel)
      (Line.bisector_of_level hnear (hsame.mp hlevel)) rfl
  · have hlevel' : ¬ Point.Level a m := mt hsame.mpr hlevel
    have hb : (b - a).y ≠ 0 := Scalar.ne_zero_of_tolerance_le (by rwa [← Scalar.abs_eq])
    have hm : (m - a).y ≠ 0 := Scalar.ne_zero_of_tolerance_le (by rwa [← Scalar.abs_eq])
    have hslope : -(m - a).x / (m - a).y = -(b - a).x / (b - a).y := by
      rw [Point.collinear_iff] at hline
      rw [div_eq_div_iff hm hb]
      simp only [Point.sub_x, Point.sub_y]
      linear_combination hline
    have h₂ := Line.bisector_of_not_level hnear hlevel'
    rw [hslope] at h₂
    exact .parallel hchord (Line.bisector_of_not_level hchord hlevel) h₂
      (Line.meet_of_slope_eq _ _ _)

omit [IsStrictOrderedRing K] in
/-- A vertical line and a sloped one always meet. -/
theorem exists_ofChord_of_level_ne (hchord : ¬ Point.Near a b) (hnear : ¬ Point.Near a m)
    (h : ¬ (Point.Level a b ↔ Point.Level a m)) : ∃ c, ofChord a b m = .ok c := by
  by_cases hlevel : Point.Level a b
  · have hlevel' : ¬ Point.Level a m := fun h' => h (iff_of_true hlevel h')
    exact ⟨_, ofChord_of_meet hchord (Line.bisector_of_level hchord hlevel)
      (Line.bisector_of_not_level hnear hlevel') rfl⟩
  · have hlevel' : Point.Level a m := by_contra fun h' => h (iff_of_false hlevel h')
    exact ⟨_, ofChord_of_meet hchord (Line.bisector_of_not_level hchord hlevel)
      (Line.bisector_of_level hnear hlevel') rfl⟩

/-- Points whose heights the tolerance does not blur have bisectors of the same form if they
are collinear. -/
theorem near_or_level_iff_of_sharp (hchord : ¬ Point.Near a b) (hline : Point.Collinear a b m)
    (hb : Scalar.Sharp (b.y - a.y)) (hm : Scalar.Sharp (m.y - a.y)) :
    Point.Near a m ∨ (Point.Level a b ↔ Point.Level a m) := by
  rw [Point.collinear_iff] at hline
  simp only [Point.Level, Scalar.abs_eq, Point.sub_y]
  rcases hb with hb | hb
  · have hx : b.x - a.x ≠ 0 := fun hx =>
      Point.ne_of_not_near hchord (Point.ext (sub_eq_zero.mp hx).symm (sub_eq_zero.mp hb).symm)
    rw [hb, zero_mul, mul_eq_zero, or_iff_right hx] at hline
    rw [hb, hline]
    exact .inr Iff.rfl
  · rcases hm with hm | hm
    · have hy : b.y - a.y ≠ 0 := Scalar.ne_zero_of_tolerance_le (not_lt.mpr hb)
      rw [hm, mul_zero, eq_comm, mul_eq_zero, or_iff_right hy] at hline
      have ham : a = m := Point.ext (sub_eq_zero.mp hline).symm (sub_eq_zero.mp hm).symm
      refine .inl (by_contra fun hnear => ?_)
      exact Point.ne_of_not_near hnear ham
    · exact .inr (iff_of_false (not_lt.mpr hb) (not_lt.mpr hm))

/-- Collinear points are refused unless the tolerance tells the two bisectors apart: exactly one
of the two segments counts as level, though neither is a point. In that case there is a circle.
It does not arise where the heights of both points over the first one are zero or at least the
tolerance. -/
theorem ofChord_of_collinear (hchord : ¬ Point.Near a b) (hline : Point.Collinear a b m) :
    (ofChord a b m = .error .collinear ↔
      Point.Near a m ∨ (Point.Level a b ↔ Point.Level a m)) ∧
    (¬ (Point.Near a m ∨ (Point.Level a b ↔ Point.Level a m)) → ∃ c, ofChord a b m = .ok c) ∧
    (Scalar.Sharp (b.y - a.y) → Scalar.Sharp (m.y - a.y) →
      ofChord a b m = .error .collinear) := by
  have hcircle : ¬ (Point.Near a m ∨ (Point.Level a b ↔ Point.Level a m)) →
      ∃ c, ofChord a b m = .ok c := by
    intro h
    rw [not_or] at h
    exact exists_ofChord_of_level_ne hchord h.1 h.2
  refine ⟨⟨fun herror => ?_, fun h => (FirstFault.of_collinear hchord hline h).ofChord⟩, hcircle,
    fun hb hm => (FirstFault.of_collinear hchord hline
      (near_or_level_iff_of_sharp hchord hline hb hm)).ofChord⟩
  by_contra h
  obtain ⟨c, hc⟩ := hcircle h
  rw [hc] at herror
  cases herror

/-- A diagonal, and a point in the middle of it. -/
theorem ofChord_of_collinear_example :
    ofChord (⟨0, 0⟩ : Point ℝ) ⟨2, 2⟩ ⟨1, 1⟩ = .error .collinear := by
  have hchord : ¬ Point.Near (⟨0, 0⟩ : Point ℝ) ⟨2, 2⟩ :=
    Point.not_near_of_le_normSq (by norm_num [Scalar.tolerance, Point.normSq])
  have hline : Point.Collinear (⟨0, 0⟩ : Point ℝ) ⟨2, 2⟩ ⟨1, 1⟩ := by
    norm_num [Point.collinear_iff]
  refine (ofChord_of_collinear hchord hline).1.mpr (.inr ?_)
  norm_num [Point.Level, Scalar.tolerance]

/-- A chord that rises by one and a half tolerances, and its midpoint: there is a circle. -/
theorem exists_ofChord_tilted_example :
    ¬ Point.Near (⟨0, 0⟩ : Point ℝ) ⟨2, 1.5e-10⟩ ∧
      Point.Collinear (⟨0, 0⟩ : Point ℝ) ⟨2, 1.5e-10⟩ ⟨1, 7.5e-11⟩ ∧
      ∃ c, ofChord (⟨0, 0⟩ : Point ℝ) ⟨2, 1.5e-10⟩ ⟨1, 7.5e-11⟩ = .ok c := by
  have hchord : ¬ Point.Near (⟨0, 0⟩ : Point ℝ) ⟨2, 1.5e-10⟩ :=
    Point.not_near_of_le_normSq (by norm_num [Scalar.tolerance, Point.normSq])
  have hnear : ¬ Point.Near (⟨0, 0⟩ : Point ℝ) ⟨1, 7.5e-11⟩ :=
    Point.not_near_of_le_normSq (by norm_num [Scalar.tolerance, Point.normSq])
  refine ⟨hchord, ?_, exists_ofChord_of_level_ne hchord hnear ?_⟩
  · norm_num [Point.collinear_iff]
  · norm_num [Point.Level, Scalar.tolerance, abs_of_pos]

end Circle

end PathCurves
