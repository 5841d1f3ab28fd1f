/-
The circle of a chord over the real numbers. Main statements: `centre_ofChord`, its centre lies
beside the point that is equally far from the three given ones, and `circle_ofChord`, which adds
that these are not collinear, and what the circle owes to the chord alone.
-/
import Mathlib
import PathCurves.Proofs.Collinear

namespace PathCurves

/-- A point that is equally far from three others. -/
def Point.Equidistant (q a b m : Point ℝ) : Prop :=
  (q - a).norm = (q - b).norm ∧ (q - a).norm = (q - m).norm

namespace Circle

variable {a b m : Point ℝ} {c : Circle ℝ}

theorem not_near_of_ofChord (h : ofChord a b m = .ok c) : ¬ Point.Near a b := by
  obtain ⟨l₁, l₂, o, hnear, -⟩ := ofChord_eq_ok h
  exact hnear

theorem radius_ofChord (h : ofChord a b m = .ok c) : c.radius = (b - a).norm / √3 := by
  obtain ⟨l₁, l₂, o, -, -, -, -, -, hradius⟩ := ofChord_eq_ok h
  rw [hradius]
  norm_num [Scalar.sqrt, Exact.sqrt]

/-- The two bisectors share a point, and the centre is this point moved to the left of the
chord. It is the only point equally far from the three given ones unless the tolerance blurs
one of the bisectors. -/
theorem centre_ofChord (h : ofChord a b m = .ok c) :
    ∃ o : Point ℝ, c.centre.x = o.x - (b - a).y / (2 * √3) ∧
      c.centre.y = o.y + (b - a).x / (2 * √3) ∧
      (Scalar.Sharp (b.y - a.y) → Scalar.Sharp (m.y - a.y) →
        ∀ q : Point ℝ, q.Equidistant a b m ↔ q = o) := by
  obtain ⟨l₁, l₂, o, hnear, h₁, h₂, hmeet, hcentre, -⟩ := ofChord_eq_ok h
  have hpos : (b - a).norm ≠ 0 := (Point.norm_pos_of_not_near hnear).ne'
  have hroot : (Scalar.sqrt 3.0 : ℝ) = √3 := by norm_num [Scalar.sqrt, Exact.sqrt]
  have htwo : (2.0 : ℝ) = 2 := by norm_num
  refine ⟨o, ?_, ?_, fun hb hm q => ?_⟩
  · rw [hcentre, hroot, htwo]
    simp only [Point.quarterTurn, Point.add_x, Point.mul_x, Point.div_y]
    field_simp
    ring
  · rw [hcentre, hroot, htwo]
    simp only [Point.quarterTurn, Point.add_y, Point.mul_y, Point.div_x]
    field_simp
  · rw [Point.Equidistant, Point.norm_eq_norm_iff, Point.norm_eq_norm_iff,
      ← Line.mem_bisector_iff h₁ hb, ← Line.mem_bisector_iff h₂ hm]
    exact Line.mem_and_mem_iff_eq_meet hmeet

theorem radius_pos (h : ofChord a b m = .ok c) : 0 < c.radius := by
  rw [radius_ofChord h]
  exact div_pos (Point.norm_pos_of_not_near (not_near_of_ofChord h)) (by positivity)

theorem norm_add_eq_of_normal {a b o n : Point ℝ} {s : ℝ} (ho : (o - a).norm = (o - b).norm)
    (hx : n.x = -(b - a).y * s) (hy : n.y = (b - a).x * s) :
    (o + n - a).norm = (o + n - b).norm := by
  rw [Point.norm_eq_norm_iff] at ho ⊢
  simp only [Point.normSq, Point.sub_x, Point.sub_y, Point.add_x, Point.add_y] at ho hx hy ⊢
  rw [hx, hy]
  linear_combination ho

/-- Three points that have a circle are not collinear, provided the tolerance does not blur how
far the second and the third one lie above the first. One point `o` is equally far from all of
them. The centre is `o`, moved along the normal to the left of the chord, and is still equally
far from the ends of the chord; the radius depends on the chord only. -/
theorem circle_ofChord (h : ofChord a b m = .ok c) (hb : Scalar.Sharp (b.y - a.y))
    (hm : Scalar.Sharp (m.y - a.y)) :
    ¬ Point.Collinear a b m ∧
    (∃ o : Point ℝ, (∀ q : Point ℝ, q.Equidistant a b m ↔ q = o) ∧
      c.centre = o + (⟨-(b - a).y, (b - a).x⟩ : Point ℝ) / (b - a).norm *
        ((b - a).norm / (2 * √3))) ∧
    c.radius = (b - a).norm / √3 ∧ 0 < c.radius ∧
    (∀ (m' : Point ℝ) (c' : Circle ℝ), ofChord a b m' = .ok c' → c'.radius = c.radius) ∧
    (c.centre - a).norm = (c.centre - b).norm := by
  have hchord := not_near_of_ofChord h
  have hpos : (b - a).norm ≠ 0 := (Point.norm_pos_of_not_near hchord).ne'
  obtain ⟨o, hx, hy, ho⟩ := centre_ofChord h
  have ho := ho hb hm
  have hcentre : c.centre = o + (⟨-(b - a).y, (b - a).x⟩ : Point ℝ) / (b - a).norm *
      ((b - a).norm / (2 * √3)) := by
    ext
    · rw [hx, Point.add_x, Point.mul_x, Point.div_x, div_mul_div_cancel₀ hpos]
      ring
    · rw [hy, Point.add_y, Point.mul_y, Point.div_y, div_mul_div_cancel₀ hpos]
  refine ⟨fun hline => ?_, ⟨o, ho, hcentre⟩, radius_ofChord h, radius_pos h,
    fun m' c' h' => (radius_ofChord h').trans (radius_ofChord h).symm, ?_⟩
  · rw [(FirstFault.of_collinear hchord hline
      (near_or_level_iff_of_sharp hchord hline hb hm)).ofChord] at h
    cases h
  · rw [hcentre]
    refine norm_add_eq_of_normal (s := (b - a).norm⁻¹ * ((b - a).norm / (2 * √3)))
      ((ho o).mpr rfl).1 ?_ ?_
    · rw [Point.mul_x, Point.div_x, div_eq_mul_inv, mul_assoc]
    · rw [Point.mul_y, Point.div_y, div_eq_mul_inv, mul_assoc]

/-- A level chord and a point upright over its start: one bisector is vertical and the other
one sloped, and the circle stands beside `(1, 1)`. -/
theorem circle_ofChord_example :
    ∃ c, ofChord (⟨0, 0⟩ : Point ℝ) ⟨2, 0⟩ ⟨0, 2⟩ = .ok c ∧
      ¬ Point.Collinear (⟨0, 0⟩ : Point ℝ) ⟨2, 0⟩ ⟨0, 2⟩ ∧
      c.centre = ⟨1, 1 + 1 / √3⟩ ∧ c.radius = 2 / √3 := by
  have hab : ¬ Point.Near (⟨0, 0⟩ : Point ℝ) ⟨2, 0⟩ :=
    Point.not_near_of_le_normSq (by norm_num [Scalar.tolerance, Point.normSq])
  have ham : ¬ Point.Near (⟨0, 0⟩ : Point ℝ) ⟨0, 2⟩ :=
    Point.not_near_of_le_normSq (by norm_num [Scalar.tolerance, Point.normSq])
  have h₁ : Line.bisector (⟨0, 0⟩ : Point ℝ) ⟨2, 0⟩ = some (.vertical 1) := by
    norm_num [Line.bisector, hab, Scalar.tolerance, Point.midpoint]
  have h₂ : Line.bisector (⟨0, 0⟩ : Point ℝ) ⟨0, 2⟩ = some (.sloped 0 1) := by
    norm_num [Line.bisector, ham, Scalar.tolerance, Point.midpoint]
  have hsharp : Scalar.Sharp ((0 : ℝ) - 0) ∧ Scalar.Sharp ((2 : ℝ) - 0) := by
    norm_num [Scalar.Sharp, Scalar.tolerance]
  obtain ⟨c, hcircle⟩ : ∃ c, ofChord (⟨0, 0⟩ : Point ℝ) ⟨2, 0⟩ ⟨0, 2⟩ = .ok c :=
    ⟨_, ofChord_of_meet hab h₁ h₂ rfl⟩
  obtain ⟨hline, ⟨o, ho, hcentre⟩, hradius, -⟩ := circle_ofChord hcircle hsharp.1 hsharp.2
  have hnorm : ((⟨2, 0⟩ : Point ℝ) - ⟨0, 0⟩).norm = 2 := by
    show √((2 - 0) * (2 - 0) + (0 - 0) * (0 - 0)) = 2
    norm_num
  have hone : (⟨1, 1⟩ : Point ℝ) = o :=
    (ho _).mp (by norm_num [Point.Equidistant, Point.norm_eq_norm_iff, Point.normSq])
  rw [hnorm] at hcentre hradius
  refine ⟨c, hcircle, hline, ?_, hradius⟩
  rw [hcentre, ← hone]
  ext
  · simp
  · simp only [Point.add_y, Point.mul_y, Point.div_y, Point.sub_x]
    ring

end Circle

end PathCurves
