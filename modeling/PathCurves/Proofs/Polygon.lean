/-
Sampled circles over the real numbers.

The chord between two points of a circle depends on the angle between them only
(`norm_pointAt_sub_pointAt`). The samples lie at equal angles, the last one at a full turn, so the
circle is drawn as a closed polygon with equal sides, and no corner is met twice on the way round.
Main statement: `polygon_of_sample`.
-/
import Mathlib
import PathCurves.Circle
import PathCurves.Proofs.DeltoidCurve
import PathCurves.Proofs.Extent

namespace PathCurves

/-! ## Chords -/

/-- A turn moves a point along a chord that half the angle determines. -/
theorem Point.norm_turned_sub (angle : ℝ) (d : Point ℝ) :
    (d.turned angle - d).norm = 2 * |Real.sin (angle / 2)| * d.norm := by
  have hnonneg : 0 ≤ 2 * |Real.sin (angle / 2)| * d.norm :=
    mul_nonneg (by positivity) d.norm_nonneg
  have hhalf : Real.sin (angle / 2) ^ 2 = 1 / 2 - Real.cos angle / 2 := by
    rw [Real.sin_sq_eq_half_sub, mul_div_cancel₀ angle two_ne_zero]
  rw [← pow_left_inj₀ (norm_nonneg _) hnonneg two_ne_zero, mul_pow, mul_pow, sq_abs, norm_sq,
    norm_sq, hhalf]
  simp only [normSq, turned, sub_x, sub_y, Trig.cos, Trig.sin]
  linear_combination (d.x ^ 2 + d.y ^ 2) * Real.sin_sq_add_cos_sq angle

namespace Circle

theorem pointAt_sub_centre (c : Circle ℝ) (t : ℝ) :
    c.pointAt t - c.centre = (⟨c.radius, 0⟩ : Point ℝ).turned t := by
  ext
  · simp [pointAt, Point.turned, mul_comm]
  · simp [pointAt, Point.turned, mul_comm]

theorem norm_radius (r : ℝ) : (⟨r, 0⟩ : Point ℝ).norm = |r| := by
  rw [← pow_left_inj₀ (Point.norm_nonneg _) (abs_nonneg r) two_ne_zero, Point.norm_sq, sq_abs]
  simp only [Point.normSq]
  ring

theorem norm_pointAt_sub_centre (c : Circle ℝ) (t : ℝ) :
    (c.pointAt t - c.centre).norm = |c.radius| := by
  rw [pointAt_sub_centre, Point.norm_turned, norm_radius]

theorem norm_pointAt_sub_pointAt (c : Circle ℝ) (t u : ℝ) :
    (c.pointAt u - c.pointAt t).norm = 2 * |c.radius| * |Real.sin ((u - t) / 2)| := by
  have hturn : c.pointAt u - c.pointAt t =
      (c.pointAt t - c.centre).turned (u - t) - (c.pointAt t - c.centre) := by
    rw [pointAt_sub_centre, Point.turned_turned, sub_add_cancel, ← pointAt_sub_centre,
      ← pointAt_sub_centre]
    ext
    · simp
    · simp
  rw [hturn, Point.norm_turned_sub, norm_pointAt_sub_centre]
  ring

/-! ## Corners -/

/-- The corner at a position, of a polygon that has `sides` sides. -/
noncomputable def corner (c : Circle ℝ) (sides i : ℕ) : Point ℝ :=
  c.pointAt (2.0 * Real.pi * (i / sides))

/-- The samples are the corners of a polygon that has one side less, the first of them twice. -/
theorem points_of_sample {c : Circle ℝ} {count : ℕ} {s : Segment ℝ} (h : c.sample count = .ok s) :
    s.points = (List.range count).map (c.corner (count - 1)) := by
  unfold sample at h
  split at h
  · next hcount =>
    cases h
    rw [Segment.points_sampled, spaced_eq _ _ hcount, List.map_map]
    apply List.map_congr_left
    intro i _
    rw [Function.comp_apply, corner, Scalar.zero_eq, zero_add, sub_zero]
    rfl
  · cases h

variable {c : Circle ℝ} {sides i j : ℕ}

theorem norm_corner_sub_corner (c : Circle ℝ) (sides i j : ℕ) :
    (c.corner sides j - c.corner sides i).norm =
      2 * |c.radius| * |Real.sin (Real.pi * ((j - i) / sides))| := by
  have htwo : (2.0 : ℝ) = 2 := by norm_num
  rw [corner, corner, norm_pointAt_sub_pointAt, htwo]
  congr 3
  ring

/-- After all sides the first corner is reached again. -/
theorem corner_sides (c : Circle ℝ) (h : 0 < sides) : c.corner sides sides = c.corner sides 0 := by
  have hne : (sides : ℝ) ≠ 0 := Nat.cast_ne_zero.mpr h.ne'
  have htwo : (2.0 : ℝ) = 2 := by norm_num
  rw [corner, corner, htwo, div_self hne, Nat.cast_zero, zero_div, mul_one, mul_zero]
  simp [pointAt, Trig.cos, Trig.sin]

/-- Before that no corner is met twice. -/
theorem corner_ne (hradius : c.radius ≠ 0) (hij : i < j) (hj : j < sides) :
    c.corner sides i ≠ c.corner sides j := by
  intro h
  have hij' : (i : ℝ) < j := Nat.cast_lt.mpr hij
  have hj' : (j : ℝ) < sides := Nat.cast_lt.mpr hj
  have hi : (0 : ℝ) ≤ i := Nat.cast_nonneg i
  have hpart : 0 < ((j : ℝ) - i) / sides ∧ ((j : ℝ) - i) / sides < 1 :=
    ⟨div_pos (by linarith) (by linarith), (div_lt_one (by linarith)).mpr (by linarith)⟩
  have hsin : 0 < Real.sin (Real.pi * ((j - i) / sides)) :=
    Real.sin_pos_of_pos_of_lt_pi (mul_pos Real.pi_pos hpart.1)
      (mul_lt_of_lt_one_right Real.pi_pos hpart.2)
  have hchord : 0 < 2 * |c.radius| * |Real.sin (Real.pi * ((j - i) / sides))| := by positivity
  rw [← norm_corner_sub_corner, h, Point.norm_sub_self] at hchord
  exact lt_irrefl 0 hchord

theorem norm_corner_succ_sub_corner (c : Circle ℝ) (h : 0 < sides) (i : ℕ) :
    (c.corner sides (i + 1) - c.corner sides i).norm =
      2 * |c.radius| * Real.sin (Real.pi / sides) := by
  have hsides : (1 : ℝ) ≤ sides := Nat.one_le_cast.mpr h
  have hsin : 0 ≤ Real.sin (Real.pi / sides) :=
    Real.sin_nonneg_of_nonneg_of_le_pi (by positivity) (div_le_self Real.pi_pos.le hsides)
  rw [norm_corner_sub_corner, Nat.cast_succ, add_sub_cancel_left, mul_one_div, abs_of_nonneg hsin]

/-! ## Samples -/

/-- A circle can be sampled at any two points or more. The samples are a closed polygon: all of them
are a radius away from the centre, the last is the first, and from each to the next it is equally
far. Three samples or more of a circle that is not a point are different but for the last. -/
theorem polygon_of_sample (c : Circle ℝ) {count : ℕ} (h : 2 ≤ count) :
    ∃ s, c.sample count = .ok s ∧ s.length = count ∧
      (∀ p ∈ s.points, (p - c.centre).norm = |c.radius|) ∧
      s.first = s.last ∧
      (∀ i p q, s.points[i]? = some p → s.points[i + 1]? = some q →
        (q - p).norm = 2 * |c.radius| * Real.sin (Real.pi / (count - 1))) ∧
      (3 ≤ count → c.radius ≠ 0 → (s.points.take (count - 1)).Nodup) := by
  obtain ⟨s, hs⟩ : ∃ s, c.sample count = .ok s := ⟨_, dif_pos h⟩
  have hpoints := points_of_sample hs
  have hcount : ((count - 1 : ℕ) : ℝ) = count - 1 := Nat.cast_pred (by omega)
  refine ⟨s, hs, length_of_sample hs, ?_, ?_, ?_, fun _ hradius => ?_⟩
  · intro p hp
    rw [hpoints, List.mem_map] at hp
    obtain ⟨i, -, rfl⟩ := hp
    exact norm_pointAt_sub_centre c _
  · simp only [Segment.first, Segment.last, hpoints, List.head_map, List.getLast_map,
      List.head_range, List.getLast_range]
    exact (corner_sides c (by omega)).symm
  · intro i p q hp hq
    rw [hpoints, List.getElem?_map, Option.map_eq_some_iff] at hp hq
    obtain ⟨j, hj, rfl⟩ := hp
    obtain ⟨k, hk, rfl⟩ := hq
    obtain ⟨-, rfl⟩ := List.getElem?_eq_some_iff.mp hj
    obtain ⟨-, rfl⟩ := List.getElem?_eq_some_iff.mp hk
    rw [List.getElem_range, List.getElem_range, norm_corner_succ_sub_corner c (by omega), hcount]
  · rw [hpoints, ← List.map_take, List.take_range, List.Nodup, List.pairwise_map]
    have hlt : (List.range (min (count - 1) count)).Pairwise (· < ·) := List.pairwise_lt_range
    refine hlt.imp_of_mem fun _ hj hij => corner_ne hradius hij ?_
    exact (List.mem_range.mp hj).trans_le (min_le_left _ _)

/-- A square around `(1, -2)` that is run through from its left corner, as the radius is
negative. -/
theorem polygon_of_sample_example : ∃ s, (⟨⟨1, -2⟩, -3⟩ : Circle ℝ).sample 5 = .ok s ∧
    s.length = 5 ∧ s.first = s.last ∧
      (∀ i p q, s.points[i]? = some p → s.points[i + 1]? = some q → (q - p).norm = 3 * √2) ∧
      (s.points.take 4).Nodup := by
  obtain ⟨s, hs, hlength, -, hclosed, hside, hnodup⟩ :=
    polygon_of_sample ⟨⟨1, -2⟩, -3⟩ (show 2 ≤ 5 by decide)
  refine ⟨s, hs, hlength, hclosed, fun i p q hp hq => ?_, hnodup (by decide) (by norm_num)⟩
  have hquarter : Real.pi / ((5 : ℕ) - 1) = Real.pi / 4 := by norm_num
  rw [hside i p q hp hq, hquarter, Real.sin_pi_div_four]
  norm_num
  ring

end Circle

end PathCurves
