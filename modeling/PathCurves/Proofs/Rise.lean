/-
The shape of a spiral over the real numbers, for rates between zero and one.

Such a spiral may double back to the left or to the right in the end, but never up or down: the
heights of its samples go strictly from one anchor's to the other's (`pairwise_heights`). Nor does
it ever come back to the vertical line that it started from (`stretchedAt_x_eq_start_iff`). Main
statement: `rises_of_trace`.
-/
import Mathlib
import PathCurves.Proofs.Anchors

namespace PathCurves.Spiral

variable {s : Spiral ℝ} {t width height : ℝ} {count : ℕ}

/-! ## Evenly spaced parameters -/

/-- What holds of any two parameters in order holds all along the spaced ones. -/
theorem pairwise_map_spaced {r : ℝ → ℝ → Prop} {f : ℝ → ℝ} (hcount : 2 ≤ count)
    (h : ∀ t ∈ Set.Icc (0 : ℝ) 1, ∀ u ∈ Set.Icc (0 : ℝ) 1, t < u → r (f t) (f u)) :
    ((spaced 0.0 1.0 count).map f).Pairwise r := by
  have hparts : (0 : ℝ) < (count - 1 : ℕ) := Nat.cast_pos.mpr (by omega)
  have hmem : ∀ i ∈ List.range count, (i : ℝ) / (count - 1 : ℕ) ∈ Set.Icc (0 : ℝ) 1 := fun i hi =>
    Fresnel.part_mem_Icc (Nat.le_sub_one_of_lt (List.mem_range.mp hi))
  rw [spaced_unit hcount, List.map_map, List.pairwise_map]
  refine List.pairwise_lt_range.imp_of_mem fun {i j} hi hj hij => h _ (hmem i hi) _ (hmem j hj) ?_
  exact div_lt_div_of_pos_right (Nat.cast_lt.mpr hij) hparts

/-! ## Heights -/

theorem stretchedAt_y_sub (s : Spiral ℝ) (width height t u : ℝ) :
    (s.stretchedAt width height u).y - (s.stretchedAt width height t).y =
      (s.stop.y - s.start.y) * (((s.rawAt u).y - (s.rawAt t).y) / height) := by
  simp only [stretchedAt]
  ring

/-- The heights of the samples go up all the way to a higher anchor and down all the way to a lower
one. -/
theorem pairwise_heights (h : s.Gentle) (hsamples : 2 ≤ s.samples) (hsteps : 2 ≤ s.steps)
    (hheight : 0 < height) (width : ℝ) :
    (s.start.y < s.stop.y → ((Segment.sampled (s.stretchedAt width height) 0.0 1.0 s.samples
      hsamples).points.map Point.y).SortedLT) ∧
    (s.stop.y < s.start.y → ((Segment.sampled (s.stretchedAt width height) 0.0 1.0 s.samples
      hsamples).points.map Point.y).SortedGT) := by
  have hrise : ∀ t ∈ Set.Icc (0 : ℝ) 1, ∀ u ∈ Set.Icc (0 : ℝ) 1, t < u →
      0 < ((s.rawAt u).y - (s.rawAt t).y) / height := fun t ht u hu htu =>
    div_pos (sub_pos.mpr (strictMonoOn_rawAt_y h hsteps ht hu htu)) hheight
  rw [Segment.points_sampled, List.map_map, List.sortedLT_iff_pairwise,
    List.sortedGT_iff_pairwise]
  refine ⟨fun hy => ?_, fun hy => ?_⟩
  · refine pairwise_map_spaced hsamples fun t ht u hu htu => sub_pos.mp ?_
    rw [Function.comp_apply, Function.comp_apply, stretchedAt_y_sub]
    exact mul_pos (sub_pos.mpr hy) (hrise t ht u hu htu)
  · refine pairwise_map_spaced hsamples fun t ht u hu htu => sub_neg.mp ?_
    rw [Function.comp_apply, Function.comp_apply, stretchedAt_y_sub]
    exact mul_neg_of_neg_of_pos (sub_neg.mpr hy) (hrise t ht u hu htu)

/-! ## The vertical line through the first anchor -/

theorem rawAt_x_eq_zero_iff (h : s.Gentle) (hsteps : 2 ≤ s.steps) (ht : t ∈ Set.Icc (0 : ℝ) 1) :
    (s.rawAt t).x = 0 ↔ t = 0 := by
  refine ⟨fun hx => ?_, ?_⟩
  · by_contra hne
    exact (rawAt_pos h hsteps (ht.1.lt_of_ne' hne) ht.2).1.ne' hx
  · rintro rfl
    rw [rawAt_zero]

/-- At no parameter but zero is the spiral above or below its first anchor. -/
theorem stretchedAt_x_eq_start_iff (h : s.Gentle) (hsteps : 2 ≤ s.steps)
    (hx : s.start.x ≠ s.stop.x) (hwidth : 0 < width) (height : ℝ) (ht : t ∈ Set.Icc (0 : ℝ) 1) :
    (s.stretchedAt width height t).x = s.start.x ↔ t = 0 := by
  rw [stretchedAt, add_eq_left, mul_eq_zero, or_iff_right (sub_ne_zero.mpr hx.symm),
    div_eq_zero_iff, or_iff_left hwidth.ne', rawAt_x_eq_zero_iff h hsteps ht]

theorem x_eq_start_iff_of_sampled (h : s.Gentle) (hsamples : 2 ≤ s.samples) (hsteps : 2 ≤ s.steps)
    (hx : s.start.x ≠ s.stop.x) (hwidth : 0 < width) (height : ℝ) {i : ℕ} {p : Point ℝ}
    (hp : (Segment.sampled (s.stretchedAt width height) 0.0 1.0 s.samples hsamples).points[i]? =
      some p) : p.x = s.start.x ↔ i = 0 := by
  rw [Segment.points_sampled, spaced_unit hsamples, List.map_map, List.getElem?_map,
    Option.map_eq_some_iff] at hp
  obtain ⟨j, hj, rfl⟩ := hp
  obtain ⟨hi, rfl⟩ := List.getElem?_eq_some_iff.mp hj
  rw [List.getElem_range, List.length_range] at *
  have hpart := Fresnel.part_mem_Icc (Nat.le_sub_one_of_lt hi)
  have hparts : ((s.samples - 1 : ℕ) : ℝ) ≠ 0 := Nat.cast_ne_zero.mpr (by omega)
  rw [Function.comp_apply, stretchedAt_x_eq_start_iff h hsteps hx hwidth height hpart,
    div_eq_zero_iff, or_iff_left hparts, Nat.cast_eq_zero]

/-! ## The trace -/

/-- A gentle spiral whose anchors differ in both coordinates can be traced. The heights of its
samples start from that of the first anchor, end at that of the second one and go strictly one way
in between, and only the first sample stands on the vertical line through the first anchor. -/
theorem rises_of_trace (h : s.Gentle) (hsamples : 2 ≤ s.samples) (hx : s.start.x ≠ s.stop.x)
    (hy : s.start.y ≠ s.stop.y) (hsteps : 2 ≤ s.steps) :
    ∃ segment, s.trace = .ok segment ∧
      segment.first.y = s.start.y ∧ segment.last.y = s.stop.y ∧
      (s.start.y < s.stop.y → (segment.points.map Point.y).SortedLT) ∧
      (s.stop.y < s.start.y → (segment.points.map Point.y).SortedGT) ∧
      ∀ (i : ℕ) (p : Point ℝ), segment.points[i]? = some p → (p.x = s.start.x ↔ i = 0) := by
  obtain ⟨width, height, ⟨hwidth, -⟩, ⟨hheight, hhighest⟩, htrace⟩ :=
    trace_eq_sampled h hsamples hx hy hsteps
  obtain ⟨hrise, hfall⟩ := pairwise_heights h hsamples hsteps hheight width
  refine ⟨_, htrace, ?_, ?_, hrise, hfall, fun i p => ?_⟩
  · rw [first_eq_of_sampled]
  · rw [last_eq_of_sampled, stretchedAt_one_y h hsamples hsteps hheight hhighest width]
  · exact x_eq_start_iff_of_sampled h hsamples hsteps hx hwidth height

/-- The spiral of four samples that doubles back on its last step, down to an anchor at the left:
its heights fall all the same. -/
theorem rises_of_trace_example : ∃ segment,
    (⟨⟨5, 3⟩, ⟨2, 1⟩, 4, 1, 2⟩ : Spiral ℝ).trace = .ok segment ∧
      (segment.points.map Point.y).SortedGT ∧ segment.first.y = 3 ∧ segment.last.y = 1 ∧
      ∀ (i : ℕ) (p : Point ℝ), segment.points[i]? = some p → (p.x = 5 ↔ i = 0) := by
  have hgentle : Gentle ⟨⟨5, 3⟩, ⟨2, 1⟩, 4, 1, 2⟩ := ⟨one_pos, le_rfl⟩
  obtain ⟨segment, htrace, hfirst, hlast, -, hfall, hx⟩ :=
    rises_of_trace hgentle (by decide) (by norm_num) (by norm_num) le_rfl
  exact ⟨segment, htrace, hfall (by norm_num), hfirst, hlast, hx⟩

end PathCurves.Spiral
