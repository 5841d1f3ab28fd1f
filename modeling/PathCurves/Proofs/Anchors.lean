/-
Where a spiral over the real numbers starts and ends, for rates between zero and one.

The raw spiral starts at the origin and stays above it and to its right. It rises all the way
(`strictMonoOn_rawAt_y`), and its last point is the one farthest to the right unless it doubles back
on its last step (`x_le_of_mem_raw`). With few positions to each sum it does so for some rates, but
not where it has at most one point more than that (`not_doublesBack`). Shrunk by its greatest
coordinates it is the trace of the spiral (`trace_eq_sampled`), so this decides whether the trace
ends in its second anchor (`anchors_of_trace`).
-/
import Mathlib
import PathCurves.Proofs.FresnelGrowth
import PathCurves.Proofs.Spiral

namespace PathCurves.Spiral

/-! ## How far the raw spiral gets -/

/-- On its last step the raw spiral goes back to the left. -/
def DoublesBack (s : Spiral ℝ) : Prop :=
  (s.rawAt 1).x < (s.rawAt ((s.samples - 2 : ℕ) / (s.samples - 1 : ℕ))).x

variable {s : Spiral ℝ} {p : Point ℝ} {t u v : ℝ}

theorem mem_raw_iff (hsamples : 2 ≤ s.samples) : p ∈ s.raw ↔
    ∃ i < s.samples, s.rawAt (i / (s.samples - 1 : ℕ)) = p := by
  rw [raw_eq_map, spaced_unit hsamples, List.map_map, List.mem_map]
  simp only [List.mem_range, Function.comp_apply]

theorem rawAt_one_mem_raw (hsamples : 2 ≤ s.samples) : s.rawAt 1 ∈ s.raw := by
  have hparts : ((s.samples - 1 : ℕ) : ℝ) ≠ 0 := Nat.cast_ne_zero.mpr (by omega)
  exact (mem_raw_iff hsamples).mpr ⟨s.samples - 1, by omega, by rw [div_self hparts]⟩

theorem nonneg_of_mem_raw (h : s.Gentle) (hsamples : 2 ≤ s.samples) (hsteps : 2 ≤ s.steps)
    (hp : p ∈ s.raw) : 0 ≤ p.x ∧ 0 ≤ p.y := by
  obtain ⟨i, hi, rfl⟩ := (mem_raw_iff hsamples).mp hp
  obtain ⟨hlow, hhigh⟩ := Fresnel.part_mem_Icc (Nat.le_sub_one_of_lt hi)
  rcases hlow.eq_or_lt with hzero | hpos
  · rw [← hzero, rawAt_zero]
    exact ⟨le_rfl, le_rfl⟩
  · obtain ⟨hx, hy⟩ := rawAt_pos h hsteps hpos hhigh
    exact ⟨hx.le, hy.le⟩

theorem strictMonoOn_rawAt_y (h : s.Gentle) (hsteps : 2 ≤ s.steps) :
    StrictMonoOn (fun t => (s.rawAt t).y) (Set.Icc 0 1) := by
  intro t ht u hu htu
  have hmem : ∀ v ∈ Set.Icc (0 : ℝ) 1, s.rate * v ∈ Set.Icc (0 : ℝ) 1 := fun v hv =>
    unitInterval.mul_mem ⟨h.pos.le, h.le_one⟩ hv
  exact mul_lt_mul_of_pos_right (Fresnel.strictMonoOn_snd_sums hsteps (hmem t ht) (hmem u hu)
    (mul_lt_mul_of_pos_left htu h.pos)) scale_pos

theorem y_le_of_mem_raw (h : s.Gentle) (hsamples : 2 ≤ s.samples) (hsteps : 2 ≤ s.steps)
    (hp : p ∈ s.raw) : p.y ≤ (s.rawAt 1).y := by
  obtain ⟨i, hi, rfl⟩ := (mem_raw_iff hsamples).mp hp
  have hpart := Fresnel.part_mem_Icc (Nat.le_sub_one_of_lt hi)
  exact (strictMonoOn_rawAt_y h hsteps).monotoneOn hpart (Set.right_mem_Icc.mpr zero_le_one) hpart.2

theorem rawAt_x_le_iff : (s.rawAt t).x ≤ (s.rawAt u).x ↔
    (Fresnel.sums (s.rate * t) s.steps).1 ≤ (Fresnel.sums (s.rate * u) s.steps).1 :=
  mul_le_mul_iff_of_pos_right scale_pos

/-- Where the raw spiral does not go back to the left from one parameter to a greater one, it has
not got farther to the right before. -/
theorem rawAt_x_le_of_lt (h : s.Gentle) (hsteps : 2 ≤ s.steps) (ht : 0 ≤ t) (htu : t ≤ u)
    (huv : u < v) (hv : v ≤ 1) (hx : (s.rawAt u).x ≤ (s.rawAt v).x) :
    (s.rawAt t).x ≤ (s.rawAt v).x := by
  refine le_trans (rawAt_x_le_iff.mpr ?_) hx
  exact Fresnel.fst_sums_le hsteps (mul_nonneg h.pos.le ht)
    (mul_le_mul_of_nonneg_left htu h.pos.le) (mul_lt_mul_of_pos_left huv h.pos)
    (mul_le_one₀ h.le_one (ht.trans (htu.trans huv.le)) hv) (rawAt_x_le_iff.mp hx)

theorem x_le_of_mem_raw (h : s.Gentle) (hsamples : 2 ≤ s.samples) (hsteps : 2 ≤ s.steps)
    (hback : ¬ s.DoublesBack) (hp : p ∈ s.raw) : p.x ≤ (s.rawAt 1).x := by
  obtain ⟨i, hi, rfl⟩ := (mem_raw_iff hsamples).mp hp
  have hparts : (0 : ℝ) < (s.samples - 1 : ℕ) := Nat.cast_pos.mpr (by omega)
  -- What happens on the last step says nothing new of the point that it ends in.
  by_cases hlast : i = s.samples - 1
  · rw [hlast, div_self hparts.ne']
  · have hi' : i ≤ s.samples - 2 := by omega
    refine rawAt_x_le_of_lt h hsteps (by positivity) ?_ ?_ le_rfl (not_lt.mp hback)
    · exact div_le_div_of_nonneg_right (Nat.cast_le.mpr hi') hparts.le
    · rw [div_lt_one hparts, Nat.cast_lt]
      omega

/-- A spiral does not double back where its last step is no less than one of as many parts as its
sums have positions. -/
theorem not_doublesBack (h : s.Gentle) (hsamples : 2 ≤ s.samples) (hsteps : 2 ≤ s.steps)
    (hle : s.samples ≤ s.steps + 1) : ¬ s.DoublesBack := by
  have hparts : (0 : ℝ) < (s.samples - 1 : ℕ) := Nat.cast_pos.mpr (by omega)
  have hpositions : (0 : ℝ) < s.steps := Nat.cast_pos.mpr (by omega)
  have hshrunk : (s.rawAt ((s.steps - 1 : ℕ) / s.steps)).x ≤ (s.rawAt 1).x := by
    rw [rawAt_x_le_iff, mul_one]
    exact Fresnel.fst_sums_shrunk_le hsteps ⟨h.pos.le, h.le_one⟩
  refine not_lt.mpr (rawAt_x_le_of_lt h hsteps (by positivity) ?_ ?_ le_rfl hshrunk)
  · rw [div_le_div_iff₀ hparts hpositions]
    obtain ⟨n, hn⟩ : ∃ n, s.samples = n + 2 := ⟨s.samples - 2, by omega⟩
    obtain ⟨k, hk⟩ : ∃ k, s.steps = k + 1 := ⟨s.steps - 1, by omega⟩
    have hnk : (n : ℝ) ≤ k := Nat.cast_le.mpr (by omega)
    simp only [hn, hk, Nat.add_sub_cancel]
    push_cast
    linarith
  · rw [div_lt_one hpositions, Nat.cast_lt]
    omega

/-! ### The greatest coordinates -/

theorem rawAt_y_eq_of_isGreatest {height : ℝ} (h : s.Gentle) (hsamples : 2 ≤ s.samples)
    (hsteps : 2 ≤ s.steps) (hgreatest : IsGreatest {y | y ∈ s.raw.map Point.y} height) :
    (s.rawAt 1).y = height := by
  refine le_antisymm (hgreatest.2 (List.mem_map_of_mem (rawAt_one_mem_raw hsamples))) ?_
  obtain ⟨p, hp, rfl⟩ := List.mem_map.mp hgreatest.1
  exact y_le_of_mem_raw h hsamples hsteps hp

theorem rawAt_x_eq_iff_of_isGreatest {width : ℝ} (h : s.Gentle) (hsamples : 2 ≤ s.samples)
    (hsteps : 2 ≤ s.steps) (hgreatest : IsGreatest {x | x ∈ s.raw.map Point.x} width) :
    (s.rawAt 1).x = width ↔ ¬ s.DoublesBack := by
  refine ⟨fun hwidth => ?_, fun hback => ?_⟩
  · rw [DoublesBack, hwidth, not_lt]
    exact hgreatest.2 (List.mem_map_of_mem ((mem_raw_iff hsamples).mpr ⟨_, by omega, rfl⟩))
  · refine le_antisymm (hgreatest.2 (List.mem_map_of_mem (rawAt_one_mem_raw hsamples))) ?_
    obtain ⟨p, hp, rfl⟩ := List.mem_map.mp hgreatest.1
    exact x_le_of_mem_raw h hsamples hsteps hback hp

/-! ## The trace -/

/-- The point at a parameter once the raw spiral, of which these are the greatest coordinates, is
put between the anchors. -/
noncomputable def stretchedAt (s : Spiral ℝ) (width height t : ℝ) : Point ℝ :=
  ⟨s.start.x + (s.stop.x - s.start.x) * ((s.rawAt t).x / width),
    s.start.y + (s.stop.y - s.start.y) * ((s.rawAt t).y / height)⟩

theorem stretchedAt_zero (s : Spiral ℝ) (width height : ℝ) :
    s.stretchedAt width height 0 = s.start := by
  simp only [stretchedAt, rawAt_zero, zero_div, mul_zero, add_zero]

theorem stretchedAt_x_eq_stop_iff {width : ℝ} (hx : s.start.x ≠ s.stop.x) (hwidth : 0 < width)
    (height : ℝ) : (s.stretchedAt width height t).x = s.stop.x ↔ (s.rawAt t).x = width := by
  rw [stretchedAt, ← eq_sub_iff_add_eq', mul_eq_left₀ (sub_ne_zero.mpr hx.symm),
    div_eq_one_iff_eq hwidth.ne']

theorem stretchedAt_one_y {height : ℝ} (h : s.Gentle) (hsamples : 2 ≤ s.samples)
    (hsteps : 2 ≤ s.steps) (hheight : 0 < height)
    (hgreatest : IsGreatest {y | y ∈ s.raw.map Point.y} height) (width : ℝ) :
    (s.stretchedAt width height 1).y = s.stop.y := by
  rw [stretchedAt, rawAt_y_eq_of_isGreatest h hsamples hsteps hgreatest, div_self hheight.ne']
  ring

theorem trace_eq_sampled (h : s.Gentle) (hsamples : 2 ≤ s.samples)
    (hx : s.start.x ≠ s.stop.x) (hy : s.start.y ≠ s.stop.y) (hsteps : 2 ≤ s.steps) :
    ∃ width height, (0 < width ∧ IsGreatest {x | x ∈ s.raw.map Point.x} width) ∧
      (0 < height ∧ IsGreatest {y | y ∈ s.raw.map Point.y} height) ∧
      s.trace = .ok (.sampled (s.stretchedAt width height) 0.0 1.0 s.samples hsamples) := by
  have horigin := origin_mem_raw hsamples
  obtain ⟨p, hp, hpx, hpy⟩ := exists_mem_raw_pos h hsamples hsteps
  obtain ⟨width, hwidth, hxs, htracex⟩ := exists_rescale_of_zero_mem .x hx
    (List.mem_map.mpr ⟨_, horigin, rfl⟩)
    (List.forall_mem_map.mpr fun q hq => (nonneg_of_mem_raw h hsamples hsteps hq).1)
    (List.mem_map.mpr ⟨p, hp, rfl⟩) hpx
  obtain ⟨height, hheight, hys, htracey⟩ := exists_rescale_of_zero_mem .y hy
    (List.mem_map.mpr ⟨_, horigin, rfl⟩)
    (List.forall_mem_map.mpr fun q hq => (nonneg_of_mem_raw h hsamples hsteps hq).2)
    (List.mem_map.mpr ⟨p, hp, rfl⟩) hpy
  refine ⟨width, height, ⟨hwidth, hxs⟩, ⟨hheight, hys⟩, ?_⟩
  refine trace_eq_ok_iff.mpr ⟨hsamples, by simpa using hx, by simpa using hy, hsteps, _, _,
    htracex, htracey, ?_⟩
  rw [raw_eq_map]
  simp only [List.map_map, List.zipWith_map, List.zipWith_self]
  rfl

theorem first_eq_of_sampled (s : Spiral ℝ) (width height : ℝ) (hsamples : 2 ≤ s.samples) :
    (Segment.sampled (s.stretchedAt width height) 0.0 1.0 s.samples hsamples).first = s.start := by
  rw [Segment.first_sampled_exact, Scalar.zero_eq, stretchedAt_zero]

theorem last_eq_of_sampled (s : Spiral ℝ) (width height : ℝ) (hsamples : 2 ≤ s.samples) :
    (Segment.sampled (s.stretchedAt width height) 0.0 1.0 s.samples hsamples).last =
      s.stretchedAt width height 1 := by
  rw [Segment.last_sampled, Scalar.one_eq]

/-- A gentle spiral whose anchors differ in both coordinates can be traced. The trace starts from
the first anchor and ends at the height of the second one. It ends in the second anchor unless the
raw spiral doubles back, which it cannot where it has at most one point more than its sums have
positions. -/
theorem anchors_of_trace (h : s.Gentle) (hsamples : 2 ≤ s.samples) (hx : s.start.x ≠ s.stop.x)
    (hy : s.start.y ≠ s.stop.y) (hsteps : 2 ≤ s.steps) :
    ∃ segment, s.trace = .ok segment ∧ segment.first = s.start ∧ segment.last.y = s.stop.y ∧
      (segment.last = s.stop ↔ ¬ s.DoublesBack) ∧
      (s.samples ≤ s.steps + 1 → segment.last = s.stop) := by
  obtain ⟨width, height, ⟨hwidth, hwidest⟩, ⟨hheight, hhighest⟩, htrace⟩ :=
    trace_eq_sampled h hsamples hx hy hsteps
  have hlasty := stretchedAt_one_y h hsamples hsteps hheight hhighest width
  have hlastx : (s.stretchedAt width height 1).x = s.stop.x ↔ ¬ s.DoublesBack :=
    (stretchedAt_x_eq_stop_iff hx hwidth height).trans
      (rawAt_x_eq_iff_of_isGreatest h hsamples hsteps hwidest)
  have hlast : s.stretchedAt width height 1 = s.stop ↔ ¬ s.DoublesBack := by
    rw [← hlastx, Point.ext_iff]
    exact and_iff_left hlasty
  refine ⟨_, htrace, first_eq_of_sampled s width height hsamples, ?_, ?_, ?_⟩
  · rw [last_eq_of_sampled, hlasty]
  · rw [last_eq_of_sampled, hlast]
  · intro hle
    rw [last_eq_of_sampled, hlast]
    exact not_doublesBack h hsamples hsteps hle

/-- The spiral of the default counts ends in both anchors. -/
theorem anchors_of_trace_example : ∃ segment,
    (Spiral.between ⟨0, 0⟩ ⟨1, 1⟩ : Spiral ℝ).trace = .ok segment ∧
      segment.first = ⟨0, 0⟩ ∧ segment.last = ⟨1, 1⟩ := by
  obtain ⟨segment, htrace, hfirst, -, -, hlast⟩ := anchors_of_trace
    (⟨by norm_num [between], by norm_num [between]⟩ : (Spiral.between ⟨0, 0⟩ ⟨1, 1⟩).Gentle)
    (by decide) zero_ne_one zero_ne_one (by decide)
  exact ⟨segment, htrace, hfirst, hlast (by decide)⟩

/-! ### A spiral that doubles back -/

theorem fst_sums_two (t : ℝ) : (Fresnel.sums t 2).1 = t * (1 + Real.cos (Fresnel.phase t)) := by
  rw [Fresnel.sums_eq t le_rfl, Fresnel.spread]
  simp [Finset.sum_range_succ, Fresnel.phase_zero]

/-- Two positions to a sum are too few for four points: at two thirds of the way the cosine is
still more than one half. -/
theorem doublesBack_of_two_steps (a b : Point ℝ) : DoublesBack ⟨a, b, 4, 1, 2⟩ := by
  have hpi := Real.pi_pos
  have hquarter : Real.cos (Fresnel.phase 1) = 0 := by
    rw [Fresnel.phase_eq, one_pow, mul_one, Real.cos_pi_div_two]
  have hhalf : 1 / 2 < Real.cos (Fresnel.phase (2 / 3)) := by
    rw [← Real.cos_pi_div_three, Fresnel.phase_eq]
    exact Real.cos_lt_cos_of_nonneg_of_le_pi_div_two (by positivity) (by linarith) (by linarith)
  rw [DoublesBack, ← not_le, rawAt_x_le_iff, not_le]
  have hlast : (Fresnel.sums (1 : ℝ) 2).1 = 1 := by rw [fst_sums_two, hquarter, add_zero, mul_one]
  have hparts : (((4 - 2 : ℕ) : ℝ) / ((4 - 1 : ℕ) : ℝ)) = 2 / 3 := by norm_num
  rw [one_mul, one_mul, hlast, hparts, fst_sums_two]
  linarith

/-- A gentle spiral of four points whose sums have two positions does not end in its second
anchor. -/
theorem last_ne_stop_example : Gentle ⟨⟨0, 0⟩, ⟨1, 1⟩, 4, 1, 2⟩ ∧ ∃ segment,
    (⟨⟨0, 0⟩, ⟨1, 1⟩, 4, 1, 2⟩ : Spiral ℝ).trace = .ok segment ∧ segment.last ≠ ⟨1, 1⟩ := by
  have hgentle : Gentle ⟨⟨0, 0⟩, ⟨1, 1⟩, 4, 1, 2⟩ := ⟨one_pos, le_rfl⟩
  have hsamples : 2 ≤ 4 := by decide
  obtain ⟨width, height, ⟨hwidth, hwidest⟩, -, htrace⟩ :=
    trace_eq_sampled hgentle hsamples zero_ne_one zero_ne_one le_rfl
  refine ⟨hgentle, _, htrace, fun hlast => ?_⟩
  rw [last_eq_of_sampled] at hlast
  have hwidth' := (stretchedAt_x_eq_stop_iff zero_ne_one hwidth height).mp
    (congrArg Point.x hlast)
  exact (rawAt_x_eq_iff_of_isGreatest hgentle hsamples le_rfl hwidest).mp hwidth'
    (doublesBack_of_two_steps _ _)

end PathCurves.Spiral
