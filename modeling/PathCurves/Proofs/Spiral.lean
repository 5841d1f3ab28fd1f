/-
Spirals over the real numbers, and when one can be put in the place of a run of a path.

The raw spiral starts at the origin and ends up and to the right of it, however coarse its sums
are, as long as its rate is at most one. So both coordinates can be rescaled
(`exists_rescale_raw`), and the tracing of a spiral fails only where one of its first checks does
(`trace_eq_error_iff`). `Polyline.spliceSpiral_spec` carries this over to paths.
-/
import Mathlib
import PathCurves.Polyline.Fit
import PathCurves.Proofs.Fresnel

namespace PathCurves

namespace Spiral

/-! ## The raw spiral -/

/-- The rates for which the phases of the sums stay in the first quarter circle. -/
structure Gentle (s : Spiral ℝ) : Prop where
  pos : 0 < s.rate
  le_one : s.rate ≤ 1

/-- The point of the raw spiral at a parameter between zero and one. -/
noncomputable def rawAt (s : Spiral ℝ) (t : ℝ) : Point ℝ :=
  ⟨(Fresnel.sums (s.rate * t) s.steps).1 * Scalar.sqrt (Scalar.pi / 2.0),
    (Fresnel.sums (s.rate * t) s.steps).2 * Scalar.sqrt (Scalar.pi / 2.0)⟩

variable {s : Spiral ℝ} {fault : Fault}

theorem raw_eq_map (s : Spiral ℝ) : s.raw = (spaced 0.0 1.0 s.samples).map s.rawAt := rfl

theorem rawAt_zero (s : Spiral ℝ) : s.rawAt 0 = ⟨0, 0⟩ := by
  simp only [rawAt, mul_zero, Fresnel.sums_zero, zero_mul]

theorem scale_pos : 0 < (Scalar.sqrt (Scalar.pi / 2.0 : ℝ) : ℝ) := by
  apply Real.sqrt_pos.mpr
  show 0 < Real.pi / 2.0
  have hpi := Real.pi_pos
  positivity

theorem rawAt_pos {t : ℝ} (h : s.Gentle) (hsteps : 2 ≤ s.steps) (hpos : 0 < t) (hle : t ≤ 1) :
    0 < (s.rawAt t).x ∧ 0 < (s.rawAt t).y := by
  obtain ⟨hx, hy⟩ := Fresnel.sums_pos (mul_pos h.pos hpos) (mul_le_one₀ h.le_one hpos.le hle)
    hsteps
  exact ⟨mul_pos hx scale_pos, mul_pos hy scale_pos⟩

theorem origin_mem_raw (hsamples : 2 ≤ s.samples) : (⟨0, 0⟩ : Point ℝ) ∈ s.raw := by
  refine List.mem_map.mpr ⟨0.0, start_mem_spaced 0.0 1.0 hsamples, ?_⟩
  rw [Scalar.zero_eq]
  exact s.rawAt_zero

theorem exists_mem_raw_pos (h : s.Gentle) (hsamples : 2 ≤ s.samples) (hsteps : 2 ≤ s.steps) :
    ∃ p ∈ s.raw, 0 < p.x ∧ 0 < p.y :=
  ⟨_, List.mem_map.mpr ⟨1.0, stop_mem_spaced 0.0 1.0 hsamples, rfl⟩,
    rawAt_pos h hsteps (by norm_num) (by norm_num)⟩

/-- Both coordinates of the raw spiral have an extent, so they can be rescaled. -/
theorem exists_rescale_raw (h : s.Gentle) (hsamples : 2 ≤ s.samples) (hsteps : 2 ≤ s.steps)
    (axis : Axis) {a b : ℝ} (hne : a ≠ b) :
    (∃ xs, rescale axis a b (s.raw.map Point.x) = .ok xs) ∧
      ∃ ys, rescale axis a b (s.raw.map Point.y) = .ok ys := by
  obtain ⟨p, hp, hx, hy⟩ := exists_mem_raw_pos h hsamples hsteps
  have horigin := origin_mem_raw hsamples
  exact ⟨exists_rescale hne (List.mem_map_of_mem horigin) (List.mem_map_of_mem hp) hx,
    exists_rescale hne (List.mem_map_of_mem horigin) (List.mem_map_of_mem hp) hy⟩

/-! ## When a spiral can be traced -/

/-- The first fault of a spiral, where every check before it passes. -/
inductive FirstFault (s : Spiral ℝ) : Fault → Prop
  | samples (h : s.samples < 2) : FirstFault s (.tooFew .samples s.samples 2)
  | flatX (hsamples : 2 ≤ s.samples) (h : s.start.x = s.stop.x) : FirstFault s (.flatAnchor .x)
  | flatY (hsamples : 2 ≤ s.samples) (hx : s.start.x ≠ s.stop.x) (h : s.start.y = s.stop.y) :
      FirstFault s (.flatAnchor .y)
  | steps (hsamples : 2 ≤ s.samples) (hx : s.start.x ≠ s.stop.x) (hy : s.start.y ≠ s.stop.y)
      (h : s.steps < 2) : FirstFault s (.tooFew .fresnelSteps s.steps 2)

theorem FirstFault.trace (h : s.FirstFault fault) : s.trace = .error fault := by
  cases h with
  | samples h => simp [Spiral.trace, h]
  | flatX hsamples h => simp [Spiral.trace, Nat.not_lt.mpr hsamples, h]
  | flatY hsamples hx h => simp [Spiral.trace, Nat.not_lt.mpr hsamples, hx, h]
  | steps hsamples hx hy h => simp [Spiral.trace, Nat.not_lt.mpr hsamples, hx, hy, h]

/-- A spiral whose checks pass can be traced: both coordinates can be rescaled, and the trace has
the points that they make up. -/
theorem exists_trace (h : s.Gentle) (hsamples : 2 ≤ s.samples)
    (hx : s.start.x ≠ s.stop.x) (hy : s.start.y ≠ s.stop.y) (hsteps : 2 ≤ s.steps) :
    ∃ xs ys segment, rescale .x s.start.x s.stop.x (s.raw.map Point.x) = .ok xs ∧
      rescale .y s.start.y s.stop.y (s.raw.map Point.y) = .ok ys ∧
      List.zipWith Point.mk xs ys = segment.points ∧ s.trace = .ok segment := by
  obtain ⟨xs, hxs⟩ := (exists_rescale_raw h hsamples hsteps .x hx).1
  obtain ⟨ys, hys⟩ := (exists_rescale_raw h hsamples hsteps .y hy).2
  obtain ⟨segment, hpoints, htrace⟩ := exists_trace_of_rescale hsamples (by simpa using hx)
    (by simpa using hy) hsteps hxs hys
  exact ⟨xs, ys, segment, hxs, hys, hpoints, htrace⟩

theorem exists_firstFault_or (s : Spiral ℝ) : (∃ fault, s.FirstFault fault) ∨
    (2 ≤ s.samples ∧ s.start.x ≠ s.stop.x ∧ s.start.y ≠ s.stop.y ∧ 2 ≤ s.steps) := by
  by_cases hsamples : s.samples < 2
  · exact .inl ⟨_, .samples hsamples⟩
  have hsamples := Nat.not_lt.mp hsamples
  by_cases hx : s.start.x = s.stop.x
  · exact .inl ⟨_, .flatX hsamples hx⟩
  by_cases hy : s.start.y = s.stop.y
  · exact .inl ⟨_, .flatY hsamples hx hy⟩
  by_cases hsteps : s.steps < 2
  · exact .inl ⟨_, .steps hsamples hx hy hsteps⟩
  exact .inr ⟨hsamples, hx, hy, Nat.not_lt.mp hsteps⟩

theorem trace_eq_error_iff (h : s.Gentle) : s.trace = .error fault ↔ s.FirstFault fault := by
  refine ⟨fun htrace => ?_, FirstFault.trace⟩
  rcases s.exists_firstFault_or with ⟨found, hfound⟩ | ⟨hsamples, hx, hy, hsteps⟩
  · rw [hfound.trace] at htrace
    cases htrace
    exact hfound
  · obtain ⟨_, _, segment, _, _, _, hok⟩ := exists_trace h hsamples hx hy hsteps
    rw [hok] at htrace
    cases htrace

end Spiral

namespace Polyline

/-! ## When a spiral can be put into a path -/

/-- The first fault on the way to a path with a spiral in it, where everything before it
succeeds. -/
inductive FirstSpiralFault (path : Polyline ℝ) (start stop : ℕ) (sampling : Sampling) :
    Fault → Prop
  | range (h : ¬ path.Covers start stop) :
      FirstSpiralFault path start stop sampling (.outOfRange start stop path.length)
  | spiral {a b : Point ℝ} {fault : Fault} (hcovers : path.Covers start stop)
      (ha : path.get? start = some a) (hb : path.get? stop = some b)
      (h : Spiral.FirstFault ⟨a, b, sampling.spiralPoints, 1.0, sampling.fresnelSteps⟩ fault) :
      FirstSpiralFault path start stop sampling fault

theorem gentle_of_unit (a b : Point ℝ) (sampling : Sampling) :
    Spiral.Gentle ⟨a, b, sampling.spiralPoints, 1.0, sampling.fresnelSteps⟩ :=
  ⟨by norm_num, by norm_num⟩

theorem spliceSpiral_eq_error_iff {path : Polyline ℝ} {start stop : ℕ} {sampling : Sampling}
    {fault : Fault} : path.spliceSpiral start stop sampling = .error fault ↔
      FirstSpiralFault path start stop sampling fault := by
  by_cases hcovers : path.Covers start stop
  · obtain ⟨a, b, ha, hb⟩ := hcovers.exists_ends
    rw [spliceSpiral_of_get? hcovers.1 ha hb, Except.bind_eq_error_iff,
      Spiral.trace_eq_error_iff (gentle_of_unit a b sampling)]
    refine ⟨?_, ?_⟩
    · rintro (h | ⟨spiral, -, h⟩)
      · exact .spiral hcovers ha hb h
      · rw [splice_of_covers hcovers] at h
        cases h
    · intro h
      cases h with
      | range h => exact absurd hcovers h
      | spiral _ ha' hb' h =>
        cases ha.symm.trans ha'
        cases hb.symm.trans hb'
        exact .inl h
  · rw [spliceSpiral_of_not_covers hcovers]
    refine ⟨?_, ?_⟩
    · intro h
      cases h
      exact .range hcovers
    · intro h
      cases h with
      | range => rfl
      | spiral h => exact absurd h hcovers

/-- A spiral takes the place of a run of a path unless the path does not cover the run or the
spiral between the ends of the run has a fault of its own: too few points, ends that agree in a
coordinate, too few positions. The first of these is the fault that is found. Where there is
none, both raw coordinates can be rescaled, the path is spliced, and the spiral has as many points
as were asked for. -/
theorem spliceSpiral_spec (path : Polyline ℝ) (start stop : ℕ) (sampling : Sampling) :
    (∀ fault, path.spliceSpiral start stop sampling = .error fault ↔
      FirstSpiralFault path start stop sampling fault) ∧
    ((∃ fault, FirstSpiralFault path start stop sampling fault) ∨
      ∃ a b xs ys spiral, path.get? start = some a ∧ path.get? stop = some b ∧
        rescale .x a.x b.x ((Spiral.raw
          ⟨a, b, sampling.spiralPoints, 1.0, sampling.fresnelSteps⟩).map Point.x) = .ok xs ∧
        rescale .y a.y b.y ((Spiral.raw
          ⟨a, b, sampling.spiralPoints, 1.0, sampling.fresnelSteps⟩).map Point.y) = .ok ys ∧
        List.zipWith Point.mk xs ys = spiral.points ∧
        Spiral.trace ⟨a, b, sampling.spiralPoints, 1.0, sampling.fresnelSteps⟩ = .ok spiral ∧
        spiral.length = sampling.spiralPoints ∧
        path.spliceSpiral start stop sampling = path.splice start stop spiral ∧
        path.splice start stop spiral =
          .ok ⟨path.points.take start ++ spiral.points ++ path.points.drop (stop + 1)⟩) := by
  refine ⟨fun _ => spliceSpiral_eq_error_iff, ?_⟩
  by_cases hcovers : path.Covers start stop
  · obtain ⟨a, b, ha, hb⟩ := hcovers.exists_ends
    rcases Spiral.exists_firstFault_or
      ⟨a, b, sampling.spiralPoints, 1.0, sampling.fresnelSteps⟩ with
      ⟨fault, hfault⟩ | ⟨hsamples, hx, hy, hsteps⟩
    · exact .inl ⟨fault, .spiral hcovers ha hb hfault⟩
    · obtain ⟨xs, ys, spiral, hxs, hys, hpoints, htrace⟩ :=
        Spiral.exists_trace (gentle_of_unit a b sampling) hsamples hx hy hsteps
      refine .inr ⟨a, b, xs, ys, spiral, ha, hb, hxs, hys, hpoints, htrace,
        Spiral.length_of_trace htrace, ?_, splice_of_covers hcovers spiral⟩
      rw [spliceSpiral_of_get? hcovers.1 ha hb, htrace, Except.ok_bind]
  · exact .inl ⟨_, .range hcovers⟩

end Polyline

end PathCurves
