/-
The box between the anchors of a spiral, over exact numbers, at every rate.

A spiral whose rate is great winds to and fro, and so do its samples. None of them leaves the box
all the same, and each of the four sides of the box is reached by one of them
(`spans_of_trace`): the coordinates of a trace are rescaled lists (`rescale_of_trace`). This is so
of every cosine and every sine.
-/
import Mathlib
import PathCurves.Proofs.ExactRescaling
import PathCurves.Proofs.Spiral

namespace PathCurves.Spiral

theorem rescale_of_trace {α : Type} [Scalar α] [Trig α] {s : Spiral α} {segment : Segment α}
    (h : s.trace = .ok segment) :
    rescale .x s.start.x s.stop.x (s.raw.map Point.x) = .ok (segment.points.map Point.x) ∧
      rescale .y s.start.y s.stop.y (s.raw.map Point.y) = .ok (segment.points.map Point.y) := by
  obtain ⟨-, -, -, -, xs, ys, hxs, hys, hpoints⟩ := trace_eq_ok_iff.mp h
  have hlength : xs.length = ys.length := by
    simp [length_of_rescale hxs, length_of_rescale hys]
  rw [← hpoints, ← List.map_uncurry_zip_eq_zipWith, List.map_map, List.map_map]
  have hx : (List.zip xs ys).map (Point.x ∘ Function.uncurry Point.mk) = xs :=
    List.map_fst_zip hlength.le
  have hy : (List.zip xs ys).map (Point.y ∘ Function.uncurry Point.mk) = ys :=
    List.map_snd_zip hlength.ge
  rw [hx, hy]
  exact ⟨hxs, hys⟩

section

variable {K : Type} [Field K] [LinearOrder K] [IsStrictOrderedRing K] [Exact K] [Trig K]
  {s : Spiral K} {segment : Segment K}

/-- What a spiral needs to have a trace. The raw spiral must not be all on one vertical or all on
one level line, which no check before the rescaling sees. -/
structure Traceable (s : Spiral K) : Prop where
  samples : 2 ≤ s.samples
  x_ne : s.start.x ≠ s.stop.x
  y_ne : s.start.y ≠ s.stop.y
  steps : 2 ≤ s.steps
  x_varied : Varied (s.raw.map Point.x)
  y_varied : Varied (s.raw.map Point.y)

omit [IsStrictOrderedRing K] in
theorem raw_map_ne_nil (f : Point K → K) (h : 2 ≤ s.samples) : s.raw.map f ≠ [] :=
  List.ne_nil_of_length_pos (by simp; omega)

theorem exists_trace_iff : (∃ segment, s.trace = .ok segment) ↔ s.Traceable := by
  refine ⟨?_, fun h => ?_⟩
  · rintro ⟨segment, h⟩
    obtain ⟨hsamples, -, -, hsteps, -⟩ := trace_eq_ok_iff.mp h
    obtain ⟨hxs, hys⟩ := rescale_of_trace h
    obtain ⟨hx, hxvaried⟩ :=
      (exists_rescale_iff _ _ _ (raw_map_ne_nil Point.x hsamples)).mp ⟨_, hxs⟩
    obtain ⟨hy, hyvaried⟩ :=
      (exists_rescale_iff _ _ _ (raw_map_ne_nil Point.y hsamples)).mp ⟨_, hys⟩
    exact ⟨hsamples, hx, hy, hsteps, hxvaried, hyvaried⟩
  · obtain ⟨xs, hxs⟩ :=
      (exists_rescale_iff .x _ _ (raw_map_ne_nil Point.x h.samples)).mpr ⟨h.x_ne, h.x_varied⟩
    obtain ⟨ys, hys⟩ :=
      (exists_rescale_iff .y _ _ (raw_map_ne_nil Point.y h.samples)).mpr ⟨h.y_ne, h.y_varied⟩
    obtain ⟨segment, -, htrace⟩ := exists_trace_of_rescale h.samples (by simpa using h.x_ne)
      (by simpa using h.y_ne) h.steps hxs hys
    exact ⟨segment, htrace⟩

/-- A trace stays in the box between the anchors and reaches all four sides of it, at every rate
and in every direction from one anchor to the other. There is a trace exactly if there are enough
samples and positions and neither the anchors nor the raw samples agree in a coordinate. -/
theorem spans_of_trace (s : Spiral K) :
    (∀ segment, s.trace = .ok segment →
      Spans (segment.points.map Point.x) s.start.x s.stop.x ∧
        Spans (segment.points.map Point.y) s.start.y s.stop.y) ∧
    ((∃ segment, s.trace = .ok segment) ↔ s.Traceable) := by
  refine ⟨fun segment h => ?_, exists_trace_iff⟩
  obtain ⟨hsamples, -⟩ := trace_eq_ok_iff.mp h
  obtain ⟨hxs, hys⟩ := rescale_of_trace h
  exact ⟨spans_of_rescale hxs (raw_map_ne_nil Point.x hsamples),
    spans_of_rescale hys (raw_map_ne_nil Point.y hsamples)⟩

end

/-- A spiral of rate two, which is highest in the middle and back on the ground in the end, from an
anchor down to one at the right. -/
theorem spans_of_trace_example : ∃ segment,
    (⟨⟨0, 3⟩, ⟨4, 2⟩, 3, 2, 2⟩ : Spiral ℝ).trace = .ok segment ∧
      Spans (segment.points.map Point.x) 0 4 ∧ Spans (segment.points.map Point.y) 3 2 := by
  have hsamples : 2 ≤ 3 := by decide
  obtain ⟨hspans, htraceable⟩ := spans_of_trace (⟨⟨0, 3⟩, ⟨4, 2⟩, 3, 2, 2⟩ : Spiral ℝ)
  have horigin := origin_mem_raw (s := ⟨⟨0, 3⟩, ⟨4, 2⟩, 3, 2, 2⟩) hsamples
  have hmiddle : rawAt ⟨⟨0, 3⟩, ⟨4, 2⟩, 3, 2, 2⟩ (1 / 2) ∈ raw ⟨⟨0, 3⟩, ⟨4, 2⟩, 3, 2, 2⟩ := by
    rw [raw_eq_map, spaced_unit hsamples, List.map_map]
    exact List.mem_map.mpr ⟨1, by decide, by norm_num⟩
  obtain ⟨hx, hy⟩ := Fresnel.sums_pos (t := 2 * (1 / 2)) (by norm_num) (by norm_num) le_rfl
  obtain ⟨segment, htrace⟩ := htraceable.mpr ⟨hsamples, by norm_num, by norm_num, le_rfl,
    ⟨_, List.mem_map_of_mem horigin, _, List.mem_map_of_mem hmiddle, mul_pos hx scale_pos⟩,
    ⟨_, List.mem_map_of_mem horigin, _, List.mem_map_of_mem hmiddle, mul_pos hy scale_pos⟩⟩
  obtain ⟨hxs, hys⟩ := hspans segment htrace
  exact ⟨segment, htrace, hxs, hys⟩

end PathCurves.Spiral
