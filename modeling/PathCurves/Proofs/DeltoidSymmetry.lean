/-
The symmetries of deltoid arcs, over exact numbers.

Evenly spaced parameters run backwards when their ends are exchanged (`spaced_swap`) and move along
with both ends (`spaced_add`), although the last of them is always the end itself and not a sum. So
the arc between exchanged angles is the reversed one, and as the curve of the opposite radius is
reflected in its centre (`pointAt_neg_radius`), the arc is so too (`trace_swapped_and_neg_radius`).

Over the real numbers the curve looks the same from each of its cusps: thirds of a turn of the
parameter turn the point by as much (`canonical_add_third_turns`), so an arc may start some cusps
further on or be turned instead (`trace_third_turns`).
-/
import Mathlib
import PathCurves.Proofs.ArcFaults
import PathCurves.Proofs.DeltoidCurve
import PathCurves.Proofs.Frames

namespace PathCurves

variable {K : Type} [Field K] [LinearOrder K] [Exact K]

/-! ## Evenly spaced numbers -/

theorem spaced_add [IsStrictOrderedRing K] (start stop v : K) (count : ℕ) :
    spaced (start + v) (stop + v) count = (spaced start stop count).map (· + v) := by
  simpa using spaced_affine 1 v start stop count

theorem spaced_swap [IsStrictOrderedRing K] (start stop : K) {count : ℕ} (h : 2 ≤ count) :
    spaced stop start count = (spaced start stop count).reverse := by
  have hparts : ((count - 1 : ℕ) : K) ≠ 0 := Nat.cast_ne_zero.mpr (by omega)
  rw [spaced_eq stop start h, spaced_eq start stop h]
  apply List.ext_getElem (by simp)
  intro i hi _
  have hle : i ≤ count - 1 := Nat.le_sub_one_of_lt (by simpa using hi)
  simp only [List.getElem_reverse, List.getElem_map, List.getElem_range, List.length_map,
    List.length_range, Nat.cast_sub hle]
  field_simp
  ring

/-! ## Stretches and segments -/

namespace Sweep

/-- The same stretch from its end to its start. -/
def swapped {α : Type} (s : Sweep α) : Sweep α := ⟨s.stop, s.start, s.turn⟩

/-- The stretch that starts and ends so much later. -/
def shiftedBy (s : Sweep K) (angle : K) : Sweep K := ⟨s.start + angle, s.stop + angle, s.turn⟩

end Sweep

namespace Segment

variable {α : Type}

/-- The points in the opposite order. -/
def reverse (s : Segment α) : Segment α := ⟨s.points.reverse, by simpa using s.nonempty⟩

theorem ext_points {s s' : Segment α} (h : s.points = s'.points) : s = s' := by
  cases s
  cases s'
  simpa using h

variable [IsStrictOrderedRing K] {start stop : K} {count : ℕ}

theorem sampled_swap (f : K → Point K) (h : 2 ≤ count) :
    sampled f stop start count h = (sampled f start stop count h).reverse := by
  apply ext_points
  rw [points_sampled, spaced_swap start stop h, List.map_reverse]
  rfl

theorem sampled_add (f : K → Point K) (v : K) (h : 2 ≤ count) :
    sampled f (start + v) (stop + v) count h = sampled (fun t => f (t + v)) start stop count h := by
  apply ext_points
  rw [points_sampled, points_sampled, spaced_add, List.map_map]
  rfl

end Segment

namespace Deltoid

variable [Trig K]

/-! ## Arcs from arcs -/

theorem trace_of_le (d : Deltoid K) (h : 2 ≤ d.samples) :
    d.trace = .ok (.sampled d.pointAt d.sweep.radians.1 d.sweep.radians.2 d.samples h) :=
  trace_eq_ok_iff.mpr ⟨h, rfl, rfl⟩

/-- What leads from the samples of one curve to as many of another leads from trace to trace. -/
theorem trace_eq_map {d e : Deltoid K} {f : Segment K → Segment K}
    (hsamples : e.samples = d.samples)
    (hsampled : ∀ (h : 2 ≤ e.samples) (h' : 2 ≤ d.samples),
      Segment.sampled e.pointAt e.sweep.radians.1 e.sweep.radians.2 e.samples h =
        f (.sampled d.pointAt d.sweep.radians.1 d.sweep.radians.2 d.samples h')) :
    e.trace = d.trace.map f := by
  by_cases h : 2 ≤ d.samples
  · rw [trace_of_le d h, trace_of_le e (hsamples ▸ h), hsampled _ h]
    rfl
  · rw [trace_of_lt (Nat.not_le.mp h), trace_of_lt (hsamples ▸ Nat.not_le.mp h), hsamples]
    rfl

/-- So does a map of the plane that leads from one curve to the other. -/
theorem trace_eq_map_of_pointAt {d e : Deltoid K} {f : Point K → Point K}
    (hsamples : e.samples = d.samples) (hsweep : e.sweep = d.sweep)
    (hpoint : ∀ t, e.pointAt t = f (d.pointAt t)) : e.trace = d.trace.map (Segment.map f) := by
  refine trace_eq_map hsamples fun _ _ => Segment.ext_points ?_
  simp only [Segment.map, Segment.points_sampled, List.map_map, hsamples, hsweep]
  exact List.map_congr_left fun t _ => hpoint t

theorem trace_swapped [IsStrictOrderedRing K] (d : Deltoid K) :
    trace { d with sweep := d.sweep.swapped } = d.trace.map Segment.reverse :=
  trace_eq_map rfl fun h _ => Segment.sampled_swap _ h

theorem pointAt_neg_radius (d : Deltoid K) (t : K) :
    pointAt { d with radius := -d.radius } t = d.centre * (2 : K) - d.pointAt t := by
  ext
  · simp only [pointAt, Point.turned, Point.add_x, Point.sub_x, Point.mul_x, Point.mul_y]
    ring
  · simp only [pointAt, Point.turned, Point.add_y, Point.sub_y, Point.mul_x, Point.mul_y]
    ring

theorem trace_neg_radius (d : Deltoid K) : trace { d with radius := -d.radius } =
    d.trace.map (Segment.map fun q => d.centre * (2 : K) - q) :=
  trace_eq_map_of_pointAt rfl rfl (pointAt_neg_radius d)

theorem trace_add_centre (d : Deltoid K) (v : Point K) :
    trace { d with centre := d.centre + v } = d.trace.map (Segment.map (· + v)) :=
  trace_eq_map_of_pointAt rfl rfl fun _ => Point.ext (add_assoc ..).symm (add_assoc ..).symm

/-- An arc of at least two samples can be traced. Between exchanged angles it has the same samples
in the opposite order, and at the opposite radius each sample is reflected in the centre. -/
theorem trace_swapped_and_neg_radius [IsStrictOrderedRing K] {d : Deltoid K} (h : 2 ≤ d.samples) :
    ∃ s, d.trace = .ok s ∧ s.length = d.samples ∧
      trace { d with sweep := d.sweep.swapped } = .ok s.reverse ∧
      trace { d with radius := -d.radius } = .ok (s.map fun q => d.centre * (2 : K) - q) := by
  refine ⟨_, trace_of_le d h, Segment.length_sampled _ _ _ _ h, ?_, ?_⟩
  · rw [trace_swapped, trace_of_le d h]
    rfl
  · rw [trace_neg_radius, trace_of_le d h]
    rfl

/-- From the second cusp back to the first one, and the same stretch mirrored in `(1, -1)`. -/
theorem trace_swapped_and_neg_radius_example : ∃ s,
    (⟨2, ⟨0, 120, 45⟩, ⟨1, -1⟩, 5⟩ : Deltoid ℝ).trace = .ok s ∧ s.length = 5 ∧
      (⟨2, ⟨120, 0, 45⟩, ⟨1, -1⟩, 5⟩ : Deltoid ℝ).trace = .ok s.reverse ∧
      (⟨-2, ⟨0, 120, 45⟩, ⟨1, -1⟩, 5⟩ : Deltoid ℝ).trace =
        .ok (s.map fun q => (⟨1, -1⟩ : Point ℝ) * (2 : ℝ) - q) :=
  trace_swapped_and_neg_radius (d := ⟨2, ⟨0, 120, 45⟩, ⟨1, -1⟩, 5⟩) (by decide)

/-! ## The three cusps -/

theorem radians_third_turns (k : ℤ) :
    Scalar.radians (120 * (k : ℝ)) = k * (2 * Real.pi) / 3 := by
  simp only [Scalar.radians, Scalar.pi, Exact.pi]
  norm_num
  ring

/-- Thirds of a turn of the parameter turn the point by as much. -/
theorem canonical_add_third_turns (t : ℝ) (k : ℤ) :
    canonical (t + Scalar.radians (120 * (k : ℝ))) =
      (canonical t).turned (Scalar.radians (120 * (k : ℝ))) := by
  -- Twice the shift is the opposite shift up to full turns.
  have htwice : 2 * (t + Scalar.radians (120 * (k : ℝ))) =
      2 * t - Scalar.radians (120 * (k : ℝ)) + k * (2 * Real.pi) := by
    rw [radians_third_turns]
    ring
  generalize Scalar.radians (120 * (k : ℝ)) = shift at htwice ⊢
  have hcos : Real.cos (2 * (t + shift)) = Real.cos (2 * t - shift) := by
    rw [htwice, Real.cos_add_int_mul_two_pi]
  have hsin : Real.sin (2 * (t + shift)) = Real.sin (2 * t - shift) := by
    rw [htwice, Real.sin_add_int_mul_two_pi]
  have htwo : (2.0 : ℝ) = 2 := by norm_num
  simp only [canonical, Point.turned, Trig.cos, Trig.sin, htwo, hcos, hsin, Real.cos_add,
    Real.sin_add, Real.cos_sub, Real.sin_sub]
  ext <;> ring

/-- A curve that is turned by thirds of a turn is the same curve with its parameter shifted. -/
theorem pointAt_add_third_turns (d : Deltoid ℝ) (k : ℤ) (t : ℝ) :
    d.pointAt (t + Scalar.radians (120 * (k : ℝ))) =
      pointAt { d with sweep := d.sweep.turnedBy (d.sweep.turn + 120 * k) } t := by
  simp only [pointAt, canonical_add_third_turns, Sweep.turnedBy, Scalar.radians_add,
    Point.turned_mul, Point.turned_turned]

/-- It makes no difference whether both angles of an arc grow by thirds of a turn or the whole arc
is turned by as much: the samples are the same. -/
theorem trace_third_turns {d : Deltoid ℝ} (h : 2 ≤ d.samples) (k : ℤ) :
    ∃ s, s.length = d.samples ∧
      trace { d with sweep := d.sweep.shiftedBy (120 * k) } = .ok s ∧
      trace { d with sweep := d.sweep.turnedBy (d.sweep.turn + 120 * k) } = .ok s := by
  refine ⟨_, Segment.length_sampled _ _ _ _ h, ?_,
    trace_of_le { d with sweep := d.sweep.turnedBy (d.sweep.turn + 120 * k) } h⟩
  rw [trace_of_le { d with sweep := d.sweep.shiftedBy (120 * k) } h]
  refine congrArg Except.ok ?_
  calc Segment.sampled d.pointAt (Scalar.radians (d.sweep.start + 120 * k))
        (Scalar.radians (d.sweep.stop + 120 * k)) d.samples h
      = .sampled (fun t => d.pointAt (t + Scalar.radians (120 * (k : ℝ))))
          (Scalar.radians d.sweep.start) (Scalar.radians d.sweep.stop) d.samples h := by
        rw [Scalar.radians_add, Scalar.radians_add, Segment.sampled_add]
    _ = .sampled (pointAt { d with sweep := d.sweep.turnedBy (d.sweep.turn + 120 * k) })
          (Scalar.radians d.sweep.start) (Scalar.radians d.sweep.stop) d.samples h := by
        rw [funext (pointAt_add_third_turns d k)]

/-- Two cusps back, over a stretch that runs backwards. -/
theorem trace_third_turns_example : ∃ s, s.length = 4 ∧
    (⟨2, ⟨-140, -240, 10⟩, ⟨1, -1⟩, 4⟩ : Deltoid ℝ).trace = .ok s ∧
      (⟨2, ⟨100, 0, -230⟩, ⟨1, -1⟩, 4⟩ : Deltoid ℝ).trace = .ok s := by
  have h := trace_third_turns (d := ⟨2, ⟨100, 0, 10⟩, ⟨1, -1⟩, 4⟩) (by decide) (-2)
  norm_num [Sweep.turnedBy, Sweep.shiftedBy] at h
  exact h

end Deltoid

end PathCurves
