/-
Other units and origins for the coordinates, over exact numbers.

A frame has a unit and an origin for each axis, and a negative unit turns the axis round. Targets in
another unit give rescaled values in that unit (`rescale_convert`), and the raw spiral does not
depend on the anchors at all. So it makes no difference whether a spiral is traced before or after
the change of frame (`trace_convert`), nor does it for a path with a spiral in it
(`spliceSpiral_convert`); also the faults are the same.
-/
import Mathlib
import PathCurves.Polyline.Fit
import PathCurves.Proofs.Spiral

namespace PathCurves

/-! ## Points moved one by one -/

namespace Segment

variable {α β : Type}

/-- The segment with each of its points moved. -/
def map (f : Point α → Point β) (s : Segment α) : Segment β :=
  ⟨s.points.map f, by simpa using s.nonempty⟩

theorem ofPoints_map (f : Point α → Point β) (points : List (Point α)) :
    ofPoints (points.map f) = (ofPoints points).map (map f) := by
  cases points with
  | nil => rfl
  | cons p rest => rfl

end Segment

namespace Polyline

variable {α β : Type}

/-- The path with each of its points moved. -/
def map (f : Point α → Point β) (path : Polyline α) : Polyline β := ⟨path.points.map f⟩

@[simp] theorem length_map (f : Point α → Point β) (path : Polyline α) :
    (path.map f).length = path.length :=
  List.length_map f

@[simp] theorem covers_map (f : Point α → Point β) (path : Polyline α) (start stop : ℕ) :
    (path.map f).Covers start stop ↔ path.Covers start stop := by
  simp [Covers]

theorem get?_map (f : Point α → Point β) (path : Polyline α) (position : ℕ) :
    (path.map f).get? position = (path.get? position).map f :=
  List.getElem?_map

/-- Splicing does not look at the points. -/
theorem splice_map (f : Point α → Point β) (path : Polyline α) (start stop : ℕ)
    (segment : Segment α) :
    (path.map f).splice start stop (segment.map f) =
      (path.splice start stop segment).map (map f) := by
  by_cases h : path.Covers start stop
  · rw [splice_of_covers h, splice_of_covers ((covers_map f path start stop).mpr h)]
    simp [map, Segment.map, Except.map]
  · rw [splice_of_not_covers h, splice_of_not_covers (mt (covers_map f path start stop).mp h),
      length_map]
    rfl

end Polyline

/-! ## Units and origins -/

/-- Another unit and another origin for the numbers along an axis: how much an old unit counts, and
the number of the old origin. -/
structure Gauge (K : Type) [Field K] where
  unit : K
  origin : K
  unit_ne_zero : unit ≠ 0

/-- A gauge for each axis. -/
structure Frame (K : Type) [Field K] where
  x : Gauge K
  y : Gauge K

section

variable {K : Type} [Field K]

namespace Gauge

/-- The new number for an old one. -/
def convert (g : Gauge K) (v : K) : K := g.unit * v + g.origin

theorem convert_injective (g : Gauge K) : Function.Injective g.convert := by
  intro u v h
  exact mul_left_cancel₀ g.unit_ne_zero (add_right_cancel h)

variable [LinearOrder K] [Exact K]

theorem convert_beq (g : Gauge K) (u v : K) : (g.convert u == g.convert v) = (u == v) := by
  simp [beq_eq_decide, g.convert_injective.eq_iff]

theorem interpolate_convert [IsStrictOrderedRing K] (g : Gauge K) (a b low span v : K) :
    interpolate (g.convert a) (g.convert b) low span v = g.convert (interpolate a b low span v) := by
  simp only [interpolate_eq, convert]
  ring

theorem rescale_convert [IsStrictOrderedRing K] (g : Gauge K) (axis : Axis) (a b : K)
    (values : List K) :
    rescale axis (g.convert a) (g.convert b) values =
      (rescale axis a b values).map (List.map g.convert) := by
  unfold rescale
  rw [g.convert_beq]
  split
  · rfl
  · cases extent values with
    | none => rfl
    | some e =>
      dsimp only
      split
      · rfl
      · simp [Except.map, g.interpolate_convert]

end Gauge

namespace Frame

/-- The new coordinates of a point. -/
def convert (f : Frame K) (p : Point K) : Point K := ⟨f.x.convert p.x, f.y.convert p.y⟩

@[simp] theorem convert_x (f : Frame K) (p : Point K) : (f.convert p).x = f.x.convert p.x := rfl

@[simp] theorem convert_y (f : Frame K) (p : Point K) : (f.convert p).y = f.y.convert p.y := rfl

theorem zipWith_mk_convert (f : Frame K) (xs ys : List K) :
    List.zipWith Point.mk (xs.map f.x.convert) (ys.map f.y.convert) =
      (List.zipWith Point.mk xs ys).map f.convert := by
  rw [List.zipWith_map, List.map_zipWith]
  rfl

end Frame

variable [LinearOrder K] [IsStrictOrderedRing K] [Exact K] [Trig K]

/-! ## Spirals -/

/-- The spiral between two points is the same curve in every frame, and has the same faults. -/
theorem Spiral.trace_convert (f : Frame K) (a b : Point K) (samples : ℕ) (rate : K) (steps : ℕ) :
    trace ⟨f.convert a, f.convert b, samples, rate, steps⟩ =
      (trace ⟨a, b, samples, rate, steps⟩).map (Segment.map f.convert) := by
  have hraw : raw ⟨f.convert a, f.convert b, samples, rate, steps⟩ =
      raw ⟨a, b, samples, rate, steps⟩ := rfl
  simp only [trace, hraw, Frame.convert_x, Frame.convert_y, Gauge.convert_beq,
    Gauge.rescale_convert]
  -- Of the anchors only the targets of the rescaling are left, and the checks that precede it.
  generalize raw ⟨a, b, samples, rate, steps⟩ = points
  split
  · rfl
  split
  · rfl
  split
  · rfl
  split
  · rfl
  cases rescale .x a.x b.x (points.map Point.x) with
  | error fault => rfl
  | ok xs =>
    cases rescale .y a.y b.y (points.map Point.y) with
    | error fault => rfl
    | ok ys =>
      simp only [Except.map, Except.ok_bind, f.zipWith_mk_convert]
      exact Segment.ofPoints_map f.convert _

/-! ## Paths -/

/-- A change of frame can be made before a spiral takes the place of a run of a path, or after it:
the result is the same path, or the same fault. -/
theorem Polyline.spliceSpiral_convert (f : Frame K) (path : Polyline K) (start stop : ℕ)
    (sampling : Sampling) :
    (path.map f.convert).spliceSpiral start stop sampling =
      (path.spliceSpiral start stop sampling).map (Polyline.map f.convert) := by
  by_cases hcovers : path.Covers start stop
  · obtain ⟨a, b, ha, hb⟩ := hcovers.exists_ends
    have ha' : (path.map f.convert).get? start = some (f.convert a) := by rw [get?_map, ha]; rfl
    have hb' : (path.map f.convert).get? stop = some (f.convert b) := by rw [get?_map, hb]; rfl
    rw [spliceSpiral_of_get? hcovers.1 ha hb, spliceSpiral_of_get? hcovers.1 ha' hb',
      Spiral.trace_convert]
    cases Spiral.trace ⟨a, b, sampling.spiralPoints, 1.0, sampling.fresnelSteps⟩ with
    | error fault => rfl
    | ok spiral => exact splice_map f.convert path start stop spiral
  · have hcovers' : ¬ (path.map f.convert).Covers start stop := by simpa using hcovers
    rw [spliceSpiral_of_not_covers hcovers, spliceSpiral_of_not_covers hcovers', length_map]
    rfl

end

/-- The first axis turned round, in units of one half, and the second one in units of a third. -/
theorem Polyline.spliceSpiral_convert_example : ∃ out,
    (⟨[⟨0, 0⟩, ⟨1, 2⟩, ⟨3, 1⟩]⟩ : Polyline ℝ).spliceSpiral 1 2 ⟨2, 3, 2⟩ = .ok out ∧
      (⟨[⟨1, 0⟩, ⟨-1, 6⟩, ⟨-5, 3⟩]⟩ : Polyline ℝ).spliceSpiral 1 2 ⟨2, 3, 2⟩ =
        .ok (out.map fun p => ⟨-2 * p.x + 1, 3 * p.y + 0⟩) := by
  have hcovers : Covers (⟨[⟨0, 0⟩, ⟨1, 2⟩, ⟨3, 1⟩]⟩ : Polyline ℝ) 1 2 := ⟨by decide, by decide⟩
  obtain ⟨-, -, spiral, -, -, -, htrace⟩ := Spiral.exists_trace
    (gentle_of_unit ⟨1, 2⟩ ⟨3, 1⟩ ⟨2, 3, 2⟩) (by decide) (by norm_num) (by norm_num) le_rfl
  obtain ⟨out, hspliced⟩ : ∃ out, (⟨[⟨0, 0⟩, ⟨1, 2⟩, ⟨3, 1⟩]⟩ : Polyline ℝ).spliceSpiral 1 2
      ⟨2, 3, 2⟩ = .ok out := by
    rw [spliceSpiral_of_get? hcovers.1 rfl rfl, htrace]
    exact ⟨_, splice_of_covers hcovers spiral⟩
  have hconvert := spliceSpiral_convert ⟨⟨-2, 1, by norm_num⟩, ⟨3, 0, by norm_num⟩⟩
    (⟨[⟨0, 0⟩, ⟨1, 2⟩, ⟨3, 1⟩]⟩ : Polyline ℝ) 1 2 ⟨2, 3, 2⟩
  have hmoved : map (Frame.convert ⟨⟨-2, 1, by norm_num⟩, ⟨3, 0, by norm_num⟩⟩)
      (⟨[⟨0, 0⟩, ⟨1, 2⟩, ⟨3, 1⟩]⟩ : Polyline ℝ) = ⟨[⟨1, 0⟩, ⟨-1, 6⟩, ⟨-5, 3⟩]⟩ := by
    norm_num [map, Frame.convert, Gauge.convert]
  rw [hspliced, hmoved] at hconvert
  exact ⟨out, hspliced, hconvert⟩

end PathCurves
