/-
Paths moved as a whole, over exact numbers.

All tests that involve the tolerance look at displacements, and these stay what they are when both
points are moved. The lines are described by their heights over the origin and do change, but each
of them still runs through the moved points, in whatever form it is drawn: a bisector moves along
with its two points (`Line.bisector_translate`), and the point that two lines share moves along with
the lines (`Line.meet_translate`). Main statement: `Polyline.fitArc_translate`, it makes no
difference whether an arc is fitted before or after the move; also the faults are the same.
-/
import Mathlib
import PathCurves.Proofs.ArcFit
import PathCurves.Proofs.Collinear
import PathCurves.Proofs.DeltoidSymmetry

namespace PathCurves

variable {K : Type} [Field K] [LinearOrder K] [Exact K]

/-! ## Two points -/

namespace Point

theorem add_sub_add_right (a b v : Point K) : b + v - (a + v) = b - a :=
  Point.ext (add_sub_add_right_eq_sub ..) (add_sub_add_right_eq_sub ..)

theorem add_swap (p q v : Point K) : p + v + q = p + q + v :=
  Point.ext (add_right_comm ..) (add_right_comm ..)

@[simp] theorem near_translate (v a b : Point K) : Near (a + v) (b + v) ↔ Near a b := by
  rw [Near, Near, add_sub_add_right]

@[simp] theorem level_translate (v a b : Point K) : Level (a + v) (b + v) ↔ Level a b := by
  rw [Level, Level, add_sub_add_right]

theorem midpoint_translate [IsStrictOrderedRing K] (v a b : Point K) :
    midpoint (a + v) (b + v) = midpoint a b + v := by
  have hhalf : (0.5 : K) = 1 / 2 := by norm_num
  ext
  · simp only [midpoint, add_x, hhalf]
    ring
  · simp only [midpoint, add_y, hhalf]
    ring

theorem heading_translate [Trig K] (v a b : Point K) :
    heading (a + v) (b + v) = heading a b := by
  simp only [heading, near_translate, add_sub_add_right]

end Point

/-! ## Lines -/

namespace Line

/-- The line through the points that are moved along with those of another one. -/
def translate (v : Point K) : Line K → Line K
  | .vertical x => .vertical (x + v.x)
  | .sloped slope intercept => .sloped slope (intercept + (v.y - slope * v.x))

theorem intercept_translate (v p : Point K) (slope : K) :
    (p + v).y - slope * (p + v).x = p.y - slope * p.x + (v.y - slope * v.x) := by
  rw [Point.add_x, Point.add_y]
  ring

theorem over_translate (v : Point K) (x slope intercept : K) :
    (⟨x + v.x, slope * (x + v.x) + (intercept + (v.y - slope * v.x))⟩ : Point K) =
      ⟨x, slope * x + intercept⟩ + v := by
  refine Point.ext rfl ?_
  rw [Point.add_y]
  ring

variable [IsStrictOrderedRing K]

/-- The bisector of moved points is the moved bisector, in the same form. -/
theorem bisector_translate (v a b : Point K) :
    bisector (a + v) (b + v) = (bisector a b).map (translate v) := by
  -- Both tests see the displacement only, so the two bisectors take the same branch.
  by_cases hnear : Point.Near a b
  · rw [bisector_eq_none_iff.mpr hnear,
      bisector_eq_none_iff.mpr ((Point.near_translate v a b).mpr hnear)]
    rfl
  have hnear' : ¬ Point.Near (a + v) (b + v) := mt (Point.near_translate v a b).mp hnear
  by_cases hlevel : Point.Level a b
  · rw [bisector_of_level hnear hlevel,
      bisector_of_level hnear' ((Point.level_translate v a b).mpr hlevel),
      Point.midpoint_translate]
    rfl
  · rw [bisector_of_not_level hnear hlevel,
      bisector_of_not_level hnear' (mt (Point.level_translate v a b).mp hlevel),
      Point.midpoint_translate, Point.add_sub_add_right, intercept_translate]
    rfl

/-- Moved lines share the moved point, and are parallel when the lines are. -/
theorem meet_translate (v : Point K) (l₁ l₂ : Line K) :
    meet (l₁.translate v) (l₂.translate v) = (meet l₁ l₂).map (· + v) := by
  cases l₁ with
  | vertical x₁ =>
    cases l₂ with
    | vertical x₂ => rfl
    | sloped s₂ i₂ => exact congrArg some (over_translate v x₁ s₂ i₂)
  | sloped s₁ i₁ =>
    cases l₂ with
    | vertical x₂ => exact congrArg some (over_translate v x₂ s₁ i₁)
    | sloped s₂ i₂ =>
      simp only [translate, meet]
      split
      · rfl
      · next hslope =>
        rw [Scalar.abs_eq] at hslope
        have hne : s₁ - s₂ ≠ 0 := Scalar.ne_zero_of_tolerance_le hslope
        -- The intercepts change with the slopes, and their difference by a multiple of `s₁ - s₂`.
        have hx : (i₂ + (v.y - s₂ * v.x) - (i₁ + (v.y - s₁ * v.x))) / (s₁ - s₂) =
            (i₂ - i₁) / (s₁ - s₂) + v.x := by
          field_simp
          ring
        rw [hx]
        exact congrArg some (over_translate v _ s₁ i₁)

end Line

variable [IsStrictOrderedRing K]

/-! ## Circles -/

namespace Circle

/-- The circle around the moved centre. -/
def translate (v : Point K) (c : Circle K) : Circle K := ⟨c.centre + v, c.radius⟩

theorem ofChord_translate (v a b m : Point K) :
    ofChord (a + v) (b + v) (m + v) = (ofChord a b m).map (translate v) := by
  simp only [ofChord, Point.near_translate, Point.add_sub_add_right, Line.bisector_translate]
  split
  · rfl
  cases Line.bisector a b with
  | none => rfl
  | some l₁ =>
    cases Line.bisector a m with
    | none => rfl
    | some l₂ =>
      simp only [Option.map_some, Line.meet_translate]
      cases Line.meet l₁ l₂ with
      | none => rfl
      | some o => exact congrArg (fun p => Except.ok (Circle.mk p _)) (Point.add_swap ..)

end Circle

/-! ## Arcs -/

/-- The arc that is fitted to a moved path. -/
def ArcFit.translate (v : Point K) (fit : ArcFit K) : ArcFit K :=
  ⟨fit.circle.translate v, fit.heading, fit.segment.map (· + v)⟩

namespace Polyline

omit [IsStrictOrderedRing K] in
theorem Guides.translate {path : Polyline K} {a b m : Point K} (h : path.Guides a b m)
    (v : Point K) : (path.map (· + v)).Guides (a + v) (b + v) (m + v) where
  three := by rw [length_map]; exact h.three
  first := by rw [get?_map, h.first]; rfl
  last := by rw [length_map, get?_map, h.last]; rfl
  middle := by rw [length_map, get?_map, h.middle]; rfl

variable [Trig K]

/-- A path can be moved before an arc is fitted to it, or the arc afterwards: the radius and the
direction are the same, and the centre and all samples are moved along. Or the fault is the same. -/
theorem fitArc_translate (v : Point K) (path : Polyline K) (sampling : Sampling) :
    (path.map (· + v)).fitArc sampling = (path.fitArc sampling).map (ArcFit.translate v) := by
  by_cases hlen : path.length < 3
  · have hlen' : (path.map (· + v)).length < 3 := by rwa [length_map]
    rw [(FirstArcFault.points hlen).fitArc, (FirstArcFault.points hlen').fitArc, length_map]
    rfl
  obtain ⟨a, b, m, hguides⟩ := exists_guides (Nat.not_lt.mp hlen)
  rw [hguides.fitArc_eq, (hguides.translate v).fitArc_eq, Circle.ofChord_translate,
    Point.heading_translate]
  cases Circle.ofChord a b m with
  | error fault => rfl
  | ok circle =>
    cases Point.heading a b with
    | error fault => rfl
    | ok heading =>
      have htrace := Deltoid.trace_add_centre
        ⟨circle.radius, arcSweep.turnedBy (heading - cuspOffset), circle.centre,
          sampling.deltoidPoints⟩ v
      simp only [Except.map, Except.ok_bind, Circle.translate, htrace]
      cases Deltoid.trace (_ : Deltoid K) <;> rfl

/-- A path whose end lies higher than its start by half the tolerance, one unit to the right and two
down. -/
theorem fitArc_translate_example : ∃ fit : ArcFit ℝ,
    fitArc ⟨[⟨0, 0⟩, ⟨1, 3⟩, ⟨4, 5e-11⟩]⟩ {} = .ok fit ∧
      fitArc ⟨[⟨1, -2⟩, ⟨2, 1⟩, ⟨5, -2 + 5e-11⟩]⟩ {} =
        .ok ⟨⟨fit.circle.centre + ⟨1, -2⟩, fit.circle.radius⟩, fit.heading,
          fit.segment.map (· + ⟨1, -2⟩)⟩ := by
  have hab : ¬ Point.Near (⟨0, 0⟩ : Point ℝ) ⟨4, 5e-11⟩ :=
    Point.not_near_of_le_normSq (by norm_num [Scalar.tolerance, Point.normSq])
  have ham : ¬ Point.Near (⟨0, 0⟩ : Point ℝ) ⟨1, 3⟩ :=
    Point.not_near_of_le_normSq (by norm_num [Scalar.tolerance, Point.normSq])
  have hlevel : Point.Level (⟨0, 0⟩ : Point ℝ) ⟨4, 5e-11⟩ := by
    norm_num [Point.Level, Scalar.tolerance, abs_of_pos]
  have h₂ : Line.bisector (⟨0, 0⟩ : Point ℝ) ⟨1, 3⟩ = some (.sloped (-1 / 3) (5 / 3)) := by
    norm_num [Line.bisector, ham, Scalar.tolerance, Point.midpoint]
  obtain ⟨fit, hfit⟩ := exists_fitArc ⟨[⟨0, 0⟩, ⟨1, 3⟩, ⟨4, 5e-11⟩]⟩ {} (by decide) (by decide)
    hab (Line.bisector_of_level hab hlevel) h₂ rfl
  have hmoved := fitArc_translate ⟨1, -2⟩ (⟨[⟨0, 0⟩, ⟨1, 3⟩, ⟨4, 5e-11⟩]⟩ : Polyline ℝ) {}
  have hpath : map (· + (⟨1, -2⟩ : Point ℝ)) (⟨[⟨0, 0⟩, ⟨1, 3⟩, ⟨4, 5e-11⟩]⟩ : Polyline ℝ) =
      ⟨[⟨1, -2⟩, ⟨2, 1⟩, ⟨5, -2 + 5e-11⟩]⟩ := by
    norm_num [map, Point.ext_iff]
  rw [hpath, hfit] at hmoved
  exact ⟨fit, hfit, hmoved⟩

end Polyline

end PathCurves
