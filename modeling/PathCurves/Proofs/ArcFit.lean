/-
The deltoid arc that is fitted to a path, over the real numbers. Main statement:
`ends_of_fitArc`, the arc runs from half a chord beside the point that is equally far from the
first, middle and last points of the path to half a chord on its other side.
-/
import Mathlib
import PathCurves.Proofs.Circle
import PathCurves.Proofs.Deltoid

namespace PathCurves.Polyline

/-- The direction of the first cusp, thirty degrees to the right of the path's. -/
theorem radians_sub_cuspOffset (heading : ℝ) :
    Scalar.radians (heading - cuspOffset) = Scalar.radians heading - Real.pi / 6 := by
  simp only [Scalar.radians, cuspOffset, Scalar.pi, Exact.pi]
  norm_num
  ring

theorem radians_arcSweep (turn : ℝ) :
    Scalar.radians ((arcSweep.turnedBy turn).start : ℝ) = 0 ∧
      Scalar.radians ((arcSweep.turnedBy turn).stop : ℝ) = 4 * Real.pi / 3 := by
  simp only [arcSweep, Sweep.turnedBy, Sweep.unturned, Scalar.radians, Scalar.pi, Exact.pi]
  constructor
  · norm_num
  · norm_num
    ring

/-- The direction of the first cusp in terms of the chord `d`, whose length is `l`. -/
theorem direction_of_cusp {heading l : ℝ} {d : Point ℝ}
    (hcos : Real.cos (Scalar.radians heading) = d.x / l)
    (hsin : Real.sin (Scalar.radians heading) = d.y / l) :
    Real.cos (Scalar.radians (heading - cuspOffset)) = √3 / 2 * (d.x / l) + d.y / l / 2 ∧
      Real.sin (Scalar.radians (heading - cuspOffset)) = √3 / 2 * (d.y / l) - d.x / l / 2 := by
  rw [radians_sub_cuspOffset, Real.cos_sub, Real.sin_sub, hcos, hsin, Real.cos_pi_div_six,
    Real.sin_pi_div_six]
  constructor <;> ring

/-- The arc over two lobes of the deltoid whose circle stands beside `o` as `Circle.ofChord`
puts it: its ends lie half the chord from `a` to `b` ahead of `o` and behind it. -/
theorem ends_of_trace {a b o : Point ℝ} {fit : ArcFit ℝ} {samples : Nat}
    (hnear : ¬ Point.Near a b) (hheading : Point.heading a b = .ok fit.heading)
    (hradius : fit.circle.radius = (b - a).norm / √3)
    (hx : fit.circle.centre.x = o.x - (b - a).y / (2 * √3))
    (hy : fit.circle.centre.y = o.y + (b - a).x / (2 * √3))
    (htrace : Deltoid.trace ⟨fit.circle.radius, arcSweep.turnedBy (fit.heading - cuspOffset),
      fit.circle.centre, samples⟩ = .ok fit.segment) :
    fit.segment.first = o + (b - a) / (2 : ℝ) ∧ fit.segment.last = o - (b - a) / (2 : ℝ) := by
  have hpos := Point.norm_pos_of_not_near hnear
  have hroot : √3 ^ 2 = (3 : ℝ) := Real.sq_sqrt (by norm_num)
  obtain ⟨hcos, hsin⟩ :=
    direction_of_cusp (Point.cos_heading hnear hheading) (Point.sin_heading hheading)
  obtain ⟨hstart, hstop⟩ := radians_arcSweep (fit.heading - cuspOffset)
  constructor
  · rw [Deltoid.first_trace htrace, hstart, Deltoid.pointAt_zero]
    ext
    · simp only [Sweep.turnedBy, hcos, hradius, hx, Point.add_x, Point.div_x]
      field_simp
      ring
    · simp only [Sweep.turnedBy, hsin, hradius, hy, Point.add_y, Point.div_y]
      field_simp
      ring
  · rw [Deltoid.last_trace htrace, hstop, Deltoid.pointAt_two_thirds]
    ext
    · simp only [Sweep.turnedBy, hcos, hsin, hradius, hx, Point.sub_x, Point.div_x]
      field_simp
      linear_combination (b - a).y * hroot
    · simp only [Sweep.turnedBy, hcos, hsin, hradius, hy, Point.sub_y, Point.div_y]
      field_simp
      linear_combination -(b - a).x * hroot

/-! ## When the arc joins the ends of the path -/

theorem midpoint_eq (a b : Point ℝ) :
    Point.midpoint a b = ⟨(a.x + b.x) / 2, (a.y + b.y) / 2⟩ := by
  simp only [Point.midpoint]
  norm_num
  constructor <;> ring

/-- Half a chord ahead of `o` lies `b` and half a chord behind it `a` exactly when `o` is in
the middle of the chord. -/
theorem add_sub_eq_iff_eq_midpoint {a b o : Point ℝ} :
    o + (b - a) / (2 : ℝ) = b ∧ o - (b - a) / (2 : ℝ) = a ↔ o = Point.midpoint a b := by
  simp only [midpoint_eq, Point.ext_iff, Point.add_x, Point.add_y, Point.sub_x, Point.sub_y,
    Point.div_x, Point.div_y]
  refine ⟨?_, ?_⟩
  · intro h
    obtain ⟨⟨hx, hy⟩, -⟩ := h
    exact ⟨by linear_combination hx, by linear_combination hy⟩
  · intro h
    obtain ⟨hx, hy⟩ := h
    exact ⟨⟨by linear_combination hx, by linear_combination hy⟩,
      by linear_combination hx, by linear_combination hy⟩

/-- The only point that is equally far from `a`, `b` and `m` is the midpoint of `a` and `b`
exactly when `m` is half their distance away from that midpoint. -/
theorem eq_midpoint_iff {a b m o : Point ℝ} (ho : ∀ q : Point ℝ, q.Equidistant a b m ↔ q = o) :
    o = Point.midpoint a b ↔ (m - Point.midpoint a b).norm = (b - a).norm / 2 := by
  have hhalf : ((b - a).norm / 2) ^ 2 = (Point.midpoint a b - a).normSq := by
    rw [div_pow, Point.norm_sq, midpoint_eq]
    simp only [Point.normSq, Point.sub_x, Point.sub_y]
    ring
  have hboth : (Point.midpoint a b - a).normSq = (Point.midpoint a b - b).normSq := by
    rw [midpoint_eq]
    simp only [Point.normSq, Point.sub_x, Point.sub_y]
    ring
  have hflip : (m - Point.midpoint a b).normSq = (Point.midpoint a b - m).normSq := by
    simp only [Point.normSq, Point.sub_x, Point.sub_y]
    ring
  have hlen : (0 : ℝ) ≤ (b - a).norm / 2 := div_nonneg (Point.norm_nonneg _) zero_le_two
  calc o = Point.midpoint a b
      ↔ (Point.midpoint a b).Equidistant a b m := by rw [ho, eq_comm]
    _ ↔ (Point.midpoint a b - a).normSq = (Point.midpoint a b - m).normSq := by
        rw [Point.Equidistant, Point.norm_eq_norm_iff, Point.norm_eq_norm_iff, and_iff_right hboth]
    _ ↔ (m - Point.midpoint a b).norm ^ 2 = ((b - a).norm / 2) ^ 2 := by
        rw [Point.norm_sq, hflip, hhalf, eq_comm]
    _ ↔ (m - Point.midpoint a b).norm = (b - a).norm / 2 :=
        pow_left_inj₀ (Point.norm_nonneg _) hlen two_ne_zero

/-! ## The law of the ends -/

/-- The first sample of a fitted arc lies half a chord ahead of a point `o` and the last
sample half a chord behind it. It is the only point equally far from the first, middle and
last points of the path, unless the tolerance blurs how far one of the latter two lies above
the first; the arc then joins the last point to the first exactly when the middle one is half
a chord away from the middle of the chord. -/
theorem ends_of_fitArc {path : Polyline ℝ} {sampling : Sampling} {fit : ArcFit ℝ}
    {a b m : Point ℝ} (h : path.fitArc sampling = .ok fit) (ha : path.get? 0 = some a)
    (hb : path.get? (path.length - 1) = some b) (hm : path.get? (path.length / 2) = some m) :
    fit.segment.first - fit.segment.last = b - a ∧
      ∃ o : Point ℝ, fit.segment.first = o + (b - a) / (2 : ℝ) ∧
        fit.segment.last = o - (b - a) / (2 : ℝ) ∧
        (Scalar.Sharp (b.y - a.y) → Scalar.Sharp (m.y - a.y) →
          (∀ q : Point ℝ, q.Equidistant a b m ↔ q = o) ∧
          (fit.segment.first = b ∧ fit.segment.last = a ↔
            (m - Point.midpoint a b).norm = (b - a).norm / 2)) := by
  obtain ⟨hlen, hcircle, hheading, htrace⟩ := fitArc_eq_ok h
  obtain ⟨_, rfl⟩ := get?_eq_some_iff.mp ha
  obtain ⟨_, rfl⟩ := get?_eq_some_iff.mp hb
  obtain ⟨_, rfl⟩ := get?_eq_some_iff.mp hm
  obtain ⟨o, hx, hy, ho⟩ := Circle.centre_ofChord hcircle
  obtain ⟨hfirst, hlast⟩ := ends_of_trace (Circle.not_near_of_ofChord hcircle) hheading
    (Circle.radius_ofChord hcircle) hx hy htrace
  refine ⟨?_, o, hfirst, hlast, fun hb hm => ⟨ho hb hm, ?_⟩⟩
  · rw [hfirst, hlast]
    ext
    · simp only [Point.sub_x, Point.add_x, Point.div_x]
      ring
    · simp only [Point.sub_y, Point.add_y, Point.div_y]
      ring
  · rw [hfirst, hlast, add_sub_eq_iff_eq_midpoint]
    exact eq_midpoint_iff (ho hb hm)

theorem exists_fitArc (path : Polyline ℝ) (sampling : Sampling) {l₁ l₂ : Line ℝ} {o : Point ℝ}
    (hlen : 3 ≤ path.length) (hcount : 2 ≤ sampling.deltoidPoints)
    (hnear : ¬ Point.Near path[0] path[path.length - 1])
    (h₁ : Line.bisector path[0] path[path.length - 1] = some l₁)
    (h₂ : Line.bisector path[0] path[path.length / 2] = some l₂)
    (hmeet : Line.meet l₁ l₂ = some o) : ∃ fit, path.fitArc sampling = .ok fit :=
  ⟨_, fitArc_of_trace hlen (Circle.ofChord_of_meet hnear h₁ h₂ hmeet)
    (Point.heading_of_not_near hnear) (Deltoid.trace_eq_ok_iff.mpr ⟨hcount, rfl, rfl⟩)⟩

/-- A path whose ends are not on one level, and whose arc does not join them: the point
equally far from its three points is `(3 / 2, 2)`. -/
theorem ends_of_fitArc_example :
    ∃ fit : ArcFit ℝ, fitArc ⟨[⟨0, 0⟩, ⟨0, 4⟩, ⟨4, 2⟩]⟩ {} = .ok fit ∧
      fit.segment.first = ⟨7 / 2, 3⟩ ∧ fit.segment.last = ⟨-1 / 2, 1⟩ ∧
      ¬ (fit.segment.first = ⟨4, 2⟩ ∧ fit.segment.last = ⟨0, 0⟩) := by
  have hab : ¬ Point.Near (⟨0, 0⟩ : Point ℝ) ⟨4, 2⟩ :=
    Point.not_near_of_le_normSq (by norm_num [Scalar.tolerance, Point.normSq])
  have ham : ¬ Point.Near (⟨0, 0⟩ : Point ℝ) ⟨0, 4⟩ :=
    Point.not_near_of_le_normSq (by norm_num [Scalar.tolerance, Point.normSq])
  have h₁ : Line.bisector (⟨0, 0⟩ : Point ℝ) ⟨4, 2⟩ = some (.sloped (-2) 5) := by
    norm_num [Line.bisector, hab, Scalar.tolerance, Point.midpoint]
  have h₂ : Line.bisector (⟨0, 0⟩ : Point ℝ) ⟨0, 4⟩ = some (.sloped 0 2) := by
    norm_num [Line.bisector, ham, Scalar.tolerance, Point.midpoint]
  have hmeet : Line.meet (.sloped (-2) 5) (.sloped (0 : ℝ) 2) = some ⟨3 / 2, 2⟩ := by
    norm_num [Line.meet, Scalar.tolerance]
  obtain ⟨fit, hfit⟩ := exists_fitArc ⟨[⟨0, 0⟩, ⟨0, 4⟩, ⟨4, 2⟩]⟩ {} (by decide) (by decide)
    hab h₁ h₂ hmeet
  obtain ⟨-, o, hfirst, hlast, ho⟩ := ends_of_fitArc hfit rfl rfl rfl
  have hsharp : Scalar.Sharp ((2 : ℝ) - 0) ∧ Scalar.Sharp ((4 : ℝ) - 0) := by
    norm_num [Scalar.Sharp, Scalar.tolerance]
  obtain ⟨hunique, -⟩ := ho hsharp.1 hsharp.2
  have hcentre : (⟨3 / 2, 2⟩ : Point ℝ) = o :=
    (hunique _).mp (by norm_num [Point.Equidistant, Point.norm_eq_norm_iff, Point.normSq])
  refine ⟨fit, hfit, ?_, ?_, ?_⟩
  · rw [hfirst, ← hcentre]
    ext <;> norm_num
  · rw [hlast, ← hcentre]
    ext <;> norm_num
  · rw [hfirst, ← hcentre]
    norm_num [Point.ext_iff]

end PathCurves.Polyline
