/-
When no arc can be fitted to a path, and why, for numbers of any kind: nothing is assumed of their
order and their arithmetic, so undefined and infinite ones are among them.

Three tests for points that are too near each other stand in the way of an arc: before the circle
is made, inside it where a bisector is drawn, and where the direction of the path is taken. They
agree (`Line.bisector_eq_none_iff`, `Point.exists_heading`), so only the first of them can fail on
the ends of a path. `Polyline.fitArc_spec` lists the faults that remain, in their order.
-/
import PathCurves.Polyline.Fit

namespace PathCurves

variable {α : Type} [Scalar α] {a b m : Point α} {fault : Fault}

theorem Line.bisector_eq_none_iff : Line.bisector a b = none ↔ Point.Near a b := by
  unfold Line.bisector
  dsimp only
  split
  · next h => simp [h]
  · next h => split <;> simp [h]

theorem Line.exists_bisector (h : ¬ Point.Near a b) : ∃ l, Line.bisector a b = some l :=
  Option.ne_none_iff_exists'.mp (mt Line.bisector_eq_none_iff.mp h)

theorem Point.exists_heading [Trig α] (h : ¬ Point.Near a b) :
    ∃ heading, Point.heading a b = .ok heading :=
  ⟨_, Point.heading_of_not_near h⟩

namespace Circle

/-! ## The circle of a chord -/

/-- The first fault on the way to the circle of a chord, where everything before it succeeds. -/
inductive FirstFault (a b m : Point α) : Fault → Prop
  | noChord (h : Point.Near a b) : FirstFault a b m .noChord
  | near (hchord : ¬ Point.Near a b) (h : Point.Near a m) : FirstFault a b m .collinear
  | parallel {l₁ l₂ : Line α} (hchord : ¬ Point.Near a b) (h₁ : Line.bisector a b = some l₁)
      (h₂ : Line.bisector a m = some l₂) (h : Line.meet l₁ l₂ = none) :
      FirstFault a b m .collinear

theorem FirstFault.ofChord (h : FirstFault a b m fault) : ofChord a b m = .error fault := by
  cases h with
  | noChord h => rw [Circle.ofChord, if_pos h]
  | near hchord h =>
    obtain ⟨l₁, h₁⟩ := Line.exists_bisector hchord
    rw [Circle.ofChord, if_neg hchord, h₁, Line.bisector_eq_none_iff.mpr h]
  | parallel hchord h₁ h₂ h => simp only [Circle.ofChord, if_neg hchord, h₁, h₂, h]

theorem exists_firstFault_or (a b m : Point α) : (∃ fault, FirstFault a b m fault) ∨
    ∃ circle, Circle.ofChord a b m = .ok circle := by
  by_cases hchord : Point.Near a b
  · exact .inl ⟨_, .noChord hchord⟩
  by_cases hnear : Point.Near a m
  · exact .inl ⟨_, .near hchord hnear⟩
  obtain ⟨l₁, h₁⟩ := Line.exists_bisector hchord
  obtain ⟨l₂, h₂⟩ := Line.exists_bisector hnear
  cases hmeet : Line.meet l₁ l₂ with
  | none => exact .inl ⟨_, .parallel hchord h₁ h₂ hmeet⟩
  | some o => exact .inr ⟨_, ofChord_of_meet hchord h₁ h₂ hmeet⟩

end Circle

variable [Trig α]

theorem Deltoid.trace_of_lt {d : Deltoid α} (h : d.samples < 2) :
    d.trace = .error (.tooFew .samples d.samples 2) :=
  dif_neg (Nat.not_le.mpr h)

theorem Deltoid.trace_of_unbounded {d : Deltoid α} (h : 2 ≤ d.samples)
    (hradius : Scalar.isFinite d.radius = false) : d.trace = .error .unboundedRadius := by
  rw [Deltoid.trace, dif_pos h, if_neg (by simp [hradius])]

namespace Polyline

/-! ## The arc of a path -/

/-- The points of a path that determine its arc: the first, the last and the middle one of at
least three. -/
structure Guides (path : Polyline α) (a b m : Point α) : Prop where
  three : 3 ≤ path.length
  first : path.get? 0 = some a
  last : path.get? (path.length - 1) = some b
  middle : path.get? (path.length / 2) = some m

variable {path : Polyline α} {sampling : Sampling}

omit [Scalar α] [Trig α] in
theorem exists_guides (h : 3 ≤ path.length) : ∃ a b m, path.Guides a b m :=
  ⟨_, _, _, h, get?_eq_some_iff.mpr ⟨by omega, rfl⟩, get?_eq_some_iff.mpr ⟨by omega, rfl⟩,
    get?_eq_some_iff.mpr ⟨by omega, rfl⟩⟩

/-- The arc is a matter of these points. -/
theorem Guides.fitArc_eq (h : path.Guides a b m) (sampling : Sampling) :
    path.fitArc sampling = (do
      let circle ← Circle.ofChord a b m
      let heading ← Point.heading a b
      let segment ← Deltoid.trace
        ⟨circle.radius, arcSweep.turnedBy (heading - cuspOffset), circle.centre,
          sampling.deltoidPoints⟩
      return ⟨circle, heading, segment⟩) := by
  obtain ⟨hlen, ha, hb, hm⟩ := h
  obtain ⟨_, rfl⟩ := get?_eq_some_iff.mp ha
  obtain ⟨_, rfl⟩ := get?_eq_some_iff.mp hb
  obtain ⟨_, rfl⟩ := get?_eq_some_iff.mp hm
  exact dif_pos hlen

/-- The first fault on the way to the arc of a path, where everything before it succeeds. -/
inductive FirstArcFault (path : Polyline α) (sampling : Sampling) : Fault → Prop
  | points (h : path.length < 3) : FirstArcFault path sampling (.tooFew .pathPoints path.length 3)
  | circle {a b m : Point α} {fault : Fault} (hguides : path.Guides a b m)
      (h : Circle.FirstFault a b m fault) : FirstArcFault path sampling fault
  | samples {a b m : Point α} {circle : Circle α} (hguides : path.Guides a b m)
      (hcircle : Circle.ofChord a b m = .ok circle) (h : sampling.deltoidPoints < 2) :
      FirstArcFault path sampling (.tooFew .samples sampling.deltoidPoints 2)
  | radius {a b m : Point α} {circle : Circle α} (hguides : path.Guides a b m)
      (hcircle : Circle.ofChord a b m = .ok circle) (hcount : 2 ≤ sampling.deltoidPoints)
      (h : Scalar.isFinite circle.radius = false) : FirstArcFault path sampling .unboundedRadius

/-- Once there is a circle, there is a direction too, and the deltoid decides. -/
theorem Guides.fitArc_of_circle {circle : Circle α} (h : path.Guides a b m)
    (hcircle : Circle.ofChord a b m = .ok circle) (sampling : Sampling) :
    ∃ heading, path.fitArc sampling = (Deltoid.trace
        ⟨circle.radius, arcSweep.turnedBy (heading - cuspOffset), circle.centre,
          sampling.deltoidPoints⟩).map fun segment => ⟨circle, heading, segment⟩ := by
  obtain ⟨l₁, l₂, o, hchord, -⟩ := Circle.ofChord_eq_ok hcircle
  obtain ⟨heading, hheading⟩ := Point.exists_heading hchord
  refine ⟨heading, ?_⟩
  rw [h.fitArc_eq, hcircle, Except.ok_bind, hheading, Except.ok_bind]
  cases Deltoid.trace (_ : Deltoid α) <;> rfl

theorem FirstArcFault.fitArc (h : FirstArcFault path sampling fault) :
    path.fitArc sampling = .error fault := by
  cases h with
  | points h => exact dif_neg (Nat.not_le.mpr h)
  | circle hguides h => rw [hguides.fitArc_eq, h.ofChord, Except.error_bind]
  | samples hguides hcircle h =>
    obtain ⟨heading, hfit⟩ := hguides.fitArc_of_circle hcircle sampling
    rw [hfit, Deltoid.trace_of_lt h]
    rfl
  | radius hguides hcircle hcount h =>
    obtain ⟨heading, hfit⟩ := hguides.fitArc_of_circle hcircle sampling
    rw [hfit, Deltoid.trace_of_unbounded hcount h]
    rfl

theorem exists_firstArcFault_or (path : Polyline α) (sampling : Sampling) :
    (∃ fault, FirstArcFault path sampling fault) ∨ ∃ fit, path.fitArc sampling = .ok fit := by
  by_cases hlen : path.length < 3
  · exact .inl ⟨_, .points hlen⟩
  obtain ⟨a, b, m, hguides⟩ := exists_guides (Nat.not_lt.mp hlen)
  rcases Circle.exists_firstFault_or a b m with ⟨fault, h⟩ | ⟨circle, hcircle⟩
  · exact .inl ⟨fault, .circle hguides h⟩
  by_cases hcount : sampling.deltoidPoints < 2
  · exact .inl ⟨_, .samples hguides hcircle hcount⟩
  have hcount := Nat.not_lt.mp hcount
  cases hfinite : Scalar.isFinite circle.radius with
  | false => exact .inl ⟨_, .radius hguides hcircle hcount hfinite⟩
  | true =>
    obtain ⟨heading, hfit⟩ := hguides.fitArc_of_circle hcircle sampling
    rw [hfit, Deltoid.trace_eq_ok_iff.mpr ⟨hcount, hfinite, rfl⟩]
    exact .inr ⟨_, rfl⟩

theorem fitArc_eq_error_iff : path.fitArc sampling = .error fault ↔
    FirstArcFault path sampling fault := by
  refine ⟨fun h => ?_, FirstArcFault.fitArc⟩
  rcases exists_firstArcFault_or path sampling with ⟨found, hfound⟩ | ⟨fit, hfit⟩
  · rw [hfound.fitArc] at h
    cases h
    exact hfound
  · rw [hfit] at h
    cases h

omit [Trig α] in
/-- The faults of an arc are those of its path, its chord, its three points, its count and its
radius; no segment without points is among them. -/
theorem FirstArcFault.mem (h : FirstArcFault path sampling fault) :
    fault ∈ [.tooFew .pathPoints path.length 3, .noChord, .collinear,
      .tooFew .samples sampling.deltoidPoints 2, .unboundedRadius] := by
  cases h with
  | points => simp
  | circle _ h => cases h <;> simp
  | samples => simp
  | radius => simp

/-- An arc is fitted to a path unless the path has too few points, its ends are too near each
other, the three points that determine the arc do not determine a circle, the arc has too few
points, or the radius is not finite. The first of these is the fault that is found, and there is
no other; where there is none the arc has as many points as were asked for. Of points that are
not too near each other, neither a bisector nor the direction is ever missing. -/
theorem fitArc_spec (path : Polyline α) (sampling : Sampling) :
    (∀ fault, path.fitArc sampling = .error fault ↔ FirstArcFault path sampling fault) ∧
    ((∃ fault, FirstArcFault path sampling fault) ∨ ∃ fit, path.fitArc sampling = .ok fit ∧
      fit.segment.length = sampling.deltoidPoints) ∧
    (∀ fault, path.fitArc sampling = .error fault →
      fault ∈ [.tooFew .pathPoints path.length 3, .noChord, .collinear,
        .tooFew .samples sampling.deltoidPoints 2, .unboundedRadius]) ∧
    ∀ a b : Point α, ¬ Point.Near a b →
      (∃ l, Line.bisector a b = some l) ∧ ∃ heading, Point.heading a b = .ok heading := by
  refine ⟨fun _ => fitArc_eq_error_iff, ?_, fun _ h => (fitArc_eq_error_iff.mp h).mem,
    fun _ _ hchord => ⟨Line.exists_bisector hchord, Point.exists_heading hchord⟩⟩
  rcases exists_firstArcFault_or path sampling with hfault | ⟨fit, hfit⟩
  · exact .inl hfault
  · obtain ⟨-, -, -, htrace⟩ := fitArc_eq_ok hfit
    exact .inr ⟨fit, hfit, Deltoid.length_of_trace htrace⟩

end Polyline

end PathCurves
