/-
Bisectors of two points in either order, and lines that meet, over exact numbers.

Neither the distance of two points nor their midpoint depends on which of them comes first, and the
slope of their bisector is a quotient whose terms both change their sign: the bisector is the same,
in the same form (`bisector_swap`). The point that two sloped lines share is computed with the
height of the first one; it is on the second one as well, so the order of the lines makes no
difference either (`meet_comm`). No point is found only where the lines run in the same direction, up to the
tolerance. If it does not blur their slopes, they then share none or more than one
(`existsUnique_iff_exists_meet`). Main statement: `mem_bisector_and_meet_comm`.
-/
import Mathlib
import PathCurves.Proofs.Collinear

namespace PathCurves

variable {K : Type} [Field K] [LinearOrder K] [Exact K]

/-! ## Two points in either order -/

namespace Point

theorem near_swap (a b : Point K) : Near b a ↔ Near a b := by
  have hnorm : (a - b).norm = (b - a).norm := by
    simp only [norm, sub_x, sub_y]
    congr 1
    ring
  rw [Near, Near, hnorm]

theorem midpoint_swap (a b : Point K) : midpoint b a = midpoint a b :=
  Point.ext (congrArg (· * 0.5) (add_comm b.x a.x)) (congrArg (· * 0.5) (add_comm b.y a.y))

theorem level_swap [IsStrictOrderedRing K] (a b : Point K) : Level b a ↔ Level a b := by
  rw [Level, Level, Scalar.abs_eq, Scalar.abs_eq, sub_y, sub_y, abs_sub_comm]

end Point

namespace Line

variable [IsStrictOrderedRing K] {l₁ l₂ : Line K} {q : Point K}

theorem bisector_swap (a b : Point K) : bisector b a = bisector a b := by
  by_cases hnear : Point.Near a b
  · rw [bisector_eq_none_iff.mpr hnear, bisector_eq_none_iff.mpr ((Point.near_swap a b).mpr hnear)]
  have hnear' : ¬ Point.Near b a := mt (Point.near_swap a b).mp hnear
  by_cases hlevel : Point.Level a b
  · rw [bisector_of_level hnear hlevel,
      bisector_of_level hnear' ((Point.level_swap a b).mpr hlevel), Point.midpoint_swap]
  · have hslope : -(a - b).x / (a - b).y = -(b - a).x / (b - a).y := by
      rw [Point.sub_x, Point.sub_y, Point.sub_x, Point.sub_y, neg_sub, neg_sub,
        ← neg_sub a.x b.x, ← neg_sub a.y b.y, neg_div, div_neg]
    rw [bisector_of_not_level hnear hlevel,
      bisector_of_not_level hnear' (mt (Point.level_swap a b).mp hlevel), Point.midpoint_swap,
      hslope]

/-! ## Two lines -/

theorem meet_comm (l₁ l₂ : Line K) : meet l₁ l₂ = meet l₂ l₁ := by
  cases l₁ with
  | vertical x₁ =>
    cases l₂ with
    | vertical x₂ => rfl
    | sloped s₂ i₂ => rfl
  | sloped s₁ i₁ =>
    cases l₂ with
    | vertical x₂ => rfl
    | sloped s₂ i₂ =>
      simp only [meet, Scalar.abs_eq, abs_sub_comm s₂ s₁]
      split
      · rfl
      · next hslope =>
        have hne : s₁ - s₂ ≠ 0 := Scalar.ne_zero_of_tolerance_le hslope
        have hplace : (i₁ - i₂) / (s₂ - s₁) = (i₂ - i₁) / (s₁ - s₂) := by
          rw [← neg_sub i₂ i₁, ← neg_sub s₁ s₂, neg_div_neg_eq]
        have hheight : s₂ * ((i₂ - i₁) / (s₁ - s₂)) + i₂ = s₁ * ((i₂ - i₁) / (s₁ - s₂)) + i₁ := by
          field_simp
          ring
        rw [hplace, hheight]

/-- The slopes of two sloped lines are equal, or they count as different. -/
def SharpSlopes : Line K → Line K → Prop
  | .sloped s₁ _, .sloped s₂ _ => Scalar.Sharp (s₁ - s₂)
  | _, _ => True

/-- Lines that run in the same direction have no point in common, or each point in common has
another one next to it. -/
theorem exists_ne_of_meet_eq_none (hsharp : SharpSlopes l₁ l₂) (h : meet l₁ l₂ = none)
    (h₁ : q ∈ l₁) (h₂ : q ∈ l₂) : ∃ r, r ∈ l₁ ∧ r ∈ l₂ ∧ r ≠ q := by
  cases l₁ with
  | vertical x₁ =>
    cases l₂ with
    | vertical x₂ =>
      refine ⟨⟨q.x, q.y + 1⟩, h₁, h₂, fun heq => ?_⟩
      exact add_ne_left.mpr one_ne_zero (congrArg Point.y heq)
    | sloped s₂ i₂ => cases h
  | sloped s₁ i₁ =>
    cases l₂ with
    | vertical x₂ => cases h
    | sloped s₂ i₂ =>
      have hslope : |s₁ - s₂| < Scalar.tolerance := by
        by_contra hne
        rw [← Scalar.abs_eq] at hne
        rw [meet, if_neg hne] at h
        cases h
      obtain rfl : s₁ = s₂ := sub_eq_zero.mp (hsharp.eq_zero hslope)
      rw [mem_sloped] at h₁ h₂
      refine ⟨⟨q.x + 1, q.y + s₁⟩, ?_, ?_, fun heq => ?_⟩
      · rw [mem_sloped, h₁]
        ring
      · rw [mem_sloped, h₂]
        ring
      · exact add_ne_left.mpr one_ne_zero (congrArg Point.x heq)

/-- A point is found exactly if there is one that no other point shares the two lines with. -/
theorem existsUnique_iff_exists_meet (hsharp : SharpSlopes l₁ l₂) :
    (∃! q, q ∈ l₁ ∧ q ∈ l₂) ↔ ∃ p, meet l₁ l₂ = some p := by
  refine ⟨?_, ?_⟩
  · rintro ⟨q, ⟨h₁, h₂⟩, hunique⟩
    refine Option.ne_none_iff_exists'.mp fun hnone => ?_
    obtain ⟨r, hr₁, hr₂, hne⟩ := exists_ne_of_meet_eq_none hsharp hnone h₁ h₂
    exact hne (hunique r ⟨hr₁, hr₂⟩)
  · rintro ⟨p, hp⟩
    exact ⟨p, (mem_and_mem_iff_eq_meet hp).mpr rfl, fun q => (mem_and_mem_iff_eq_meet hp).mp⟩

/-- The bisector of two points whose heights the tolerance does not blur is the line of the points
equally far from both, whichever comes first. The point that two lines share does not depend on
their order either; it is their only one, and it is found wherever there is only one, unless the
tolerance blurs their slopes. -/
theorem mem_bisector_and_meet_comm :
    (∀ a b : Point K, ¬ Point.Near a b → Scalar.Sharp (b.y - a.y) →
      ∃ l, bisector a b = some l ∧ bisector b a = some l ∧
        ∀ p, p ∈ l ↔ (p - a).normSq = (p - b).normSq) ∧
    ∀ l₁ l₂ : Line K, meet l₁ l₂ = meet l₂ l₁ ∧
      (∀ p, meet l₁ l₂ = some p → ∀ q, q ∈ l₁ ∧ q ∈ l₂ ↔ q = p) ∧
      (SharpSlopes l₁ l₂ → ((∃! q, q ∈ l₁ ∧ q ∈ l₂) ↔ ∃ p, meet l₁ l₂ = some p)) := by
  refine ⟨fun a b hnear hsharp => ?_, fun l₁ l₂ => ?_⟩
  · obtain ⟨l, hl⟩ := exists_bisector hnear
    exact ⟨l, hl, (bisector_swap a b).trans hl, fun p => mem_bisector_iff hl hsharp⟩
  · exact ⟨meet_comm l₁ l₂, fun p hp q => mem_and_mem_iff_eq_meet hp, existsUnique_iff_exists_meet⟩

/-- A diagonal, and two lines of opposite slopes. -/
theorem mem_bisector_and_meet_comm_example :
    (∃ l, bisector (⟨0, 0⟩ : Point ℝ) ⟨2, 2⟩ = some l ∧
      bisector (⟨2, 2⟩ : Point ℝ) ⟨0, 0⟩ = some l ∧ (⟨3, -1⟩ : Point ℝ) ∈ l) ∧
    ∃ p : Point ℝ, meet (.sloped 1 0) (.sloped (-1) 2) = some p ∧
      meet (.sloped (-1) 2) (.sloped 1 0) = some p ∧
      ∀ q : Point ℝ, q ∈ Line.sloped (1 : ℝ) 0 ∧ q ∈ Line.sloped (-1 : ℝ) 2 ↔ q = p := by
  obtain ⟨hbisector, hmeet⟩ := mem_bisector_and_meet_comm (K := ℝ)
  refine ⟨?_, ?_⟩
  · have hnear : ¬ Point.Near (⟨0, 0⟩ : Point ℝ) ⟨2, 2⟩ :=
      Point.not_near_of_le_normSq (by norm_num [Scalar.tolerance, Point.normSq])
    obtain ⟨l, hl, hl', hmem⟩ := hbisector _ _ hnear (.inr (by norm_num [Scalar.tolerance]))
    exact ⟨l, hl, hl', (hmem _).mpr (by norm_num [Point.normSq])⟩
  · obtain ⟨hcomm, hshared, hfound⟩ := hmeet (.sloped 1 0) (.sloped (-1) 2)
    have hsharp : SharpSlopes (.sloped (1 : ℝ) 0) (.sloped (-1) 2) :=
      .inr (by norm_num [Scalar.tolerance])
    have hunique : ∃! q : Point ℝ, q ∈ Line.sloped (1 : ℝ) 0 ∧ q ∈ Line.sloped (-1 : ℝ) 2 := by
      simp only [mem_sloped]
      refine ⟨⟨1, 1⟩, by norm_num, fun q hq => ?_⟩
      exact Point.ext (by linarith [hq.1, hq.2]) (by linarith [hq.1, hq.2])
    obtain ⟨p, hp⟩ := (hfound hsharp).mp hunique
    exact ⟨p, hp, hcomm.symm.trans hp, hshared p hp⟩

end Line

end PathCurves
