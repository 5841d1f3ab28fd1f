/-
Perpendicular bisectors and the point that two of them share, over exact numbers. Main
statements: `mem_bisector_iff`, a bisector runs through the points equally far from both ends
unless the tolerance blurs their heights, and `mem_and_mem_iff_eq_meet`, the shared point is
the only one.
-/
import Mathlib
import PathCurves.Bisector
import PathCurves.Proofs.Exact

namespace PathCurves.Line

section

variable {K : Type} [Field K]

/-- The points that a line runs through. -/
def Through : Line K → Point K → Prop
  | .vertical x, p => p.x = x
  | .sloped slope intercept, p => p.y = slope * p.x + intercept

instance : Membership (Point K) (Line K) := ⟨Through⟩

theorem mem_vertical {x : K} {p : Point K} : p ∈ Line.vertical x ↔ p.x = x := Iff.rfl

theorem mem_sloped {slope intercept : K} {p : Point K} :
    p ∈ Line.sloped slope intercept ↔ p.y = slope * p.x + intercept := Iff.rfl

end

variable {K : Type} [Field K] [LinearOrder K] [IsStrictOrderedRing K] [Exact K]

/-! ## The bisector of two points -/

/-- A point is equally far from two others when it lies over their midpoint along the
direction between them. -/
theorem normSq_sub_eq_iff (p a b : Point K) :
    (p - a).normSq = (p - b).normSq ↔
      (b.y - a.y) * (p.y - (a.y + b.y) / 2) = -(b.x - a.x) * (p.x - (a.x + b.x) / 2) := by
  simp only [Point.normSq, Point.sub_x, Point.sub_y]
  refine ⟨?_, ?_⟩
  · intro h
    linear_combination h / 2
  · intro h
    linear_combination 2 * h

theorem mem_bisector_of_level {a b p : Point K} (hne : a ≠ b) (hy : b.y - a.y = 0) :
    p ∈ Line.vertical (Point.midpoint a b).x ↔ (p - a).normSq = (p - b).normSq := by
  have hx : b.x - a.x ≠ 0 := by
    intro hx
    exact hne (Point.ext (sub_eq_zero.mp hx).symm (sub_eq_zero.mp hy).symm)
  have hmid : (Point.midpoint a b).x = (a.x + b.x) / 2 := by
    simp only [Point.midpoint]
    norm_num
    ring
  rw [mem_vertical, normSq_sub_eq_iff, hy, hmid, zero_mul, eq_comm (a := (0 : K)), neg_mul,
    neg_eq_zero, mul_eq_zero, or_iff_right hx, sub_eq_zero]

theorem mem_bisector_of_not_level {a b p : Point K} (hy : b.y - a.y ≠ 0) :
    p ∈ Line.sloped (-(b.x - a.x) / (b.y - a.y))
        ((Point.midpoint a b).y - -(b.x - a.x) / (b.y - a.y) * (Point.midpoint a b).x) ↔
      (p - a).normSq = (p - b).normSq := by
  have hmid : Point.midpoint a b = ⟨(a.x + b.x) / 2, (a.y + b.y) / 2⟩ := by
    simp only [Point.midpoint]
    norm_num
    constructor <;> ring
  rw [mem_sloped, normSq_sub_eq_iff, hmid]
  refine ⟨?_, ?_⟩
  · intro h
    rw [h]
    field_simp
    ring
  · intro h
    field_simp at h ⊢
    linear_combination h

/-- A bisector runs through the points that are equally far from both ends, if these are on
one level exactly or on levels that count as different. -/
theorem mem_bisector_iff {a b p : Point K} {l : Line K} (h : bisector a b = some l)
    (hsharp : Scalar.Sharp (b.y - a.y)) : p ∈ l ↔ (p - a).normSq = (p - b).normSq := by
  unfold bisector at h
  dsimp only at h
  split at h
  · cases h
  · next hnear =>
    split at h
    · next hlevel =>
      cases h
      rw [Scalar.abs_eq] at hlevel
      exact mem_bisector_of_level (Point.ne_of_not_near hnear) (hsharp.eq_zero hlevel)
    · next hlevel =>
      cases h
      rw [Scalar.abs_eq] at hlevel
      exact mem_bisector_of_not_level (Scalar.ne_zero_of_tolerance_le hlevel)

/-! ## The point that two lines share -/

/-- Where two lines meet is the one point that both run through. -/
theorem mem_and_mem_iff_eq_meet {l₁ l₂ : Line K} {p q : Point K} (h : meet l₁ l₂ = some p) :
    q ∈ l₁ ∧ q ∈ l₂ ↔ q = p := by
  match l₁, l₂, h with
  | .vertical x, .sloped slope intercept, h =>
    cases h
    rw [mem_vertical, mem_sloped, Point.ext_iff]
    refine ⟨?_, ?_⟩
    · intro h
      obtain ⟨hx, hy⟩ := h
      exact ⟨hx, hx ▸ hy⟩
    · intro h
      obtain ⟨hx, hy⟩ := h
      exact ⟨hx, by rw [hy, hx]⟩
  | .sloped slope intercept, .vertical x, h =>
    cases h
    rw [mem_vertical, mem_sloped, Point.ext_iff]
    refine ⟨?_, ?_⟩
    · intro h
      obtain ⟨hy, hx⟩ := h
      exact ⟨hx, hx ▸ hy⟩
    · intro h
      obtain ⟨hx, hy⟩ := h
      exact ⟨by rw [hy, hx], hx⟩
  | .sloped s₁ i₁, .sloped s₂ i₂, h =>
    unfold meet at h
    dsimp only at h
    split at h
    · cases h
    · next hslope =>
      cases h
      rw [Scalar.abs_eq] at hslope
      have hne : s₁ - s₂ ≠ 0 := Scalar.ne_zero_of_tolerance_le hslope
      rw [mem_sloped, mem_sloped, Point.ext_iff]
      refine ⟨?_, ?_⟩
      · intro h
        obtain ⟨h₁, h₂⟩ := h
        have hx : q.x = (i₂ - i₁) / (s₁ - s₂) := by
          rw [eq_div_iff hne]
          linear_combination h₂ - h₁
        exact ⟨hx, by rw [← hx]; exact h₁⟩
      · intro h
        obtain ⟨hx, hy⟩ := h
        refine ⟨by rw [hy, hx], ?_⟩
        rw [hy, hx]
        field_simp
        ring

end PathCurves.Line
