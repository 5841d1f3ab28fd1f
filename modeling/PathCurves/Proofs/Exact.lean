/-
Exact numbers as scalars: the numbers of an ordered field with any square root and any `π`,
and the real numbers with their own. The constructions of the library can so be reasoned
about without rounding. Main statements: `norm_sq`, and `cos_heading` and `sin_heading`, which
say what lengths and directions are over the real numbers.
-/
import Mathlib
import PathCurves.Chord

namespace PathCurves

/-- An ordered field with a square root and a number `π`. Of these nothing is assumed but
that zero is its own root. -/
class Exact (K : Type) [Field K] [LinearOrder K] where
  sqrt : K → K
  pi : K
  sqrt_zero : sqrt 0 = 0

/-- The numbers of an ordered field are scalars, all of them finite. -/
instance Exact.toScalar {K : Type} [Field K] [LinearOrder K] [Exact K] : Scalar K where
  toAdd := inferInstance
  toSub := inferInstance
  toMul := inferInstance
  toDiv := inferInstance
  toNeg := inferInstance
  toNatCast := inferInstance
  toOfScientific := inferInstance
  toLT := inferInstance
  toLE := inferInstance
  toBEq := instBEqOfDecidableEq
  sqrt := Exact.sqrt
  pi := Exact.pi
  isFinite _ := true
  decidableLT := inferInstance
  decidableLE := inferInstance

noncomputable instance : Exact ℝ where
  sqrt := Real.sqrt
  pi := Real.pi
  sqrt_zero := Real.sqrt_zero

noncomputable instance : Trig ℝ where
  sin := Real.sin
  cos := Real.cos
  atan2 y x := Complex.arg ⟨x, y⟩

namespace Scalar

section

variable {K : Type} [Field K] [LinearOrder K] [IsStrictOrderedRing K] [Exact K]

@[simp] theorem abs_eq (a : K) : Scalar.abs a = |a| := by
  unfold Scalar.abs
  split
  · next h =>
    norm_num at h
    rw [abs_of_neg h]
  · next h =>
    norm_num at h
    split
    · next hzero =>
      norm_num at hzero
      norm_num [hzero]
    · rw [abs_of_nonneg h]

theorem zero_eq : (0.0 : K) = 0 := by
  norm_num

theorem one_eq : (1.0 : K) = 1 := by
  norm_num

theorem tolerance_pos : (0 : K) < tolerance := by
  norm_num [tolerance]

/-- A difference that the tolerance does not blur: it is zero, or it does not count as zero. -/
def Sharp (d : K) : Prop := d = 0 ∨ tolerance ≤ |d|

omit [IsStrictOrderedRing K] in
theorem Sharp.eq_zero {d : K} (h : Sharp d) (hd : |d| < tolerance) : d = 0 :=
  h.resolve_right (not_le.mpr hd)

theorem ne_zero_of_tolerance_le {d : K} (h : ¬ |d| < tolerance) : d ≠ 0 := by
  rintro rfl
  exact h (by simpa using tolerance_pos)

end

theorem radians_degrees (angle : ℝ) : radians (degrees angle) = angle := by
  have hpi : Real.pi ≠ 0 := Real.pi_ne_zero
  show angle * (180.0 / Real.pi) * (Real.pi / 180.0) = angle
  field_simp

end Scalar

namespace Point

section

variable {K : Type} [Field K] [LinearOrder K] [IsStrictOrderedRing K] [Exact K]

/-- The square of the length of a displacement. -/
def normSq (d : Point K) : K := d.x * d.x + d.y * d.y

omit [IsStrictOrderedRing K] in
theorem norm_sub_self (p : Point K) : (p - p).norm = 0 := by
  simp only [norm, sub_x, sub_y, sub_self, mul_zero, add_zero]
  exact Exact.sqrt_zero

theorem ne_of_not_near {a b : Point K} (h : ¬ Near a b) : a ≠ b := by
  rintro rfl
  exact h (by rw [Near, norm_sub_self]; exact Scalar.tolerance_pos)

end

theorem norm_sq (d : Point ℝ) : d.norm ^ 2 = d.normSq :=
  Real.sq_sqrt (add_nonneg (mul_self_nonneg d.x) (mul_self_nonneg d.y))

theorem norm_nonneg (d : Point ℝ) : 0 ≤ d.norm := Real.sqrt_nonneg _

theorem norm_pos_of_not_near {a b : Point ℝ} (h : ¬ Near a b) : 0 < (b - a).norm :=
  lt_of_lt_of_le Scalar.tolerance_pos (not_lt.mp h)

theorem not_near_of_le_normSq {a b : Point ℝ} (h : Scalar.tolerance ^ 2 ≤ (b - a).normSq) :
    ¬ Near a b :=
  not_lt.mpr (Real.le_sqrt_of_sq_le h)

/-- Displacements have the same length when the squares of their lengths agree. -/
theorem norm_eq_norm_iff {d e : Point ℝ} : d.norm = e.norm ↔ d.normSq = e.normSq := by
  rw [← norm_sq, ← norm_sq, pow_left_inj₀ d.norm_nonneg e.norm_nonneg two_ne_zero]

/-- The length of a displacement is that of the complex number with its coordinates. -/
theorem norm_eq_norm_mk (d : Point ℝ) : ‖(⟨d.x, d.y⟩ : ℂ)‖ = d.norm := by
  rw [Complex.norm_def, Complex.normSq_mk]
  rfl

variable {a b : Point ℝ} {heading : ℝ}

theorem heading_eq_ok (h : Point.heading a b = .ok heading) :
    Scalar.radians heading = Complex.arg ⟨(b - a).x, (b - a).y⟩ := by
  unfold Point.heading at h
  split at h
  · cases h
  · cases h
    exact Scalar.radians_degrees _

theorem cos_heading (hnear : ¬ Near a b) (h : Point.heading a b = .ok heading) :
    Real.cos (Scalar.radians heading) = (b - a).x / (b - a).norm := by
  have hpos := norm_pos_of_not_near hnear
  rw [heading_eq_ok h, Complex.cos_arg, norm_eq_norm_mk]
  rw [← norm_pos_iff, norm_eq_norm_mk]
  exact hpos

theorem sin_heading (h : Point.heading a b = .ok heading) :
    Real.sin (Scalar.radians heading) = (b - a).y / (b - a).norm := by
  rw [heading_eq_ok h, Complex.sin_arg, norm_eq_norm_mk]

end Point

end PathCurves
