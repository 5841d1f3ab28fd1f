/-
The opposites of doubles, bit by bit. Rounding does not look at the sign, so a product or a quotient
with the opposite double is the opposite one (`neg_mul`, `mul_neg`, `neg_div`); what is no number
is its own opposite. Only a sum that is zero stays the same zero (`zero_add_neg`). So the positions
of a Fresnel sum, which are counted up from zero, turn into their opposites or stay as they are, and
neither changes their phases (`Fresnel.phases_neg`). Main statement: `Fresnel.integrals_neg`.
-/
import PathCurves.Fresnel
import PathCurves.Proofs.Arithmetic

namespace PathCurves

/-! ## Products and quotients -/

namespace Double

open Float.Model Float.Model.UnpackedFloat

theorem sign_neg_mul (s t : Sign) : -s * t = -(s * t) := by
  cases s <;> cases t <;> rfl

theorem sign_neg_div (s t : Sign) : -s / t = -(s / t) := by
  cases s <;> cases t <;> rfl

theorem sign_mul_comm (s t : Sign) : s * t = t * s := by
  cases s <;> cases t <;> rfl

protected theorem mul_comm (x y : Float) : x * y = y * x := by
  rw [mul_eq_pack, mul_eq_pack]
  cases x.toModel.unpack <;> cases y.toModel.unpack <;>
    simp only [UnpackedFloat.mul, sign_mul_comm, Nat.mul_comm, Int.add_comm]

protected theorem neg_mul (x y : Float) : -x * y = -(x * y) := by
  rw [mul_eq_pack, mul_eq_pack, unpack_neg, neg_pack]
  cases x.toModel.unpack <;> cases y.toModel.unpack <;>
    simp only [UnpackedFloat.mul, UnpackedFloat.neg, sign_neg_mul, roundWithAccuracy_neg]

protected theorem mul_neg (x y : Float) : x * -y = -(x * y) := by
  rw [Double.mul_comm, Double.neg_mul, Double.mul_comm]

protected theorem neg_div (x y : Float) : -x / y = -(x / y) := by
  rw [div_eq_pack, div_eq_pack, unpack_neg, neg_pack]
  cases x.toModel.unpack <;> cases y.toModel.unpack <;>
    simp only [UnpackedFloat.div, UnpackedFloat.neg, sign_neg_div, roundWithAccuracy_neg]

/-! ## Sums with zero -/

protected theorem sub_zero (x : Float) : x - 0.0 = x := by
  have hadd (f : Float.Model.UnpackedFloat) :
      UnpackedFloat.add Format.binary64 f (.zero .negative) = f := by
    cases f with
    | zero s => cases s <;> rfl
    | _ => rfl
  have hzero : (-0.0 : Float).toModel.unpack = .zero .negative := by
    rw [unpack_neg, unpack_zero]
    rfl
  rw [sub_eq, add_eq_pack, hzero, hadd, pack_unpack]

/-- Zero plus the opposite is the opposite sum, or both are zero. -/
theorem zero_add_neg (x : Float) : 0.0 + -x = -(0.0 + x) ∨ 0.0 + -x = 0.0 + x := by
  rw [add_eq_pack, add_eq_pack, unpack_zero, unpack_neg, neg_pack]
  cases x.toModel.unpack with
  | zero s =>
    right
    cases s <;> rfl
  | _ => exact .inl rfl

end Double

/-! ## Fresnel sums -/

namespace Fresnel

variable (t : Float) {steps : ℕ}

theorem phase_neg (s : Float) : phase (-s) = phase s := by
  unfold phase
  rw [Double.mul_neg, Double.mul_neg, Double.neg_mul, Double.neg_neg]

theorem phase_zero_add_neg (s : Float) : phase (0.0 + -s) = phase (0.0 + s) := by
  rcases Double.zero_add_neg s with h | h
  · rw [h, phase_neg]
  · rw [h]

theorem stride_neg (count : ℕ) (h : 2 ≤ count) : stride 0.0 (-t) count = -stride 0.0 t count := by
  have hcount : 1 < count := h
  unfold stride
  rw [if_pos hcount, if_pos hcount, Double.sub_zero, Double.sub_zero, Double.neg_div]

/-- The phases up to the opposite bound are the same ones. -/
theorem phases_neg (h : 2 ≤ steps) :
    (spaced 0.0 (-t) steps).map phase = (spaced 0.0 t steps).map phase := by
  unfold spaced
  rw [List.map_map, List.map_map, stride_neg t steps h]
  apply List.map_congr_left
  intro i _
  simp only [Function.comp_apply]
  split
  · exact phase_neg t
  · rw [Double.neg_mul, phase_zero_add_neg]

/-- The estimates up to the opposite bound are the opposite ones bit by bit, whatever the cosine
and the sine are. -/
theorem integrals_neg [Trig Float] (h : 2 ≤ steps) : ∃ c s : Float,
    integrals t steps = .ok (c, s) ∧ integrals (-t) steps = .ok (-c, -s) := by
  have hok (t : Float) : integrals t steps = .ok (sums t steps) := if_neg (not_lt.mpr h)
  refine ⟨_, _, hok t, ?_⟩
  rw [hok (-t), sums, phases_neg t h, Double.neg_div, Double.mul_neg, Double.mul_neg]

theorem integrals_neg_example : ∃ c s : Float,
    integrals 0.7 1000 = .ok (c, s) ∧ integrals (-0.7) 1000 = .ok (-c, -s) :=
  integrals_neg 0.7 (by decide)

end Fresnel

end PathCurves
