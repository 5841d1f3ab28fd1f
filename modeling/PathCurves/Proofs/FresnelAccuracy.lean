/-
How close the Fresnel sums come to the Fresnel integrals, over the real numbers.

Every position but the first stands for the interval from the one before it. On the interval the
phase lies between those at its ends (`phase_mem_Icc_of_mem_uIcc`), and the cosine and the sine
change no more than the phase does, so the interval costs its width times the growth of the phase
(`abs_cell_sub_integral_le`). The growths add up to the phase of the bound (`sum_growth`), and the
first position, which stands for no interval, costs one width more (`abs_spread_sub_integral_le`).
Main statement: `integrals_near`.
-/
import Mathlib
import PathCurves.Proofs.FresnelGrowth

open Filter Set Topology

namespace PathCurves.Fresnel

theorem phase_eq_div (s : ℝ) : phase s = Real.pi * s ^ 2 / 2 := by
  rw [phase_eq, mul_div_right_comm]

/-! ## One interval -/

section

variable {f : ℝ → ℝ} {t p q s : ℝ}

/-- Away from zero the phase only grows, on either side. -/
theorem phase_mem_Icc_of_mem_uIcc (hp : 0 ≤ p) (hpq : p ≤ q) (hs : s ∈ uIcc (t * p) (t * q)) :
    phase s ∈ Icc (phase (t * p)) (phase (t * q)) := by
  rw [← image_const_mul_uIcc, uIcc_of_le hpq] at hs
  obtain ⟨r, ⟨hpr, hrq⟩, rfl⟩ := hs
  have hr : 0 ≤ r := hp.trans hpr
  have hpi := Real.pi_pos
  simp only [phase_eq, mul_pow]
  constructor
  · gcongr
  · gcongr

theorem continuous_comp_phase (hf : LipschitzWith 1 f) : Continuous fun s => f (phase s) := by
  have hphase : Continuous (phase : ℝ → ℝ) := by
    rw [funext phase_eq]
    fun_prop
  exact hf.continuous.comp hphase

/-- The value at the far end of an interval, times its width, against the integral. -/
theorem abs_width_mul_sub_integral_le (hf : LipschitzWith 1 f) (hp : 0 ≤ p) (hpq : p ≤ q) :
    |(t * q - t * p) * f (phase (t * q)) - ∫ s in t * p..t * q, f (phase s)| ≤
      (phase (t * q) - phase (t * p)) * |t * q - t * p| := by
  have hpoint : ∀ s ∈ uIoc (t * p) (t * q),
      ‖f (phase (t * q)) - f (phase s)‖ ≤ phase (t * q) - phase (t * p) := by
    intro s hs
    obtain ⟨hlow, hhigh⟩ := phase_mem_Icc_of_mem_uIcc hp hpq (uIoc_subset_uIcc hs)
    have hle := hf.dist_le_mul (phase (t * q)) (phase s)
    rw [NNReal.coe_one, one_mul, dist_eq_norm, Real.dist_eq, abs_of_nonneg (by linarith)] at hle
    linarith
  have hdifference : (t * q - t * p) * f (phase (t * q)) - ∫ s in t * p..t * q, f (phase s) =
      ∫ s in t * p..t * q, (f (phase (t * q)) - f (phase s)) := by
    rw [intervalIntegral.integral_sub intervalIntegrable_const
      ((continuous_comp_phase hf).intervalIntegrable _ _), intervalIntegral.integral_const,
      smul_eq_mul]
  rw [hdifference]
  exact intervalIntegral.norm_integral_le_of_norm_le_const hpoint

end

/-! ## All intervals -/

section

variable {f : ℝ → ℝ} {m : ℕ}

/-- The first value stands alone, each of the others for the interval before it. -/
theorem spread_eq_add_sum (g : ℝ → ℝ) (t : ℝ) (m : ℕ) : spread g (m + 1) t / m =
    t / m * g 0 + ∑ i ∈ Finset.range m, t / m * g (t * ((i + 1 : ℕ) / m)) := by
  rw [spread, Nat.add_sub_cancel, Finset.sum_range_succ', Nat.cast_zero, zero_div, mul_zero,
    ← Finset.mul_sum]
  ring

theorem integral_eq_sum {g : ℝ → ℝ} (hg : Continuous g) (t : ℝ) (hm : 0 < m) :
    ∫ s in (0 : ℝ)..t, g s =
      ∑ i ∈ Finset.range m, ∫ s in t * (i / m)..t * ((i + 1 : ℕ) / m), g s := by
  have hm' : (m : ℝ) ≠ 0 := Nat.cast_ne_zero.mpr hm.ne'
  rw [intervalIntegral.sum_integral_adjacent_intervals (a := fun i : ℕ => t * (i / m))
    fun i _ => hg.intervalIntegrable _ _, Nat.cast_zero, zero_div, mul_zero, div_self hm', mul_one]

/-- The growths of the phase add up to the phase of the bound. -/
theorem sum_growth (t : ℝ) (hm : 0 < m) :
    ∑ i ∈ Finset.range m, (phase (t * ((i + 1 : ℕ) / m)) - phase (t * (i / m))) = phase t := by
  have hm' : (m : ℝ) ≠ 0 := Nat.cast_ne_zero.mpr hm.ne'
  have hzero : phase (t * ((0 : ℕ) / m)) = 0 := by
    rw [Nat.cast_zero, zero_div, mul_zero, phase_zero]
  rw [Finset.sum_range_sub fun i : ℕ => phase (t * (i / m)), hzero, div_self hm', mul_one, sub_zero]

theorem abs_cell_sub_integral_le (hf : LipschitzWith 1 f) (t : ℝ) (hm : 0 < m) (i : ℕ) :
    |t / m * f (phase (t * ((i + 1 : ℕ) / m))) -
        ∫ s in t * (i / m)..t * ((i + 1 : ℕ) / m), f (phase s)| ≤
      (phase (t * ((i + 1 : ℕ) / m)) - phase (t * (i / m))) * (|t| / m) := by
  have hm' : (m : ℝ) ≠ 0 := Nat.cast_ne_zero.mpr hm.ne'
  have hwidth : t * ((i + 1 : ℕ) / m) - t * (i / m) = t / m := by
    push_cast
    field_simp
    ring
  have hle : (i / m : ℝ) ≤ (i + 1 : ℕ) / m := by
    gcongr
    exact i.le_succ
  have hcell := abs_width_mul_sub_integral_le (t := t) hf (by positivity) hle
  rwa [hwidth, abs_div, Nat.abs_cast] at hcell

/-- A sum over the positions misses the integral by no more than a width times one and the phase
of the bound. -/
theorem abs_spread_sub_integral_le (hf : LipschitzWith 1 f) (hf₀ : |f 0| ≤ 1) (t : ℝ) {steps : ℕ}
    (h : 2 ≤ steps) :
    |spread (fun s => f (phase s)) steps t / (steps - 1 : ℕ) -
        ∫ s in (0 : ℝ)..t, f (Real.pi * s ^ 2 / 2)| ≤
      |t| / (steps - 1 : ℕ) * (1 + Real.pi * t ^ 2 / 2) := by
  simp only [← phase_eq_div]
  obtain ⟨m, rfl⟩ : ∃ m, steps = m + 1 := ⟨steps - 1, by omega⟩
  have hm : 0 < m := by omega
  have hcells := Finset.sum_le_sum fun i (_ : i ∈ Finset.range m) =>
    abs_cell_sub_integral_le hf t hm i
  rw [← Finset.sum_mul, sum_growth t hm] at hcells
  rw [Nat.add_sub_cancel, spread_eq_add_sum, integral_eq_sum (continuous_comp_phase hf) t hm,
    phase_zero, add_sub_assoc, ← Finset.sum_sub_distrib]
  calc |t / m * f 0 + ∑ i ∈ Finset.range m, _| ≤ |t / m * f 0| + |∑ i ∈ Finset.range m, _| :=
        abs_add_le _ _
    _ ≤ |t| / m * 1 + phase t * (|t| / m) := by
        rw [abs_mul, abs_div, Nat.abs_cast]
        gcongr
        exact (Finset.abs_sum_le_sum_abs _ _).trans hcells
    _ = |t| / m * (1 + phase t) := by ring

end

/-! ## The two sums -/

theorem tendsto_of_abs_sub_le {estimate : ℕ → ℝ} {t a : ℝ} (h : ∀ steps, 2 ≤ steps →
      |estimate steps - a| ≤ |t| / (steps - 1 : ℕ) * (1 + Real.pi * t ^ 2 / 2)) :
    Tendsto estimate atTop (𝓝 a) := by
  have hwidth : Tendsto (fun steps : ℕ => |t| / (steps - 1 : ℕ)) atTop (𝓝 0) :=
    (tendsto_const_div_atTop_nhds_zero_nat |t|).comp (tendsto_sub_atTop_nat 1)
  have hbound := hwidth.mul_const (1 + Real.pi * t ^ 2 / 2)
  rw [zero_mul] at hbound
  refine tendsto_iff_norm_sub_tendsto_zero.mpr (squeeze_zero' ?_ ?_ hbound)
  · exact .of_forall fun _ => norm_nonneg _
  · exact (eventually_ge_atTop 2).mono h

theorem abs_fst_sums_sub_le (t : ℝ) {steps : ℕ} (h : 2 ≤ steps) :
    |(sums t steps).1 - ∫ s in (0 : ℝ)..t, Real.cos (Real.pi * s ^ 2 / 2)| ≤
      |t| / (steps - 1 : ℕ) * (1 + Real.pi * t ^ 2 / 2) := by
  rw [sums_eq t h]
  exact abs_spread_sub_integral_le Real.lipschitzWith_cos (by simp) t h

theorem abs_snd_sums_sub_le (t : ℝ) {steps : ℕ} (h : 2 ≤ steps) :
    |(sums t steps).2 - ∫ s in (0 : ℝ)..t, Real.sin (Real.pi * s ^ 2 / 2)| ≤
      |t| / (steps - 1 : ℕ) * (1 + Real.pi * t ^ 2 / 2) := by
  rw [sums_eq t h]
  exact abs_spread_sub_integral_le Real.lipschitzWith_sin (by simp) t h

/-- With two positions or more both estimates are that close to the Fresnel integrals, and with
ever more positions they converge to them. -/
theorem integrals_near (t : ℝ) :
    (∀ steps, 2 ≤ steps → integrals t steps = .ok (sums t steps) ∧
      |(sums t steps).1 - ∫ s in (0 : ℝ)..t, Real.cos (Real.pi * s ^ 2 / 2)| ≤
        |t| / (steps - 1 : ℕ) * (1 + Real.pi * t ^ 2 / 2) ∧
      |(sums t steps).2 - ∫ s in (0 : ℝ)..t, Real.sin (Real.pi * s ^ 2 / 2)| ≤
        |t| / (steps - 1 : ℕ) * (1 + Real.pi * t ^ 2 / 2)) ∧
    Tendsto (sums t) atTop (𝓝 (∫ s in (0 : ℝ)..t, Real.cos (Real.pi * s ^ 2 / 2),
      ∫ s in (0 : ℝ)..t, Real.sin (Real.pi * s ^ 2 / 2))) := by
  refine ⟨fun steps h => ⟨?_, abs_fst_sums_sub_le t h, abs_snd_sums_sub_le t h⟩, ?_⟩
  · exact if_neg (not_lt.mpr h)
  · exact (tendsto_of_abs_sub_le fun steps h => abs_fst_sums_sub_le t h).prodMk_nhds
      (tendsto_of_abs_sub_le fun steps h => abs_snd_sums_sub_le t h)

theorem integrals_near_example : integrals (-2 : ℝ) 3 = .ok (sums (-2) 3) ∧
    |(sums (-2 : ℝ) 3).1 - ∫ s in (0 : ℝ)..-2, Real.cos (Real.pi * s ^ 2 / 2)| ≤
      1 + 2 * Real.pi ∧
    |(sums (-2 : ℝ) 3).2 - ∫ s in (0 : ℝ)..-2, Real.sin (Real.pi * s ^ 2 / 2)| ≤
      1 + 2 * Real.pi := by
  have hbound : |(-2 : ℝ)| / (3 - 1 : ℕ) * (1 + Real.pi * (-2) ^ 2 / 2) = 1 + 2 * Real.pi := by
    norm_num
    ring
  have h := (integrals_near (-2)).1 3 (by decide)
  rwa [hbound] at h

end PathCurves.Fresnel
