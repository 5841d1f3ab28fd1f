/-
The Fresnel sums over the real numbers.

Between zero and one the phases lie in the first quarter circle (`phase_mem_Icc`), where no cosine
and no sine is negative. So no term of a sum takes anything away from it, and one term is greater
than zero: the first of the cosines, the last of the sines. `sums_pos` says so, for every number of
positions; at zero the sums are zero (`sums_zero`).
-/
import Mathlib
import PathCurves.Fresnel
import PathCurves.Proofs.Extent

namespace PathCurves.Fresnel

theorem total_eq_sum (f : ℝ → ℝ) (phases : List ℝ) : total f phases = (phases.map f).sum := by
  rw [total, Scalar.zero_eq, List.sum_eq_foldl, List.foldl_map]

theorem phase_eq (s : ℝ) : phase s = Real.pi / 2 * s ^ 2 := by
  have htwo : (2.0 : ℝ) = 2 := by norm_num
  show Real.pi / 2.0 * s * s = _
  rw [htwo]
  ring

theorem phase_zero : phase (0 : ℝ) = 0 := by
  simp [phase_eq]

/-- Up to position one the phases do not leave the first quarter circle. -/
theorem phase_mem_Icc {s : ℝ} (h : s ∈ Set.Icc (0 : ℝ) 1) :
    phase s ∈ Set.Icc (0 : ℝ) (Real.pi / 2) := by
  have hpi := Real.pi_pos
  have hsq : s ^ 2 ≤ 1 := pow_le_one₀ h.1 h.2
  rw [phase_eq]
  constructor
  · positivity
  · nlinarith

theorem cos_phase_nonneg {s : ℝ} (h : s ∈ Set.Icc (0 : ℝ) 1) : 0 ≤ Real.cos (phase s) := by
  obtain ⟨hlow, hhigh⟩ := phase_mem_Icc h
  exact Real.cos_nonneg_of_mem_Icc ⟨by linarith [Real.pi_pos], hhigh⟩

theorem sin_phase_nonneg {s : ℝ} (h : s ∈ Set.Icc (0 : ℝ) 1) : 0 ≤ Real.sin (phase s) := by
  obtain ⟨hlow, hhigh⟩ := phase_mem_Icc h
  exact Real.sin_nonneg_of_mem_Icc ⟨hlow, by linarith [Real.pi_pos]⟩

theorem sin_phase_pos {s : ℝ} (hpos : 0 < s) (hle : s ≤ 1) : 0 < Real.sin (phase s) := by
  obtain ⟨-, hhigh⟩ := phase_mem_Icc ⟨hpos.le, hle⟩
  have hphase : 0 < phase s := by
    rw [phase_eq]
    have hpi := Real.pi_pos
    positivity
  exact Real.sin_pos_of_pos_of_lt_pi hphase (by linarith [Real.pi_pos])

/-- A sum of terms of which none is negative is no less than each of them. -/
theorem le_total_spaced {f : ℝ → ℝ} {t s : ℝ} {steps : ℕ}
    (hnonneg : ∀ s ∈ spaced 0.0 t steps, 0 ≤ f (phase s)) (hs : s ∈ spaced 0.0 t steps) :
    f (phase s) ≤ total f ((spaced 0.0 t steps).map phase) := by
  rw [total_eq_sum, List.map_map]
  refine List.single_le_sum ?_ _ (List.mem_map.mpr ⟨s, hs, rfl⟩)
  intro v hv
  obtain ⟨s', hs', rfl⟩ := List.mem_map.mp hv
  exact hnonneg s' hs'

theorem sums_zero (steps : ℕ) : sums (0 : ℝ) steps = (0, 0) := by
  simp [sums]

theorem sums_pos {t : ℝ} {steps : ℕ} (hpos : 0 < t) (hle : t ≤ 1) (hsteps : 2 ≤ steps) :
    0 < (sums t steps).1 ∧ 0 < (sums t steps).2 := by
  have hmem : ∀ s ∈ spaced 0.0 t steps, s ∈ Set.Icc (0 : ℝ) 1 := by
    intro s hs
    obtain ⟨hlow, hhigh⟩ := mem_Icc_of_mem_spaced hsteps (Scalar.zero_eq.trans_le hpos.le) hs
    rw [Scalar.zero_eq] at hlow
    exact ⟨hlow, hhigh.trans hle⟩
  have hwidth : 0 < t / ((steps - 1 : ℕ) : ℝ) := by
    have hcount : 0 < steps - 1 := by omega
    positivity
  have hcos := le_total_spaced (fun s hs => cos_phase_nonneg (hmem s hs))
    (start_mem_spaced 0.0 t hsteps)
  have hsin := le_total_spaced (fun s hs => sin_phase_nonneg (hmem s hs))
    (stop_mem_spaced 0.0 t hsteps)
  have hone : Real.cos (phase 0.0) = 1 := by
    rw [Scalar.zero_eq, phase_zero, Real.cos_zero]
  rw [hone] at hcos
  exact ⟨mul_pos (one_pos.trans_le hcos) hwidth,
    mul_pos ((sin_phase_pos hpos hle).trans_le hsin) hwidth⟩

end PathCurves.Fresnel
