/-
How the Fresnel sums over the real numbers grow with their bound, which lies between zero and one.

The sine sum grows all the way (`strictMonoOn_snd_sums`). The cosine sum counts both of its ends, so
it is more than the integral, and it can become less again where its bound comes close to one. But
like every sum of this form over a function that falls ever faster it is a concave function of its
bound (`Falls.concaveOn_spread`): as long as it grows on the way from one bound to the next, it has grown
all the way up to the first of them (`fst_sums_le`). It does not become less on the last one of as
many equal parts of a bound as it has positions (`fst_sums_shrunk_le`).
-/
import Mathlib
import PathCurves.Proofs.Fresnel

open Set

namespace PathCurves.Fresnel

/-! ## Sums over the positions up to a bound -/

/-- The sum of `f` over the positions up to a bound, times the bound. -/
noncomputable def spread (f : ℝ → ℝ) (steps : ℕ) (t : ℝ) : ℝ :=
  t * ∑ i ∈ Finset.range steps, f (t * (i / (steps - 1 : ℕ)))

theorem part_mem_Icc {i parts : ℕ} (h : i ≤ parts) : (i / parts : ℝ) ∈ Icc (0 : ℝ) 1 :=
  unitInterval.div_mem (Nat.cast_nonneg i) (Nat.cast_nonneg parts) (Nat.cast_le.mpr h)

theorem total_mul_eq (f : ℝ → ℝ) (t : ℝ) {steps : ℕ} (h : 2 ≤ steps) :
    total f ((spaced 0.0 t steps).map phase) * (t / (steps - 1 : ℕ)) =
      spread (fun s => f (phase s)) steps t / (steps - 1 : ℕ) := by
  have hsum : total f ((spaced 0.0 t steps).map phase) =
      ∑ i ∈ Finset.range steps, f (phase (t * (i / (steps - 1 : ℕ)))) := by
    rw [total_eq_sum, spaced_eq _ _ h, Scalar.zero_eq, List.map_map, List.map_map]
    simp only [sub_zero, zero_add]
    rfl
  rw [hsum, spread]
  ring

theorem sums_eq (t : ℝ) {steps : ℕ} (h : 2 ≤ steps) : sums t steps =
    (spread (fun s => Real.cos (phase s)) steps t / (steps - 1 : ℕ),
      spread (fun s => Real.sin (phase s)) steps t / (steps - 1 : ℕ)) :=
  Prod.ext (total_mul_eq Real.cos t h) (total_mul_eq Real.sin t h)

/-- The sum of a function that grows from zero or more grows with the bound. -/
theorem strictMonoOn_spread {f : ℝ → ℝ} (hmono : StrictMonoOn f (Icc 0 1)) (hnonneg : 0 ≤ f 0)
    {steps : ℕ} (hsteps : 2 ≤ steps) : StrictMonoOn (spread f steps) (Icc 0 1) := by
  intro s hs t ht hst
  have hpart : ∀ i ∈ Finset.range steps, (i / (steps - 1 : ℕ) : ℝ) ∈ Icc (0 : ℝ) 1 :=
    fun i hi => part_mem_Icc (Nat.le_sub_one_of_lt (Finset.mem_range.mp hi))
  have hmem : ∀ v ∈ Icc (0 : ℝ) 1, ∀ i ∈ Finset.range steps,
      v * (i / (steps - 1 : ℕ)) ∈ Icc (0 : ℝ) 1 :=
    fun v hv i hi => unitInterval.mul_mem hv (hpart i hi)
  have hterm : ∀ i ∈ Finset.range steps,
      f (s * (i / (steps - 1 : ℕ))) ≤ f (t * (i / (steps - 1 : ℕ))) := fun i hi =>
    hmono.monotoneOn (hmem s hs i hi) (hmem t ht i hi)
      (mul_le_mul_of_nonneg_right hst.le (hpart i hi).1)
  have hzero : (0 : ℝ) ∈ Icc (0 : ℝ) 1 := left_mem_Icc.mpr zero_le_one
  -- At the bound itself the function has already grown.
  have hlast : 0 < f (t * ((steps - 1 : ℕ) / (steps - 1 : ℕ))) := by
    rw [div_self (Nat.cast_ne_zero.mpr (by omega)), mul_one]
    exact hnonneg.trans_lt (hmono hzero ht (hs.1.trans_lt hst))
  have hsum : 0 < ∑ i ∈ Finset.range steps, f (t * (i / (steps - 1 : ℕ))) := by
    refine Finset.sum_pos' (fun i hi => ?_) ⟨steps - 1, Finset.mem_range.mpr (by omega), hlast⟩
    exact hnonneg.trans (hmono.monotoneOn hzero (hmem t ht i hi) (hmem t ht i hi).1)
  calc spread f steps s
      ≤ s * ∑ i ∈ Finset.range steps, f (t * (i / (steps - 1 : ℕ))) :=
        mul_le_mul_of_nonneg_left (Finset.sum_le_sum hterm) hs.1
    _ < spread f steps t := mul_lt_mul_of_pos_right hst hsum

/-! ## Decreasing concave functions -/

/-- Each entry takes part in two mixtures: with its own weight and with the rest of the weight of
the one before it. -/
theorem sum_mixtures (a : ℕ → ℝ) {m : ℕ} (hm : 0 < m) :
    ∑ i ∈ Finset.range (m + 1), ((1 - i / m) * a i + i / m * a (i + 1)) =
      (1 - 1 / m) * ∑ i ∈ Finset.range (m + 1), a i + a 0 / m + a (m + 1) := by
  have hm' : (m : ℝ) ≠ 0 := Nat.cast_ne_zero.mpr hm.ne'
  -- An even share of each entry, and a difference of neighbours: the differences telescope.
  have hterm : ∀ i : ℕ, (1 - i / m) * a i + i / m * a (i + 1) =
      (1 - 1 / m) * a i + ((((i + 1 : ℕ) : ℝ) - 1) / m * a (i + 1) - ((i : ℝ) - 1) / m * a i) := by
    intro i
    push_cast
    field_simp
    ring
  rw [Finset.sum_congr rfl fun i _ => hterm i, Finset.sum_add_distrib, ← Finset.mul_sum,
    Finset.sum_range_sub fun i : ℕ => ((i : ℝ) - 1) / m * a i]
  push_cast
  field_simp
  ring

/-- The functions that are concave and never increase between zero and one, and are not negative
there. -/
structure Falls (f : ℝ → ℝ) : Prop where
  concave : ConcaveOn ℝ (Icc 0 1) f
  anti : AntitoneOn f (Icc 0 1)
  nonneg : 0 ≤ f 1

namespace Falls

variable {f : ℝ → ℝ} {t : ℝ}

theorem nonneg_of_mem (h : Falls f) {s : ℝ} (hs : s ∈ Icc (0 : ℝ) 1) : 0 ≤ f s :=
  h.nonneg.trans (h.anti hs (right_mem_Icc.mpr zero_le_one) hs.2)

/-- Such a function stays one when its argument is shrunk. -/
theorem shrunk (h : Falls f) (ht : t ∈ Icc (0 : ℝ) 1) : Falls fun s => f (t * s) := by
  have hmaps : ∀ s ∈ Icc (0 : ℝ) 1, t * s ∈ Icc (0 : ℝ) 1 := fun s hs => unitInterval.mul_mem ht hs
  refine ⟨?_, ?_, ?_⟩
  · refine (h.concave.comp_linearMap (LinearMap.mulLeft ℝ t)).subset hmaps (convex_Icc 0 1)
  · intro a ha b hb hab
    exact h.anti (hmaps a ha) (hmaps b hb) (mul_le_mul_of_nonneg_left hab ht.1)
  · exact h.nonneg_of_mem (hmaps 1 (right_mem_Icc.mpr zero_le_one))

/-- Times its argument it is still concave. -/
theorem concaveOn_mul (h : Falls f) : ConcaveOn ℝ (Icc 0 1) fun t => t * f t :=
  (concaveOn_id (convex_Icc 0 1)).mul h.concave (fun _ ht => ht.1) (fun _ ht => h.nonneg_of_mem ht)
    (monotoneOn_id.antivaryOn h.anti)

/-- So is its sum over the positions, as a function of the bound. -/
theorem concaveOn_spread (h : Falls f) (steps : ℕ) : ConcaveOn ℝ (Icc 0 1) (spread f steps) := by
  have hspread : spread f steps =
      ∑ i ∈ Finset.range steps, fun t => t * f (t * (i / (steps - 1 : ℕ))) := by
    funext t
    rw [spread, Finset.mul_sum, Finset.sum_apply]
  rw [hspread]
  refine Finset.sum_induction _ (ConcaveOn ℝ (Icc 0 1)) (fun _ _ => ConcaveOn.add)
    (concaveOn_const 0 (convex_Icc 0 1)) fun i hi => ?_
  have hi' : i ≤ steps - 1 := Nat.le_sub_one_of_lt (Finset.mem_range.mp hi)
  have hterm := (h.shrunk (part_mem_Icc hi')).concaveOn_mul
  simpa only [mul_comm _ (_ / _)] using hterm

/-- The values at the ends of `m` parts, against those at the first `m + 1` ends of `m + 1` parts.
Each end of the one kind lies between two of the other kind, so the value there is no less than
a mixture of theirs. -/
theorem sum_parts_le (h : Falls f) {m : ℕ} (hm : 0 < m) :
    m / (m + 1 : ℕ) * ∑ i ∈ Finset.range (m + 1), f (i / (m + 1 : ℕ)) ≤
      ∑ i ∈ Finset.range (m + 1), f (i / m) := by
  have hm' : (0 : ℝ) < m := Nat.cast_pos.mpr hm
  have hmixture : ∀ i ∈ Finset.range (m + 1),
      (1 - i / m) * f (i / (m + 1 : ℕ)) + i / m * f ((i + 1 : ℕ) / (m + 1 : ℕ)) ≤ f (i / m) := by
    intro i hi
    have hle : i ≤ m := Nat.lt_succ_iff.mp (Finset.mem_range.mp hi)
    have hweight := part_mem_Icc hle
    have hpoint : (1 - i / m) * (i / (m + 1 : ℕ)) + i / m * ((i + 1 : ℕ) / (m + 1 : ℕ)) =
        (i / m : ℝ) := by
      push_cast
      field_simp
      ring
    have hconcave := h.concave.2 (part_mem_Icc (hle.trans m.le_succ))
      (part_mem_Icc (Nat.succ_le_succ hle)) (sub_nonneg.mpr hweight.2) hweight.1
      (sub_add_cancel 1 _)
    simpa only [smul_eq_mul, hpoint] using hconcave
  have hsum := (sum_mixtures (fun i => f (i / (m + 1 : ℕ))) hm).symm.trans_le
    (Finset.sum_le_sum hmixture)
  rw [Nat.cast_zero, zero_div, div_self (by positivity)] at hsum
  have hterm : ∀ i ∈ Finset.range (m + 1), f (i / (m + 1 : ℕ)) ≤ f 0 := by
    intro i hi
    have hpart := part_mem_Icc (Finset.mem_range.mp hi).le
    exact h.anti (left_mem_Icc.mpr zero_le_one) hpart hpart.1
  have hfirst := Finset.sum_le_card_nsmul _ _ _ hterm
  rw [Finset.card_range, nsmul_eq_mul] at hfirst
  generalize ∑ i ∈ Finset.range (m + 1), f (i / (m + 1 : ℕ)) = S at hsum hfirst ⊢
  -- The mixtures lack a part of the sum, but they count its greatest term once more.
  have hrest : S / ((m + 1 : ℕ) * m) ≤ f 0 / m := by
    rw [← div_div]
    gcongr
    exact (div_le_iff₀' (by positivity)).mpr hfirst
  calc m / (m + 1 : ℕ) * S = (1 - 1 / m) * S + S / ((m + 1 : ℕ) * m) := by
        push_cast
        field_simp
        ring
    _ ≤ (1 - 1 / m) * S + f 0 / m + f 1 := by linarith [h.nonneg]
    _ ≤ _ := hsum

/-- On the last one of as many equal parts of a bound as there are positions, the sum does not
become less. -/
theorem spread_shrunk_le (h : Falls f) (ht : t ∈ Icc (0 : ℝ) 1)
    {steps : ℕ} (hsteps : 2 ≤ steps) :
    spread f steps (t * ((steps - 1 : ℕ) / steps)) ≤ spread f steps t := by
  obtain ⟨m, rfl⟩ : ∃ m, steps = m + 1 := ⟨steps - 1, by omega⟩
  have hm : 0 < m := by omega
  have hm' : (m : ℝ) ≠ 0 := Nat.cast_ne_zero.mpr hm.ne'
  have hposition : ∀ i : ℕ, t * (m / (m + 1 : ℕ)) * (i / m) = t * (i / (m + 1 : ℕ)) := by
    intro i
    field_simp
  unfold spread
  rw [Nat.add_sub_cancel]
  simp only [hposition]
  rw [mul_assoc]
  exact mul_le_mul_of_nonneg_left ((h.shrunk ht).sum_parts_le hm) ht.1

end Falls

/-! ## The two sums -/

theorem phase_le_phase {s t : ℝ} (hs : 0 ≤ s) (hst : s ≤ t) : phase s ≤ phase t := by
  rw [phase_eq, phase_eq]
  gcongr

theorem convexOn_phase : ConvexOn ℝ (Icc 0 1) (phase : ℝ → ℝ) := by
  have hsquare : ConvexOn ℝ (Ici 0) fun x : ℝ => x ^ 2 := convexOn_pow 2
  have hpi : 0 ≤ Real.pi / 2 := by positivity
  rw [funext phase_eq]
  exact (hsquare.smul hpi).subset Icc_subset_Ici_self (convex_Icc 0 1)

theorem falls_cos_phase : Falls fun s => Real.cos (phase s) := by
  have hquarter : Icc 0 (Real.pi / 2) ⊆ Icc (-(Real.pi / 2)) (Real.pi / 2) :=
    Icc_subset_Icc_left (by linarith [Real.pi_pos])
  have hhalf : Icc 0 (Real.pi / 2) ⊆ Icc 0 Real.pi :=
    Icc_subset_Icc_right (by linarith [Real.pi_pos])
  refine ⟨⟨convex_Icc 0 1, ?_⟩, ?_, cos_phase_nonneg (right_mem_Icc.mpr zero_le_one)⟩
  · intro x hx y hy a b ha hb hab
    have hmem := convex_Icc (0 : ℝ) 1 hx hy ha hb hab
    have hmixed := convex_Icc 0 (Real.pi / 2) (phase_mem_Icc hx) (phase_mem_Icc hy) ha hb hab
    calc a • Real.cos (phase x) + b • Real.cos (phase y)
        ≤ Real.cos (a • phase x + b • phase y) :=
          strictConcaveOn_cos_Icc.concaveOn.2 (hquarter (phase_mem_Icc hx))
            (hquarter (phase_mem_Icc hy)) ha hb hab
      _ ≤ Real.cos (phase (a • x + b • y)) :=
          Real.antitoneOn_cos (hhalf (phase_mem_Icc hmem)) (hhalf hmixed)
            (convexOn_phase.2 hx hy ha hb hab)
  · intro x hx y hy hxy
    exact Real.antitoneOn_cos (hhalf (phase_mem_Icc hx)) (hhalf (phase_mem_Icc hy))
      (phase_le_phase hx.1 hxy)

theorem strictMonoOn_sin_phase : StrictMonoOn (fun s => Real.sin (phase s)) (Icc (0 : ℝ) 1) := by
  intro x hx y hy hxy
  have hlow : ∀ s ∈ Icc (0 : ℝ) 1, phase s ∈ Icc (-(Real.pi / 2)) (Real.pi / 2) := fun s hs =>
    ⟨by linarith [(phase_mem_Icc hs).1, Real.pi_pos], (phase_mem_Icc hs).2⟩
  have hphase : phase x < phase y := by
    have hx' := hx.1
    rw [phase_eq, phase_eq]
    gcongr
  exact Real.strictMonoOn_sin (hlow x hx) (hlow y hy) hphase

section

variable {steps : ℕ} {s t u : ℝ}

theorem fst_sums_le_fst_sums_iff (hsteps : 2 ≤ steps) : (sums s steps).1 ≤ (sums t steps).1 ↔
    spread (fun s => Real.cos (phase s)) steps s ≤ spread (fun s => Real.cos (phase s)) steps t := by
  have hparts : (0 : ℝ) < (steps - 1 : ℕ) := Nat.cast_pos.mpr (by omega)
  rw [sums_eq s hsteps, sums_eq t hsteps]
  exact div_le_div_iff_of_pos_right hparts

/-- As long as the cosine sum grows from a bound to a greater one, it has grown all the way up to
the first of the two. -/
theorem fst_sums_le (hsteps : 2 ≤ steps) (hs : 0 ≤ s) (hst : s ≤ t) (htu : t < u) (hu : u ≤ 1)
    (h : (sums t steps).1 ≤ (sums u steps).1) : (sums s steps).1 ≤ (sums t steps).1 := by
  rw [fst_sums_le_fst_sums_iff hsteps] at h ⊢
  have hle : s ≤ u := hst.trans htu.le
  exact (falls_cos_phase.concaveOn_spread steps).left_le_of_le_right'' ⟨hs, hle.trans hu⟩
    ⟨hs.trans hle, hu⟩ hst htu h

theorem fst_sums_shrunk_le (hsteps : 2 ≤ steps) (ht : t ∈ Icc (0 : ℝ) 1) :
    (sums (t * ((steps - 1 : ℕ) / steps)) steps).1 ≤ (sums t steps).1 := by
  rw [fst_sums_le_fst_sums_iff hsteps]
  exact falls_cos_phase.spread_shrunk_le ht hsteps

theorem strictMonoOn_snd_sums (hsteps : 2 ≤ steps) :
    StrictMonoOn (fun t : ℝ => (sums t steps).2) (Icc 0 1) := by
  have hparts : (0 : ℝ) < (steps - 1 : ℕ) := Nat.cast_pos.mpr (by omega)
  have hspread := strictMonoOn_spread strictMonoOn_sin_phase
    (sin_phase_nonneg (left_mem_Icc.mpr zero_le_one)) hsteps
  intro s hs t ht hst
  simp only [sums_eq s hsteps, sums_eq t hsteps]
  exact div_lt_div_of_pos_right (hspread hs ht hst) hparts

end

end PathCurves.Fresnel
