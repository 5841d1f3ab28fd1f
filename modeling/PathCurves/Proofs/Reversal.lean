/-
Spirals of opposite rates, over exact numbers.

The phase of a position is that of the opposite position, whatever the cosine and the sine are, so
the Fresnel sums are odd functions of their bound (`odd_sums`). The raw spiral of the opposite rate
is therefore turned half around the origin, and a trace of it runs between the anchors the other
way round. Main statement: `trace_neg_rate`.
-/
import Mathlib
import PathCurves.Proofs.ExactRescaling
import PathCurves.Proofs.Spiral

namespace PathCurves

variable {K : Type} [Field K] [LinearOrder K] [IsStrictOrderedRing K] [Exact K]

theorem spaced_neg (start stop : K) (count : ℕ) :
    spaced (-start) (-stop) count = (spaced start stop count).map Neg.neg := by
  simpa using spaced_affine (-1) 0 start stop count

namespace Fresnel

omit [IsStrictOrderedRing K] in
theorem even_phase : (phase : K → K).Even := by
  intro s
  unfold phase
  ring

variable [Trig K]

theorem odd_sums (steps : ℕ) : (fun t : K => sums t steps).Odd := by
  intro t
  have hzero : (0.0 : K) = -0.0 := by norm_num
  have hphases : (spaced 0.0 (-t) steps).map phase = (spaced 0.0 t steps).map phase := by
    rw [hzero, spaced_neg, ← hzero, List.map_map]
    exact List.map_congr_left fun s _ => even_phase s
  simp only [sums, hphases, neg_div, mul_neg, Prod.neg_mk]

end Fresnel

namespace Spiral

variable [Trig K]

/-- The raw spiral of the opposite rate is turned half around the origin. -/
theorem raw_neg_rate (a b a' b' : Point K) (samples : ℕ) (rate : K) (steps : ℕ) :
    (raw ⟨a, b, samples, -rate, steps⟩).map Point.x =
        ((raw ⟨a', b', samples, rate, steps⟩).map Point.x).map Neg.neg ∧
      (raw ⟨a, b, samples, -rate, steps⟩).map Point.y =
        ((raw ⟨a', b', samples, rate, steps⟩).map Point.y).map Neg.neg := by
  have hsums (t : K) : Fresnel.sums (-t) steps = -Fresnel.sums t steps :=
    Fresnel.odd_sums steps t
  simp [raw, hsums, Function.comp_def]

/-- The spiral of the opposite rate is the one between the exchanged anchors: the same samples in
the same order, or the same fault. -/
theorem trace_neg_rate (a b : Point K) (samples : ℕ) (rate : K) (steps : ℕ) :
    trace ⟨a, b, samples, -rate, steps⟩ = trace ⟨b, a, samples, rate, steps⟩ := by
  obtain ⟨hx, hy⟩ := raw_neg_rate a b b a samples rate steps
  simp only [trace, hx, hy, rescale_neg, beq_eq_decide, eq_comm (a := a.x), eq_comm (a := a.y)]

/-- At the opposite unit rate a spiral down to the right is the one that leads back up. -/
theorem trace_neg_rate_example : ∃ segment,
    (trace ⟨⟨2, 3⟩, ⟨5, 2⟩, 4, -1, 2⟩ : Except Fault (Segment ℝ)) = .ok segment ∧
      trace ⟨⟨5, 2⟩, ⟨2, 3⟩, 4, 1, 2⟩ = .ok segment := by
  have hgentle : Gentle ⟨⟨5, 2⟩, ⟨2, 3⟩, 4, 1, 2⟩ := ⟨one_pos, le_rfl⟩
  obtain ⟨-, -, segment, -, -, -, htrace⟩ :=
    exists_trace hgentle (by decide) (by norm_num) (by norm_num) le_rfl
  exact ⟨segment, (trace_neg_rate _ _ _ _ _).trans htrace, htrace⟩

end Spiral

end PathCurves
