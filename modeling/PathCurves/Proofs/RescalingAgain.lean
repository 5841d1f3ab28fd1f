/-
Rescaling over exact numbers, twice.

A rescaled list extends from the lower target to the upper one (`extent_of_rescale`), and what is
interpolated between two numbers and then from these to two others is interpolated once
(`interpolate_interpolate`). So a first rescaling leaves no trace but its direction. Main statement:
`rescale_of_rescale`.
-/
import Mathlib
import PathCurves.Proofs.ExactRescaling

namespace PathCurves

variable {K : Type} [Field K] [LinearOrder K] [IsStrictOrderedRing K] [Exact K]
variable {axis : Axis} {a b c d low high : K} {values out : List K}

/-- A rescaled list extends from the lower target to the upper one. -/
theorem extent_of_rescale (h : rescale axis a b values = .ok out) (hne : values ≠ []) :
    extent out = some (min a b, max a b) := by
  obtain ⟨hbetween, ha, hb⟩ := spans_of_rescale h hne
  have hmin : min a b ∈ out := by rcases min_choice a b with heq | heq <;> rwa [heq]
  have hmax : max a b ∈ out := by rcases max_choice a b with heq | heq <;> rwa [heq]
  exact extent_eq_some_iff.mpr
    ⟨⟨hmin, fun v hv => (hbetween v hv).1⟩, hmax, fun v hv => (hbetween v hv).2⟩

theorem interpolate_interpolate (c d : K) (hne : a ≠ b) (low span v : K) :
    interpolate c d a (b - a) (interpolate a b low span v) = interpolate c d low span v := by
  have hspan : b - a ≠ 0 := sub_ne_zero.mpr hne.symm
  rw [interpolate_eq, interpolate_eq, interpolate_eq, add_sub_cancel_left,
    mul_div_cancel_left₀ _ hspan]

theorem interpolate_swap (c d : K) (hne : a ≠ b) (v : K) :
    interpolate c d b (a - b) v = interpolate d c a (b - a) v := by
  have hspan : b - a ≠ 0 := sub_ne_zero.mpr hne.symm
  rw [interpolate_eq, interpolate_eq, ← neg_sub b a]
  field_simp
  ring

/-- Upwards the values keep their order. -/
theorem rescale_of_upward (h : rescale axis a b values = .ok out) (hne : values ≠ []) (hab : a < b)
    (hcd : c ≠ d) :
    ∃ twice, ∀ other, rescale other c d out = .ok twice ∧ rescale other c d values = .ok twice := by
  have hout := extent_of_rescale h hne
  rw [min_eq_left hab.le, max_eq_right hab.le] at hout
  obtain ⟨-, low, high, hextent, hlt, rfl⟩ := rescale_eq_ok h hne
  refine ⟨_, fun other => ⟨rescale_of_lt hcd hout hab, ?_⟩⟩
  rw [rescale_of_lt hcd hextent hlt, List.map_map]
  exact congrArg _ (List.map_congr_left fun v _ =>
    (interpolate_interpolate c d hab.ne low _ v).symm)

/-- Downwards their order is reversed. -/
theorem rescale_of_downward (h : rescale axis a b values = .ok out) (hne : values ≠ [])
    (hba : b < a) (hcd : c ≠ d) :
    ∃ twice, ∀ other, rescale other c d out = .ok twice ∧ rescale other d c values = .ok twice := by
  have hout := extent_of_rescale h hne
  rw [min_eq_right hba.le, max_eq_left hba.le] at hout
  obtain ⟨hab, low, high, hextent, hlt, rfl⟩ := rescale_eq_ok h hne
  refine ⟨_, fun other => ⟨rescale_of_lt hcd hout hba, ?_⟩⟩
  rw [rescale_of_lt hcd.symm hextent hlt, List.map_map]
  refine congrArg _ (List.map_congr_left fun v _ => ?_)
  rw [Function.comp_apply, interpolate_swap c d hab, interpolate_interpolate d c hab]

/-- Rescaling a rescaled list is rescaling the list itself, with the targets exchanged if the first
targets went downwards, and never fails between two different targets. Between the same targets as
before, if they go upwards, it changes nothing. -/
theorem rescale_of_rescale (h : rescale axis a b values = .ok out) (hne : values ≠ [])
    (hcd : c ≠ d) :
    ∃ twice, ∀ other, rescale other c d out = .ok twice ∧
      (a < b → rescale other c d values = .ok twice ∧ rescale other a b out = .ok out) ∧
      (b < a → rescale other d c values = .ok twice) := by
  rcases lt_trichotomy a b with hab | hab | hba
  · obtain ⟨twice, htwice⟩ := rescale_of_upward h hne hab hcd
    obtain ⟨same, hsame⟩ := rescale_of_upward h hne hab hab.ne
    obtain rfl : out = same := Except.ok.inj (h.symm.trans (hsame axis).2)
    exact ⟨twice, fun other => ⟨(htwice other).1, fun _ => ⟨(htwice other).2, (hsame other).1⟩,
      fun hba => absurd hba hab.asymm⟩⟩
  · exact absurd hab (rescale_eq_ok h hne).1
  · obtain ⟨twice, htwice⟩ := rescale_of_downward h hne hba hcd
    exact ⟨twice, fun other => ⟨(htwice other).1, fun hab => absurd hab hba.asymm,
      fun _ => (htwice other).2⟩⟩

/-- Downwards and then upwards, where the least value occurs twice; and upwards twice. -/
theorem rescale_of_rescale_example : ∃ out twice : List ℝ,
    rescale .y 3 2 [1, 3, 2, 1] = .ok out ∧ rescale .x 0 10 out = .ok twice ∧
      rescale .x 10 0 [1, 3, 2, 1] = .ok twice ∧ rescale .x 0 10 twice = .ok twice := by
  have hne : ([1, 3, 2, 1] : List ℝ) ≠ [] := List.cons_ne_nil _ _
  have hdescent : ∃ out, rescale .y (3 : ℝ) 2 [1, 3, 2, 1] = .ok out :=
    exists_rescale (u := 1) (v := 3) (by norm_num) (by simp) (by simp) (by norm_num)
  obtain ⟨out, hout⟩ := hdescent
  obtain ⟨twice, htwice⟩ := rescale_of_rescale hout hne (c := 0) (d := 10) (by norm_num)
  obtain ⟨hagain, -, hdown⟩ := htwice .x
  have hne' : out ≠ [] := by
    rw [← List.length_pos_iff, length_of_rescale hout]
    exact Nat.zero_lt_succ 3
  obtain ⟨thrice, hthrice⟩ := rescale_of_rescale hagain hne' (c := 0) (d := 10) (by norm_num)
  exact ⟨out, twice, hout, hagain, hdown (by norm_num),
    ((hthrice .x).2.1 (by norm_num)).2⟩

end PathCurves
