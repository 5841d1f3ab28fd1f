/-
Evenly spaced numbers and the extent of a list over exact numbers.

`spaced_eq`: over an ordered field the last number is no exception, all of them are the start and
so many parts of the way to the end; `spaced_affine`: in another unit and from another origin they
are as evenly spaced as before. `extent_eq_some_iff`: the extent of a list is its least and its
greatest entry, so rescaling succeeds on every list with two different entries (`exists_rescale`).
Where zero is the least of them only the greatest one counts (`exists_rescale_of_zero_mem`).
-/
import Mathlib
import PathCurves.Extent
import PathCurves.Proofs.Exact
import PathCurves.Segment

namespace PathCurves

variable {K : Type} [Field K] [LinearOrder K] [Exact K]

/-! ## The extent -/

theorem Scalar.lesser_eq (a b : K) : Scalar.lesser a b = min a b := by
  unfold Scalar.lesser
  split
  · next h => exact (min_eq_right h.le).symm
  · next h => simpa using not_lt.mp h

theorem Scalar.greater_eq (a b : K) : Scalar.greater a b = max a b := by
  unfold Scalar.greater
  split
  · next h => exact (max_eq_right h.le).symm
  · next h => simpa using not_lt.mp h

theorem extent_eq (values : List K) :
    extent values = values.min?.bind fun low => values.max?.map fun high => (low, high) := by
  cases values with
  | nil => rfl
  | cons v rest =>
    have hlesser : (Scalar.lesser : K → K → K) = min := funext₂ Scalar.lesser_eq
    have hgreater : (Scalar.greater : K → K → K) = max := funext₂ Scalar.greater_eq
    rw [extent, hlesser, hgreater]
    rfl

theorem extent_eq_some_iff {values : List K} {low high : K} :
    extent values = some (low, high) ↔
      (low ∈ values ∧ ∀ v ∈ values, low ≤ v) ∧ (high ∈ values ∧ ∀ v ∈ values, v ≤ high) := by
  rw [extent_eq, ← List.min?_eq_some_iff, ← List.max?_eq_some_iff]
  cases values.min? with
  | none => simp
  | some least =>
    cases values.max? with
    | none => simp
    | some greatest => simp

variable [IsStrictOrderedRing K]

/-! ## Rescaling -/

section

variable {axis : Axis} {a b : K} {values : List K}

theorem interpolate_eq (a b low span v : K) :
    interpolate a b low span v = a + (b - a) * ((v - low) / span) := by
  rw [interpolate, Scalar.one_eq]
  ring

theorem rescale_of_lt {low high : K} (hne : a ≠ b) (h : extent values = some (low, high))
    (hlt : low < high) :
    rescale axis a b values = .ok (values.map (interpolate a b low (high - low))) := by
  have hab : ¬ (a == b) = true := by simpa using hne
  have hspan : ¬ (high - low ≤ 0.0 ∨ Scalar.isFinite (high - low) = false) := by
    rintro (hle | hfinite)
    · norm_num at hle
      exact absurd hle (not_le.mpr hlt)
    · cases hfinite
  rw [rescale, if_neg hab, h]
  exact if_neg hspan

theorem exists_rescale {u v : K} (hne : a ≠ b) (hu : u ∈ values) (hv : v ∈ values)
    (hlt : u < v) : ∃ out, rescale axis a b values = .ok out := by
  obtain ⟨low, high, h⟩ := exists_extent (List.ne_nil_of_mem hu)
  obtain ⟨⟨_, hlow⟩, _, hhigh⟩ := extent_eq_some_iff.mp h
  exact ⟨_, rescale_of_lt hne h ((hlow u hu).trans_lt (hlt.trans_le (hhigh v hv)))⟩

/-- Values of which zero is the least are shrunk by the greatest of them. -/
theorem exists_rescale_of_zero_mem (axis : Axis) {v : K} (hne : a ≠ b) (hzero : 0 ∈ values)
    (hnonneg : ∀ u ∈ values, 0 ≤ u) (hv : v ∈ values) (hpos : 0 < v) :
    ∃ high, 0 < high ∧ (high ∈ values ∧ ∀ u ∈ values, u ≤ high) ∧
      rescale axis a b values = .ok (values.map fun u => a + (b - a) * (u / high)) := by
  obtain ⟨low, high, h⟩ := exists_extent (List.ne_nil_of_mem hzero)
  obtain ⟨⟨hmem, hlow⟩, hhigh⟩ := extent_eq_some_iff.mp h
  obtain rfl : low = 0 := le_antisymm (hlow 0 hzero) (hnonneg low hmem)
  have hlt : 0 < high := hpos.trans_le (hhigh.2 v hv)
  refine ⟨high, hlt, hhigh, ?_⟩
  rw [rescale_of_lt hne h hlt]
  congr 2
  funext u
  rw [interpolate_eq, sub_zero, sub_zero]

end

/-! ## Even spacing -/

variable {start stop v : K} {count : ℕ}

theorem stride_affine (a b start stop : K) (count : ℕ) :
    stride (a * start + b) (a * stop + b) count = a * stride start stop count := by
  unfold stride
  split
  · ring
  · norm_num

/-- The numbers change their unit and their origin along with their ends. -/
theorem spaced_affine (a b start stop : K) (count : ℕ) :
    spaced (a * start + b) (a * stop + b) count =
      (spaced start stop count).map fun v => a * v + b := by
  simp only [spaced, List.map_map, stride_affine]
  apply List.map_congr_left
  intro i _
  rw [Function.comp_apply]
  split
  · rfl
  · ring

theorem spaced_eq (start stop : K) (h : 2 ≤ count) :
    spaced start stop count = (List.range count).map fun i : ℕ =>
      start + (stop - start) * ((i : K) / ((count - 1 : ℕ) : K)) := by
  have hne : ((count - 1 : ℕ) : K) ≠ 0 := by
    rw [Nat.cast_ne_zero]
    omega
  have hstride : stride start stop count = (stop - start) / ((count - 1 : ℕ) : K) := if_pos h
  apply List.map_congr_left
  intro i _
  rw [hstride]
  split
  · next hlast =>
    rw [hlast.2, div_self hne]
    ring
  · ring

theorem spaced_unit (h : 2 ≤ count) : spaced (0.0 : K) 1.0 count =
    (List.range count).map fun i : ℕ => (i : K) / ((count - 1 : ℕ) : K) := by
  rw [spaced_eq _ _ h, Scalar.zero_eq, Scalar.one_eq]
  simp

omit [IsStrictOrderedRing K] in
/-- The first sample of a curve lies at the first parameter itself. -/
theorem Segment.first_sampled_exact (f : K → Point K) (start stop : K) (h : 2 ≤ count) :
    (sampled f start stop count h).first = f start := by
  rw [first_sampled, Nat.cast_zero, mul_zero, add_zero]

theorem start_mem_spaced (start stop : K) (h : 2 ≤ count) :
    start ∈ spaced start stop count := by
  rw [spaced_eq start stop h, List.mem_map]
  exact ⟨0, List.mem_range.mpr (by omega), by simp⟩

theorem mem_Icc_of_mem_spaced (h : 2 ≤ count) (hle : start ≤ stop)
    (hv : v ∈ spaced start stop count) : v ∈ Set.Icc start stop := by
  rw [spaced_eq start stop h, List.mem_map] at hv
  obtain ⟨i, hi, rfl⟩ := hv
  have hi' : (i : K) ≤ ((count - 1 : ℕ) : K) := by
    exact_mod_cast Nat.le_sub_one_of_lt (List.mem_range.mp hi)
  have hlow : 0 ≤ (i : K) / ((count - 1 : ℕ) : K) := by positivity
  have hhigh : (i : K) / ((count - 1 : ℕ) : K) ≤ 1 :=
    div_le_one_of_le₀ hi' (Nat.cast_nonneg _)
  have hlength : 0 ≤ stop - start := sub_nonneg.mpr hle
  constructor
  · linarith [mul_nonneg hlength hlow]
  · linarith [mul_le_mul_of_nonneg_left hhigh hlength]

end PathCurves
