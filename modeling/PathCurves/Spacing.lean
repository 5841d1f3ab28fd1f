/-
Evenly spaced numbers between two ends. Main statements: `length_spaced`, `spaced_ne_nil` for
a positive count, and `getLast_spaced`, the last number is the end itself; `getElem?_spaced_cases`
says what stands at each place.
-/
import PathCurves.Scalar

namespace PathCurves

variable {α : Type} [Scalar α]

/-- The distance between neighbours among `count` evenly spaced numbers. -/
@[specialize] def stride (start stop : α) (count : Nat) : α :=
  if 1 < count then (stop - start) / ((count - 1 : Nat) : α) else 0.0

/-- `count` evenly spaced numbers from `start` to `stop`. With two or more the last one is
`stop` itself, not a sum of strides. -/
@[specialize] def spaced (start stop : α) (count : Nat) : List α :=
  let step := stride start stop count
  (List.range count).map fun i =>
    if 1 < count ∧ i = count - 1 then stop else start + step * (i : α)

@[simp] theorem length_spaced (start stop : α) (count : Nat) :
    (spaced start stop count).length = count := by
  simp [spaced]

theorem spaced_ne_nil (start stop : α) {count : Nat} (h : 0 < count) :
    spaced start stop count ≠ [] :=
  List.ne_nil_of_length_pos (by simpa using h)

theorem head_spaced (start stop : α) {count : Nat} (h : 2 ≤ count)
    (hne : spaced start stop count ≠ []) :
    (spaced start stop count).head hne = start + stride start stop count * ((0 : Nat) : α) := by
  have hzero : ¬ (1 < count ∧ 0 = count - 1) := by omega
  simp only [spaced, List.head_map, List.head_range, if_neg hzero]

theorem getLast_spaced (start stop : α) {count : Nat} (h : 2 ≤ count)
    (hne : spaced start stop count ≠ []) : (spaced start stop count).getLast hne = stop := by
  simp only [spaced, List.getLast_map, List.getLast_range]
  exact if_pos ⟨h, trivial⟩

theorem stop_mem_spaced (start stop : α) {count : Nat} (h : 2 ≤ count) :
    stop ∈ spaced start stop count := by
  have hne : spaced start stop count ≠ [] := spaced_ne_nil start stop (by omega)
  have hlast := List.getLast_mem hne
  rwa [getLast_spaced start stop h hne] at hlast

/-- What stands at a place: the end itself at the last one, so many strides from the start at the
others. -/
theorem getElem?_spaced_cases {start stop v : α} {count i : Nat} (h : 2 ≤ count)
    (hv : (spaced start stop count)[i]? = some v) :
    i = count - 1 ∧ v = stop ∨
      i < count - 1 ∧ v = start + stride start stop count * (i : α) := by
  obtain ⟨hi, rfl⟩ := List.getElem?_eq_some_iff.mp hv
  rw [length_spaced] at hi
  simp only [spaced, List.getElem_map, List.getElem_range]
  split
  · next hlast => exact .inl ⟨hlast.2, rfl⟩
  · next hlast => exact .inr ⟨by omega, rfl⟩

end PathCurves
