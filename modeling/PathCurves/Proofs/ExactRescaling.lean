/-
Rescaling over exact numbers.

The values of a list land between the two targets and reach both of them (`spans_of_rescale`),
whichever target is the greater one. This takes two different targets and two different values, and
nothing else (`exists_rescale_iff`). Values that change their sign land where they would have landed
with the targets exchanged (`rescale_neg`).
-/
import Mathlib
import PathCurves.Proofs.Extent

namespace PathCurves

variable {K : Type} [Field K] [LinearOrder K] [Exact K]

/-- The values lie between two numbers, in either order, and reach both of them. -/
structure Spans (values : List K) (a b : K) : Prop where
  between : ∀ v ∈ values, v ∈ Set.uIcc a b
  left_mem : a ∈ values
  right_mem : b ∈ values

/-- The values are not all the same. -/
def Varied (values : List K) : Prop := ∃ u ∈ values, ∃ v ∈ values, u < v

/-! ## The extent -/

section

variable {values : List K} {low high : K}

theorem extent_map_of_antitone {f : K → K} (hf : Antitone f) (h : extent values = some (low, high)) :
    extent (values.map f) = some (f high, f low) := by
  obtain ⟨hlow, hhigh⟩ := extent_eq_some_iff.mp h
  have himage : {w | w ∈ values.map f} = f '' {v | v ∈ values} := by
    ext w
    exact List.mem_map
  have hleast : IsLeast {w | w ∈ values.map f} (f high) := himage ▸ hf.map_isGreatest hhigh
  have hgreatest : IsGreatest {w | w ∈ values.map f} (f low) := himage ▸ hf.map_isLeast hlow
  exact extent_eq_some_iff.mpr ⟨hleast, hgreatest⟩

theorem varied_iff_of_extent (h : extent values = some (low, high)) :
    Varied values ↔ low < high := by
  obtain ⟨⟨hmem, hlow⟩, hmem', hhigh⟩ := extent_eq_some_iff.mp h
  refine ⟨?_, fun hlt => ⟨low, hmem, high, hmem', hlt⟩⟩
  rintro ⟨u, hu, v, hv, hlt⟩
  exact (hlow u hu).trans_lt (hlt.trans_le (hhigh v hv))

end

/-! ## When a list can be rescaled -/

variable {axis : Axis} {a b low high v : K} {values out : List K}

theorem rescale_self (axis : Axis) (a : K) (values : List K) :
    rescale axis a a values = .error (.flatAnchor axis) :=
  if_pos (beq_self_eq_true a)

theorem rescale_nil (hne : a ≠ b) : rescale axis a b [] = .ok [] :=
  if_neg (by simpa using hne)

variable [IsStrictOrderedRing K]

theorem rescale_of_le (axis : Axis) (a b : K) (h : extent values = some (low, high))
    (hle : high ≤ low) : rescale axis a b values = .error (.flatAnchor axis) := by
  have hspan : high - low ≤ 0.0 := by
    norm_num
    exact hle
  rw [rescale, h]
  split
  · rfl
  · exact if_pos (.inl hspan)

theorem rescale_eq_ok (h : rescale axis a b values = .ok out) (hne : values ≠ []) :
    a ≠ b ∧ ∃ low high, extent values = some (low, high) ∧ low < high ∧
      out = values.map (interpolate a b low (high - low)) := by
  obtain ⟨low, high, hextent⟩ := exists_extent hne
  have hab : a ≠ b := by
    rintro rfl
    rw [rescale_self] at h
    cases h
  have hlt : low < high := by
    by_contra hle
    rw [rescale_of_le axis a b hextent (not_lt.mp hle)] at h
    cases h
  rw [rescale_of_lt hab hextent hlt] at h
  cases h
  exact ⟨hab, low, high, hextent, hlt, rfl⟩

theorem exists_rescale_iff (axis : Axis) (a b : K) (hne : values ≠ []) :
    (∃ out, rescale axis a b values = .ok out) ↔ a ≠ b ∧ Varied values := by
  refine ⟨?_, ?_⟩
  · rintro ⟨out, h⟩
    obtain ⟨hab, low, high, hextent, hlt, -⟩ := rescale_eq_ok h hne
    exact ⟨hab, (varied_iff_of_extent hextent).mpr hlt⟩
  · rintro ⟨hab, u, hu, v, hv, hlt⟩
    exact exists_rescale hab hu hv hlt

/-! ## Where the values land -/

theorem interpolate_low (a b low span : K) : interpolate a b low span low = a := by
  rw [interpolate_eq, sub_self, zero_div, mul_zero, add_zero]

theorem interpolate_high (a b : K) (hlt : low < high) :
    interpolate a b low (high - low) high = b := by
  rw [interpolate_eq, div_self (sub_pos.mpr hlt).ne', mul_one, add_sub_cancel]

theorem interpolate_mem_uIcc (a b : K) (hlt : low < high) (hlow : low ≤ v) (hhigh : v ≤ high) :
    interpolate a b low (high - low) v ∈ Set.uIcc a b := by
  have hspan : 0 < high - low := sub_pos.mpr hlt
  have hpart : (v - low) / (high - low) ∈ Set.Icc (0 : K) 1 :=
    ⟨div_nonneg (sub_nonneg.mpr hlow) hspan.le,
      (div_le_one hspan).mpr (sub_le_sub_right hhigh low)⟩
  rw [← segment_eq_uIcc, segment_eq_image']
  exact ⟨_, hpart, by simp only [interpolate_eq, smul_eq_mul, mul_comm]⟩

/-- The opposite value in the opposite span divides it the other way round. -/
theorem interpolate_neg (a b : K) (hlt : low < high) (v : K) :
    interpolate a b (-high) (-low - -high) (-v) = interpolate b a low (high - low) v := by
  have hspan : high - low ≠ 0 := (sub_pos.mpr hlt).ne'
  have hspan' : -low - -high = high - low := by ring
  rw [interpolate_eq, interpolate_eq, hspan']
  field_simp
  ring

theorem spans_of_rescale (h : rescale axis a b values = .ok out) (hne : values ≠ []) :
    Spans out a b := by
  obtain ⟨-, low, high, hextent, hlt, rfl⟩ := rescale_eq_ok h hne
  obtain ⟨⟨hlowmem, hlow⟩, hhighmem, hhigh⟩ := extent_eq_some_iff.mp hextent
  refine ⟨?_, ?_, ?_⟩
  · intro w hw
    obtain ⟨v, hv, rfl⟩ := List.mem_map.mp hw
    exact interpolate_mem_uIcc a b hlt (hlow v hv) (hhigh v hv)
  · exact List.mem_map.mpr ⟨low, hlowmem, interpolate_low a b low _⟩
  · exact List.mem_map.mpr ⟨high, hhighmem, interpolate_high a b hlt⟩

/-- Rescaling the opposite values is rescaling with exchanged targets, also where both fail. -/
theorem rescale_neg (axis : Axis) (a b : K) (values : List K) :
    rescale axis a b (values.map Neg.neg) = rescale axis b a values := by
  by_cases hab : a = b
  · rw [hab, rescale_self, rescale_self]
  by_cases hne : values = []
  · rw [hne, List.map_nil, rescale_nil hab, rescale_nil (Ne.symm hab)]
  -- The least of the opposite values is the opposite of the greatest, so the span is the same.
  obtain ⟨low, high, hextent⟩ := exists_extent hne
  have hanti : Antitone (Neg.neg : K → K) := fun _ _ => neg_le_neg
  have hextent' := extent_map_of_antitone hanti hextent
  rcases lt_or_ge low high with hlt | hle
  · rw [rescale_of_lt hab hextent' (neg_lt_neg hlt), rescale_of_lt (Ne.symm hab) hextent hlt,
      List.map_map]
    exact congrArg _ (List.map_congr_left fun v _ => interpolate_neg a b hlt v)
  · rw [rescale_of_le axis a b hextent' (neg_le_neg hle), rescale_of_le axis b a hextent hle]

end PathCurves
