/-
The extent of a list of doubles, whatever else is in the list and in whatever order.

The ends of the extent are the least and the greatest number of the list (`exists_extremes`). Which
these are is a matter of the numbers that the list holds: neither their order counts nor what stands
between them (`LeastNumber.of_sameNumbers`). Two doubles are equal as numbers and yet different only
if they are the two zeros (`Double.eq_of_number?`), so in a list without one of these there is one
least number and one greatest number (`LeastNumber.unique`). Main statement:
`extent_among_undefined`.
-/
import PathCurves.Proofs.Differences
import PathCurves.Proofs.Extremes

namespace PathCurves

open Double

variable {values other noise : List Float} {low high x y : Float}

/-! ## The least and the greatest number -/

/-- There are not both zeros in the list. -/
def SingleZero (values : List Float) : Prop := ¬ (0.0 ∈ values ∧ -0.0 ∈ values)

/-- The two lists hold the same numbers, maybe not as often and in another order. -/
def SameNumbers (values other : List Float) : Prop :=
  ∀ v : Float, v.isNaN = false → (v ∈ values ↔ v ∈ other)

theorem SingleZero.eq_of_beq (h : SingleZero values) (hx : x ∈ values) (hy : y ∈ values)
    (heq : (x == y) = true) : x = y := by
  obtain ⟨v, hxv, hyv⟩ := beq_iff.mp heq
  by_cases hv : v = 0
  · subst hv
    have hzero : |(0 : ℚ)| < 2 ^ 1024 := by
      rw [abs_zero]
      positivity
    obtain rfl | rfl := eq_zero_or_eq_neg_zero ⟨hxv, hzero⟩
    · obtain rfl | rfl := eq_zero_or_eq_neg_zero ⟨hyv, hzero⟩
      · rfl
      · exact absurd ⟨hx, hy⟩ h
    · obtain rfl | rfl := eq_zero_or_eq_neg_zero ⟨hyv, hzero⟩
      · exact absurd ⟨hy, hx⟩ h
      · rfl
  · exact eq_of_number? hxv hyv hv

theorem LeastNumber.unique (h : SingleZero values) (hx : LeastNumber values x)
    (hy : LeastNumber values y) : x = y := by
  obtain ⟨hxmem, hxnan, hxle⟩ := hx
  obtain ⟨hymem, hynan, hyle⟩ := hy
  exact h.eq_of_beq hxmem hymem
    (Double.beq_of_le_of_le (hxle y hymem hynan) (hyle x hxmem hxnan))

theorem GreatestNumber.unique (h : SingleZero values) (hx : GreatestNumber values x)
    (hy : GreatestNumber values y) : x = y := by
  obtain ⟨hxmem, hxnan, hxle⟩ := hx
  obtain ⟨hymem, hynan, hyle⟩ := hy
  exact h.eq_of_beq hxmem hymem
    (Double.beq_of_le_of_le (hyle x hxmem hxnan) (hxle y hymem hynan))

theorem LeastNumber.of_sameNumbers (h : SameNumbers values other) (hx : LeastNumber other x) :
    LeastNumber values x := by
  obtain ⟨hmem, hnan, hle⟩ := hx
  exact ⟨(h x hnan).mpr hmem, hnan, fun v hv hvnan => hle v ((h v hvnan).mp hv) hvnan⟩

theorem GreatestNumber.of_sameNumbers (h : SameNumbers values other)
    (hx : GreatestNumber other x) : GreatestNumber values x := by
  obtain ⟨hmem, hnan, hle⟩ := hx
  exact ⟨(h x hnan).mpr hmem, hnan, fun v hv hvnan => hle v ((h v hvnan).mp hv) hvnan⟩

/-! ## The extent -/

theorem exists_extremes (h : ∃ v ∈ values, v.isNaN = false) :
    ∃ low high, extent values = some (low, high) ∧ LeastNumber values low ∧
      GreatestNumber values high := by
  obtain ⟨x, hx, hnan⟩ := h
  obtain ⟨v, hv⟩ := isNaN_eq_false_iff.mp hnan
  obtain ⟨low, high, hextent⟩ := exists_extent (List.ne_nil_of_mem hx)
  obtain ⟨l, u, hl, hu, -⟩ := bounds_of_extent hextent hx hv
  exact ⟨low, high, hextent, extremes_of_extent hextent (isNaN_eq_false_iff.mpr ⟨l, hl⟩)
    (isNaN_eq_false_iff.mpr ⟨u, hu⟩)⟩

/-- The numbers of a list determine its extent. -/
theorem extent_of_sameNumbers (h : SameNumbers values other) (hzero : SingleZero values)
    (hnumber : ∃ v ∈ values, v.isNaN = false) : extent other = extent values := by
  obtain ⟨low, high, hextent, hleast, hgreatest⟩ := exists_extremes hnumber
  obtain ⟨v, hv, hnan⟩ := hnumber
  obtain ⟨low', high', hextent', hleast', hgreatest'⟩ :=
    exists_extremes ⟨v, (h v hnan).mp hv, hnan⟩
  rw [hextent, hextent', (hleast'.of_sameNumbers h).unique hzero hleast,
    (hgreatest'.of_sameNumbers h).unique hzero hgreatest]

theorem sameNumbers_of_perm (hnoise : ∀ v ∈ noise, v.isNaN = true)
    (h : other.Perm (noise ++ values)) : SameNumbers values other := by
  intro v hv
  have hnot : v ∉ noise := fun hmem => Bool.false_ne_true (hv.symm.trans (hnoise v hmem))
  rw [h.mem_iff, List.mem_append, or_iff_right hnot]

/-- Without a number there is nothing to extend over, and nothing to rescale. -/
theorem rescale_of_undefined (hne : values ≠ []) (h : ∀ v ∈ values, v.isNaN = true) (axis : Axis)
    (a b : Float) : rescale axis a b values = .error (.flatAnchor axis) := by
  cases hrescale : rescale axis a b values with
  | error fault => rw [eq_flatAnchor_of_rescale hrescale]
  | ok out =>
    obtain ⟨low, high, hextent, ⟨l, -, -, hl, -⟩, -⟩ := finite_of_rescale hrescale hne
    have hnone := isNaN_iff.mp (h low (mem_of_extent hextent).1)
    rw [hl.1] at hnone
    cases hnone

/-- What is no number counts for the extent only where there is nothing else. If the list holds a
number, the ends are its least and its greatest number, and they stay the same however the list is
arranged and whatever undefined entries are put into it, unless it holds both zeros. If there is no
number, both ends are undefined and the list cannot be rescaled. -/
theorem extent_among_undefined (values : List Float) :
    ((∃ v ∈ values, v.isNaN = false) →
      ∃ low high, extent values = some (low, high) ∧
        LeastNumber values low ∧ GreatestNumber values high ∧
        (SingleZero values → ∀ noise arranged : List Float, (∀ v ∈ noise, v.isNaN = true) →
          arranged.Perm (noise ++ values) → extent arranged = some (low, high))) ∧
    (values ≠ [] → (∀ v ∈ values, v.isNaN = true) →
      (∃ low high, extent values = some (low, high) ∧ low.isNaN = true ∧ high.isNaN = true) ∧
      ∀ axis a b, rescale axis a b values = .error (.flatAnchor axis)) := by
  refine ⟨fun hnumber => ?_, fun hne hall => ⟨?_, rescale_of_undefined hne hall⟩⟩
  · obtain ⟨low, high, hextent, hleast, hgreatest⟩ := exists_extremes hnumber
    refine ⟨low, high, hextent, hleast, hgreatest, fun hzero noise arranged hnoise hperm => ?_⟩
    rw [extent_of_sameNumbers (sameNumbers_of_perm hnoise hperm) hzero hnumber, hextent]
  · obtain ⟨low, high, hextent⟩ := exists_extent hne
    obtain ⟨hlow, hhigh⟩ := mem_of_extent hextent
    exact ⟨low, high, hextent, hall low hlow, hall high hhigh⟩

/-- A list with a negative zero, the same list turned around behind one more undefined entry, and a
list without numbers. -/
theorem extent_among_undefined_example :
    (∃ low high, extent [1.0, undefined, -0.0] = some (low, high) ∧
      LeastNumber [1.0, undefined, -0.0] low ∧ GreatestNumber [1.0, undefined, -0.0] high ∧
      extent [undefined, -0.0, undefined, 1.0] = some (low, high)) ∧
    (∃ low high, extent [undefined, undefined] = some (low, high) ∧ low.isNaN = true ∧
      high.isNaN = true) ∧
    rescale .y 2.0 5.0 [undefined, undefined] = .error (.flatAnchor .y) := by
  have hnumber : ∃ v ∈ [1.0, undefined, -0.0], v.isNaN = false :=
    ⟨1.0, List.mem_cons_self, by decide +kernel⟩
  obtain ⟨low, high, hextent, hleast, hgreatest, hsame⟩ := (extent_among_undefined _).1 hnumber
  have hzero : SingleZero [1.0, undefined, -0.0] := by
    simp only [SingleZero, List.mem_cons, List.not_mem_nil]
    decide +kernel
  have harranged : [undefined, -0.0, undefined, 1.0].Perm ([undefined] ++ [1.0, undefined, -0.0]) :=
    (List.reverse_perm [1.0, undefined, -0.0]).cons undefined
  obtain ⟨hends, hrescale⟩ := (extent_among_undefined [undefined, undefined]).2
    (List.cons_ne_nil _ _) (by decide +kernel)
  exact ⟨⟨low, high, hextent, hleast, hgreatest, hsame hzero [undefined] _ (by decide +kernel)
    harranged⟩, hends, hrescale .y 2.0 5.0⟩

end PathCurves
