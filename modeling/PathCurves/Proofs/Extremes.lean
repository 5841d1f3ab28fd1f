/-
Where rescaling over doubles carries the extremes of a list. What equals the least number has passed
none of the span, and what equals the greatest one all of it: that difference is rounded as the span
is (`part_of_high`). None and all of a target need no rounding, and neither does their sum
(`interpolate_of_none`, `interpolate_of_all`). Main statement: `extremes_of_rescale`.
-/
import PathCurves.Proofs.Rescaling

namespace PathCurves

open Double

/-- The least of the values that are numbers. -/
def LeastNumber (values : List Float) (low : Float) : Prop :=
  low ∈ values ∧ low.isNaN = false ∧ ∀ v ∈ values, v.isNaN = false → low ≤ v

/-- The greatest of the values that are numbers. -/
def GreatestNumber (values : List Float) (high : Float) : Prop :=
  high ∈ values ∧ high.isNaN = false ∧ ∀ v ∈ values, v.isNaN = false → v ≤ high

theorem extremes_of_extent {values : List Float} {low high : Float}
    (h : extent values = some (low, high)) (hlow : low.isNaN = false) (hhigh : high.isNaN = false) :
    LeastNumber values low ∧ GreatestNumber values high := by
  obtain ⟨hlowmem, hhighmem⟩ := mem_of_extent h
  refine ⟨⟨hlowmem, hlow, fun x hx hnan => ?_⟩, hhighmem, hhigh, fun x hx hnan => ?_⟩
  · obtain ⟨v, hv⟩ := isNaN_eq_false_iff.mp hnan
    obtain ⟨l, -, hl, -, hle, -⟩ := bounds_of_extent h hx hv
    exact le_iff.mpr ⟨l, v, hl, hv, hle⟩
  · obtain ⟨v, hv⟩ := isNaN_eq_false_iff.mp hnan
    obtain ⟨-, u, -, hu, -, hle⟩ := bounds_of_extent h hx hv
    exact le_iff.mpr ⟨v, u, hv, hu, hle⟩

/-! ## The two ends of the span -/

section

variable {a b low high x : Float} {p q l u d : ℚ}

/-- Where no part of the span is passed, the interpolation is the first target. -/
theorem interpolate_of_none (ha : HasValue a p) (hb : HasValue b q)
    (hpart : HasValue ((x - low) / (high - low)) 0) :
    HasValue (interpolate a b low (high - low) x) p := by
  have hrest := hasValue_one.sub hpart
  rw [sub_zero] at hrest
  have hfirst := ha.mul (hrest.exact hasValue_one)
  rw [mul_one] at hfirst
  have hsecond := hb.mul hpart
  rw [mul_zero] at hsecond
  have hsum := (hfirst.exact ha).add (hsecond.exact hasValue_zero)
  rw [add_zero] at hsum
  exact hsum.exact ha

/-- Where all of the span is passed, it is the second target. -/
theorem interpolate_of_all (ha : HasValue a p) (hb : HasValue b q)
    (hpart : HasValue ((x - low) / (high - low)) 1) :
    HasValue (interpolate a b low (high - low) x) q := by
  have hrest := hasValue_one.sub hpart
  rw [sub_self] at hrest
  have hfirst := ha.mul (hrest.exact hasValue_zero)
  rw [mul_zero] at hfirst
  have hsecond := hb.mul hpart
  rw [mul_one] at hsecond
  have hsum := (hfirst.exact hasValue_zero).add (hsecond.exact hb)
  rw [zero_add] at hsum
  exact hsum.exact hb

theorem part_of_low (hlow : HasValue low l) (hspan : HasValue (high - low) d) (hd : d ≠ 0)
    (hx : HasValue x l) : HasValue ((x - low) / (high - low)) 0 := by
  have hdifference := hx.sub hlow
  rw [sub_self] at hdifference
  have hpart := (hdifference.exact hasValue_zero).div hspan hd
  rw [zero_div] at hpart
  exact hpart.exact hasValue_zero

/-- The difference is the span itself, since it is rounded in the same way. -/
theorem part_of_high (hlow : HasValue low l) (hhigh : HasValue high u)
    (hspan : HasValue (high - low) d) (hd : d ≠ 0) (hx : HasValue x u) :
    HasValue ((x - low) / (high - low)) 1 := by
  obtain ⟨e, he, hround⟩ := hx.sub hlow
  obtain ⟨d', hd', hround'⟩ := hhigh.sub hlow
  obtain rfl : d = d' := Option.some.inj (hspan.1.symm.trans hd')
  obtain rfl : e = d := le_antisymm (hround.mono hround' le_rfl) (hround'.mono hround le_rfl)
  have hpart := HasValue.div ⟨he, hspan.2⟩ hspan hd
  rw [div_self hd] at hpart
  exact hpart.exact hasValue_one

end

/-! ## Rescaling -/

/-- Between finite targets the values that equal the least number land on the first target, and
those that equal the greatest one on the second. -/
theorem extremes_of_rescale {axis : Axis} {a b : Float} {values out : List Float}
    (ha : a.isFinite = true) (hb : b.isFinite = true) (h : rescale axis a b values = .ok out) :
    out.length = values.length ∧
    ∀ low high, extent values = some (low, high) →
      LeastNumber values low ∧ GreatestNumber values high ∧
      List.Forall₂ (fun v w => ((v == low) = true → (w == a) = true) ∧
        ((v == high) = true → (w == b) = true)) values out := by
  refine ⟨length_of_rescale h, fun low high hextent => ?_⟩
  obtain ⟨p, hp⟩ := isFinite_iff.mp ha
  obtain ⟨q, hq⟩ := isFinite_iff.mp hb
  have hne : values ≠ [] := List.ne_nil_of_mem (mem_of_extent hextent).1
  obtain ⟨low', high', hextent', ⟨l, u, d, hl, hu, hd, hpos⟩, rfl⟩ := finite_of_rescale h hne
  cases hextent.symm.trans hextent'
  obtain ⟨hleast, hgreatest⟩ := extremes_of_extent hextent (isNaN_eq_false_iff.mpr ⟨l, hl.1⟩)
    (isNaN_eq_false_iff.mpr ⟨u, hu.1⟩)
  refine ⟨hleast, hgreatest, ?_⟩
  rw [List.forall₂_map_right_iff, List.forall₂_same]
  refine fun x _ => ⟨fun hx => ?_, fun hx => ?_⟩
  · obtain ⟨v, hv, hlow⟩ := beq_iff.mp hx
    obtain rfl : l = v := Option.some.inj (hl.1.symm.trans hlow)
    have hpart := part_of_low hl hd hpos.ne' ⟨hv, hl.2⟩
    exact beq_iff.mpr ⟨p, (interpolate_of_none hp hq hpart).1, hp.1⟩
  · obtain ⟨v, hv, hhigh⟩ := beq_iff.mp hx
    obtain rfl : u = v := Option.some.inj (hu.1.symm.trans hhigh)
    have hpart := part_of_high hl hu hd hpos.ne' ⟨hv, hu.2⟩
    exact beq_iff.mpr ⟨q, (interpolate_of_all hp hq hpart).1, hq.1⟩

/-- A downward target, with both zeros and what is no number among the values. -/
theorem extremes_of_rescale_example :
    ∃ out, rescale .x 3.0 2.0 [undefined, 0.5, -0.0, 1.0, 0.0] = .ok out ∧ out.length = 5 ∧
      LeastNumber [undefined, 0.5, -0.0, 1.0, 0.0] (-0.0) ∧
      List.Forall₂ (fun v w => ((v == -0.0) = true → (w == 3.0) = true) ∧
        ((v == 1.0) = true → (w == 2.0) = true)) [undefined, 0.5, -0.0, 1.0, 0.0] out := by
  have hrescale : rescale .x 3.0 2.0 [undefined, 0.5, -0.0, 1.0, 0.0] =
      .ok [undefined, 2.5, 3.0, 2.0, 3.0] := by
    decide +kernel
  obtain ⟨hlength, hall⟩ :=
    extremes_of_rescale (by decide +kernel) (by decide +kernel) hrescale
  obtain ⟨hleast, -, hpinned⟩ := hall (-0.0) 1.0 (by decide +kernel)
  exact ⟨_, hrescale, hlength, hleast, hpinned⟩

end PathCurves
