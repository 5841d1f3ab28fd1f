/-
What the operations on doubles make of operands that are not finite. What is no number makes every
result none (`number?_add`, `number?_sub`, `number?_mul`, `number?_div`), so a finite sum or product
has finite operands (`isFinite_of_sub`, `isFinite_of_mul`). Nothing times an infinity is no number
(`mul_infinity`); but squares, their sums and their roots are numbers that are not negative
(`NonNeg`), though maybe infinite.
-/
import PathCurves.Proofs.Arithmetic

namespace PathCurves.Double

open Float.Model Float.Model.UnpackedFloat

/-! ## What is no number -/

section

variable {x y : Float}

theorem unpack_of_none (h : number? x = none) : x.toModel.unpack = .notANumber := by
  rw [number?] at h
  generalize x.toModel.unpack = f at h
  cases f with
  | notANumber => rfl
  | _ => cases h

theorem number?_notANumber : number? (.ofModel (.pack .notANumber)) = none := by
  rw [number?, unpack_pack (f := .notANumber) trivial]
  rfl

/-- An operation that gives no number if an operand is none. -/
theorem number?_strict (op : UnpackedFloat → UnpackedFloat → UnpackedFloat)
    (hleft : ∀ g, op .notANumber g = .notANumber) (hright : ∀ f, op f .notANumber = .notANumber)
    (h : number? x = none ∨ number? y = none) :
    number? (.ofModel (.pack (op x.toModel.unpack y.toModel.unpack))) = none := by
  rcases h with h | h
  · rw [unpack_of_none h, hleft]
    exact number?_notANumber
  · rw [unpack_of_none h, hright]
    exact number?_notANumber

theorem number?_add (h : number? x = none ∨ number? y = none) : number? (x + y) = none :=
  number?_strict (UnpackedFloat.add Format.binary64) (fun _ => rfl)
    (fun f => by cases f <;> rfl) h

theorem number?_sub (h : number? x = none ∨ number? y = none) : number? (x - y) = none :=
  number?_strict (UnpackedFloat.sub Format.binary64) (fun _ => rfl)
    (fun f => by cases f <;> rfl) h

theorem number?_mul (h : number? x = none ∨ number? y = none) : number? (x * y) = none :=
  number?_strict (UnpackedFloat.mul Format.binary64) (fun _ => rfl)
    (fun f => by cases f <;> rfl) h

theorem number?_div (h : number? x = none ∨ number? y = none) : number? (x / y) = none :=
  number?_strict (UnpackedFloat.div Format.binary64) (fun _ => rfl)
    (fun f => by cases f <;> rfl) h

end

/-! ## Infinite doubles -/

/-- The double is an infinity. -/
def IsInfinity (s : Sign) (x : Float) : Prop := x.toModel.unpack = .infinity s

theorem isInfinity_pack (s : Sign) : IsInfinity s (.ofModel (.pack (.infinity s))) :=
  unpack_pack (f := .infinity s) trivial

namespace IsInfinity

variable {x y : Float} {s t : Sign}

theorem unpack (h : IsInfinity s x) : x.toModel.unpack = .infinity s := h

theorem number (h : IsInfinity s x) : number? x = some (signed s (2 ^ 1024)) := by
  rw [number?, h.unpack]
  rfl

theorem isFinite (h : IsInfinity s x) : x.isFinite = false :=
  isFinite_eq_false_iff.mpr (.inr ⟨s, h⟩)

theorem add (hx : IsInfinity s x) (hy : IsInfinity s y) : IsInfinity s (x + y) := by
  rw [add_eq_pack, hx.unpack, hy.unpack]
  cases s <;> exact isInfinity_pack _

theorem add_finite (hx : IsInfinity s x) {b : ℚ} (hy : HasValue y b) : IsInfinity s (x + y) := by
  rw [add_eq_pack, hx.unpack]
  obtain ⟨t, ht, -⟩ | ⟨t, m, e, hm, ht, -⟩ := hy.parts
  · rw [ht]
    exact isInfinity_pack s
  · rw [ht]
    exact isInfinity_pack s

theorem finite_add {a : ℚ} (hx : HasValue x a) (hy : IsInfinity s y) : IsInfinity s (x + y) := by
  rw [add_eq_pack, hy.unpack]
  obtain ⟨t, ht, -⟩ | ⟨t, m, e, hm, ht, -⟩ := hx.parts
  · rw [ht]
    exact isInfinity_pack s
  · rw [ht]
    exact isInfinity_pack s

/-- Multiplication by what is not zero keeps an infinity. -/
theorem mul_finite (hx : IsInfinity s x) {b : ℚ} (hy : HasValue y b) (hb : b ≠ 0) :
    ∃ t, IsInfinity t (x * y) := by
  obtain ⟨t, -, rfl⟩ | ⟨t, m, e, hm, ht, -⟩ := hy.parts
  · exact absurd rfl hb
  · rw [mul_eq_pack, hx.unpack, ht]
    exact ⟨_, isInfinity_pack _⟩

/-- Division keeps an infinity, and its sign if the divisor is positive. -/
theorem div_finite (hx : IsInfinity s x) {b : ℚ} (hy : HasValue y b) :
    ∃ t, IsInfinity t (x / y) ∧ (0 < b → t = s) := by
  rw [div_eq_pack, hx.unpack]
  obtain ⟨t, ht, rfl⟩ | ⟨t, m, e, hm, ht, -, rfl⟩ := hy.parts
  · rw [ht]
    exact ⟨_, isInfinity_pack _, fun h => absurd h (lt_irrefl 0)⟩
  · rw [ht]
    refine ⟨_, isInfinity_pack _, fun hpos => ?_⟩
    cases t with
    | positive => cases s <;> rfl
    | negative =>
      have hneg := neg_lt_zero.mpr (value_pos (e := e) hm)
      exact absurd hpos hneg.le.not_gt

/-- An infinity through an infinity is no number. -/
theorem div (hx : IsInfinity s x) (hy : IsInfinity t y) : number? (x / y) = none := by
  rw [div_eq_pack, hx.unpack, hy.unpack]
  exact number?_notANumber

/-- Finite through infinite is zero. -/
theorem finite_div {a : ℚ} (hx : HasValue x a) (hy : IsInfinity t y) : HasValue (x / y) 0 := by
  refine ⟨?_, by rw [abs_zero]; positivity⟩
  rw [div_eq_pack, hy.unpack]
  obtain ⟨s, hs, -⟩ | ⟨s, m, e, hm, hs, -⟩ := hx.parts
  · rw [hs]
    exact number?_zero _
  · rw [hs]
    exact number?_zero _

end IsInfinity

section

variable {x y : Float} {a b : ℚ} {s t : Sign}

/-- What stands for a number is finite or an infinity. -/
theorem number_cases (h : number? x = some a) :
    HasValue x a ∨ ∃ s, IsInfinity s x ∧ a = signed s (2 ^ 1024) := by
  cases hfinite : x.isFinite with
  | true =>
    obtain ⟨v, hv⟩ := isFinite_iff.mp hfinite
    obtain rfl : v = a := Option.some.inj (hv.1.symm.trans h)
    exact .inl hv
  | false =>
    obtain hnone | ⟨s, hs⟩ := isFinite_eq_false_iff.mp hfinite
    · rw [number?, hnone] at h
      cases h
    · rw [number?, hs] at h
      cases h
      exact .inr ⟨s, hs, rfl⟩

theorem unpack_of_zero (h : HasValue x 0) : ∃ s, x.toModel.unpack = .zero s := by
  obtain ⟨s, hs, -⟩ | ⟨s, m, e, hm, -, -, hzero⟩ := h.parts
  · exact ⟨s, hs⟩
  · have habs := abs_signed s (m * 2 ^ e)
    rw [← hzero, abs_zero, abs_of_pos (value_pos hm)] at habs
    exact absurd habs (value_pos hm).ne

theorem div_infinity (x : Float) (hy : IsInfinity t y) :
    number? (x / y) = none ∨ HasValue (x / y) 0 := by
  cases hx : number? x with
  | none => exact .inl (number?_div (.inl hx))
  | some a =>
    obtain hx | ⟨s, hs, -⟩ := number_cases hx
    · exact .inr (hy.finite_div hx)
    · exact .inl (hs.div hy)

theorem IsInfinity.mul_zero (hx : IsInfinity s x) (hy : HasValue y 0) :
    number? (x * y) = none := by
  obtain ⟨t, ht⟩ := unpack_of_zero hy
  rw [mul_eq_pack, hx.unpack, ht]
  exact number?_notANumber

theorem mul_infinity (hx : number? x = none ∨ HasValue x 0) (hy : IsInfinity t y) :
    number? (x * y) = none := by
  rcases hx with hx | hx
  · exact number?_mul (.inl hx)
  · obtain ⟨s, hs⟩ := unpack_of_zero hx
    rw [mul_eq_pack, hs, hy.unpack]
    exact number?_notANumber

/-- Multiplication by what is not zero keeps a number one. -/
theorem exists_number_mul (hx : number? x = some a) (hy : HasValue y b) (hb : b ≠ 0) :
    ∃ v, number? (x * y) = some v := by
  obtain hx | ⟨s, hs, -⟩ := number_cases hx
  · obtain ⟨v, hv, -⟩ := hx.mul hy
    exact ⟨v, hv⟩
  · obtain ⟨t, ht⟩ := hs.mul_finite hy hb
    exact ⟨_, ht.number⟩

theorem exists_number_add (hx : HasValue x a) (hy : number? y = some b) :
    ∃ v, number? (x + y) = some v := by
  obtain hy | ⟨s, hs, -⟩ := number_cases hy
  · obtain ⟨v, hv, -⟩ := hx.add hy
    exact ⟨v, hv⟩
  · exact ⟨_, (hs.finite_add hx).number⟩

/-! ## Operands of finite results -/

theorem isFinite_pack_eq_false {f : Float.Model.UnpackedFloat}
    (h : f = .notANumber ∨ ∃ s, f = .infinity s) : Float.isFinite (.ofModel (.pack f)) = false := by
  rcases h with rfl | ⟨s, rfl⟩
  · exact isFinite_eq_false_iff.mpr (.inl (unpack_pack (f := .notANumber) trivial))
  · exact (isInfinity_pack s).isFinite

theorem isFinite_add_eq_false (h : x.isFinite = false ∨ y.isFinite = false) :
    (x + y).isFinite = false := by
  rw [isFinite_eq_false_iff, isFinite_eq_false_iff] at h
  rw [add_eq_pack]
  apply isFinite_pack_eq_false
  generalize x.toModel.unpack = f at h
  generalize y.toModel.unpack = g at h
  have hinfinities (s t : Sign) : UnpackedFloat.add Format.binary64 (.infinity s) (.infinity t) =
      .notANumber ∨ ∃ r,
        UnpackedFloat.add Format.binary64 (.infinity s) (.infinity t) = .infinity r := by
    cases s <;> cases t <;> first | exact .inl rfl | exact .inr ⟨_, rfl⟩
  rcases h with (rfl | ⟨s, rfl⟩) | (rfl | ⟨s, rfl⟩)
  · exact .inl rfl
  · cases g with
    | notANumber => exact .inl rfl
    | infinity t => exact hinfinities s t
    | zero | finite => exact .inr ⟨_, rfl⟩
  · cases f <;> exact .inl rfl
  · cases f with
    | notANumber => exact .inl rfl
    | infinity t => exact hinfinities t s
    | zero | finite => exact .inr ⟨_, rfl⟩

theorem isFinite_mul_eq_false (h : x.isFinite = false ∨ y.isFinite = false) :
    (x * y).isFinite = false := by
  rw [isFinite_eq_false_iff, isFinite_eq_false_iff] at h
  rw [mul_eq_pack]
  apply isFinite_pack_eq_false
  generalize x.toModel.unpack = f at h
  generalize y.toModel.unpack = g at h
  rcases h with (rfl | ⟨s, rfl⟩) | (rfl | ⟨s, rfl⟩)
  · exact .inl rfl
  · cases g with
    | notANumber | zero => exact .inl rfl
    | infinity | finite => exact .inr ⟨_, rfl⟩
  · cases f <;> exact .inl rfl
  · cases f with
    | notANumber | zero => exact .inl rfl
    | infinity | finite => exact .inr ⟨_, rfl⟩

theorem isFinite_of_sub (h : (x - y).isFinite = true) :
    x.isFinite = true ∧ y.isFinite = true := by
  by_contra hnot
  rw [not_and_or, Bool.not_eq_true, Bool.not_eq_true, ← isFinite_neg y] at hnot
  rw [sub_eq, isFinite_add_eq_false hnot] at h
  cases h

theorem isFinite_of_mul (h : (x * y).isFinite = true) :
    x.isFinite = true ∧ y.isFinite = true := by
  by_contra hnot
  rw [not_and_or, Bool.not_eq_true, Bool.not_eq_true] at hnot
  rw [isFinite_mul_eq_false hnot] at h
  cases h

theorem isFinite_of_add (h : (x + y).isFinite = true) :
    x.isFinite = true ∧ y.isFinite = true := by
  by_contra hnot
  rw [not_and_or, Bool.not_eq_true, Bool.not_eq_true] at hnot
  rw [isFinite_add_eq_false hnot] at h
  cases h

theorem isFinite_of_sqrt (h : x.sqrt.isFinite = true) : x.isFinite = true := by
  by_contra hnot
  rw [Bool.not_eq_true, isFinite_eq_false_iff] at hnot
  have hroot : x.sqrt.isFinite = false := by
    rw [sqrt_eq_pack]
    apply isFinite_pack_eq_false
    rcases hnot with hx | ⟨s, hx⟩
    · rw [hx]
      exact .inl rfl
    · rw [hx]
      cases s with
      | positive => exact .inr ⟨_, rfl⟩
      | negative => exact .inl rfl
  rw [hroot] at h
  cases h

end

/-! ## Numbers that are not negative -/

/-- The double is a number that is not negative, maybe infinite. -/
def NonNeg (x : Float) : Prop := ∃ v, number? x = some v ∧ 0 ≤ v

namespace NonNeg

variable {x y : Float}

theorem of_infinity (h : IsInfinity .positive x) : NonNeg x :=
  ⟨_, h.number, show (0 : ℚ) ≤ 2 ^ 1024 by positivity⟩

theorem of_rounded {q : ℚ} (h : Rounded q x) (hq : 0 ≤ q) : NonNeg x := by
  obtain ⟨v, hv, hround⟩ := h
  exact ⟨v, hv, hround.ge onGrid_zero hq⟩

/-- Such a number is finite or the positive infinity. -/
theorem cases (h : NonNeg x) : (∃ v, HasValue x v ∧ 0 ≤ v) ∨ IsInfinity .positive x := by
  obtain ⟨v, hv, hnonneg⟩ := h
  obtain hx | ⟨s, hs, rfl⟩ := number_cases hv
  · exact .inl ⟨v, hx, hnonneg⟩
  · cases s with
    | positive => exact .inr hs
    | negative =>
      have htop : (0 : ℚ) < 2 ^ 1024 := by positivity
      exact absurd hnonneg (not_le.mpr (neg_lt_zero.mpr htop))

theorem mul_self {v : ℚ} (h : number? x = some v) : NonNeg (x * x) := by
  obtain hx | ⟨s, hs, -⟩ := number_cases h
  · exact of_rounded (hx.mul hx) (mul_self_nonneg v)
  · apply of_infinity
    rw [mul_eq_pack, hs.unpack]
    cases s <;> exact isInfinity_pack _

theorem add (hx : NonNeg x) (hy : NonNeg y) : NonNeg (x + y) := by
  obtain ⟨v, hv, hv₀⟩ | hx := hx.cases
  · obtain ⟨w, hw, hw₀⟩ | hy := hy.cases
    · exact of_rounded (hv.add hw) (add_nonneg hv₀ hw₀)
    · exact of_infinity (hy.finite_add hv)
  · obtain ⟨w, hw, -⟩ | hy := hy.cases
    · exact of_infinity (hx.add_finite hw)
    · exact of_infinity (hx.add hy)

theorem sqrt (hx : NonNeg x) : NonNeg x.sqrt := by
  obtain ⟨v, hv, hv₀⟩ | hx := hx.cases
  · have hexp : (2 : ℤ) * 512 = (1024 : ℕ) := by norm_num
    have hle : v ≤ 2 ^ ((2 : ℤ) * 512) := by
      rw [hexp, zpow_natCast]
      exact (le_abs_self v).trans hv.2.le
    obtain ⟨q, hq₀, -, hq⟩ := hv.sqrt hv₀ hle
    exact of_rounded hq hq₀
  · apply of_infinity
    rw [sqrt_eq_pack, hx.unpack]
    exact isInfinity_pack _

end NonNeg

end PathCurves.Double
