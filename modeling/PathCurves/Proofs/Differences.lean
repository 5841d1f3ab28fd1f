/-
Neighbouring doubles and differences of doubles. All doubles are multiples of the least positive one
(`OnGrid.exists_int`), so a difference rounds to zero only where there is none
(`exists_number_sub`): the doubles themselves can be compared instead. The negative zero is the
difference of the two zeros and of no other doubles (`sub_eq_neg_zero_iff`).
-/
import PathCurves.Proofs.Magnitude

namespace PathCurves

namespace Double

open Float.Model Float.Model.UnpackedFloat

variable {x y z : Float} {a b v : ℚ}

/-! ## The order of doubles -/

protected theorem lt_asymm (h : x < y) : ¬ y < x := by
  intro h'
  obtain ⟨u, v, hx, hy, huv⟩ := lt_iff.mp h
  exact huv.not_gt ((lt_iff_of_some hy hx).mp h')

protected theorem not_lt_of_beq (h : (x == y) = true) : ¬ x < y := by
  intro h'
  obtain ⟨v, hx, hy⟩ := beq_iff.mp h
  exact lt_irrefl v ((lt_iff_of_some hx hy).mp h')

protected theorem lt_irrefl : ¬ x < x := fun h => Double.lt_asymm h h

protected theorem lt_of_lt_of_le (h : x < y) (h' : y ≤ z) : x < z := by
  obtain ⟨u, v, hx, hy, huv⟩ := lt_iff.mp h
  obtain ⟨v', w, hy', hz, hvw⟩ := le_iff.mp h'
  obtain rfl : v = v' := Option.some.inj (hy.symm.trans hy')
  exact lt_iff.mpr ⟨u, w, hx, hz, huv.trans_le hvw⟩

protected theorem le_of_not_lt (h : ¬ x < y) (h' : x ≤ y) : y ≤ x := by
  obtain ⟨u, v, hx, hy, -⟩ := le_iff.mp h'
  exact le_iff.mpr ⟨v, u, hy, hx, not_lt.mp (mt (lt_iff_of_some hx hy).mpr h)⟩

protected theorem beq_of_le_of_le (h : x ≤ y) (h' : y ≤ x) : (x == y) = true := by
  obtain ⟨u, v, hx, hy, huv⟩ := le_iff.mp h
  obtain rfl : u = v := huv.antisymm ((le_iff_of_some hy hx).mp h')
  exact beq_iff.mpr ⟨u, hx, hy⟩

theorem isFinite_of_le_of_le (hx : x.isFinite = true) (hz : z.isFinite = true) (h : x ≤ y)
    (h' : y ≤ z) : y.isFinite = true := by
  obtain ⟨a, ha⟩ := isFinite_iff.mp hx
  obtain ⟨b, hb⟩ := isFinite_iff.mp hz
  obtain ⟨a', v, ha', hv, hav⟩ := le_iff.mp h
  obtain ⟨v', b', hv', hb', hvb⟩ := le_iff.mp h'
  obtain rfl : a = a' := Option.some.inj (ha.1.symm.trans ha')
  obtain rfl : b = b' := Option.some.inj (hb.1.symm.trans hb')
  obtain rfl : v = v' := Option.some.inj (hv.symm.trans hv')
  exact isFinite_iff.mpr ⟨v, hv,
    abs_lt.mpr ⟨(abs_lt.mp ha.2).1.trans_le hav, hvb.trans_lt (abs_lt.mp hb.2).2⟩⟩

/-- Between a double that is not negative and the next one there is no other. -/
theorem OnGrid.le_of_lt {n : ℕ} (h : OnGrid v) (hlt : v < gridValue (n + 1)) :
    v ≤ gridValue n := by
  obtain ⟨s, m, -, rfl⟩ := h
  cases s with
  | positive =>
    simp only [signed] at hlt ⊢
    have hm := gridValue_strictMono.lt_iff_lt.mp hlt
    exact gridValue_strictMono.monotone (Nat.lt_succ_iff.mp hm)
  | negative => exact (neg_nonpos.mpr (gridValue_nonneg m)).trans (gridValue_nonneg n)

/-! ## Differences -/

/-- The number of the least positive double. -/
theorem gridValue_one : gridValue 1 = 2 ^ (-1074 : ℤ) := by
  have h := gridValue_add (k := 0) (m := 1) (by norm_num) (.inr rfl)
  simpa only [Nat.zero_mul, Nat.zero_add, Nat.cast_one, one_mul, Nat.cast_zero, zero_sub] using h

theorem onGrid_gridValue_one : OnGrid (gridValue 1) := ⟨.positive, 1, by decide, rfl⟩

/-- Every double is so many times the least one. -/
theorem OnGrid.exists_int (h : OnGrid v) : ∃ k : ℤ, v = k * gridValue 1 := by
  obtain ⟨s, n, -, rfl⟩ := h
  obtain ⟨k, m, rfl, hm, hk⟩ := exists_place n
  have hvalue : gridValue (k * 2 ^ 52 + m) = ((m * 2 ^ k : ℕ) : ℤ) * gridValue 1 := by
    rw [gridValue_add hm.le hk, gridValue_one, sub_eq_add_neg, zpow_add₀ two_ne_zero, zpow_natCast]
    rw [Int.cast_natCast, Nat.cast_mul, Nat.cast_pow, Nat.cast_ofNat, mul_assoc]
  cases s with
  | positive => exact ⟨_, hvalue⟩
  | negative => exact ⟨-((m * 2 ^ k : ℕ) : ℤ), by rw [signed, hvalue, Int.cast_neg, neg_mul]⟩

/-- A difference of doubles is zero only for equal ones, and it has the right sign otherwise. -/
theorem exists_number_sub (hx : HasValue x a) (hy : HasValue y b) :
    ∃ v, number? (x - y) = some v ∧ (v < 0 ↔ a < b) ∧ (v = 0 ↔ a = b) := by
  obtain ⟨v, hv, hround⟩ := hx.sub hy
  obtain ⟨i, rfl⟩ := (onGrid_of_number? hx.1).exists_int
  obtain ⟨j, rfl⟩ := (onGrid_of_number? hy.1).exists_int
  have hleast : 0 < gridValue 1 := by
    rw [gridValue_one]
    positivity
  have hlt {k l : ℤ} : (k : ℚ) * gridValue 1 < l * gridValue 1 ↔ k < l := by
    rw [mul_lt_mul_iff_left₀ hleast, Int.cast_lt]
  refine ⟨v, hv, ?_⟩
  rcases lt_trichotomy i j with hij | rfl | hij
  · have hle : v ≤ -gridValue 1 := by
      refine hround.le onGrid_gridValue_one.neg ?_
      have : ((i : ℚ) + 1) * gridValue 1 ≤ j * gridValue 1 := by
        gcongr
        exact_mod_cast hij
      linarith
    have hne := (hlt.mpr hij).ne
    exact ⟨iff_of_true (by linarith) (hlt.mpr hij), iff_of_false (by linarith) hne⟩
  · rw [sub_self] at hround
    have hzero : v = 0 := le_antisymm (hround.le onGrid_zero le_rfl) (hround.ge onGrid_zero le_rfl)
    simp [hzero]
  · have hle : gridValue 1 ≤ v := by
      refine hround.ge onGrid_gridValue_one ?_
      have : ((j : ℚ) + 1) * gridValue 1 ≤ i * gridValue 1 := by
        gcongr
        exact_mod_cast hij
      linarith
    have hgt := hlt.mpr hij
    exact ⟨iff_of_false (by linarith) hgt.le.not_gt, iff_of_false (by linarith) hgt.ne'⟩

theorem sub_neg_iff (hx : HasValue x a) (hy : HasValue y b) (h : number? (x - y) = some v) :
    v < 0 ↔ a < b := by
  obtain ⟨w, hw, hneg, -⟩ := exists_number_sub hx hy
  obtain rfl : v = w := Option.some.inj (h.symm.trans hw)
  exact hneg

theorem eq_zero_or_eq_neg_zero (hx : HasValue x 0) : x = 0.0 ∨ x = -0.0 := by
  obtain ⟨s, hs⟩ := unpack_of_zero hx
  rw [← pack_unpack x, hs]
  cases s with
  | positive => exact .inl (by decide +kernel)
  | negative => exact .inr (by decide +kernel)

/-- Doubles that stand for the same number other than zero have the positive zero as their
difference. -/
theorem sub_of_ne_zero (hx : HasValue x a) (hy : HasValue y a) (ha : a ≠ 0) : x - y = 0.0 := by
  obtain rfl := eq_of_number? hx.1 hy.1 ha
  obtain ⟨s, -, rfl⟩ | ⟨s, m, e, hm, hs, -, -⟩ := hx.parts
  · exact absurd rfl ha
  have hsum : s.apply (decreaseExponent m e (min e e)).1 +
      (-s).apply (decreaseExponent m e (min e e)).1 = 0 := by
    cases s with
    | positive => exact add_neg_cancel _
    | negative => exact neg_add_cancel _
  have hzero (k : ℤ) : normalize Format.binary64 0 k .positive = .zero .positive := rfl
  rw [sub_eq, add_eq_pack, unpack_neg, hs, UnpackedFloat.neg, UnpackedFloat.add]
  dsimp only
  rw [hsum, hzero]
  decide +kernel

/-- The difference of two doubles is the negative zero only if it is that of the two zeros. -/
theorem sub_eq_neg_zero_iff (hx : HasValue x a) (hy : HasValue y b) :
    x - y = -0.0 ↔ x = -0.0 ∧ y = 0.0 := by
  refine ⟨fun h => ?_, ?_⟩
  · obtain ⟨v, hv, -, hzero⟩ := exists_number_sub hx hy
    rw [h, hasValue_zero.neg.1] at hv
    cases hv
    obtain rfl := hzero.mp neg_zero
    by_cases ha : a = 0
    · subst ha
      obtain rfl | rfl := eq_zero_or_eq_neg_zero hx
      · obtain rfl | rfl := eq_zero_or_eq_neg_zero hy
        · exact absurd h (by decide +kernel)
        · exact absurd h (by decide +kernel)
      · obtain rfl | rfl := eq_zero_or_eq_neg_zero hy
        · exact ⟨rfl, rfl⟩
        · exact absurd h (by decide +kernel)
    · rw [sub_of_ne_zero hx hy ha] at h
      exact absurd h (by decide +kernel)
  · rintro ⟨rfl, rfl⟩
    decide +kernel

end Double

end PathCurves
