/-
How the model of the doubles rounds: a mantissa with two more bits is shifted until 53 digits are
left, and the bits say whether to go up. `Represents` is what mantissa and bits say of the number
before the rounding, which every shift keeps (`Represents.shiftRight`), so that the double that
comes out is the nearest one (`nearest_roundWithAccuracy`, `nearest_round`).
-/
import PathCurves.Proofs.Rounding

namespace PathCurves.Double

open Float.Model Float.Model.UnpackedFloat

/-- The number is the mantissa and less than one unit more: nothing, less than half a unit, half
a unit, or more than that, as the two bits say. -/
def Represents (em : ExtendedMantissa) (t : ℚ) : Prop :=
  match em.roundBit, em.stickyBit with
  | false, false => t = em.mantissa
  | false, true => em.mantissa < t ∧ 2 * t < 2 * em.mantissa + 1
  | true, false => 2 * t = 2 * em.mantissa + 1
  | true, true => 2 * (em.mantissa : ℚ) + 1 < 2 * t ∧ t < em.mantissa + 1

namespace Represents

variable {em : ExtendedMantissa} {t : ℚ}

theorem le (h : Represents em t) : (em.mantissa : ℚ) ≤ t := by
  obtain ⟨m, r, s⟩ := em
  cases r <;> cases s <;> simp only [Represents] at h ⊢ <;> linarith

theorem lt_add_one (h : Represents em t) : t < em.mantissa + 1 := by
  obtain ⟨m, r, s⟩ := em
  cases r <;> cases s <;> simp only [Represents] at h ⊢ <;> linarith

theorem shiftRightOne (h : Represents em t) : Represents em.shiftRightOne (t / 2) := by
  obtain ⟨m, r, s⟩ := em
  obtain ⟨c, rfl | rfl⟩ := m.even_or_odd'
  · have hbit : (2 * c % 2 != 0) = false := by simp
    have hdiv : 2 * c / 2 = c := by omega
    cases r <;> cases s <;>
      simp only [Represents, ExtendedMantissa.shiftRightOne, hbit, hdiv, Bool.or_false,
        Bool.or_true] at h ⊢ <;> push_cast at h
    · linarith
    · exact ⟨by linarith, by linarith⟩
    · exact ⟨by linarith, by linarith⟩
    · exact ⟨by linarith, by linarith⟩
  · have hbit : ((2 * c + 1) % 2 != 0) = true := by simp
    have hdiv : (2 * c + 1) / 2 = c := by omega
    cases r <;> cases s <;>
      simp only [Represents, ExtendedMantissa.shiftRightOne, hbit, hdiv, Bool.or_false,
        Bool.or_true] at h ⊢ <;> push_cast at h
    · linarith
    · exact ⟨by linarith, by linarith⟩
    · exact ⟨by linarith, by linarith⟩
    · exact ⟨by linarith, by linarith⟩

theorem shiftRight (h : Represents em t) (n : ℕ) : Represents (em >>> n) (t / 2 ^ n) := by
  show Represents (n.repeat ExtendedMantissa.shiftRightOne em) _
  induction n with
  | zero => simpa [Nat.repeat] using h
  | succ n ih =>
    rw [Nat.repeat, pow_succ, ← div_div]
    exact ih.shiftRightOne

/-- The rounded mantissa is nearest to the number; in the middle it is even. -/
theorem roundedMantissa (h : Represents em t) :
    (2 * (em.roundedMantissa : ℚ) - 1 < 2 * t ∨
      2 * (em.roundedMantissa : ℚ) - 1 = 2 * t ∧ Even em.roundedMantissa) ∧
    (2 * t < 2 * (em.roundedMantissa : ℚ) + 1 ∨
      2 * t = 2 * (em.roundedMantissa : ℚ) + 1 ∧ Even em.roundedMantissa) := by
  obtain ⟨m, r, s⟩ := em
  cases r <;> cases s <;>
    simp only [Represents, ExtendedMantissa.roundedMantissa, ExtendedMantissa.accuracy,
      Accuracy.roundToNearestEven] at h ⊢
  · exact ⟨.inl (by linarith), .inl (by linarith)⟩
  · exact ⟨.inl (by linarith), .inl (by linarith)⟩
  · rcases Nat.even_or_odd m with heven | hodd
    · rw [Nat.even_iff.mp heven, Nat.add_zero]
      exact ⟨.inl (by linarith), .inr ⟨h, heven⟩⟩
    · rw [Nat.odd_iff.mp hodd]
      push_cast
      exact ⟨.inr ⟨by linarith, hodd.add_one⟩, .inl (by linarith)⟩
  · push_cast
    exact ⟨.inl (by linarith), .inl (by linarith)⟩

end Represents

/-! ## The mantissa of a quotient -/

theorem represents_exact (m : ℕ) : Represents (.ofMantissaAndAccuracy m .exact) m := rfl

/-- The whole part of a quotient with the size of the remainder stands for the quotient. -/
theorem represents_div (num : ℕ) {den : ℕ} (hd : 0 < den) :
    Represents (.ofMantissaAndAccuracy (num / den) (accuracyOfFraction (num % den) den))
      (num / den) := by
  have hden : (0 : ℚ) < den := by exact_mod_cast hd
  have hmod := Nat.mod_lt num hd
  have hdiv : (num : ℚ) = den * (num / den : ℕ) + (num % den : ℕ) := by
    exact_mod_cast (Nat.div_add_mod num den).symm
  generalize num / den = c at *
  generalize num % den = s at *
  unfold accuracyOfFraction
  split
  · next hs =>
    subst hs
    show (num : ℚ) / den = c
    rw [hdiv]
    field_simp
    simp
  · next hs =>
    have hs' : (0 : ℚ) < s := by exact_mod_cast Nat.pos_of_ne_zero hs
    have hlt : (s : ℚ) < den := by exact_mod_cast hmod
    rcases lt_trichotomy (2 * s) den with hhalf | hhalf | hhalf
    · rw [Nat.compare_eq_lt.mpr hhalf]
      have hhalf' : 2 * (s : ℚ) < den := by exact_mod_cast hhalf
      show (c : ℚ) < num / den ∧ 2 * ((num : ℚ) / den) < 2 * c + 1
      rw [lt_div_iff₀ hden, ← mul_div_assoc, div_lt_iff₀ hden, hdiv]
      exact ⟨by linarith, by linarith⟩
    · rw [Nat.compare_eq_eq.mpr hhalf]
      have hhalf' : 2 * (s : ℚ) = den := by exact_mod_cast hhalf
      show 2 * ((num : ℚ) / den) = 2 * c + 1
      rw [← mul_div_assoc, div_eq_iff hden.ne', hdiv]
      linarith
    · rw [Nat.compare_eq_gt.mpr hhalf]
      have hhalf' : (den : ℚ) < 2 * s := by exact_mod_cast hhalf
      show 2 * (c : ℚ) + 1 < 2 * ((num : ℚ) / den) ∧ (num : ℚ) / den < c + 1
      rw [div_lt_iff₀ hden, ← mul_div_assoc, lt_div_iff₀ hden, hdiv]
      exact ⟨by linarith, by linarith⟩

/-! ## Shifting to 53 digits -/

variable {m : ℕ} {e : ℤ} {acc : Accuracy} {t : ℚ}

theorem targetExponent_eq (m : ℕ) (e : ℤ) :
    Format.binary64.targetExponent (totalExponent m e) = max ((m.log2 : ℤ) + e - 52) (-1074) := by
  have hbits : ((Format.binary64.mantissaBits : ℕ) : ℤ) = 53 := rfl
  have hleast : Format.binary64.minExponent = -1074 := rfl
  rw [Format.targetExponent, totalExponent, hbits, hleast]
  congr 1
  ring

/-- The first shift leaves 53 digits, or more of them at the least place, and keeps the number. -/
theorem exists_shiftToTargetExponent (ht : Represents (.ofMantissaAndAccuracy m acc) t)
    (hfull : 2 ^ 52 ≤ m ∨ e ≤ -1074) :
    ∃ em d, shiftToTargetExponent Format.binary64 m e acc = (em, d) ∧
      Represents em (t * 2 ^ e / 2 ^ d) ∧ -1074 ≤ d ∧ t * 2 ^ e / 2 ^ d < 2 ^ 53 ∧
      ((2 : ℚ) ^ 52 ≤ t * 2 ^ e / 2 ^ d ∨ d = -1074) := by
  have hmantissa : (ExtendedMantissa.ofMantissaAndAccuracy m acc).mantissa = m := by
    rcases acc with _ | (_ | _ | _) <;> rfl
  have hlow := ht.le
  have hhigh := ht.lt_add_one
  rw [hmantissa] at hlow hhigh
  have hlog : 52 ≤ m.log2 ∨ e ≤ -1074 := by
    rcases hfull with h | h
    · exact .inl ((Nat.le_log2 (by omega)).mpr h)
    · exact .inr h
  have htarget := targetExponent_eq m e
  -- How far the mantissa is shifted.
  obtain ⟨n, hn⟩ := Int.eq_ofNat_of_zero_le
    (show 0 ≤ Format.binary64.targetExponent (totalExponent m e) - e by omega)
  have hshift : t * 2 ^ e / 2 ^ (e + (n : ℤ)) = t / 2 ^ n := by
    rw [zpow_add₀ two_ne_zero, zpow_natCast]
    field_simp
  refine ⟨ExtendedMantissa.ofMantissaAndAccuracy m acc >>> n, e + (n : ℤ), ?_, ?_, by omega, ?_, ?_⟩
  · rw [shiftToTargetExponent, shiftToExponent, hn, Int.toNat_natCast]
  · rw [hshift]
    exact ht.shiftRight n
  · rw [hshift, div_lt_iff₀ (by positivity), ← pow_add]
    have hlt : m + 1 ≤ 2 ^ (53 + n) :=
      Nat.lt_log2_self.trans_le (Nat.pow_le_pow_right two_pos (by omega))
    calc t < m + 1 := hhigh
      _ ≤ 2 ^ (53 + n) := by exact_mod_cast hlt
  · by_cases hleast : e + (n : ℤ) = -1074
    · exact .inr hleast
    · left
      have hdigits : m.log2 = 52 + n := by omega
      have hle : 2 ^ (52 + n) ≤ m := by
        rw [← hdigits]
        exact Nat.log2_self_le (by rintro rfl; simp at hdigits; omega)
      rw [hshift, le_div_iff₀ (by positivity), ← pow_add]
      calc (2 : ℚ) ^ (52 + n) ≤ m := by exact_mod_cast hle
        _ ≤ t := hlow

/-- With 53 digits at most there is nothing left to shift; if rounding has added a digit, one
zero is taken away. -/
theorem shiftToTargetExponent_exact {r : ℕ} (hr : r ≤ 2 ^ 53) {d : ℤ} (hd : -1074 ≤ d) :
    shiftToTargetExponent Format.binary64 r d .exact =
      if r = 2 ^ 53 then (⟨2 ^ 52, false, false⟩, d + 1) else (⟨r, false, false⟩, d) := by
  have htarget := targetExponent_eq r d
  split
  · next h =>
    subst h
    rw [Nat.log2_two_pow] at htarget
    have hone : (Format.binary64.targetExponent (totalExponent (2 ^ 53) d) - d).toNat = 1 := by
      omega
    rw [shiftToTargetExponent, shiftToExponent, hone]
    rfl
  · next h =>
    have hlog : r.log2 ≤ 52 := by
      rcases Nat.eq_zero_or_pos r with rfl | hpos
      · decide
      · exact Nat.le_of_lt_succ ((Nat.log2_lt hpos.ne').mpr (by omega))
    have hzero : (Format.binary64.targetExponent (totalExponent r d) - d).toNat = 0 := by omega
    rw [shiftToTargetExponent, shiftToExponent, hzero, Nat.cast_zero, add_zero]
    rfl

/-! ## The rounded double -/

theorem pack_roundWithAccuracy {em : ExtendedMantissa} {d : ℤ}
    (hfirst : shiftToTargetExponent Format.binary64 m e acc = (em, d))
    (hr : em.roundedMantissa ≤ 2 ^ 53) (hd : -1074 ≤ d) :
    Float.ofModel (.pack (roundWithAccuracy Format.binary64 .positive m e acc)) =
      ofPlace em.roundedMantissa d := by
  rw [roundWithAccuracy, hfirst]
  dsimp only
  rw [shiftToTargetExponent_exact hr hd]
  by_cases h53 : em.roundedMantissa = 2 ^ 53
  · have hpos : 0 < em.roundedMantissa := by omega
    rw [ofPlace, dif_pos hpos, if_pos h53, if_pos h53]
    rfl
  · rw [if_neg h53]
    dsimp only
    by_cases hzero : em.roundedMantissa = 0
    · rw [dif_pos hzero, ofPlace, dif_neg (by omega)]
      rfl
    · rw [dif_neg hzero, ofPlace, dif_pos (Nat.pos_of_ne_zero hzero), if_neg h53]

/-- The double that rounding makes from a positive mantissa and its accuracy is the nearest one to
the number that they stand for. -/
theorem nearest_roundWithAccuracy (ht : Represents (.ofMantissaAndAccuracy m acc) t)
    (hfull : 2 ^ 52 ≤ m ∨ e ≤ -1074) :
    Nearest (t * 2 ^ e)
      (.ofModel (.pack (roundWithAccuracy Format.binary64 .positive m e acc))) := by
  obtain ⟨em, d, hfirst, hem, hd, hlt, hfull⟩ := exists_shiftToTargetExponent ht hfull
  obtain ⟨hlow, hhigh⟩ := hem.roundedMantissa
  have hr : em.roundedMantissa ≤ 2 ^ 53 := by
    have : (2 * em.roundedMantissa : ℚ) < 2 * 2 ^ 53 + 1 := by
      rcases hlow with h | ⟨h, -⟩ <;> linarith
    have : 2 * em.roundedMantissa < 2 * 2 ^ 53 + 1 := by exact_mod_cast this
    omega
  have h := nearest_ofPlace hd hlt hfull hlow hhigh
  rwa [div_mul_cancel₀ _ (by positivity), ← pack_roundWithAccuracy hfirst hr hd] at h

theorem shiftLeft_value (m : ℕ) {d : ℤ} (h : d ≤ e) :
    ((m <<< (e - d).toNat : ℕ) : ℚ) * 2 ^ d = m * 2 ^ e := by
  obtain ⟨n, hn⟩ := Int.eq_ofNat_of_zero_le (sub_nonneg.mpr h)
  obtain rfl : e = d + n := by omega
  rw [hn, Int.toNat_natCast, Nat.shiftLeft_eq, zpow_add₀ two_ne_zero, zpow_natCast]
  push_cast
  ring

theorem two_pow_le_shiftLeft (hm : 0 < m) {i j : ℕ} (h : j ≤ m.log2 + i) : 2 ^ j ≤ m <<< i := by
  rw [Nat.shiftLeft_eq]
  calc 2 ^ j ≤ 2 ^ (m.log2 + i) := Nat.pow_le_pow_right two_pos h
    _ = 2 ^ m.log2 * 2 ^ i := pow_add 2 _ _
    _ ≤ m * 2 ^ i := Nat.mul_le_mul_right _ (Nat.log2_self_le hm.ne')

/-- Rounding a positive mantissa leads to the nearest double. -/
theorem nearest_round (hm : 0 < m) (e : ℤ) :
    Nearest (m * 2 ^ e)
      (.ofModel (.pack (Float.Model.UnpackedFloat.round Format.binary64 .positive m e))) := by
  have htarget := targetExponent_eq m e
  rw [Float.Model.UnpackedFloat.round, decreaseExponent]
  generalize hd : Format.binary64.targetExponent (totalExponent m e) = d at htarget
  have hvalue : (m : ℚ) * 2 ^ e =
      ((m <<< (e - d).toNat : ℕ) : ℚ) * 2 ^ (e - ((e - d).toNat : ℤ)) := by
    have h := shiftLeft_value m (show e - ((e - d).toNat : ℤ) ≤ e by omega)
    rw [sub_sub_cancel, Int.toNat_natCast] at h
    exact h.symm
  rw [hvalue]
  refine nearest_roundWithAccuracy (represents_exact _) ?_
  by_cases hleast : e - ((e - d).toNat : ℤ) ≤ -1074
  · exact .inr hleast
  · exact .inl (two_pow_le_shiftLeft hm (by omega))

end PathCurves.Double
