/-
The reading of ratios and of decimal numbers as doubles is correctly rounded. Main statements:
`nearest_ofRatio` and `nearest_ofDecimal`, for numbers of any size.
-/
import PathCurves.Proofs.Nearest

namespace PathCurves.Double

/-! ## Powers with a whole exponent as ratios of natural numbers -/

theorem zpow_eq_div (b : ℕ) (e : ℤ) :
    (b : ℚ) ^ e = ((b ^ e.toNat : ℕ) : ℚ) / ((b ^ (-e).toNat : ℕ) : ℚ) := by
  rcases le_total 0 e with he | he
  · obtain ⟨n, rfl⟩ := Int.eq_ofNat_of_zero_le he
    have hneg : (-(n : ℤ)).toNat = 0 := by omega
    rw [hneg, zpow_natCast, Int.toNat_natCast]
    push_cast
    rw [pow_zero, div_one]
  · obtain ⟨n, hn⟩ := Int.eq_ofNat_of_zero_le (neg_nonneg.mpr he)
    have hpos : e.toNat = 0 := by omega
    have he' : e = -(n : ℤ) := by omega
    rw [hpos, hn, Int.toNat_natCast, he', zpow_neg, zpow_natCast]
    push_cast
    rw [pow_zero, one_div]

/-- A multiple of a power as a ratio of natural numbers. -/
theorem ratio_eq_mul_zpow (b n : ℕ) (e : ℤ) :
    ((n * b ^ e.toNat : ℕ) : ℚ) / ((b ^ (-e).toNat : ℕ) : ℚ) = n * (b : ℚ) ^ e := by
  rw [zpow_eq_div, Nat.cast_mul, mul_div_assoc]

/-- A ratio in units of a power. -/
theorem ratio_scale (b num den : ℕ) (e : ℤ) :
    ((num * b ^ (-e).toNat : ℕ) : ℚ) / ((den * b ^ e.toNat : ℕ) : ℚ) =
      (num : ℚ) / den / (b : ℚ) ^ e := by
  rw [zpow_eq_div, Nat.cast_mul, Nat.cast_mul, div_div_eq_mul_div, div_mul_eq_mul_div, div_div]

theorem zpow_le_ratio_iff {b : ℕ} (hb : 0 < b) {num den : ℕ} (hd : 0 < den) (e : ℤ) :
    (b : ℚ) ^ e ≤ (num : ℚ) / den ↔ den * b ^ e.toNat ≤ num * b ^ (-e).toNat := by
  have hb' : (0 : ℚ) < b := by exact_mod_cast hb
  have hden : (0 : ℚ) < ((den * b ^ e.toNat : ℕ) : ℚ) := by positivity
  rw [← one_le_div₀ (zpow_pos hb' e), ← ratio_scale, one_le_div₀ hden, Nat.cast_le]

/-! ## The parts of a rounded ratio -/

theorem binaryOrder_spec {num den : ℕ} (hn : 0 < num) (hd : 0 < den) :
    (2 : ℚ) ^ binaryOrder num den ≤ (num : ℚ) / den ∧
      (num : ℚ) / den < (2 : ℚ) ^ (binaryOrder num den + 1) := by
  have hden : (0 : ℚ) < den := by exact_mod_cast hd
  have hn₁ : (2 : ℚ) ^ (num.log2 : ℤ) ≤ num := by
    exact_mod_cast Nat.log2_self_le hn.ne'
  have hn₂ : (num : ℚ) < 2 ^ ((num.log2 : ℤ) + 1) := by
    exact_mod_cast Nat.lt_log2_self
  have hd₁ : (2 : ℚ) ^ (den.log2 : ℤ) ≤ den := by
    exact_mod_cast Nat.log2_self_le hd.ne'
  have hd₂ : (den : ℚ) < 2 ^ ((den.log2 : ℤ) + 1) := by
    exact_mod_cast Nat.lt_log2_self
  have htwo : (2 : ℚ) ≠ 0 := by norm_num
  unfold binaryOrder
  dsimp only
  generalize hl : (num.log2 : ℤ) = l at *
  generalize hk : (den.log2 : ℤ) = k at *
  have hle := @zpow_le_ratio_iff 2 (by norm_num) num den hd (l - k)
  rw [Nat.cast_ofNat] at hle
  split
  · next h =>
    refine ⟨hle.mpr h, ?_⟩
    rw [div_lt_iff₀ hden]
    calc (num : ℚ) < 2 ^ (l + 1) := hn₂
      _ = 2 ^ (l - k + 1) * 2 ^ k := by rw [← zpow_add₀ htwo]; congr 1; ring
      _ ≤ 2 ^ (l - k + 1) * den := by gcongr
  · next h =>
    rw [sub_add_cancel]
    refine ⟨?_, not_le.mp fun h' => h (hle.mp h')⟩
    rw [le_div_iff₀ hden]
    calc (2 : ℚ) ^ (l - k - 1) * den ≤ 2 ^ (l - k - 1) * 2 ^ (k + 1) := by gcongr
      _ = 2 ^ l := by rw [← zpow_add₀ htwo]; congr 1; ring
      _ ≤ num := hn₁

/-- The rounded ratio is the whole number nearest to the ratio; in the middle it is even. -/
theorem roundRatio_spec (num : ℕ) {den : ℕ} (hd : 0 < den) :
    (2 * (roundRatio num den : ℚ) - 1 < 2 * (num / den) ∨
      2 * (roundRatio num den : ℚ) - 1 = 2 * (num / den) ∧ Even (roundRatio num den)) ∧
    (2 * (num / den) < 2 * (roundRatio num den : ℚ) + 1 ∨
      2 * (num / den) = 2 * (roundRatio num den : ℚ) + 1 ∧ Even (roundRatio num den)) := by
  have hden : (0 : ℚ) < den := by exact_mod_cast hd
  have hratio : (num : ℚ) / den = (num / den : ℕ) + (num % den : ℕ) / den := by
    have h : (den : ℚ) * (num / den : ℕ) + (num % den : ℕ) = num := by
      exact_mod_cast Nat.div_add_mod num den
    field_simp
    linarith
  have hmod : ((num % den : ℕ) : ℚ) / den < 1 := by
    rw [div_lt_one hden]
    exact_mod_cast Nat.mod_lt num hd
  have hmod₀ : 0 ≤ ((num % den : ℕ) : ℚ) / den := by positivity
  have hlt : 2 * (num % den) < den ↔ 2 * (((num % den : ℕ) : ℚ) / den) < 1 := by
    rw [← mul_div_assoc, div_lt_one hden]
    exact_mod_cast Iff.rfl
  have hgt : den < 2 * (num % den) ↔ 1 < 2 * (((num % den : ℕ) : ℚ) / den) := by
    rw [← mul_div_assoc, one_lt_div hden]
    exact_mod_cast Iff.rfl
  rw [hratio]
  unfold roundRatio
  dsimp only
  generalize num / den = c at *
  generalize ((num % den : ℕ) : ℚ) / den = s at *
  split
  · next h =>
    have := hlt.mp h
    exact ⟨.inl (by linarith), .inl (by linarith)⟩
  · next h =>
    split
    · next h' =>
      have := hgt.mp h'
      push_cast
      exact ⟨.inl (by linarith), .inl (by linarith)⟩
    · next h' =>
      have hs : 2 * s = 1 := le_antisymm (not_lt.mp (mt hgt.mpr h')) (not_lt.mp (mt hlt.mpr h))
      rcases Nat.even_or_odd c with heven | hodd
      · rw [Nat.even_iff.mp heven, add_zero]
        exact ⟨.inl (by linarith), .inr ⟨by linarith, heven⟩⟩
      · rw [Nat.odd_iff.mp hodd]
        push_cast
        exact ⟨.inr ⟨by linarith, hodd.add_one⟩, .inl (by linarith)⟩

/-! ## Rounding to a place -/

theorem even_place {k m : ℕ} : Even (k * 2 ^ 52 + m) ↔ Even m := by
  rw [Nat.even_add, iff_true_left ((by decide : Even (2 ^ 52)).mul_left k)]

/-- A number of `t` units that is not below the middle before `m` units reaches the double of
`m` units. -/
theorem reaches_of_place {t : ℚ} {k m : ℕ} (hm : m ≤ 2 ^ 53)
    (hk : 2 ^ 52 ≤ m ∧ 2 ^ 52 - 1 / 4 < t ∨ k = 0)
    (h : 2 * (m : ℚ) - 1 < 2 * t ∨ 2 * (m : ℚ) - 1 = 2 * t ∧ Even m) :
    Reaches gridValue (t * 2 ^ ((k : ℤ) - 1074)) (k * 2 ^ 52 + m) := by
  intro j hj
  rw [gridValue_add hm (by omega), even_place]
  by_cases hfirst : m = 2 ^ 52 ∧ k ≠ 0
  · -- Below the least number with 53 digits the doubles lie closer together.
    obtain ⟨rfl, hk₀⟩ := hfirst
    obtain ⟨i, rfl⟩ := Nat.exists_eq_succ_of_ne_zero hk₀
    have ht := (hk.resolve_right hk₀).2
    have hj' : j = i * 2 ^ 52 + (2 ^ 53 - 1) := by omega
    have hu : (0 : ℚ) < 2 ^ ((i : ℤ) - 1074) := by positivity
    have hstep : ((i + 1 : ℕ) : ℤ) - 1074 = (i : ℤ) - 1074 + 1 := by
      push_cast
      ring
    rw [hj', gridValue_add (by omega) (by omega), hstep, zpow_add_one₀ (by norm_num)]
    have := mul_lt_mul_of_pos_right ht hu
    left
    push_cast
    linarith
  · obtain ⟨i, rfl⟩ : ∃ i, m = i + 1 := ⟨m - 1, by omega⟩
    have hj' : j = k * 2 ^ 52 + i := by omega
    have hu : (0 : ℚ) < 2 ^ ((k : ℤ) - 1074) := by positivity
    rw [hj', gridValue_add (by omega) (by omega)]
    push_cast at h ⊢
    rcases h with h | ⟨h, heven⟩
    · have := mul_lt_mul_of_pos_right h hu
      left
      linarith
    · right
      exact ⟨by linear_combination (2 : ℚ) ^ ((k : ℤ) - 1074) * h, heven⟩

/-- A number of `t` units that is not above the middle after `m` units stays at the double of
`m` units. -/
theorem stays_of_place {t : ℚ} {k m : ℕ} (hm : m ≤ 2 ^ 53) (hk : 2 ^ 52 ≤ m ∨ k = 0)
    (ht : t < 2 ^ 53) (h : 2 * t < 2 * (m : ℚ) + 1 ∨ 2 * t = 2 * (m : ℚ) + 1 ∧ Even m) :
    Stays gridValue (t * 2 ^ ((k : ℤ) - 1074)) (k * 2 ^ 52 + m) := by
  have hu : (0 : ℚ) < 2 ^ ((k : ℤ) - 1074) := by positivity
  rcases hm.lt_or_eq with hlt | rfl
  · have hnext : k * 2 ^ 52 + m + 1 = k * 2 ^ 52 + (m + 1) := by omega
    rw [Stays, even_place, hnext, gridValue_add hm hk, gridValue_add hlt (by omega)]
    push_cast
    rcases h with h | ⟨h, heven⟩
    · have := mul_lt_mul_of_pos_right h hu
      left
      linarith
    · right
      exact ⟨by linear_combination (2 : ℚ) ^ ((k : ℤ) - 1074) * h, heven⟩
  · have hnext := gridValue_strictMono (Nat.lt_succ_self (k * 2 ^ 52 + 2 ^ 53))
    have := mul_lt_mul_of_pos_right ht hu
    left
    rw [gridValue_add hm hk] at hnext ⊢
    push_cast at hnext ⊢
    linarith

/-! ## The double of a mantissa and a place -/

theorem bits_pack_of_large {m : ℕ} {e : ℤ} (hm : 0 < m) (he : 971 < e) :
    bits (.ofModel (.pack (.finite .positive m e hm))) = top := by
  show (Float.Model.UnpackedFloat.pack Float.Model.Format.binary64
    (.finite .positive m e hm)).toNat = top
  have hexp : (e + (Float.Model.Format.binary64.exponentBias : ℤ) + (52 : ℕ)).toNat =
      (e + 1075).toNat := by
    show (e + 1023 + 52).toNat = _
    omega
  have hout : 2 ^ 11 ≤ (e + 1075).toNat + 1 := by omega
  simp only [Float.Model.UnpackedFloat.pack, hexp, hout, if_true]
  decide

theorem bits_ofPlace {m : ℕ} {e : ℤ} (hm : m ≤ 2 ^ 53) (he : -1074 ≤ e)
    (hfull : 2 ^ 52 ≤ m ∨ e = -1074) :
    bits (ofPlace m e) = min ((e + 1074).toNat * 2 ^ 52 + m) top := by
  unfold ofPlace
  split
  · next hpos =>
    split
    · next hm53 =>
      by_cases hlarge : 971 < e + 1
      · rw [bits_pack_of_large (by decide) hlarge, top]
        omega
      · rw [bits_finite (m := 2 ^ 52) ⟨by decide, by decide, by omega, by omega, .inl le_rfl⟩, top]
        omega
    · next hm53 =>
      by_cases hlarge : 971 < e
      · rw [bits_pack_of_large hpos hlarge, top]
        omega
      · rw [bits_finite ⟨hpos, by omega, he, by omega, hfull⟩, top]
        omega
  · next hpos =>
    rw [bits_zero, top]
    omega

/-! ## Ratios and decimal numbers -/

/-- In units of its last place a ratio has at most 53 digits, and 53 digits unless that place
is the least one. -/
theorem ratio_lastPlace {num den : ℕ} (hn : 0 < num) (hd : 0 < den) :
    (num : ℚ) / den / 2 ^ lastPlace num den < 2 ^ 53 ∧
      ((2 : ℚ) ^ 52 ≤ (num : ℚ) / den / 2 ^ lastPlace num den ∨ lastPlace num den = -1074) := by
  obtain ⟨hlow, hhigh⟩ := binaryOrder_spec hn hd
  have htwo : (2 : ℚ) ≠ 0 := by norm_num
  unfold lastPlace
  generalize binaryOrder num den = b at *
  generalize he : max (b - 52) (-1074) = e
  have hu : (0 : ℚ) < 2 ^ e := by positivity
  constructor
  · rw [div_lt_iff₀ hu]
    calc (num : ℚ) / den < 2 ^ (b + 1) := hhigh
      _ ≤ 2 ^ ((53 : ℕ) + e) := zpow_le_zpow_right₀ (by norm_num) (by omega)
      _ = 2 ^ 53 * 2 ^ e := by rw [zpow_add₀ htwo, zpow_natCast]
  · rcases le_or_gt (-1074) (b - 52) with hb | hb
    · left
      rw [le_div_iff₀ hu]
      calc (2 : ℚ) ^ 52 * 2 ^ e = 2 ^ ((52 : ℕ) + e) := by rw [zpow_add₀ htwo, zpow_natCast]
        _ = 2 ^ b := by congr 1; omega
        _ ≤ (num : ℚ) / den := hlow
    · right
      omega

/-- The double of a mantissa that is nearest to a number of units is the nearest double, if the
number has as many digits as a double in that place. -/
theorem nearest_ofPlace {t : ℚ} {m : ℕ} {e : ℤ} (hleast : -1074 ≤ e) (hlt : t < 2 ^ 53)
    (hfull : (2 : ℚ) ^ 52 ≤ t ∨ e = -1074)
    (hlow : 2 * (m : ℚ) - 1 < 2 * t ∨ 2 * (m : ℚ) - 1 = 2 * t ∧ Even m)
    (hhigh : 2 * t < 2 * (m : ℚ) + 1 ∨ 2 * t = 2 * (m : ℚ) + 1 ∧ Even m) :
    Nearest (t * 2 ^ e) (ofPlace m e) := by
  have hexp : ((e + 1074).toNat : ℤ) - 1074 = e := by omega
  have hm : m ≤ 2 ^ 53 := by
    have : (2 * m : ℚ) < 2 * 2 ^ 53 + 1 := by rcases hlow with h | ⟨h, -⟩ <;> linarith
    have : 2 * m < 2 * 2 ^ 53 + 1 := by exact_mod_cast this
    omega
  have hk : 2 ^ 52 ≤ m ∧ 2 ^ 52 - 1 / 4 < t ∨ (e + 1074).toNat = 0 := by
    rcases hfull with h | h
    · have : (2 * 2 ^ 52 : ℚ) ≤ 2 * m + 1 := by rcases hhigh with h' | ⟨h', -⟩ <;> linarith
      have : 2 * 2 ^ 52 ≤ 2 * m + 1 := by exact_mod_cast this
      exact .inl ⟨by omega, by linarith⟩
    · right
      omega
  have hvalue : t * 2 ^ e = t * 2 ^ (((e + 1074).toNat : ℤ) - 1074) := by rw [hexp]
  rw [nearest_iff, hvalue, bits_ofPlace hm hleast (by omega)]
  exact rounds_min gridValue_strictMono (reaches_of_place hm hk hlow)
    (stays_of_place hm (by omega) hlt hhigh)

/-- The reading of a ratio is correctly rounded. -/
theorem nearest_ofRatio {num den : ℕ} (hn : 0 < num) (hd : 0 < den) :
    Nearest ((num : ℚ) / den) (ofRatio num den) := by
  obtain ⟨hlt, hfull⟩ := ratio_lastPlace hn hd
  have hleast : -1074 ≤ lastPlace num den := le_max_right _ _
  rw [ofRatio]
  generalize lastPlace num den = e at *
  have hpos : 0 < den * 2 ^ e.toNat := by positivity
  obtain ⟨hlow, hhigh⟩ := roundRatio_spec (num * 2 ^ (-e).toNat) hpos
  rw [ratio_scale, Nat.cast_ofNat] at hlow hhigh
  have h := nearest_ofPlace hleast hlt hfull hlow hhigh
  rwa [div_mul_cancel₀ _ (by positivity)] at h

/-- The number that decimal digits with a power of ten stand for. -/
def decimalValue (digits : ℕ) (exponent : ℤ) : ℚ := digits * 10 ^ exponent

theorem nearest_zero {q : ℚ} (hq : 2 * q < 2 ^ (-1074 : ℤ)) : Nearest q zero := by
  rw [nearest_iff, bits_zero]
  refine ⟨Nat.zero_le _, reaches_zero, fun _ => .inl ?_⟩
  have h := gridValue_add (k := 0) (m := 1) (by decide) (.inr rfl)
  rw [zero_mul, Nat.zero_add] at h
  rw [gridValue_zero, h]
  simpa using hq

theorem nearest_infinity {q : ℚ} (hq : 2 ^ 1024 ≤ q) : Nearest q infinity := by
  rw [nearest_iff, bits_infinity]
  exact rounds_top gridValue_strictMono (gridValue_top ▸ hq)

theorem ten_zpow_le {e : ℤ} (he : e ≤ 0) : (10 : ℚ) ^ e ≤ 2 ^ (3 * e) := by
  obtain ⟨n, hn⟩ := Int.eq_ofNat_of_zero_le (neg_nonneg.mpr he)
  have he' : e = -(n : ℤ) := by omega
  rw [he', mul_neg, zpow_neg, zpow_neg, zpow_mul, zpow_natCast, zpow_natCast]
  gcongr
  norm_num

/-- The reading of a decimal number is correctly rounded, however large or small it is. -/
theorem nearest_ofDecimal (digits : ℕ) (exponent : ℤ) :
    Nearest (decimalValue digits exponent) (ofDecimal digits exponent) := by
  unfold ofDecimal decimalValue
  split
  · next hzero =>
    subst hzero
    refine nearest_zero ?_
    rw [Nat.cast_zero, zero_mul, mul_zero]
    positivity
  · next hzero =>
    have hdigits : (1 : ℚ) ≤ digits := by exact_mod_cast Nat.pos_of_ne_zero hzero
    split
    · next hlarge =>
      refine nearest_infinity ?_
      calc (2 : ℚ) ^ 1024 = (2 ^ 64) ^ 16 := by rw [← pow_mul]
        _ ≤ (10 ^ 25) ^ 16 := pow_le_pow_left₀ (by norm_num) (by norm_num) 16
        _ = 10 ^ (400 : ℤ) := by rw [← pow_mul]; rfl
        _ ≤ 10 ^ exponent := zpow_le_zpow_right₀ (by norm_num) hlarge.le
        _ ≤ digits * 10 ^ exponent := le_mul_of_one_le_left (by positivity) hdigits
    · split
      · next hsmall =>
        refine nearest_zero ?_
        have hlog : (digits : ℚ) < 2 ^ ((digits.log2 : ℤ) + 1) := by
          exact_mod_cast Nat.lt_log2_self
        have htwo : (2 : ℚ) ≠ 0 := by norm_num
        calc 2 * (digits * 10 ^ exponent : ℚ)
            < 2 * (2 ^ ((digits.log2 : ℤ) + 1) * 10 ^ exponent) := by gcongr
          _ ≤ 2 * (2 ^ ((digits.log2 : ℤ) + 1) * 2 ^ (3 * exponent)) := by
            gcongr
            exact ten_zpow_le (by omega)
          _ = 2 ^ (1 + ((digits.log2 : ℤ) + 1 + 3 * exponent)) := by
            rw [zpow_one_add₀ htwo, zpow_add₀ htwo (_ + 1)]
          _ ≤ 2 ^ (-1074 : ℤ) := zpow_le_zpow_right₀ (by norm_num) (by omega)
      · have hnum : 0 < digits * 10 ^ exponent.toNat := by positivity
        have hden : 0 < 10 ^ (-exponent).toNat := by positivity
        have h := nearest_ofRatio hnum hden
        rwa [ratio_eq_mul_zpow, Nat.cast_ofNat] at h

end PathCurves.Double
