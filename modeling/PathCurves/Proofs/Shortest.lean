/-
The shortest decimal of a double is read as this double, and no decimal with fewer digits is.
Main statements: `toDouble_shortest` and `digitCount_shortest_le`; for both it matters that
what is read as a double lies between two middles (`toDouble_eq_iff`), and for the first that
seventeen digits come close enough to it (`exists_toDouble`).
-/
import PathCurves.Double.Shortest
import PathCurves.Proofs.Rounding

namespace PathCurves.Decimal

open Double

/-- The number that a decimal stands for. -/
def value (d : Decimal) : ℚ := decimalValue d.digits d.exponent

/-! ## Counting digits -/

theorem digitCount_le_iff {n k : ℕ} (hk : 0 < k) : digitCount n ≤ k ↔ n < 10 ^ k :=
  Nat.length_toDigits_le_iff (by decide) hk

theorem digitCount_pos (n : ℕ) : 0 < digitCount n :=
  List.length_pos_iff.mpr Nat.toDigits_ne_nil

theorem lt_pow_digitCount (n : ℕ) : n < 10 ^ digitCount n :=
  (digitCount_le_iff (digitCount_pos n)).mp le_rfl

theorem pow_le_of_digitCount {n : ℕ} (hn : 0 < n) : 10 ^ (digitCount n - 1) ≤ n := by
  rcases Nat.eq_zero_or_pos (digitCount n - 1) with h | h
  · rw [h, pow_zero]
    exact hn
  · by_contra hlt
    have := (digitCount_le_iff h).mpr (not_le.mp hlt)
    have := digitCount_pos n
    omega

/-- The order of a ratio is the power of ten of its leading digit. -/
theorem order_spec {num den : ℕ} (hn : 0 < num) (hd : 0 < den) :
    (10 : ℚ) ^ order num den ≤ (num : ℚ) / den ∧
      (num : ℚ) / den < (10 : ℚ) ^ (order num den + 1) := by
  have hnum : (0 : ℚ) < num := by exact_mod_cast hn
  have hden : (0 : ℚ) < den := by exact_mod_cast hd
  unfold order
  split
  · next hle =>
    have hpos : 0 < num / den := Nat.div_pos hle hd
    have hlow := pow_le_of_digitCount hpos
    have hhigh := lt_pow_digitCount (num / den)
    have hcount := digitCount_pos (num / den)
    generalize digitCount (num / den) = k at *
    obtain ⟨k, rfl⟩ : ∃ j, k = j + 1 := ⟨k - 1, by omega⟩
    rw [Nat.add_sub_cancel, Nat.le_div_iff_mul_le hd] at hlow
    rw [Nat.div_lt_iff_lt_mul hd] at hhigh
    rw [sub_add_cancel, zpow_natCast, Nat.cast_add_one, add_sub_cancel_right, zpow_natCast,
      le_div_iff₀ hden, div_lt_iff₀ hden]
    exact ⟨by exact_mod_cast hlow, by exact_mod_cast hhigh⟩
  · next hlt =>
    have hpos : 0 < (den - 1) / num := Nat.div_pos (by omega) hn
    have hlow := pow_le_of_digitCount hpos
    have hhigh := lt_pow_digitCount ((den - 1) / num)
    have hcount := digitCount_pos ((den - 1) / num)
    generalize digitCount ((den - 1) / num) = k at *
    obtain ⟨k, rfl⟩ : ∃ j, k = j + 1 := ⟨k - 1, by omega⟩
    rw [Nat.add_sub_cancel, Nat.le_div_iff_mul_le hn] at hlow
    rw [Nat.div_lt_iff_lt_mul hn] at hhigh
    have hlow' : ((10 ^ k * num : ℕ) : ℚ) < den := by exact_mod_cast (by omega : 10 ^ k * num < den)
    have hhigh' : (den : ℚ) ≤ ((10 ^ (k + 1) * num : ℕ) : ℚ) := by
      exact_mod_cast (by omega : den ≤ 10 ^ (k + 1) * num)
    have hexp : -((k + 1 : ℕ) : ℤ) + 1 = -(k : ℤ) := by
      push_cast
      ring
    rw [hexp, zpow_neg, zpow_neg, zpow_natCast, zpow_natCast, inv_le_iff_one_le_mul₀ (by positivity),
      lt_inv_comm₀ (by positivity) (by positivity), inv_div, div_mul_eq_mul_div, one_le_div₀ hden,
      lt_div_iff₀ hnum]
    push_cast at hlow' hhigh'
    exact ⟨by linarith, hlow'⟩

/-! ## Candidates -/

theorem decimalValue_div_ten {n : ℕ} (h : n % 10 = 0) (e : ℤ) :
    decimalValue (n / 10) (e + 1) = decimalValue n e := by
  have hn : (n : ℚ) = (n / 10 : ℕ) * 10 := by
    exact_mod_cast (Nat.div_mul_cancel (Nat.dvd_of_mod_eq_zero h)).symm
  rw [decimalValue, decimalValue, zpow_add_one₀ (by norm_num), hn, mul_assoc, mul_comm (10 : ℚ)]

theorem value_trimmed (n : ℕ) (e : ℤ) : (trimmed n e).value = decimalValue n e := by
  fun_induction trimmed n e with
  | case1 n e h ih => rw [ih, decimalValue_div_ten h.2]
  | case2 n e h => rfl

theorem digits_trimmed_le (n : ℕ) (e : ℤ) : (trimmed n e).digits ≤ n := by
  fun_induction trimmed n e with
  | case1 n e h ih => exact ih.trans (Nat.div_le_self n 10)
  | case2 n e h => exact le_rfl

/-- Up to a power of ten, no more digits are left than that power has zeros. -/
theorem digitCount_trimmed_le {n k : ℕ} (hk : 0 < k) (hn : n ≤ 10 ^ k) (e : ℤ) :
    digitCount (trimmed n e).digits ≤ k := by
  rw [digitCount_le_iff hk]
  rcases hn.lt_or_eq with hlt | rfl
  · exact (digits_trimmed_le n e).trans_lt hlt
  · obtain ⟨j, rfl⟩ : ∃ j, k = j + 1 := ⟨k - 1, by omega⟩
    have hdiv : 10 ^ (j + 1) / 10 = 10 ^ j := by
      rw [pow_succ, Nat.mul_div_cancel _ (by decide)]
    have hmod : 0 < 10 ^ (j + 1) ∧ 10 ^ (j + 1) % 10 = 0 :=
      ⟨by positivity, Nat.mod_eq_zero_of_dvd (dvd_pow_self 10 (by omega))⟩
    rw [trimmed, if_pos hmod, hdiv]
    exact (digits_trimmed_le _ _).trans_lt (Nat.pow_lt_pow_right (by decide) (by omega))

/-- How many times a power of ten goes into a ratio. -/
def multiple (num den : ℕ) (p : ℤ) : ℕ := num * 10 ^ (-p).toNat / (den * 10 ^ p.toNat)

theorem mem_neighbours {num den : ℕ} {p : ℤ} {d : Decimal} :
    d ∈ neighbours num den p ↔
      d = trimmed (multiple num den p) p ∨ d = trimmed (multiple num den p + 1) p := by
  unfold neighbours multiple
  dsimp only
  split
  · rw [List.mem_pair]
  · rw [List.mem_pair, or_comm]

/-- The multiples of a power of ten that enclose a ratio. -/
theorem multiple_spec (num : ℕ) {den : ℕ} (hd : 0 < den) (p : ℤ) :
    decimalValue (multiple num den p) p ≤ num / den ∧
      (num : ℚ) / den < decimalValue (multiple num den p + 1) p := by
  have hu : (0 : ℚ) < 10 ^ p := by positivity
  have hpos : 0 < den * 10 ^ p.toNat := by positivity
  have hcast : (0 : ℚ) < ((den * 10 ^ p.toNat : ℕ) : ℚ) := by exact_mod_cast hpos
  have hlow := Nat.div_mul_le_self (num * 10 ^ (-p).toNat) (den * 10 ^ p.toNat)
  have hhigh := (Nat.div_lt_iff_lt_mul hpos).mp (Nat.lt_succ_self (multiple num den p))
  have hscale := ratio_scale 10 num den p
  rw [Nat.cast_ofNat] at hscale
  rw [decimalValue, decimalValue, ← le_div_iff₀ hu, ← div_lt_iff₀ hu, ← hscale, le_div_iff₀ hcast,
    div_lt_iff₀ hcast]
  exact ⟨by exact_mod_cast hlow, by exact_mod_cast hhigh⟩

/-- One of the multiples that enclose a ratio is at most half a unit away. -/
theorem exists_near (num : ℕ) {den : ℕ} (hd : 0 < den) (p : ℤ) :
    ∃ d ∈ neighbours num den p, |d.value - num / den| ≤ 10 ^ p / 2 := by
  obtain ⟨hlow, hhigh⟩ := multiple_spec num hd p
  have hstep : decimalValue (multiple num den p + 1) p =
      decimalValue (multiple num den p) p + 10 ^ p := by
    simp only [decimalValue]
    push_cast
    ring
  rcases le_total ((num : ℚ) / den - decimalValue (multiple num den p) p) (10 ^ p / 2) with h | h
  · refine ⟨_, mem_neighbours.mpr (.inl rfl), ?_⟩
    rw [value_trimmed, abs_le]
    exact ⟨by linarith, by linarith⟩
  · refine ⟨_, mem_neighbours.mpr (.inr rfl), ?_⟩
    rw [value_trimmed, abs_le]
    exact ⟨by linarith, by linarith⟩

/-! ## What is read as a double -/

variable {m : ℕ} {e : ℤ}

theorem toDouble_eq_iff (h : Canonical m e) (d : Decimal) :
    d.toDouble = ofPlace m e ↔
      Rounds gridValue top d.value ((e + 1074).toNat * 2 ^ 52 + m) := by
  have hd : Rounds gridValue top d.value (bits d.toDouble) := nearest_iff.mp (nearest_ofDecimal _ _)
  have htop : (e + 1074).toNat * 2 ^ 52 + m ≤ top := by
    have := h.lt
    have := h.greatest
    rw [top]
    omega
  have hplace := bits_ofPlace h.lt.le h.least h.full
  rw [min_eq_left htop] at hplace
  rw [← hplace]
  refine ⟨?_, ?_⟩
  · intro heq
    rwa [heq] at hd
  · intro hr
    exact eq_of_bits (hd.unique gridValue_strictMono hr)

/-- A decimal that comes closer to a double than its distance to the middles is read as it. -/
theorem toDouble_of_near (h : Canonical m e) {d : Decimal}
    (hd : |d.value / 2 ^ e - m| < 1 / 2) (hd' : m = 2 ^ 52 → |d.value / 2 ^ e - m| < 1 / 4) :
    d.toDouble = ofPlace m e := by
  rw [toDouble_eq_iff h]
  obtain ⟨-, hlt, hleast, hgreatest, hfull⟩ := h
  have htop : (e + 1074).toNat * 2 ^ 52 + m ≤ top := by
    rw [top]
    omega
  have hexp : ((e + 1074).toNat : ℤ) - 1074 = e := by omega
  have hvalue : d.value = d.value / 2 ^ e * 2 ^ (((e + 1074).toNat : ℤ) - 1074) := by
    rw [hexp, div_mul_cancel₀ _ (by positivity)]
  generalize d.value / 2 ^ e = t at *
  rw [abs_lt] at hd
  have hm : (m : ℚ) + 1 ≤ 2 ^ 53 := by exact_mod_cast hlt
  have hk : 2 ^ 52 ≤ m ∧ 2 ^ 52 - 1 / 4 < t ∨ (e + 1074).toNat = 0 := by
    rcases hfull with hfull | hfull
    · rcases hfull.lt_or_eq with hgt | heq
      · have : (2 : ℚ) ^ 52 + 1 ≤ m := by exact_mod_cast hgt
        exact .inl ⟨hfull, by linarith⟩
      · have ht := abs_lt.mp (hd' heq.symm)
        have : (2 : ℚ) ^ 52 = m := by exact_mod_cast heq
        exact .inl ⟨hfull, by linarith⟩
    · right
      omega
  rw [hvalue, ← min_eq_left htop]
  exact rounds_min gridValue_strictMono (reaches_of_place hlt.le hk (.inl (by linarith)))
    (stays_of_place hlt.le (by omega) (by linarith) (.inl (by linarith)))

variable {num den : ℕ}

/-- Seventeen digits are enough for a decimal that is read as the double. -/
theorem exists_toDouble (h : Canonical m e) (hn : 0 < num) (hd : 0 < den)
    (hq : (num : ℚ) / den = m * 2 ^ e) :
    ∃ d ∈ neighbours num den (order num den - 16), d.toDouble = ofPlace m e := by
  obtain ⟨d, hmem, hnear⟩ := exists_near num hd (order num den - 16)
  refine ⟨d, hmem, ?_⟩
  have hlow := (order_spec hn hd).1
  have hu : (0 : ℚ) < 2 ^ e := by positivity
  have hunit : (10 : ℚ) ^ (order num den - 16) = 10 ^ order num den / 10 ^ 16 := by
    rw [zpow_sub₀ (by norm_num)]
    rfl
  have hscaled : |d.value / 2 ^ e - m| ≤ m / 10 ^ 16 / 2 := by
    have hdiff : d.value / 2 ^ e - m = (d.value - num / den) / 2 ^ e := by
      rw [hq]
      field_simp
    rw [hunit, hq] at hnear
    rw [hq] at hlow
    rw [hdiff, hq, abs_div, abs_of_pos hu, div_le_iff₀ hu]
    linarith
  refine toDouble_of_near h (hscaled.trans_lt ?_) fun hm => hscaled.trans_lt ?_
  · have : (m : ℚ) < 2 ^ 53 := by exact_mod_cast h.lt
    linarith
  · rw [hm]
    norm_num

/-- A decimal with `c` digits that is not below the order of a ratio is a multiple of the unit
of the ratio's first `c` digits. -/
theorem exists_decimalValue_eq {d : Decimal} {c : ℕ} {k : ℤ} (hc : d.digits < 10 ^ c)
    (hk : (10 : ℚ) ^ k ≤ d.value) : ∃ j, d.value = decimalValue j (k - (c - 1)) := by
  have hten : (10 : ℚ) ≠ 0 := by norm_num
  have hlt : (10 : ℚ) ^ k < 10 ^ (c + d.exponent) := by
    calc (10 : ℚ) ^ k ≤ d.digits * 10 ^ d.exponent := hk
      _ < 10 ^ c * 10 ^ d.exponent := by
        gcongr
        exact_mod_cast hc
      _ = 10 ^ (c + d.exponent) := by rw [zpow_add₀ hten, zpow_natCast]
  have hexp : k < c + d.exponent := (zpow_lt_zpow_iff_right₀ (by norm_num)).mp hlt
  refine ⟨d.digits * 10 ^ (d.exponent - (k - (c - 1))).toNat, ?_⟩
  have hsum : d.exponent = ((d.exponent - (k - (c - 1))).toNat : ℤ) + (k - (c - 1)) := by omega
  rw [value, decimalValue, decimalValue, hsum, zpow_add₀ hten, zpow_natCast]
  push_cast
  rw [← hsum]
  ring

theorem decimalValue_ten_pow (c : ℕ) (p : ℤ) : decimalValue (10 ^ c) p = 10 ^ (c + p) := by
  rw [decimalValue, Nat.cast_pow, Nat.cast_ofNat, ← zpow_natCast, ← zpow_add₀ (by norm_num)]

theorem decimalValue_le_iff {i j : ℕ} {p : ℤ} :
    decimalValue i p ≤ decimalValue j p ↔ i ≤ j := by
  rw [decimalValue, decimalValue, mul_le_mul_iff_of_pos_right (by positivity), Nat.cast_le]

theorem rounds_double (h : Canonical m e) :
    Rounds gridValue top (m * 2 ^ e) ((e + 1074).toNat * 2 ^ 52 + m) := by
  have htop : (e + 1074).toNat * 2 ^ 52 + m ≤ top := by
    have := h.lt
    have := h.greatest
    rw [top]
    omega
  rw [← gridValue_encode h]
  exact rounds_self gridValue_strictMono htop

/-- If a decimal with `c` digits is read as the double, so is a neighbour of the double with
`c` digits. -/
theorem exists_toDouble_of_toDouble (h : Canonical m e) (hn : 0 < num) (hd : 0 < den)
    (hq : (num : ℚ) / den = m * 2 ^ e) {d : Decimal} (hdm : d.toDouble = ofPlace m e) {c : ℕ}
    (hc : 0 < c) (hdigits : d.digits < 10 ^ c) :
    ∃ d' ∈ neighbours num den (order num den - (c - 1)), d'.toDouble = ofPlace m e := by
  obtain ⟨hlow, -⟩ := order_spec hn hd
  obtain ⟨hbelow, habove⟩ := multiple_spec num hd (order num den - (c - 1))
  have hself := rounds_double h
  rw [← hq] at hself
  rw [toDouble_eq_iff h] at hdm
  generalize order num den = k at *
  rcases le_or_gt d.value (num / den) with hle | hgt
  · -- Between the decimal and the double there is a multiple of the unit.
    obtain ⟨j, hj, hj'⟩ : ∃ j, d.value ≤ decimalValue j (k - (c - 1)) ∧
        decimalValue j (k - (c - 1)) ≤ num / den := by
      rcases le_or_gt (10 ^ k) d.value with hlarge | hsmall
      · obtain ⟨j, hj⟩ := exists_decimalValue_eq hdigits hlarge
        exact ⟨j, hj.le, hj ▸ hle⟩
      · have hpow : decimalValue (10 ^ (c - 1)) (k - (c - 1)) = 10 ^ k := by
          rw [decimalValue_ten_pow]
          congr 1
          omega
        exact ⟨10 ^ (c - 1), hpow ▸ hsmall.le, hpow ▸ hlow⟩
    have hjle : j ≤ multiple num den (k - (c - 1)) := by
      have := hj'.trans_lt habove
      have := not_le.mp (mt decimalValue_le_iff.mpr (not_le.mpr this))
      omega
    refine ⟨_, mem_neighbours.mpr (.inl rfl), (toDouble_eq_iff h _).mpr ?_⟩
    rw [value_trimmed]
    exact hdm.between hself (hj.trans (decimalValue_le_iff.mpr hjle)) hbelow
  · obtain ⟨j, hj⟩ := exists_decimalValue_eq hdigits (hlow.trans hgt.le)
    have hjle : multiple num den (k - (c - 1)) + 1 ≤ j := by
      have := hbelow.trans_lt (hj ▸ hgt)
      exact not_le.mp (mt decimalValue_le_iff.mpr (not_le.mpr this))
    refine ⟨_, mem_neighbours.mpr (.inr rfl), (toDouble_eq_iff h _).mpr ?_⟩
    rw [value_trimmed]
    exact hself.between hdm habove.le (hj ▸ decimalValue_le_iff.mpr hjle)

/-- A neighbour in the place of the digit after `i` others has no more digits than that. -/
theorem digitCount_neighbour_le (hn : 0 < num) (hd : 0 < den) {i : ℕ} {d : Decimal}
    (hmem : d ∈ neighbours num den (order num den - i)) : digitCount d.digits ≤ i + 1 := by
  have hhigh := (order_spec hn hd).2
  have hbelow := (multiple_spec num hd (order num den - i)).1
  have hle : multiple num den (order num den - i) + 1 ≤ 10 ^ (i + 1) := by
    have hpow : decimalValue (10 ^ (i + 1)) (order num den - i) = 10 ^ (order num den + 1) := by
      rw [decimalValue_ten_pow]
      congr 1
      push_cast
      ring
    have := hbelow.trans_lt (hpow ▸ hhigh)
    exact not_le.mp (mt decimalValue_le_iff.mpr (not_le.mpr this))
  rcases mem_neighbours.mp hmem with rfl | rfl
  · exact digitCount_trimmed_le (Nat.succ_pos i) (by omega) _
  · exact digitCount_trimmed_le (Nat.succ_pos i) hle _

/-! ## The search -/

/-- A search through the numbers below a limit finds the first of them that has a result. -/
theorem findSome?_range_eq_some {α : Type} {f : ℕ → Option α} {n : ℕ} {a : α}
    (h : (List.range n).findSome? f = some a) :
    ∃ i < n, f i = some a ∧ ∀ j < i, f j = none := by
  induction n with
  | zero => cases h
  | succ n ih =>
    rw [List.range_succ, List.findSome?_append, Option.or_eq_some_iff] at h
    rcases h with h | ⟨hnone, h⟩
    · obtain ⟨i, hi, hfound⟩ := ih h
      exact ⟨i, hi.trans (Nat.lt_succ_self n), hfound⟩
    · rw [List.findSome?_eq_none_iff] at hnone
      rw [List.findSome?_singleton] at h
      exact ⟨n, Nat.lt_succ_self n, h, fun j hj => hnone j (List.mem_range.mpr hj)⟩

/-- What the search finds is a neighbour that is read as the double, and no place with fewer
digits has one. -/
theorem shortest_spec (h : Canonical m e) :
    ∃ i : ℕ, i < 17 ∧ shortest m e ∈ neighbours (m * 2 ^ e.toNat) (2 ^ (-e).toNat)
        (order (m * 2 ^ e.toNat) (2 ^ (-e).toNat) - i) ∧
      (shortest m e).toDouble = ofPlace m e ∧
      ∀ j < i, ∀ d ∈ neighbours (m * 2 ^ e.toNat) (2 ^ (-e).toNat)
        (order (m * 2 ^ e.toNat) (2 ^ (-e).toNat) - j), d.toDouble ≠ ofPlace m e := by
  have hlast := exists_toDouble h (Nat.mul_pos h.pos (by positivity)) (by positivity) (ratio_eq_mul_zpow 2 m e)
  unfold shortest
  dsimp only
  generalize m * 2 ^ e.toNat = num at *
  generalize 2 ^ (-e).toNat = den at *
  have hsome : ((List.range 17).findSome? fun (i : ℕ) =>
      (neighbours num den (order num den - i)).find? fun d => d.toDouble = ofPlace m e).isSome := by
    obtain ⟨d, hmem, hd⟩ := hlast
    rw [List.findSome?_isSome_iff]
    refine ⟨16, by decide, List.find?_isSome.mpr ⟨d, hmem, decide_eq_true hd⟩⟩
  obtain ⟨d, hfound⟩ := Option.isSome_iff_exists.mp hsome
  obtain ⟨i, hi, hd, hnone⟩ := findSome?_range_eq_some hfound
  rw [hfound, Option.getD_some]
  refine ⟨i, hi, List.mem_of_find?_eq_some hd, by simpa using List.find?_some hd, ?_⟩
  intro j hj d' hmem
  simpa using List.find?_eq_none.mp (hnone j hj) d' hmem

/-- The shortest decimal of a double is read as this double. -/
theorem toDouble_shortest (h : Canonical m e) : (shortest m e).toDouble = ofPlace m e := by
  obtain ⟨-, -, -, hread, -⟩ := shortest_spec h
  exact hread

/-- No decimal with fewer digits is read as the same double. -/
theorem digitCount_shortest_le (h : Canonical m e) {d : Decimal}
    (hd : d.toDouble = ofPlace m e) : digitCount (shortest m e).digits ≤ digitCount d.digits := by
  have hn : 0 < m * 2 ^ e.toNat := Nat.mul_pos h.pos (by positivity)
  have hden : 0 < 2 ^ (-e).toNat := by positivity
  have hcount := digitCount_pos d.digits
  obtain ⟨i, hi, hmem, -, hnone⟩ := shortest_spec h
  obtain ⟨d', hmem', hd'⟩ :=
    exists_toDouble_of_toDouble h hn hden (ratio_eq_mul_zpow 2 m e) hd hcount (lt_pow_digitCount d.digits)
  have hle : i ≤ digitCount d.digits - 1 := by
    by_contra hlt
    refine hnone (digitCount d.digits - 1) (not_le.mp hlt) d' ?_ hd'
    rwa [Nat.cast_sub hcount, Nat.cast_one]
  have := digitCount_neighbour_le hn hden hmem
  omega

end PathCurves.Decimal
