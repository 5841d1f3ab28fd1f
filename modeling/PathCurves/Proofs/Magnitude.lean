/-
How large the results of operations on doubles are. `Within k x` bounds a finite double by
`2 ^ k`, and each operation adds to the exponent, so that a long computation stays finite as long
as the exponents add up to less than 1024.
-/
import PathCurves.Point
import PathCurves.Proofs.NonFinite

namespace PathCurves

namespace Double

/-! ## Known doubles -/

/-- The double with the bits of canonical parts. -/
theorem hasValue_of_bits {x : Float} (k m : ℕ) (hk : k < 2046) (hm : m < 2 ^ 53)
    (hfull : 2 ^ 52 ≤ m ∨ k = 0) (h : bits x = k * 2 ^ 52 + m) :
    HasValue x (m * 2 ^ ((k : ℤ) - 1074)) := by
  have hlt : bits x < top := by
    rw [h]
    simp only [top]
    omega
  have hvalue : gridValue (bits x) = m * 2 ^ ((k : ℤ) - 1074) := by
    rw [h]
    exact gridValue_add hm.le hfull
  have hgrid := gridValue_strictMono hlt
  rw [gridValue_top] at hgrid
  rw [← hvalue]
  refine ⟨number?_of_bits hlt.le, ?_⟩
  rwa [abs_of_nonneg (gridValue_nonneg _)]

theorem hasValue_zero : HasValue 0.0 0 := by
  have h := hasValue_of_bits (x := 0.0) 0 0 (by norm_num) (by norm_num) (.inr rfl)
    (by decide +kernel)
  simpa using h

theorem hasValue_one : HasValue 1.0 1 := by
  have h := hasValue_of_bits (x := 1.0) 1022 (2 ^ 52) (by norm_num) (by norm_num) (.inl le_rfl)
    (by decide +kernel)
  norm_num at h
  exact h

theorem hasValue_two : HasValue 2.0 2 := by
  have h := hasValue_of_bits (x := 2.0) 1023 (2 ^ 52) (by norm_num) (by norm_num) (.inl le_rfl)
    (by decide +kernel)
  norm_num at h
  exact h

theorem hasValue_half : HasValue 0.5 (1 / 2) := by
  have h := hasValue_of_bits (x := 0.5) 1021 (2 ^ 52) (by norm_num) (by norm_num) (.inl le_rfl)
    (by decide +kernel)
  norm_num at h
  exact h

/-! ## Bounds by powers of two -/

/-- The double is finite and at most `2 ^ k` away from zero. -/
def Within (k : ℕ) (x : Float) : Prop := ∃ v, HasValue x v ∧ |v| ≤ 2 ^ k

theorem Rounded.within {q : ℚ} {x : Float} {k : ℕ} (h : Rounded q x) (hk : k < 1024)
    (hq : |q| ≤ 2 ^ k) : Within k x := by
  obtain ⟨v, hv, hle, -⟩ := h.hasValue (onGrid_pow hk.le) (pow_lt_pow_right₀ one_lt_two hk) hq
  exact ⟨v, hv, hle⟩

namespace Within

variable {x y : Float} {j k : ℕ}

theorem exists_hasValue (h : Within k x) : ∃ v, HasValue x v := h.imp fun _ => And.left

theorem isFinite (h : Within k x) : x.isFinite = true := isFinite_iff.mpr h.exists_hasValue

theorem mono (h : Within j x) (hjk : j ≤ k) : Within k x := by
  obtain ⟨v, hv, hle⟩ := h
  exact ⟨v, hv, hle.trans (pow_le_pow_right₀ one_le_two hjk)⟩

theorem neg (h : Within k x) : Within k (-x) := by
  obtain ⟨v, hv, hle⟩ := h
  exact ⟨-v, hv.neg, by rwa [abs_neg]⟩

theorem add (hx : Within k x) (hy : Within k y) (hk : k + 1 < 1024) : Within (k + 1) (x + y) := by
  obtain ⟨v, hv, hvk⟩ := hx
  obtain ⟨w, hw, hwk⟩ := hy
  refine (hv.add hw).within hk ?_
  calc |v + w| ≤ |v| + |w| := abs_add_le v w
    _ ≤ 2 ^ k + 2 ^ k := by gcongr
    _ = 2 ^ (k + 1) := by ring

theorem sub (hx : Within k x) (hy : Within k y) (hk : k + 1 < 1024) : Within (k + 1) (x - y) := by
  rw [sub_eq]
  exact hx.add hy.neg hk

theorem mul (hx : Within j x) (hy : Within k y) (hjk : j + k < 1024) : Within (j + k) (x * y) := by
  obtain ⟨v, hv, hvj⟩ := hx
  obtain ⟨w, hw, hwk⟩ := hy
  refine (hv.mul hw).within hjk ?_
  rw [abs_mul, pow_add]
  gcongr

/-- Division by what is at least `2 ^ -j`. -/
theorem div (hx : Within k x) {w : ℚ} (hy : HasValue y w) (hw : 1 ≤ 2 ^ j * |w|)
    (hjk : k + j < 1024) : Within (k + j) (x / y) := by
  obtain ⟨v, hv, hvk⟩ := hx
  have hpos : 0 < |w| := by
    by_contra hneg
    have : |w| = 0 := le_antisymm (not_lt.mp hneg) (abs_nonneg w)
    rw [this, mul_zero] at hw
    exact absurd hw (by norm_num)
  refine (hv.div hy (abs_pos.mp hpos)).within hjk ?_
  rw [abs_div, div_le_iff₀ hpos]
  calc |v| ≤ 2 ^ k * 1 := by rwa [mul_one]
    _ ≤ 2 ^ k * (2 ^ j * |w|) := by gcongr
    _ = 2 ^ (k + j) * |w| := by rw [pow_add, mul_assoc]

theorem sqrt (hx : Within (2 * k) x) (hnonneg : NonNeg x)
    (hk : k < 1024) : Within k x.sqrt := by
  obtain ⟨v, hv, hle⟩ := hx
  obtain ⟨w, hw, hw₀⟩ := hnonneg
  obtain rfl : v = w := Option.some.inj (hv.1.symm.trans hw)
  have hpow : v ≤ 2 ^ (2 * (k : ℤ)) := by
    have hexp : 2 * (k : ℤ) = ((2 * k : ℕ) : ℤ) := by push_cast; rfl
    rw [hexp, zpow_natCast]
    exact (le_abs_self v).trans hle
  obtain ⟨q, hq₀, hq, hround⟩ := hv.sqrt hw₀ hpow
  refine hround.within hk ?_
  rwa [abs_of_nonneg hq₀, ← zpow_natCast]

end Within

theorem HasValue.div_of_one_le {x y : Float} {a b : ℚ} (hx : HasValue x a) (hy : HasValue y b)
    (hb : 1 ≤ |b|) : ∃ v, HasValue (x / y) v ∧ |v| ≤ |a| ∧ RoundsTo (a / b) v := by
  have hpos : 0 < |b| := by linarith
  refine (hx.div hy (abs_pos.mp hpos)).hasValue (onGrid_of_number? hx.1).abs hx.2 ?_
  rw [abs_div]
  exact div_le_self (abs_nonneg a) hb

theorem HasValue.mul_of_le_one {x y : Float} {a b : ℚ} (hx : HasValue x a) (hy : HasValue y b)
    (hb : |b| ≤ 1) : ∃ v, HasValue (x * y) v ∧ |v| ≤ |a| ∧ RoundsTo (a * b) v := by
  refine (hx.mul hy).hasValue (onGrid_of_number? hx.1).abs hx.2 ?_
  rw [abs_mul]
  exact mul_le_of_le_one_right (abs_nonneg a) hb

end Double

/-! ## Points -/

namespace Point

/-- Both coordinates are finite. -/
def IsFinite (p : Point Float) : Prop := p.x.isFinite = true ∧ p.y.isFinite = true

instance (p : Point Float) : Decidable p.IsFinite := inferInstanceAs (Decidable (_ ∧ _))

/-- Both coordinates are at most `2 ^ k` away from zero. -/
def Within (k : ℕ) (p : Point Float) : Prop := Double.Within k p.x ∧ Double.Within k p.y

variable {p : Point Float} {j k : ℕ}

theorem Within.mono (h : p.Within j) (hjk : j ≤ k) : p.Within k :=
  ⟨h.1.mono hjk, h.2.mono hjk⟩

theorem Within.isFinite (h : p.Within k) : p.IsFinite := ⟨h.1.isFinite, h.2.isFinite⟩

end Point

end PathCurves
