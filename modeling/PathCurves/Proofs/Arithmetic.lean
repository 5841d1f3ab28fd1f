/-
What the operations on doubles make of finite ones: the double where rounding puts the exact
result. `RoundsTo` is that rounding, on both sides of zero; it keeps the order
(`RoundsTo.mono`) and leaves the numbers of doubles alone (`roundsTo_self`), from which every
bound on a result follows. Main statements: `HasValue.add`, `HasValue.sub`, `HasValue.mul`,
`HasValue.div`, `HasValue.sqrt` and `rounded_ofCount`.
-/
import PathCurves.Proofs.Mantissa
import PathCurves.Proofs.Number

namespace PathCurves.Double

open Float.Model Float.Model.UnpackedFloat

/-! ## Rounding on both sides of zero -/

/-- Rounding puts `q` at `v`. -/
def RoundsTo (q v : ℚ) : Prop :=
  ∃ s n, q = signed s |q| ∧ Rounds gridValue top |q| n ∧ v = signed s (gridValue n)

theorem gridValue_nonneg (n : ℕ) : 0 ≤ gridValue n :=
  gridValue_zero ▸ gridValue_strictMono.monotone (Nat.zero_le n)

theorem onGrid_zero : OnGrid 0 := ⟨.positive, 0, Nat.zero_le _, gridValue_zero.symm⟩

theorem OnGrid.neg {v : ℚ} (h : OnGrid v) : OnGrid (-v) := by
  obtain ⟨s, n, hn, rfl⟩ := h
  exact ⟨-s, n, hn, (signed_neg s _).symm⟩

theorem OnGrid.abs {v : ℚ} (h : OnGrid v) : OnGrid |v| := by
  rcases abs_choice v with hv | hv
  · rwa [hv]
  · rw [hv]
    exact h.neg

/-- The powers of two from the least one with 53 digits up to infinity. -/
theorem onGrid_zpow {k : ℤ} (hk : -1022 ≤ k) (hk' : k ≤ 1024) : OnGrid (2 ^ k) := by
  obtain ⟨n, hn⟩ := Int.eq_ofNat_of_zero_le (show 0 ≤ k + 1022 by omega)
  obtain rfl : k = (n : ℤ) - 1022 := by omega
  refine ⟨.positive, n * 2 ^ 52 + 2 ^ 52, by simp only [top]; omega, ?_⟩
  rw [gridValue_add (by norm_num) (.inl le_rfl)]
  show (2 : ℚ) ^ ((n : ℤ) - 1022) = _
  have hexp : (n : ℤ) - 1022 = (52 : ℕ) + ((n : ℤ) - 1074) := by
    push_cast
    ring
  rw [hexp, zpow_add₀ two_ne_zero, zpow_natCast]
  norm_num [signed]

theorem onGrid_one : OnGrid 1 := by
  simpa using onGrid_zpow (k := 0) (by norm_num) (by norm_num)

theorem onGrid_pow {k : ℕ} (hk : k ≤ 1024) : OnGrid (2 ^ k) := by
  have h := onGrid_zpow (k := k) (by omega) (by omega)
  rwa [zpow_natCast] at h

namespace RoundsTo

variable {q r v w : ℚ}

theorem neg (h : RoundsTo q v) : RoundsTo (-q) (-v) := by
  obtain ⟨s, n, hq, hn, rfl⟩ := h
  refine ⟨-s, n, ?_, ?_, (signed_neg s _).symm⟩
  · rw [abs_neg, signed_neg, ← hq]
  · rwa [abs_neg]

theorem mono (hq : RoundsTo q v) (hr : RoundsTo r w) (h : q ≤ r) : v ≤ w := by
  obtain ⟨s, n, hqs, hn, rfl⟩ := hq
  obtain ⟨t, m, hrt, hm, rfl⟩ := hr
  have hg := gridValue_strictMono
  have hn₀ := gridValue_nonneg n
  have hm₀ := gridValue_nonneg m
  have hq₀ := abs_nonneg q
  have hr₀ := abs_nonneg r
  match s, t with
  | .positive, .positive =>
    simp only [signed] at hqs hrt ⊢
    exact hg.monotone (hn.le_of_le hg hm (by linarith))
  | .negative, .negative =>
    simp only [signed] at hqs hrt ⊢
    exact neg_le_neg (hg.monotone (hm.le_of_le hg hn (by linarith)))
  | .negative, .positive =>
    simp only [signed]
    linarith
  | .positive, .negative =>
    -- Both numbers are zero, and so are the rounded ones.
    simp only [signed] at hqs hrt ⊢
    have hq : |q| = 0 := by linarith
    have hr : |r| = 0 := by linarith
    have hzero : Rounds gridValue top 0 0 := by
      have := rounds_self hg (Nat.zero_le top)
      rwa [gridValue_zero] at this
    rw [hq] at hn
    rw [hr] at hm
    rw [hn.unique hg hzero, hm.unique hg hzero, gridValue_zero, neg_zero]

end RoundsTo

section

variable {q r v w : ℚ}

theorem roundsTo_self (h : OnGrid v) : RoundsTo v v := by
  obtain ⟨s, n, hn, rfl⟩ := h
  have habs : |signed s (gridValue n)| = gridValue n := by
    rw [abs_signed, abs_of_nonneg (gridValue_nonneg n)]
  refine ⟨s, n, by rw [habs], ?_, rfl⟩
  rw [habs]
  exact rounds_self gridValue_strictMono hn

theorem RoundsTo.le (h : RoundsTo q v) (hw : OnGrid w) (hqw : q ≤ w) : v ≤ w :=
  h.mono (roundsTo_self hw) hqw

theorem RoundsTo.ge (h : RoundsTo q v) (hw : OnGrid w) (hqw : w ≤ q) : w ≤ v :=
  (roundsTo_self hw).mono h hqw

theorem RoundsTo.abs_le_of_le (h : RoundsTo q v) (hw : OnGrid w) (hqw : |q| ≤ w) : |v| ≤ w := by
  obtain ⟨hlow, hhigh⟩ := abs_le.mp hqw
  exact abs_le.mpr ⟨h.ge hw.neg hlow, h.le hw hhigh⟩

theorem RoundsTo.of_rounds {n : ℕ} (hq : 0 ≤ q) (h : Rounds gridValue top q n) :
    RoundsTo q (gridValue n) :=
  ⟨.positive, n, (abs_of_nonneg hq).symm, by rwa [abs_of_nonneg hq], rfl⟩

/-- Half way after `2 ^ 53` the mantissa that ends in zero is the lower one. -/
theorem roundsTo_tie : RoundsTo (2 ^ 53 + 1) (2 ^ 53) := by
  have hstep : ((1075 : ℕ) : ℤ) - 1074 = 1 := by norm_num
  have hlow : gridValue (1075 * 2 ^ 52 + 2 ^ 52) = 2 ^ 53 := by
    rw [gridValue_add (by norm_num) (.inl le_rfl), hstep]
    norm_num
  have hhigh : gridValue (1075 * 2 ^ 52 + 2 ^ 52 + 1) = 2 ^ 53 + 2 := by
    rw [add_assoc, gridValue_add (by norm_num) (by norm_num), hstep]
    norm_num
  have hself : Rounds gridValue top (gridValue (1075 * 2 ^ 52 + 2 ^ 52)) _ :=
    rounds_self gridValue_strictMono (by decide)
  have h : Rounds gridValue top (2 ^ 53 + 1) (1075 * 2 ^ 52 + 2 ^ 52) := by
    refine ⟨hself.le_top, hself.reaches.mono (by rw [hlow]; norm_num), fun _ => .inr ⟨?_, ?_⟩⟩
    · rw [hlow, hhigh]
      norm_num
    · exact Nat.even_iff.mpr (by norm_num)
  have := RoundsTo.of_rounds (by norm_num) h
  rwa [hlow] at this

end

/-! ## Rounded doubles -/

/-- The double stands for the number where rounding puts `q`. -/
def Rounded (q : ℚ) (x : Float) : Prop := ∃ v, number? x = some v ∧ RoundsTo q v

theorem Nearest.rounded {q : ℚ} {x : Float} (hq : 0 ≤ q) (h : Nearest q x) : Rounded q x := by
  have h := nearest_iff.mp h
  exact ⟨_, number?_of_bits h.le_top, .of_rounds hq h⟩

theorem rounded_self {x : Float} {v : ℚ} (h : number? x = some v) : Rounded v x :=
  ⟨v, h, roundsTo_self (onGrid_of_number? h)⟩

theorem Rounded.neg {q : ℚ} {x : Float} (h : Rounded q x) : Rounded (-q) (-x) := by
  obtain ⟨v, hv, hq⟩ := h
  exact ⟨-v, by rw [number?_neg, hv]; rfl, hq.neg⟩

/-- A result that some finite double stands for needs no rounding. -/
theorem Rounded.exact {q : ℚ} {x y : Float} (h : Rounded q y) (hx : HasValue x q) :
    HasValue y q := by
  obtain ⟨v, hv, hround⟩ := h
  have hq := onGrid_of_number? hx.1
  obtain rfl : v = q := le_antisymm (hround.le hq le_rfl) (hround.ge hq le_rfl)
  exact ⟨hv, hx.2⟩

/-- A result up to a number on the grid is finite and up to that number. -/
theorem Rounded.hasValue {q w : ℚ} {x : Float} (h : Rounded q x) (hw : OnGrid w)
    (htop : w < 2 ^ 1024) (hq : |q| ≤ w) : ∃ v, HasValue x v ∧ |v| ≤ w ∧ RoundsTo q v := by
  obtain ⟨v, hv, hround⟩ := h
  have hle := hround.abs_le_of_le hw hq
  exact ⟨v, ⟨hv, hle.trans_lt htop⟩, hle, hround⟩

theorem number?_zero (s : Sign) : number? (.ofModel (.pack (.zero s))) = some 0 := by
  rw [number?, unpack_pack (f := .zero s) trivial]
  rfl

/-! ## Rounded mantissas -/

section

variable {m : ℕ} {e : ℤ} {acc : Accuracy} {t : ℚ}

theorem roundWithAccuracy_neg (s : Sign) (m : ℕ) (e : ℤ) (acc : Accuracy) :
    roundWithAccuracy Format.binary64 (-s) m e acc =
      (roundWithAccuracy Format.binary64 s m e acc).neg := by
  unfold roundWithAccuracy
  dsimp only
  split
  · rfl
  · rfl

theorem rounded_roundWithAccuracy (s : Sign) (ht : Represents (.ofMantissaAndAccuracy m acc) t)
    (hfull : 2 ^ 52 ≤ m ∨ e ≤ -1074) :
    Rounded (signed s (t * 2 ^ e))
      (.ofModel (.pack (roundWithAccuracy Format.binary64 s m e acc))) := by
  have ht₀ : 0 ≤ t := (Nat.cast_nonneg _).trans ht.le
  have hnearest := nearest_roundWithAccuracy ht hfull
  have hpositive := hnearest.rounded (by positivity)
  cases s with
  | positive => exact hpositive
  | negative =>
    have h : roundWithAccuracy Format.binary64 .negative m e acc =
        (roundWithAccuracy Format.binary64 .positive m e acc).neg :=
      roundWithAccuracy_neg .positive m e acc
    rw [h, ← neg_pack]
    exact hpositive.neg

theorem rounded_round (s : Sign) (hm : 0 < m) (e : ℤ) :
    Rounded (signed s (m * 2 ^ e))
      (.ofModel (.pack (Float.Model.UnpackedFloat.round Format.binary64 s m e))) := by
  have hnearest := nearest_round hm e
  have hpositive := hnearest.rounded (by positivity)
  cases s with
  | positive => exact hpositive
  | negative =>
    have h : UnpackedFloat.round Format.binary64 .negative m e =
        (UnpackedFloat.round Format.binary64 .positive m e).neg :=
      roundWithAccuracy_neg .positive _ _ _
    rw [h, ← neg_pack]
    exact hpositive.neg

/-- A whole number of units is rounded, whatever its sign. -/
theorem rounded_normalize (n : ℤ) (e : ℤ) :
    Rounded (n * 2 ^ e)
      (.ofModel (.pack (UnpackedFloat.normalize Format.binary64 n e .positive))) := by
  unfold UnpackedFloat.normalize
  rcases lt_trichotomy n 0 with hn | rfl | hn
  · rw [Int.compare_eq_lt.mpr hn]
    obtain ⟨m, hm⟩ := Int.eq_ofNat_of_zero_le (neg_nonneg.mpr hn.le)
    obtain rfl : n = -(m : ℤ) := by omega
    have h := rounded_round .negative (show 0 < m by omega) e
    simp only [neg_neg, Int.toNat_natCast]
    simpa [signed] using h
  · rw [Int.compare_eq_eq.mpr rfl, Int.cast_zero, zero_mul]
    exact rounded_self (number?_zero _)
  · rw [Int.compare_eq_gt.mpr hn]
    obtain ⟨m, rfl⟩ := Int.eq_ofNat_of_zero_le hn.le
    have h := rounded_round .positive (show 0 < m by omega) e
    simpa [signed] using h

end

/-! ## Quotients and square roots of mantissas -/

theorem signed_mul (s t : Sign) (p q : ℚ) : signed (s * t) (p * q) = signed s p * signed t q := by
  cases s <;> cases t
  · exact (neg_mul_neg p q).symm
  · exact (neg_mul p q).symm
  · exact (mul_neg p q).symm
  · rfl

theorem signed_div (s t : Sign) (p q : ℚ) : signed (s / t) (p / q) = signed s p / signed t q := by
  cases s <;> cases t
  · exact (neg_div_neg_eq p q).symm
  · exact (neg_div q p).symm
  · exact (div_neg p).symm
  · rfl

section

variable {m n : ℕ} {e d k : ℤ}

theorem rounded_divCore (s t : Sign) (hm : 0 < m) (hn : 0 < n) :
    Rounded (signed s (m * 2 ^ e) / signed t (n * 2 ^ d))
      (.ofModel (.pack (
        match divCore Format.binary64 m e n d with
        | (r, c, acc) => roundWithAccuracy Format.binary64 (s / t) r c acc))) := by
  have htarget : Format.binary64.targetExponent (totalExponent m e - totalExponent n d) =
      max ((m.log2 : ℤ) + e - n.log2 - d - 53) (-1074) := by
    rw [Format.targetExponent, totalExponent, totalExponent]
    congr 1
    show _ - (53 : ℤ) = _
    ring
  rw [divCore, htarget]
  dsimp only
  generalize hc : min (e - d) (max ((m.log2 : ℤ) + e - n.log2 - d - 53) (-1074)) = c
  have hce : c ≤ e - d := by omega
  have hn' : (n : ℚ) ≠ 0 := by exact_mod_cast hn.ne'
  have hvalue : (m : ℚ) * 2 ^ e / (n * 2 ^ d) =
      (m <<< (e - d - c).toNat : ℕ) / n * 2 ^ c := by
    rw [div_mul_eq_mul_div, shiftLeft_value m hce, zpow_sub₀ two_ne_zero]
    field_simp
  rw [← signed_div, hvalue]
  refine rounded_roundWithAccuracy _ (represents_div _ hn) ?_
  by_cases hleast : c ≤ -1074
  · exact .inr hleast
  · left
    have hle := two_pow_le_shiftLeft hm
      (show 52 + (n.log2 + 1) ≤ m.log2 + (e - d - c).toNat by omega)
    rw [Nat.le_div_iff_mul_le hn]
    calc 2 ^ 52 * n ≤ 2 ^ 52 * 2 ^ (n.log2 + 1) :=
          Nat.mul_le_mul_left _ Nat.lt_log2_self.le
      _ = 2 ^ (52 + (n.log2 + 1)) := (pow_add 2 _ _).symm
      _ ≤ m <<< (e - d - c).toNat := hle

/-- The whole part of a square root with the size of the remainder stands for a number that is
beyond no whole number that the root is not beyond. -/
theorem exists_represents_sqrt (m : ℕ) :
    ∃ t, Represents (.ofMantissaAndAccuracy m.sqrt
        (if m - m.sqrt * m.sqrt = 0 then .exact
        else .inexact (if m - m.sqrt * m.sqrt ≤ m.sqrt then .lt else .gt))) t ∧
      ∀ r : ℕ, m ≤ r * r → t ≤ r := by
  have hle := Nat.sqrt_le m
  split
  · next hexact =>
    refine ⟨m.sqrt, rfl, fun r hr => ?_⟩
    have : m.sqrt ≤ r := Nat.mul_self_le_mul_self_iff.mp (hle.trans hr)
    exact_mod_cast this
  · next hrest =>
    have hlt {r : ℕ} (hr : m ≤ r * r) : m.sqrt + 1 ≤ r :=
      Nat.mul_self_lt_mul_self_iff.mp (by omega)
    split
    · refine ⟨m.sqrt + 1 / 4, ⟨?_, ?_⟩, fun r hr => ?_⟩
      · show (m.sqrt : ℚ) < _
        linarith
      · show 2 * ((m.sqrt : ℚ) + 1 / 4) < 2 * m.sqrt + 1
        linarith
      · have : (m.sqrt : ℚ) + 1 ≤ r := by exact_mod_cast hlt hr
        linarith
    · refine ⟨m.sqrt + 3 / 4, ⟨?_, ?_⟩, fun r hr => ?_⟩
      · show 2 * (m.sqrt : ℚ) + 1 < 2 * (m.sqrt + 3 / 4)
        linarith
      · show (m.sqrt : ℚ) + 3 / 4 < m.sqrt + 1
        linarith
      · have : (m.sqrt : ℚ) + 1 ≤ r := by exact_mod_cast hlt hr
        linarith

theorem rounded_sqrtCore (hm : 0 < m) (hk : (m : ℚ) * 2 ^ e ≤ 2 ^ (2 * k)) :
    ∃ q, 0 ≤ q ∧ q ≤ 2 ^ k ∧ Rounded q (.ofModel (.pack (
      match sqrtCore Format.binary64 m e with
      | (r, c, acc) => roundWithAccuracy Format.binary64 .positive r c acc))) := by
  have htarget : Format.binary64.targetExponent ((totalExponent m e + 1).ediv 2) =
      max (((m.log2 : ℤ) + e + 2) / 2 - 53) (-1074) := by
    rw [Format.targetExponent, totalExponent]
    congr 1
    show Int.ediv _ 2 - (53 : ℤ) = _
    congr 2
    ring
  have hhalf : e.ediv 2 = e / 2 := rfl
  rw [sqrtCore, htarget, hhalf]
  dsimp only
  generalize hc : min (e / 2) (max (((m.log2 : ℤ) + e + 2) / 2 - 53) (-1074)) = c
  have hce : 2 * c ≤ e := by omega
  have hvalue := shiftLeft_value m hce
  generalize hM : m <<< (e - 2 * c).toNat = M at *
  obtain ⟨t, ht, htop⟩ := exists_represents_sqrt M
  have ht₀ : 0 ≤ t := (Nat.cast_nonneg _).trans ht.le
  refine ⟨t * 2 ^ c, by positivity, ?_, rounded_roundWithAccuracy .positive ht ?_⟩
  · have hpos : 0 < M := by
      rw [← hM, Nat.shiftLeft_eq]
      positivity
    have hM₁ : (1 : ℚ) ≤ M := by exact_mod_cast hpos
    have hsq : (M : ℚ) ≤ 2 ^ (2 * (k - c)) := by
      rw [mul_sub, zpow_sub₀ two_ne_zero, le_div_iff₀ (by positivity), hvalue]
      exact hk
    have hck : 0 ≤ k - c := by
      by_contra hneg
      have : (2 : ℚ) ^ (2 * (k - c)) < 1 := zpow_lt_one_of_neg₀ one_lt_two (by omega)
      linarith
    obtain ⟨i, hi⟩ := Int.eq_ofNat_of_zero_le hck
    have hroot : t ≤ ((2 ^ i : ℕ) : ℚ) := by
      refine htop _ ?_
      rw [hi] at hsq
      rw [← Nat.cast_le (α := ℚ)]
      calc (M : ℚ) ≤ 2 ^ (2 * (i : ℤ)) := hsq
        _ = ((2 ^ i * 2 ^ i : ℕ) : ℚ) := by
          rw [two_mul, zpow_add₀ two_ne_zero, zpow_natCast]
          push_cast
          rfl
    calc t * 2 ^ c ≤ ((2 ^ i : ℕ) : ℚ) * 2 ^ c := by gcongr
      _ = 2 ^ (k - c) * 2 ^ c := by
        rw [hi, zpow_natCast]
        push_cast
        rfl
      _ = 2 ^ k := by rw [← zpow_add₀ two_ne_zero, sub_add_cancel]
  · by_cases hleast : c ≤ -1074
    · exact .inr hleast
    · left
      have hle := two_pow_le_shiftLeft hm (show 104 ≤ m.log2 + (e - 2 * c).toNat by omega)
      rw [Nat.le_sqrt, ← hM]
      exact hle
end

/-! ## The operations on finite doubles -/

theorem rounded_ofCount (count : ℕ) : Rounded count (ofCount count) := by
  rw [ofCount_eq]
  have h := rounded_normalize count 0
  rwa [zpow_zero, mul_one, Int.cast_natCast] at h

theorem sub_parts (f g : Float.Model.UnpackedFloat) :
    UnpackedFloat.sub Format.binary64 f g = UnpackedFloat.add Format.binary64 f g.neg := by
  cases f with
  | notANumber => rfl
  | zero s => cases g <;> rfl
  | infinity s => cases g <;> rfl
  | finite s m e hm =>
    cases g with
    | finite t n d hn =>
      have happly (k : ℤ) : (-t).apply k = -t.apply k := by
        cases t with
        | positive => rfl
        | negative => exact (neg_neg k).symm
      simp only [UnpackedFloat.sub, UnpackedFloat.add, UnpackedFloat.neg, happly, sub_eq_add_neg]
    | _ => rfl

theorem sub_eq (x y : Float) : x - y = x + -y := by
  show Float.ofModel (.pack (UnpackedFloat.sub Format.binary64 x.toModel.unpack y.toModel.unpack)) =
    .ofModel (.pack (UnpackedFloat.add Format.binary64 x.toModel.unpack (-y).toModel.unpack))
  rw [unpack_neg, sub_parts]

/-- With a smaller exponent the mantissa grows, and the number stays. -/
theorem apply_decreaseExponent (s : Sign) (m : ℕ) {e d : ℤ} (h : d ≤ e) :
    ((s.apply (decreaseExponent m e d).1 : ℤ) : ℚ) * 2 ^ d = signed s (m * 2 ^ e) := by
  rw [← shiftLeft_value m h]
  cases s with
  | positive => rfl
  | negative =>
    show ((-((m <<< (e - d).toNat : ℕ) : ℤ) : ℤ) : ℚ) * 2 ^ d = _
    rw [Int.cast_neg, Int.cast_natCast, neg_mul]
    rfl

theorem add_eq_pack (x y : Float) : x + y =
    .ofModel (.pack (UnpackedFloat.add Format.binary64 x.toModel.unpack y.toModel.unpack)) := rfl

theorem mul_eq_pack (x y : Float) : x * y =
    .ofModel (.pack (UnpackedFloat.mul Format.binary64 x.toModel.unpack y.toModel.unpack)) := rfl

theorem div_eq_pack (x y : Float) : x / y =
    .ofModel (.pack (UnpackedFloat.div Format.binary64 x.toModel.unpack y.toModel.unpack)) := rfl

theorem sqrt_eq_pack (x : Float) : x.sqrt =
    .ofModel (.pack (UnpackedFloat.sqrt Format.binary64 x.toModel.unpack)) := rfl

namespace HasValue

variable {x y : Float} {a b : ℚ}

theorem neg (hx : HasValue x a) : HasValue (-x) (-a) := by
  refine ⟨?_, ?_⟩
  · rw [number?_neg, hx.1]
    rfl
  · rw [abs_neg]
    exact hx.2

theorem add (hx : HasValue x a) (hy : HasValue y b) : Rounded (a + b) (x + y) := by
  rw [add_eq_pack]
  obtain ⟨s, hs, rfl⟩ | ⟨s, m, e, hm, hs, -, rfl⟩ := hx.parts
  · obtain ⟨t, ht, rfl⟩ | ⟨t, n, d, hn, ht, -, rfl⟩ := hy.parts
    · rw [hs, ht, add_zero, UnpackedFloat.add]
      split
      · exact rounded_self (number?_zero _)
      · exact rounded_self (number?_zero _)
    · rw [hs, zero_add]
      have hadd : UnpackedFloat.add Format.binary64 (.zero s) y.toModel.unpack =
          y.toModel.unpack := by
        rw [ht]
        rfl
      rw [hadd, pack_unpack]
      exact rounded_self hy.1
  · obtain ⟨t, ht, rfl⟩ | ⟨t, n, d, hn, ht, -, rfl⟩ := hy.parts
    · rw [ht, add_zero]
      have hadd : UnpackedFloat.add Format.binary64 x.toModel.unpack (.zero t) =
          x.toModel.unpack := by
        rw [hs]
        rfl
      rw [hadd, pack_unpack]
      exact rounded_self hx.1
    · rw [hs, ht, UnpackedFloat.add, ← apply_decreaseExponent s m (min_le_left e d),
        ← apply_decreaseExponent t n (min_le_right e d), ← add_mul, ← Int.cast_add]
      exact rounded_normalize _ _

theorem sub (hx : HasValue x a) (hy : HasValue y b) : Rounded (a - b) (x - y) := by
  rw [sub_eq, sub_eq_add_neg]
  exact hx.add hy.neg

theorem mul (hx : HasValue x a) (hy : HasValue y b) : Rounded (a * b) (x * y) := by
  rw [mul_eq_pack]
  obtain ⟨s, hs, rfl⟩ | ⟨s, m, e, hm, hs, hme, rfl⟩ := hx.parts
  · obtain ⟨t, ht, rfl⟩ | ⟨t, n, d, hn, ht, -, rfl⟩ := hy.parts
    · rw [hs, ht, zero_mul]
      exact rounded_self (number?_zero _)
    · rw [hs, ht, zero_mul]
      exact rounded_self (number?_zero _)
  · obtain ⟨t, ht, rfl⟩ | ⟨t, n, d, hn, ht, hnd, rfl⟩ := hy.parts
    · rw [hs, ht, mul_zero]
      exact rounded_self (number?_zero _)
    · have hfull : 2 ^ 52 ≤ m * n ∨ e + d ≤ -1074 := by
        rcases hme.full with h | he
        · exact .inl (h.trans (Nat.le_mul_of_pos_right m hn))
        · rcases hnd.full with h | hd
          · exact .inl (h.trans (Nat.le_mul_of_pos_left n hm))
          · right
            omega
      have hvalue : signed s (m * 2 ^ e) * signed t (n * 2 ^ d) =
          signed (s * t) ((m * n : ℕ) * 2 ^ (e + d)) := by
        rw [← signed_mul, zpow_add₀ two_ne_zero]
        push_cast
        congr 1
        ring
      rw [hs, ht, UnpackedFloat.mul, hvalue]
      exact rounded_roundWithAccuracy _ (represents_exact _) hfull

theorem div (hx : HasValue x a) (hy : HasValue y b) (hb : b ≠ 0) : Rounded (a / b) (x / y) := by
  rw [div_eq_pack]
  obtain ⟨t, ht, rfl⟩ | ⟨t, n, d, hn, ht, -, rfl⟩ := hy.parts
  · exact absurd rfl hb
  · obtain ⟨s, hs, rfl⟩ | ⟨s, m, e, hm, hs, -, rfl⟩ := hx.parts
    · rw [hs, ht, zero_div]
      exact rounded_self (number?_zero _)
    · rw [hs, ht, UnpackedFloat.div]
      exact rounded_divCore _ _ hm hn

/-- The square root of a number up to a power of four is up to that power of two. -/
theorem sqrt (hx : HasValue x a) (ha : 0 ≤ a) {k : ℤ} (hk : a ≤ 2 ^ (2 * k)) :
    ∃ q, 0 ≤ q ∧ q ≤ 2 ^ k ∧ Rounded q x.sqrt := by
  rw [sqrt_eq_pack]
  obtain ⟨s, hs, rfl⟩ | ⟨s, m, e, hm, hs, -, rfl⟩ := hx.parts
  · rw [hs]
    exact ⟨0, le_rfl, by positivity, rounded_self (number?_zero _)⟩
  · cases s with
    | positive =>
      rw [hs]
      exact rounded_sqrtCore hm hk
    | negative =>
      have := value_pos (e := e) hm
      simp only [signed] at ha
      linarith

end HasValue

end PathCurves.Double
