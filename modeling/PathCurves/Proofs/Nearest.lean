/-
The doubles from zero to infinity in the order of their bits, and the one among them that is
nearest to a number. Main statements: `magnitude?_eq_some_iff`, the number that a double stands
for by its bits, `nearest_iff`, the nearest double is where rounding puts a number, and
`Nearest.unique`, there is only one.
-/
import PathCurves.Double.Nearest
import PathCurves.Proofs.Binary64
import PathCurves.Proofs.Grid

namespace PathCurves.Double

open Float.Model Float.Model.UnpackedFloat

/-! ## The doubles from zero to infinity -/

/-- The number with the given bits: that of the double up to infinity, which counts as
`2 ^ 1024`, and so on beyond it. -/
def gridValue (n : ℕ) : ℚ :=
  let k := n / 2 ^ 52 - 1
  ((n - k * 2 ^ 52 : ℕ) : ℚ) * 2 ^ ((k : ℤ) - 1074)

theorem gridValue_add {k m : ℕ} (hm : m ≤ 2 ^ 53) (hk : 2 ^ 52 ≤ m ∨ k = 0) :
    gridValue (k * 2 ^ 52 + m) = m * 2 ^ ((k : ℤ) - 1074) := by
  rcases hm.lt_or_eq with hlt | rfl
  · have hk : (k * 2 ^ 52 + m) / 2 ^ 52 - 1 = k := by omega
    simp only [gridValue, hk, Nat.add_sub_cancel_left]
  · have hk : (k * 2 ^ 52 + 2 ^ 53) / 2 ^ 52 - 1 = k + 1 := by omega
    have hm : k * 2 ^ 52 + 2 ^ 53 - (k + 1) * 2 ^ 52 = 2 ^ 52 := by omega
    have hexp : ((k + 1 : ℕ) : ℤ) - 1074 = (k : ℤ) - 1074 + 1 := by
      push_cast
      ring
    simp only [gridValue, hk, hm, hexp]
    rw [zpow_add_one₀ (by norm_num)]
    push_cast
    ring

theorem exists_place (n : ℕ) :
    ∃ k m, n = k * 2 ^ 52 + m ∧ m < 2 ^ 53 ∧ (2 ^ 52 ≤ m ∨ k = 0) :=
  ⟨n / 2 ^ 52 - 1, n - (n / 2 ^ 52 - 1) * 2 ^ 52, by omega, by omega, by omega⟩

theorem gridValue_strictMono : StrictMono gridValue := by
  refine strictMono_nat_of_lt_succ fun n => ?_
  obtain ⟨k, m, rfl, hm, hk⟩ := exists_place n
  rw [add_assoc, gridValue_add hm.le hk, gridValue_add hm (by omega)]
  have hpos : (0 : ℚ) < 2 ^ ((k : ℤ) - 1074) := by positivity
  push_cast
  linarith

@[simp] theorem gridValue_zero : gridValue 0 = 0 := by
  simp [gridValue]

theorem gridValue_top : gridValue top = 2 ^ 1024 := by
  have h := gridValue_add (k := 2045) (m := 2 ^ 53) le_rfl (by norm_num)
  have htop : top = 2045 * 2 ^ 52 + 2 ^ 53 := by decide
  have hexp : ((2045 : ℕ) : ℤ) - 1074 = (971 : ℕ) := by norm_num
  have hpow : ((2 ^ 53 : ℕ) : ℚ) = 2 ^ 53 := by norm_num
  rw [htop, h, hexp, zpow_natCast, hpow, ← pow_add]

/-- The number that a double stands for, unless it has a negative sign or is no number.
Infinity counts as `2 ^ 1024`, the next power of two after the greatest double. -/
def magnitude? (x : Float) : Option ℚ :=
  match x.toModel.unpack with
  | .zero .positive => some 0
  | .finite .positive m e _ => some (m * 2 ^ e)
  | .infinity .positive => some (2 ^ 1024)
  | _ => none

theorem gridValue_encode {m : ℕ} {e : ℤ} (h : Canonical m e) :
    gridValue ((e + 1074).toNat * 2 ^ 52 + m) = m * 2 ^ e := by
  have hexp : ((e + 1074).toNat : ℤ) - 1074 = e := by
    have := h.least
    omega
  have hfull : 2 ^ 52 ≤ m ∨ (e + 1074).toNat = 0 := by
    have := h.full
    omega
  rw [gridValue_add h.lt.le hfull, hexp]

/-- The doubles from zero to infinity have the bits from zero up to those of infinity, and
their bits say which number they stand for. -/
theorem magnitude?_eq_some_iff {x : Float} {v : ℚ} :
    magnitude? x = some v ↔ bits x ≤ top ∧ gridValue (bits x) = v := by
  have hcanonical := (unpack_spec x).1
  rw [bits_eq_encode, magnitude?]
  generalize x.toModel.unpack = f at hcanonical
  match f, hcanonical with
  | .notANumber, _ => simp [encode, top]
  | .zero .positive, _ => simp [encode, signBit]
  | .zero .negative, _ => simp [encode, signBit, top]
  | .infinity .positive, _ =>
    simp [encode, signBit, gridValue_top]
  | .infinity .negative, _ => simp [encode, signBit, top]
  | .finite .positive m e _, h =>
    have := h.lt
    have := h.greatest
    have hle : (e + 1074).toNat * 2 ^ 52 + m ≤ top := by
      simp only [top]
      omega
    simp only [encode, signBit, Nat.zero_add, gridValue_encode h, hle, Option.some.injEq, true_and]
  | .finite .negative m e _, _ =>
    have : ¬ 2 ^ 63 + ((e + 1074).toNat * 2 ^ 52 + m) ≤ top := by
      simp only [top]
      omega
    simp only [encode, signBit, this, false_and, reduceCtorEq]

theorem bits_zero : bits zero = 0 := bits_pack (.zero .positive) trivial

theorem bits_infinity : bits infinity = top := by
  rw [infinity, bits_pack (.infinity .positive) trivial, encode, signBit, Nat.zero_add]

theorem bits_finite {m : ℕ} {e : ℤ} (h : Canonical m e) :
    bits (.ofModel (.pack (.finite .positive m e h.pos))) = (e + 1074).toNat * 2 ^ 52 + m := by
  rw [bits_pack (.finite .positive m e h.pos) h, encode, signBit, Nat.zero_add]

theorem exists_bits {n : ℕ} (hn : n ≤ top) : ∃ x, bits x = n := by
  rcases hn.lt_or_eq with hlt | rfl
  · obtain ⟨k, m, rfl, hm, hk⟩ := exists_place n
    rcases Nat.eq_zero_or_pos m with rfl | hpos
    · exact ⟨zero, by rw [bits_zero]; omega⟩
    · have htop : k * 2 ^ 52 + m < 2047 * 2 ^ 52 := hlt
      have hcanonical : Canonical m ((k : ℤ) - 1074) :=
        ⟨hpos, hm, by omega, by omega, by omega⟩
      exact ⟨_, (bits_finite hcanonical).trans (by omega)⟩
  · exact ⟨infinity, bits_infinity⟩

/-! ## The double nearest to a number -/

/-- The double is nearer to the number than every other double from zero to infinity, or as
near as another but with the last binary digit zero. -/
def Nearest (q : ℚ) (x : Float) : Prop :=
  ∃ v, magnitude? x = some v ∧ ∀ y w, magnitude? y = some w → y ≠ x →
    |q - v| < |q - w| ∨ |q - v| = |q - w| ∧ Even (bits x)

theorem nearest_iff {q : ℚ} {x : Float} : Nearest q x ↔ Rounds gridValue top q (bits x) := by
  rw [rounds_iff gridValue_strictMono]
  refine ⟨?_, ?_⟩
  · intro h
    obtain ⟨v, hv, h⟩ := h
    obtain ⟨hx, rfl⟩ := magnitude?_eq_some_iff.mp hv
    refine ⟨hx, fun k hk hne => ?_⟩
    obtain ⟨y, rfl⟩ := exists_bits hk
    exact h y _ (magnitude?_eq_some_iff.mpr ⟨hk, rfl⟩) (fun hyx => hne (by rw [hyx]))
  · intro h
    obtain ⟨hx, h⟩ := h
    refine ⟨gridValue (bits x), magnitude?_eq_some_iff.mpr ⟨hx, rfl⟩, fun y w hw hne => ?_⟩
    obtain ⟨hy, rfl⟩ := magnitude?_eq_some_iff.mp hw
    exact h _ hy fun heq => hne (eq_of_bits heq)

theorem Nearest.unique {q : ℚ} {x y : Float} (hx : Nearest q x) (hy : Nearest q y) : x = y :=
  eq_of_bits ((nearest_iff.mp hx).unique gridValue_strictMono (nearest_iff.mp hy))

end PathCurves.Double
