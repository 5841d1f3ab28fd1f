/-
Rounding to an increasing sequence of numbers, by comparison with the middles between one
number and the next. Main statements: `Rounds.le_of_le`, rounding keeps the order,
`Rounds.unique`, a number is rounded to one position only, `Rounds.between`, what lies between
two numbers that are rounded to a position is rounded to it too, and `rounds_iff`, the position
holds the number closest to the rounded one, and of two equally close ones that at the even
position.
-/
import Mathlib

namespace PathCurves

variable {g : ℕ → ℚ} {top n m : ℕ} {q r : ℚ}

/-- `q` lies above the middle between the numbers before and at position `n`, or on it if `n`
is even. -/
def Reaches (g : ℕ → ℚ) (q : ℚ) (n : ℕ) : Prop :=
  ∀ k, k + 1 = n → g k + g n < 2 * q ∨ g k + g n = 2 * q ∧ Even n

/-- `q` lies below the middle between the numbers at and after position `n`, or on it if `n`
is even. -/
def Stays (g : ℕ → ℚ) (q : ℚ) (n : ℕ) : Prop :=
  2 * q < g n + g (n + 1) ∨ 2 * q = g n + g (n + 1) ∧ Even n

/-- `q` is rounded to position `n` of the positions up to `top`. -/
structure Rounds (g : ℕ → ℚ) (top : ℕ) (q : ℚ) (n : ℕ) : Prop where
  le_top : n ≤ top
  reaches : Reaches g q n
  stays : n < top → Stays g q n

theorem Reaches.le (h : Reaches g q (n + 1)) : g n + g (n + 1) ≤ 2 * q := by
  rcases h n rfl with h | h
  · exact h.le
  · exact h.1.le

theorem Stays.le (h : Stays g q n) : 2 * q ≤ g n + g (n + 1) := by
  rcases h with h | h
  · exact h.le
  · exact h.1.le

theorem reaches_zero : Reaches g q 0 := by
  intro k hk
  omega

theorem Reaches.mono (h : Reaches g q n) (hqr : q ≤ r) : Reaches g r n := by
  intro k hk
  rcases h k hk with hlt | ⟨heq, heven⟩
  · left
    linarith
  · rcases hqr.lt_or_eq with hlt | rfl
    · left
      linarith
    · exact .inr ⟨heq, heven⟩

theorem Stays.anti (h : Stays g r n) (hqr : q ≤ r) : Stays g q n := by
  rcases h with hlt | ⟨heq, heven⟩
  · left
    linarith
  · rcases hqr.lt_or_eq with hlt | rfl
    · left
      linarith
    · exact .inr ⟨heq, heven⟩

/-- What lies between two numbers that are rounded to a position is rounded to it too. -/
theorem Rounds.between {s : ℚ} (hq : Rounds g top q n) (hs : Rounds g top s n) (hqr : q ≤ r)
    (hrs : r ≤ s) : Rounds g top r n :=
  ⟨hq.le_top, hq.reaches.mono hqr, fun hn => (hs.stays hn).anti hrs⟩

theorem rounds_self (hg : StrictMono g) (hn : n ≤ top) : Rounds g top (g n) n := by
  refine ⟨hn, ?_, fun _ => ?_⟩
  · rintro k rfl
    have := hg (Nat.lt_succ_self k)
    left
    linarith
  · have := hg (Nat.lt_succ_self n)
    left
    linarith

/-- What is rounded beyond the last position without a limit is rounded to it with one. -/
theorem rounds_min (hg : StrictMono g) (hr : Reaches g q n) (hs : Stays g q n) :
    Rounds g top q (min n top) := by
  rcases le_or_gt n top with hn | hn
  · rw [min_eq_left hn]
    exact ⟨hn, hr, fun _ => hs⟩
  · rw [min_eq_right hn.le]
    refine ⟨le_rfl, ?_, fun h => absurd h (lt_irrefl top)⟩
    rintro k rfl
    obtain ⟨j, rfl⟩ : ∃ j, n = j + 1 := ⟨n - 1, by omega⟩
    have hle := hr.le
    have hk : g k < g j := hg (by omega)
    have hj : g (k + 1) ≤ g (j + 1) := hg.monotone (by omega)
    left
    linarith

theorem rounds_top (hg : StrictMono g) (hq : g top ≤ q) : Rounds g top q top :=
  ⟨le_rfl, (rounds_self hg le_rfl).reaches.mono hq, fun h => absurd h (lt_irrefl top)⟩

theorem Rounds.le_of_le (hg : StrictMono g) (hn : Rounds g top q n) (hm : Rounds g top r m)
    (hqr : q ≤ r) : n ≤ m := by
  by_contra hlt
  rw [not_le] at hlt
  obtain ⟨k, rfl⟩ : ∃ k, n = k + 1 := ⟨n - 1, by omega⟩
  have hstays := (hm.stays (hlt.trans_le hn.le_top)).anti hqr
  have h₁ := hstays.le
  have h₂ := hn.reaches.le
  rcases (Nat.le_of_lt_succ hlt).lt_or_eq with hmk | rfl
  · have h₃ : g m < g k := hg hmk
    have h₄ : g (m + 1) < g (k + 1) := hg (by omega)
    linarith
  · -- Next to each other, they can only meet in the middle, and one of them is odd.
    rcases hstays with h | ⟨-, hm⟩
    · linarith
    · rcases hn.reaches m rfl with h | ⟨-, hk⟩
      · linarith
      · exact Nat.even_add_one.mp hk hm

theorem Rounds.unique (hg : StrictMono g) (hn : Rounds g top q n) (hm : Rounds g top q m) :
    n = m :=
  le_antisymm (hn.le_of_le hg hm le_rfl) (hm.le_of_le hg hn le_rfl)

/-! ## Rounding as the choice of the closest number -/

/-- Closer to the lower of two numbers means below their middle. -/
theorem abs_sub_lt_iff_of_lt {a b : ℚ} (h : a < b) : |q - a| < |q - b| ↔ 2 * q < a + b := by
  rw [← sq_lt_sq]
  refine ⟨?_, ?_⟩
  · intro hsq
    nlinarith
  · intro hsum
    nlinarith

theorem abs_sub_lt_iff_of_gt {a b : ℚ} (h : a < b) : |q - b| < |q - a| ↔ a + b < 2 * q := by
  rw [← sq_lt_sq]
  refine ⟨?_, ?_⟩
  · intro hsq
    nlinarith
  · intro hsum
    nlinarith

theorem abs_sub_eq_iff_of_ne {a b : ℚ} (h : a ≠ b) : |q - a| = |q - b| ↔ 2 * q = a + b := by
  have hne : a - b ≠ 0 := sub_ne_zero.mpr h
  rw [← sq_eq_sq_iff_abs_eq_abs]
  refine ⟨?_, ?_⟩
  · intro hsq
    have hprod : (a - b) * (a + b - 2 * q) = 0 := by linear_combination hsq
    linarith [(mul_eq_zero.mp hprod).resolve_left hne]
  · intro hsum
    linear_combination (b - a) * hsum

/-- The position holds the closest of the numbers, and of two equally close ones it is the
even position. -/
def HoldsClosest (g : ℕ → ℚ) (top : ℕ) (q : ℚ) (n : ℕ) : Prop :=
  ∀ k ≤ top, k ≠ n → |q - g n| < |q - g k| ∨ |q - g n| = |q - g k| ∧ Even n

theorem Rounds.holdsClosest (hg : StrictMono g) (h : Rounds g top q n) :
    HoldsClosest g top q n := by
  intro k hk hne
  rw [abs_sub_eq_iff_of_ne (hg.injective.ne hne).symm]
  rcases hne.lt_or_gt with hlt | hlt
  · rw [abs_sub_lt_iff_of_gt (hg hlt)]
    obtain ⟨j, rfl⟩ : ∃ j, n = j + 1 := ⟨n - 1, by omega⟩
    rcases (Nat.le_of_lt_succ hlt).lt_or_eq with hkj | rfl
    · have h₁ := h.reaches.le
      have h₂ : g k < g j := hg hkj
      left
      linarith
    · rcases h.reaches k rfl with h' | ⟨h', heven⟩
      · exact .inl h'
      · exact .inr ⟨by linarith, heven⟩
  · rw [abs_sub_lt_iff_of_lt (hg hlt)]
    have hstays := h.stays (hlt.trans_le hk)
    rcases (Nat.succ_le_of_lt hlt).lt_or_eq with hnk | rfl
    · have h₁ := hstays.le
      have h₂ : g (n + 1) < g k := hg hnk
      left
      linarith
    · exact hstays

theorem HoldsClosest.rounds (hg : StrictMono g) (hn : n ≤ top) (h : HoldsClosest g top q n) :
    Rounds g top q n := by
  refine ⟨hn, ?_, fun hlt => ?_⟩
  · rintro k rfl
    have hne : k ≠ k + 1 := by omega
    have hk := h k (by omega) hne
    rw [abs_sub_eq_iff_of_ne (hg.injective.ne hne).symm,
      abs_sub_lt_iff_of_gt (hg (Nat.lt_succ_self k))] at hk
    rcases hk with hk | ⟨hk, heven⟩
    · exact .inl hk
    · exact .inr ⟨by linarith, heven⟩
  · have hne : n + 1 ≠ n := by omega
    have hk := h (n + 1) hlt hne
    rwa [abs_sub_eq_iff_of_ne (hg.injective.ne hne).symm,
      abs_sub_lt_iff_of_lt (hg (Nat.lt_succ_self n))] at hk

/-- Rounding finds the closest of the numbers up to the last position, and of two equally
close ones that at the even position. -/
theorem rounds_iff (hg : StrictMono g) : Rounds g top q n ↔ n ≤ top ∧ HoldsClosest g top q n :=
  ⟨fun h => ⟨h.le_top, h.holdsClosest hg⟩, fun ⟨hn, h⟩ => h.rounds hg hn⟩

end PathCurves
