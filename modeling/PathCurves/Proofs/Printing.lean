/-
The texts of doubles, and that they are numerals. Main statements: `shown_ofDouble`, every
double is written as a word or by the fewest digits that are read as it, and `Shown.spells`,
what is written for a double is a numeral that stands for it.
-/
import PathCurves.Proofs.Fields
import PathCurves.Proofs.Literal
import PathCurves.Proofs.Shortest
import PathCurves.Text.Positional

namespace PathCurves

/-- The decimal is read as the double, and no decimal with fewer digits is. -/
def Decimal.IsShortest (d : Decimal) (x : Float) : Prop :=
  d.toDouble = x ∧ ∀ other : Decimal, other.toDouble = x →
    Decimal.digitCount d.digits ≤ Decimal.digitCount other.digits

namespace Text

open Numeral

/-- The mark before a negative number. -/
def minus (negative : Bool) : List Char := if negative then ['-'] else []

/-- What is written for a double: a word, or in positional notation the fewest digits that are
read as it. -/
inductive Shown : Float → List Char → Prop
  | undefined : Shown Double.undefined ['N', 'a', 'N']
  | infinite (negative) :
      Shown (signed negative Double.infinity) (minus negative ++ ['i', 'n', 'f'])
  | decimal (negative) {d x} (h : Decimal.IsShortest d x) :
      Shown (signed negative x) (minus negative ++ positional d)

/-! ## Digits -/

namespace Numeral

theorem value_toDigits (n : ℕ) : value (Nat.toDigits 10 n) = n :=
  @Nat.ofDigitChars_ten_toDigits n

theorem digits_toDigits (n : ℕ) : Digits (Nat.toDigits 10 n) :=
  fun _ hc => Nat.isDigit_of_mem_toDigits (by decide) (by decide) hc

theorem digits_replicate (k : ℕ) : Digits (List.replicate k '0') := by
  intro c hc
  rw [List.eq_of_mem_replicate hc]
  rfl

theorem Digits.append {a b : List Char} (ha : Digits a) (hb : Digits b) : Digits (a ++ b) := by
  intro c hc
  rcases List.mem_append.mp hc with hc | hc
  · exact ha c hc
  · exact hb c hc

theorem value_append_zeros (digits : List Char) (k : ℕ) :
    value (digits ++ List.replicate k '0') = value digits * 10 ^ k := by
  have h := @Nat.ofDigitChars_append 10 digits (List.replicate k '0') 0
  rw [Nat.ofDigitChars_replicate_zero] at h
  exact h.trans (mul_comm _ _)

theorem value_zeros_append (k : ℕ) (digits : List Char) :
    value (List.replicate k '0' ++ digits) = value digits := by
  have h := @Nat.ofDigitChars_append 10 (List.replicate k '0') digits 0
  rw [Nat.ofDigitChars_replicate_zero, mul_zero] at h
  exact h

end Numeral

/-- A decimal in positional notation is digits with a point that have its value. -/
theorem mantissa_positional (d : Decimal) : ∃ n places, Mantissa (positional d) n places ∧
    Double.decimalValue n (0 - places) = d.value := by
  have hdigits := digits_toDigits d.digits
  have hvalue := value_toDigits d.digits
  have hne : Nat.toDigits 10 d.digits ≠ [] := Nat.toDigits_ne_nil
  unfold positional
  dsimp only
  generalize Nat.toDigits 10 d.digits = digits at hdigits hvalue hne
  by_cases hplaces : (-d.exponent).toNat = 0
  · -- Zeros stand between the digits and the place of the ones.
    have hexp : (10 : ℚ) ^ d.exponent = 10 ^ d.exponent.toNat := by
      rw [← zpow_natCast, Int.toNat_of_nonneg (by omega)]
    rw [if_pos hplaces]
    refine ⟨_, 0, .whole (by simp [hne]) (hdigits.append (digits_replicate _)), ?_⟩
    rw [value_append_zeros, hvalue, Decimal.value, Double.decimalValue, Double.decimalValue, hexp]
    simp
  · -- As many digits stand behind the point as the exponent says.
    have hexp : 0 - ((-d.exponent).toNat : ℤ) = d.exponent := by omega
    have hsplit : ∀ before after, before ++ after ≠ [] → Digits (before ++ after) →
        value (before ++ after) = d.digits → after.length = (-d.exponent).toNat →
        ∃ n places, Mantissa (before ++ '.' :: after) n places ∧
          Double.decimalValue n (0 - places) = d.value := by
      intro before after hne hd hvalue hlength
      refine ⟨_, _, .pointed hne (fun c hc => hd c (List.mem_append_left _ hc))
        (fun c hc => hd c (List.mem_append_right _ hc)), ?_⟩
      rw [hvalue, hlength, hexp, Decimal.value]
    rw [if_neg hplaces]
    by_cases hlen : digits.length ≤ (-d.exponent).toNat
    · rw [if_pos hlen]
      refine hsplit ['0'] _ (by simp) ?_ ?_ ?_
      · exact (digits_replicate 1).append ((digits_replicate _).append hdigits)
      · have hone := value_zeros_append 1
        rw [List.replicate_one] at hone
        rw [hone, value_zeros_append, hvalue]
      · rw [List.length_append, List.length_replicate]
        omega
    · rw [if_neg hlen]
      refine hsplit _ _ ?_ ?_ ?_ ?_
      · rwa [List.take_append_drop]
      · rwa [List.take_append_drop]
      · rwa [List.take_append_drop]
      · rw [List.length_drop]
        omega

/-! ## Doubles -/

theorem ofPlace_of_canonical {m : ℕ} {e : ℤ} (h : Double.Canonical m e) :
    Double.ofPlace m e = .ofModel (.pack (.finite .positive m e h.pos)) := by
  have hne : m ≠ 2 ^ 53 := h.lt.ne
  rw [Double.ofPlace, dif_pos h.pos, if_neg hne]

theorem isShortest_zero : Decimal.IsShortest ⟨0, 0⟩ Double.zero := by
  have hone : Decimal.digitCount 0 = 1 := rfl
  refine ⟨rfl, fun other _ => ?_⟩
  exact hone.le.trans (Decimal.digitCount_pos other.digits)

/-- Every double is written by the fewest digits that are read as it. -/
theorem shown_ofDouble (x : Float) : Shown x (ofDouble x) := by
  have hcanonical := (Double.unpack_spec x).1
  have hpack := Double.pack_unpack x
  unfold ofDouble
  generalize x.toModel.unpack = f at hcanonical hpack
  subst hpack
  match f, hcanonical with
  | .notANumber, _ => exact .undefined
  | .infinity .positive, _ => exact .infinite false
  | .infinity .negative, _ =>
    have h := Shown.infinite true
    rwa [signed, if_pos rfl, Double.infinity, Double.neg_pack] at h
  | .zero .positive, _ => exact .decimal false isShortest_zero
  | .zero .negative, _ =>
    have h := Shown.decimal true isShortest_zero
    rwa [signed, if_pos rfl, Double.zero, Double.neg_pack] at h
  | .finite s m e hm, (h : Double.Canonical m e) =>
    have hshortest : Decimal.IsShortest (.shortest m e) (Double.ofPlace m e) :=
      ⟨Decimal.toDouble_shortest h, fun _ => Decimal.digitCount_shortest_le h⟩
    have hplace := ofPlace_of_canonical h
    cases s with
    | positive =>
      have hshown := Shown.decimal false hshortest
      rwa [signed, if_neg Bool.false_ne_true, hplace] at hshown
    | negative =>
      have hshown := Shown.decimal true hshortest
      rwa [signed, if_pos rfl, hplace, Double.neg_pack] at hshown

theorem signs_minus (negative : Bool) : Signs (minus negative) negative := by
  cases negative
  · exact .none
  · exact .minus

/-- What is written for a double is a numeral that stands for it. -/
theorem Shown.spells {x : Float} {text : List Char} (h : Shown x text) :
    ∃ n, Spells text n ∧ Means n x := by
  cases h with
  | undefined => exact ⟨.undefined, .signed .none (.undefined rfl), .undefined⟩
  | infinite negative =>
    exact ⟨_, .signed (signs_minus negative) (.infinite (.inl rfl)), .infinite negative⟩
  | @decimal negative d x h =>
    obtain ⟨n, places, hm, hvalue⟩ := mantissa_positional d
    have hspells := @Unsigned.decimal negative _ _ _ _ _ hm .none
    rw [List.append_nil] at hspells
    have hnearest : Double.Nearest d.value x := h.1 ▸ Double.nearest_ofDecimal _ _
    exact ⟨_, .signed (signs_minus negative) hspells, .decimal negative (hvalue ▸ hnearest)⟩

/-! ## White space -/

theorem isBlank_of_isDigit {c : Char} (h : c.isDigit = true) : isBlank c = false := by
  simp only [Char.isDigit, Bool.and_eq_true, decide_eq_true_eq] at h
  have hlow := UInt32.le_iff_toNat_le.mp h.1
  have hhigh := UInt32.le_iff_toNat_le.mp h.2
  simp [isBlank, within, blanks] at hlow hhigh ⊢
  omega

theorem toLower_of_isBlank {c : Char} (h : isBlank c = true) : c.toLower = c := by
  unfold Char.toLower
  rw [dif_neg]
  intro hupper
  have hlow := UInt32.le_iff_toNat_le.mp hupper.1
  have hhigh := UInt32.le_iff_toNat_le.mp hupper.2
  simp [isBlank, within, blanks] at hlow hhigh h
  omega

namespace Numeral

theorem Digits.not_blank {digits : List Char} (h : Digits digits) :
    ∀ c ∈ digits, isBlank c = false :=
  fun c hc => isBlank_of_isDigit (h c hc)

theorem Signs.not_blank {sign : List Char} {negative : Bool} (h : Signs sign negative) :
    ∀ c ∈ sign, isBlank c = false := by
  cases h with
  | none => exact fun c hc => absurd hc List.not_mem_nil
  | plus => exact List.forall_mem_singleton.mpr rfl
  | minus => exact List.forall_mem_singleton.mpr rfl

theorem Mantissa.not_blank {text : List Char} {digits places : ℕ} (h : Mantissa text digits places) :
    ∀ c ∈ text, isBlank c = false := by
  cases h with
  | whole _ hd => exact hd.not_blank
  | pointed _ hb ha =>
    exact List.forall_mem_append.mpr ⟨hb.not_blank, List.forall_mem_cons.mpr ⟨rfl, ha.not_blank⟩⟩

theorem Power.not_blank {text : List Char} {e : ℤ} (h : Power text e) :
    ∀ c ∈ text, isBlank c = false := by
  cases h with
  | none => exact fun c hc => absurd hc List.not_mem_nil
  | @given mark _ _ _ hm hs _ hd =>
    have hmark : isBlank mark = false := by rcases hm with rfl | rfl <;> rfl
    exact List.forall_mem_cons.mpr
      ⟨hmark, List.forall_mem_append.mpr ⟨hs.not_blank, hd.not_blank⟩⟩

theorem not_blank_of_toLower {text word : List Char} (hw : word.any isBlank = false)
    (h : text.map Char.toLower = word) : ∀ c ∈ text, isBlank c = false := by
  intro c hc
  by_contra hblank
  have hlower := toLower_of_isBlank (Bool.of_not_eq_false hblank)
  have hmem : c ∈ word := by
    rw [← h, ← hlower]
    exact List.mem_map_of_mem hc
  exact hblank (Bool.eq_false_of_not_eq_true (List.any_eq_false.mp hw c hmem))

theorem Unsigned.isWord {negative : Bool} {text : List Char} {n : Numeral}
    (h : Unsigned negative text n) : IsWord text := by
  have hne : ∀ {word : List Char}, text.map Char.toLower = word → word ≠ [] → text ≠ [] := by
    rintro word hmap hword rfl
    exact hword hmap.symm
  cases h with
  | infinite hword =>
    rcases hword with hword | hword
    · exact ⟨hne hword (List.cons_ne_nil _ _), not_blank_of_toLower rfl hword⟩
    · exact ⟨hne hword (List.cons_ne_nil _ _), not_blank_of_toLower rfl hword⟩
  | undefined hword => exact ⟨hne hword (List.cons_ne_nil _ _), not_blank_of_toLower rfl hword⟩
  | decimal hm hp =>
    obtain ⟨c, rest, rfl, -⟩ := hm.head
    exact ⟨List.cons_ne_nil _ _, List.forall_mem_append.mpr ⟨hm.not_blank, hp.not_blank⟩⟩

theorem Spells.isWord {text : List Char} {n : Numeral} (h : Spells text n) : IsWord text := by
  cases h with
  | signed hs h =>
    obtain ⟨hne, hword⟩ := h.isWord
    exact ⟨List.append_ne_nil_of_right_ne_nil _ hne,
      List.forall_mem_append.mpr ⟨hs.not_blank, hword⟩⟩

end Numeral

end Text

end PathCurves
