/-
Even spacing over doubles. The distance of two finite ends may lie beyond the finite doubles. Then
the stride is infinite, and to go no stride from the start is no number: so the first entry is not
the start. If the distance is finite, it is (`number?_first`). What comes later is always a number,
maybe an infinite one (`exists_number_later`). Main statement: `ends_of_spaced`.
-/
import PathCurves.Proofs.Magnitude
import PathCurves.Spacing

namespace PathCurves

open Double

/-! ## Counts -/

theorem exists_ofCount {n : ℕ} (hn : 1 ≤ n) : ∃ c, number? (ofCount n) = some c ∧ 1 ≤ c := by
  obtain ⟨c, hc, hround⟩ := rounded_ofCount n
  exact ⟨c, hc, hround.ge onGrid_one (by exact_mod_cast hn)⟩

/-- A finite double in equal parts, however many, has finite parts. -/
theorem exists_div_ofCount {x : Float} {v : ℚ} (hx : HasValue x v) {n : ℕ} (hn : 1 ≤ n) :
    ∃ w, HasValue (x / ofCount n) w := by
  obtain ⟨c, hc, hle⟩ := exists_ofCount hn
  obtain hfinite | ⟨s, hs, -⟩ := number_cases hc
  · obtain ⟨w, hw, -⟩ := hx.div_of_one_le hfinite (hle.trans (le_abs_self c))
    exact ⟨w, hw⟩
  · exact ⟨0, hs.finite_div hx⟩

theorem within_ofCount {n : ℕ} (hn : n ≤ 2 ^ 64) : Within 64 (ofCount n) := by
  refine (rounded_ofCount n).within (by norm_num) ?_
  rw [Nat.abs_cast]
  exact_mod_cast hn

theorem hasValue_ofCount_zero : HasValue (ofCount 0) 0 := by
  have h := hasValue_of_bits (x := ofCount 0) 0 0 (by norm_num) (by norm_num) (.inr rfl)
    (by decide +kernel)
  simpa using h

/-! ## The first entry and the later ones -/

section

variable {start stop : Float} {a b d : ℚ} {count i : ℕ}

theorem stride_eq (start stop : Float) (h : 2 ≤ count) :
    stride start stop count = (stop - start) / ofCount (count - 1) := if_pos h

/-- The first entry is the start if the distance of the ends is finite, and no number if not. -/
theorem number?_first (hstart : HasValue start a) (hstop : HasValue stop b) (h : 2 ≤ count) :
    number? (start + stride start stop count * ofCount 0) =
      if (stop - start).isFinite then some a else none := by
  have hparts : 1 ≤ count - 1 := by omega
  rw [stride_eq start stop h]
  obtain ⟨d, hd, -⟩ := hstop.sub hstart
  obtain hspan | ⟨s, hs, -⟩ := number_cases hd
  · rw [hspan.isFinite, if_pos rfl]
    obtain ⟨w, hw⟩ := exists_div_ofCount hspan hparts
    have hpart := hw.mul hasValue_ofCount_zero
    rw [mul_zero] at hpart
    have hsum := hstart.add (hpart.exact hasValue_zero)
    rw [add_zero] at hsum
    exact (hsum.exact hstart).1
  · rw [hs.isFinite, if_neg Bool.false_ne_true]
    refine number?_add (.inr ?_)
    obtain ⟨c, hc, -⟩ := exists_ofCount hparts
    obtain hfinite | ⟨r, hr, -⟩ := number_cases hc
    · obtain ⟨t, ht, -⟩ := hs.div_finite hfinite
      exact ht.mul_zero hasValue_ofCount_zero
    · -- With infinitely many parts the stride is no number itself.
      exact number?_mul (.inl (hs.div hr))

theorem exists_number_stride (hstart : HasValue start a) (hstop : HasValue stop b) (h : 2 ≤ count)
    (hcount : count ≤ 2 ^ 64) : ∃ v, number? (stride start stop count) = some v := by
  rw [stride_eq start stop h]
  obtain ⟨d, hd, -⟩ := hstop.sub hstart
  obtain ⟨c, hc⟩ := (within_ofCount (show count - 1 ≤ 2 ^ 64 by omega)).exists_hasValue
  obtain hspan | ⟨s, hs, -⟩ := number_cases hd
  · obtain ⟨w, hw⟩ := exists_div_ofCount hspan (show 1 ≤ count - 1 by omega)
    exact ⟨w, hw.1⟩
  · obtain ⟨r, hr, -⟩ := hs.div_finite hc
    exact ⟨_, hr.number⟩

theorem exists_number_later (hstart : HasValue start a) (hstop : HasValue stop b)
    (hcount : count ≤ 2 ^ 64) (hi : 1 ≤ i) (hi' : i < count - 1) :
    ∃ v, number? (start + stride start stop count * ofCount i) = some v := by
  obtain ⟨w, hw⟩ := exists_number_stride hstart hstop (show 2 ≤ count by omega) hcount
  obtain ⟨c, hc, hle⟩ := exists_ofCount hi
  obtain ⟨c', hc'⟩ := (within_ofCount (show i ≤ 2 ^ 64 by omega)).exists_hasValue
  obtain rfl : c = c' := Option.some.inj (hc.symm.trans hc'.1)
  obtain ⟨v, hv⟩ := exists_number_mul hw hc' (one_pos.trans_le hle).ne'
  exact exists_number_add hstart hv

/-- Only the first entry can be no number, and it is none if the distance of the ends is not
finite. -/
theorem isNaN_iff_of_getElem? (hstart : HasValue start a) (hstop : HasValue stop b) (h : 2 ≤ count)
    (hcount : count ≤ 2 ^ 64) {v : Float} (hv : (spaced start stop count)[i]? = some v) :
    v.isNaN = true ↔ i = 0 ∧ (stop - start).isFinite = false := by
  rw [isNaN_iff]
  obtain ⟨rfl, rfl⟩ | ⟨hi, rfl⟩ := getElem?_spaced_cases h hv
  · have hlater : count - 1 ≠ 0 := by omega
    simp [hstop.1, hlater]
  · rcases Nat.eq_zero_or_pos i with rfl | hpos
    · have hfirst : number? (start + stride start stop count * ((0 : ℕ) : Float)) = _ :=
        number?_first hstart hstop h
      rw [hfirst]
      split
      · next hspan => simp [hspan]
      · next hspan => simp [hspan]
    · obtain ⟨w, hw⟩ := exists_number_later hstart hstop hcount hpos hi
      have hw : number? (start + stride start stop count * ((i : ℕ) : Float)) = some w := hw
      rw [hw]
      simp [hpos.ne']

end

/-- Between finite ends there are as many entries as asked for, and the last of them is the end.
The first one is the start exactly if the distance of the ends is finite; otherwise it, and it
alone, is no number. -/
theorem ends_of_spaced {start stop : Float} {count : ℕ} (hstart : start.isFinite = true)
    (hstop : stop.isFinite = true) (h : 2 ≤ count) :
    (spaced start stop count).length = count ∧
    (spaced start stop count).getLast? = some stop ∧
    (∃ first, (spaced start stop count).head? = some first ∧
      ((first == start) = true ↔ (stop - start).isFinite = true)) ∧
    (count ≤ 2 ^ 64 → ∀ i v, (spaced start stop count)[i]? = some v →
      (v.isNaN = true ↔ i = 0 ∧ (stop - start).isFinite = false)) := by
  obtain ⟨a, ha⟩ := isFinite_iff.mp hstart
  obtain ⟨b, hb⟩ := isFinite_iff.mp hstop
  have hne := spaced_ne_nil start stop (show 0 < count by omega)
  refine ⟨length_spaced start stop count, ?_, ⟨_, List.head?_eq_some_head hne, ?_⟩,
    fun hcount i v hv => isNaN_iff_of_getElem? ha hb h hcount hv⟩
  · rw [List.getLast?_eq_some_getLast hne, getLast_spaced start stop h hne]
  · have hhead : (spaced start stop count).head hne = start + stride start stop count * ofCount 0 :=
      head_spaced start stop h hne
    rw [hhead, beq_iff, number?_first ha hb h]
    split
    · next hspan => simp [hspan, ha.1]
    · next hspan => simp [hspan]

theorem ends_of_spaced_example : (spaced (2.0 : Float) (-2.0) 5).getLast? = some (-2.0) ∧
    (∃ first, (spaced (2.0 : Float) (-2.0) 5).head? = some first ∧ (first == 2.0) = true) ∧
    ∀ (i : ℕ) (v : Float), (spaced (2.0 : Float) (-2.0) 5)[i]? = some v → v.isNaN = false := by
  have hspan : Float.isFinite (-2.0 - 2.0) = true := by decide +kernel
  obtain ⟨-, hlast, ⟨first, hhead, hfirst⟩, hnan⟩ :=
    @ends_of_spaced 2.0 (-2.0) 5 (by decide +kernel) (by decide +kernel) (by decide)
  refine ⟨hlast, ⟨first, hhead, hfirst.mpr hspan⟩, fun i v hv => ?_⟩
  rw [Bool.eq_false_iff, ne_eq, hnan (by norm_num) i v hv, hspan]
  exact fun h => Bool.noConfusion h.2

/-- Two finite ends whose distance is not finite. -/
theorem first_ne_start_example : Float.isFinite (-1e308) = true ∧ Float.isFinite 1e308 = true ∧
    ∃ first, (spaced (-1e308 : Float) 1e308 2).head? = some first ∧
      (first == -1e308) = false ∧ first.isNaN = true := by
  refine ⟨by decide +kernel, by decide +kernel, _, rfl, ?_, ?_⟩
  · decide +kernel
  · decide +kernel

end PathCurves
