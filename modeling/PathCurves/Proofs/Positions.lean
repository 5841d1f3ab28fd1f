/-
The numerals of positions, and that they are read exactly as their grammar says. Main statement:
`parseIndex_spec`, a text is read as a position exactly if it is the numeral of one with white space
around it, every other text is at fault as it stands, and a reader that takes one digit after the
other into a word of 64 bits finds the same.
-/
import PathCurves.Proofs.Printing
import PathCurves.Text.Index

namespace PathCurves.Text

open Numeral

/-! ## White space at both ends -/

theorem dropWhile_isBlank_append {before rest : List Char} (hb : Blank before)
    (hr : ∀ c ∈ rest.head?, isBlank c = false) : (before ++ rest).dropWhile isBlank = rest := by
  rw [List.dropWhile_append_of_pos hb]
  cases rest with
  | nil => rfl
  | cons c rest => rw [List.dropWhile_cons_of_neg (by simp [hr c rfl])]

theorem Blank.reverse {text : List Char} (h : Blank text) : Blank text.reverse :=
  fun c hc => h c (List.mem_reverse.mp hc)

/-- A word is what is left of it without the white space around it. -/
theorem trim_word {before word after : List Char} (hb : Blank before) (hw : IsWord word)
    (ha : Blank after) : trim (before ++ (word ++ after)) = word := by
  have hfirst : ∀ c ∈ (word ++ after).head?, isBlank c = false := by
    intro c hc
    rw [List.head?_append_of_ne_nil _ hw.1] at hc
    exact hw.2 c (List.mem_of_mem_head? hc)
  have hlast : ∀ c ∈ word.reverse.head?, isBlank c = false :=
    fun c hc => hw.2 c (List.mem_reverse.mp (List.mem_of_mem_head? hc))
  rw [trim, dropWhile_isBlank_append hb hfirst, List.reverse_append,
    dropWhile_isBlank_append ha.reverse hlast, List.reverse_reverse]

/-- What is cut off at the ends is white space. -/
theorem exists_trim (text : List Char) :
    ∃ before after, Blank before ∧ Blank after ∧ text = before ++ (trim text ++ after) := by
  refine ⟨text.takeWhile isBlank, ((text.dropWhile isBlank).reverse.takeWhile isBlank).reverse,
    fun c hc => List.mem_takeWhile_imp hc,
    Blank.reverse fun c hc => List.mem_takeWhile_imp hc, ?_⟩
  rw [trim, ← List.reverse_append, List.takeWhile_append_dropWhile, List.reverse_reverse,
    List.takeWhile_append_dropWhile]

namespace Index

/-! ## The grammar -/

/-- The number of a row of digits, of which the last one counts the ones, the one before it the
tens, and so on. -/
def placeValue (digits : List Char) : ℕ :=
  Nat.ofDigits 10 (digits.reverse.map fun c => c.toNat - '0'.toNat)

/-- The texts of a position: digits after a plus sign that may be left out, as many of them as one
likes as long as their number fits into 64 bits, with white space or nothing on both sides. -/
inductive Spells : List Char → ℕ → Prop
  | numeral {before sign digits after} (hb : Blank before) (hs : Signs sign false)
      (hne : digits ≠ []) (hd : Digits digits) (hlt : placeValue digits < 2 ^ 64)
      (ha : Blank after) : Spells (before ++ (sign ++ digits ++ after)) (placeValue digits)

theorem value_eq_placeValue (digits : List Char) : value digits = placeValue digits := by
  induction digits using List.reverseRecOn with
  | nil => rfl
  | append_singleton digits c ih =>
    rw [placeValue, List.reverse_concat, List.map_cons, Nat.ofDigits_cons, ← placeValue, ← ih,
      value, List.foldl_concat, ← value]
    exact Nat.add_comm _ _

/-- What follows a plus sign in front, or all of a text that has none. -/
def withoutPlus : List Char → List Char
  | '+' :: text => text
  | text => text

theorem ofTrimmed?_eq (text : List Char) : ofTrimmed? text = digits? (withoutPlus text) := by
  cases text with
  | nil => rfl
  | cons c text =>
    by_cases hc : c = '+'
    · subst hc
      rfl
    · simp [ofTrimmed?, withoutPlus, hc]

theorem exists_sign (text : List Char) :
    ∃ sign, Signs sign false ∧ text = sign ++ withoutPlus text := by
  unfold withoutPlus
  split
  · exact ⟨['+'], .plus, rfl⟩
  · exact ⟨[], .none, rfl⟩

theorem withoutPlus_append {sign digits : List Char} (hs : Signs sign false) (hd : Digits digits) :
    withoutPlus (sign ++ digits) = digits := by
  cases hs with
  | plus => rfl
  | none =>
    cases digits with
    | nil => rfl
    | cons c digits => simp [withoutPlus, hd.head_ne (d := '+') rfl]

theorem ofTrimmed?_eq_some_iff {text : List Char} {n : ℕ} : ofTrimmed? text = some n ↔
    ∃ sign digits, text = sign ++ digits ∧ Signs sign false ∧ digits ≠ [] ∧ Digits digits ∧
      placeValue digits = n := by
  rw [ofTrimmed?_eq, digits?_eq_some_iff, value_eq_placeValue]
  refine ⟨?_, ?_⟩
  · intro h
    obtain ⟨sign, hs, htext⟩ := exists_sign text
    exact ⟨sign, withoutPlus text, htext, hs, h⟩
  · intro h
    obtain ⟨sign, digits, rfl, hs, h⟩ := h
    rwa [withoutPlus_append hs h.2.1]

end Index

theorem parseIndex_eq_ok_iff {text : String} {n : ℕ} :
    parseIndex text = .ok n ↔ Index.Spells text.toList n := by
  refine ⟨?_, ?_⟩
  · intro h
    unfold parseIndex at h
    split at h
    · next n hn =>
      split at h
      · next hlt =>
        cases h
        obtain ⟨before, after, hb, ha, htext⟩ := exists_trim text.toList
        obtain ⟨sign, digits, htrim, hs, hne, hd, rfl⟩ := Index.ofTrimmed?_eq_some_iff.mp hn
        rw [htext, htrim]
        exact .numeral hb hs hne hd hlt ha
      · cases h
    · cases h
  · intro h
    generalize hchars : text.toList = chars at h
    cases h with
    | @numeral before sign digits after hb hs hne hd hlt ha =>
      have hword : IsWord (sign ++ digits) :=
        ⟨List.append_ne_nil_of_right_ne_nil _ hne,
          List.forall_mem_append.mpr ⟨hs.not_blank, hd.not_blank⟩⟩
      have hread := Index.ofTrimmed?_eq_some_iff.mpr ⟨sign, digits, rfl, hs, hne, hd, rfl⟩
      rw [parseIndex, hchars, trim_word hb hword ha, hread]
      exact if_pos hlt

theorem parseIndex_eq_error {text : String} {fault : Fault} (h : parseIndex text = .error fault) :
    fault = .invalidIndex text := by
  unfold parseIndex at h
  split at h
  · split at h
    · cases h
    · cases h
      rfl
  · cases h
    rfl

/-! ## Digit by digit -/

namespace Index

/-- A number in a word, if it fits. -/
def word? (n : ℕ) : Option UInt64 := if n < UInt64.size then some (.ofNat n) else none

/-- One more digit behind a number in a word. Its tenfold must fit into a word, and so must the sum
with the digit. -/
def push? (w : UInt64) (c : Char) : Option UInt64 := do
  let tens ← word? (w.toNat * 10)
  if c.isDigit then word? (tens.toNat + (c.toNat - '0'.toNat)) else none

/-- The number of a row of digits in a word, one digit after the other. -/
def accumulate? (digits : List Char) : Option UInt64 :=
  if digits = [] then none else digits.foldlM push? 0

variable {n : ℕ} {w v : UInt64} {c : Char} {digits : List Char}

theorem word?_eq_some_iff : word? n = some v ↔ v.toNat = n := by
  unfold word?
  split
  · next hlt => rw [Option.some_inj, ← UInt64.toNat_inj, UInt64.toNat_ofNat_of_lt' hlt, eq_comm]
  · next hlt =>
    refine ⟨fun h => (nomatch h), ?_⟩
    rintro rfl
    exact absurd v.toNat_lt_size hlt

theorem push?_eq_some_iff : push? w c = some v ↔
    c.isDigit = true ∧ v.toNat = 10 * w.toNat + (c.toNat - '0'.toNat) := by
  have hbind : push? w c = some v ↔ ∃ tens, word? (w.toNat * 10) = some tens ∧
      (if c.isDigit then word? (tens.toNat + (c.toNat - '0'.toNat)) else none) = some v :=
    Option.bind_eq_some_iff
  simp only [hbind, word?_eq_some_iff, Option.ite_none_right_eq_some]
  refine ⟨?_, ?_⟩
  · rintro ⟨tens, htens, hc, hv⟩
    exact ⟨hc, by omega⟩
  · rintro ⟨hc, hv⟩
    have hlt := v.toNat_lt_size
    have htens : (UInt64.ofNat (w.toNat * 10)).toNat = w.toNat * 10 :=
      UInt64.toNat_ofNat_of_lt' (by omega)
    exact ⟨_, htens, hc, by omega⟩

theorem le_ofDigitChars (digits : List Char) (init : ℕ) :
    init ≤ Nat.ofDigitChars 10 digits init := by
  rw [Nat.ofDigitChars_eq_ofDigitChars_zero]
  exact Nat.le_add_right_of_le (Nat.le_mul_of_pos_left init (by positivity))

theorem foldlM_push?_eq_some_iff : digits.foldlM push? w = some v ↔
    Digits digits ∧ v.toNat = Nat.ofDigitChars 10 digits w.toNat := by
  induction digits generalizing w with
  | nil =>
    rw [Nat.ofDigitChars_nil, UInt64.toNat_inj]
    exact ⟨fun h => ⟨fun c hc => absurd hc List.not_mem_nil, (Option.some.inj h).symm⟩,
      fun h => congrArg some h.2.symm⟩
  | cons c digits ih =>
    rw [List.foldlM_cons, Option.bind_eq_bind, Option.bind_eq_some_iff, Nat.ofDigitChars_cons,
      Digits, List.forall_mem_cons]
    simp only [push?_eq_some_iff, ih]
    refine ⟨?_, ?_⟩
    · rintro ⟨u, ⟨hc, hu⟩, hd, hv⟩
      exact ⟨⟨hc, hd⟩, hu ▸ hv⟩
    · rintro ⟨⟨hc, hd⟩, hv⟩
      -- The number so far is no greater than the one in the end, so it fits.
      have hle := le_ofDigitChars digits (10 * w.toNat + (c.toNat - '0'.toNat))
      have hu := UInt64.toNat_ofNat_of_lt' (hle.trans_lt (hv ▸ v.toNat_lt_size))
      exact ⟨_, ⟨hc, hu⟩, hd, by rw [hu, hv]⟩

theorem accumulate?_eq_some_iff : accumulate? digits = some v ↔ digits? digits = some v.toNat := by
  rw [digits?_eq_some_iff, accumulate?, Option.ite_none_left_eq_some, foldlM_push?_eq_some_iff,
    eq_comm (a := v.toNat)]
  rfl

end Index

/-- The position that a text stands for, read digit by digit. -/
def parseWord (text : String) : Except Fault UInt64 :=
  match Index.accumulate? (Index.withoutPlus (trim text.toList)) with
  | some w => .ok w
  | none => .error (.invalidIndex text)

/-- Read digit by digit or as a whole, a text is the same position, or the same fault. -/
theorem parseIndex_eq_map (text : String) :
    parseIndex text = (parseWord text).map UInt64.toNat := by
  rw [parseIndex, parseWord, Index.ofTrimmed?_eq]
  generalize Index.withoutPlus (trim text.toList) = digits
  cases hword : Index.accumulate? digits with
  | some w =>
    rw [Index.accumulate?_eq_some_iff.mp hword]
    exact if_pos w.toNat_lt_size
  | none =>
    cases hread : digits? digits with
    | none => rfl
    | some n =>
      -- Were it a word, the digits would have made it.
      refine if_neg fun hlt => ?_
      rw [← UInt64.toNat_ofNat_of_lt' hlt, ← Index.accumulate?_eq_some_iff, hword] at hread
      cases hread

/-! ## Positions -/

/-- A text is read as a position exactly if it is the numeral of one with white space around it; a
text that is no such numeral is at fault as it stands. A reader that never leaves the words of 64
bits finds the same. So positions are read as they are written, whatever white space there is around
them. -/
theorem parseIndex_spec :
    (∀ (text : String) (n : ℕ), parseIndex text = .ok n ↔ Index.Spells text.toList n) ∧
    (∀ (text : String) (fault : Fault), parseIndex text = .error fault ↔
      fault = .invalidIndex text ∧ ∀ n, ¬ Index.Spells text.toList n) ∧
    (∀ text : String, parseIndex text = (parseWord text).map UInt64.toNat) ∧
    ∀ (n : ℕ) (before after : String), n < 2 ^ 64 → Blank before.toList → Blank after.toList →
      parseIndex (before ++ toString n ++ after) = .ok n := by
  refine ⟨fun _ _ => parseIndex_eq_ok_iff, fun text fault => ⟨fun h => ?_, ?_⟩, parseIndex_eq_map,
    fun n before after hlt hb ha => ?_⟩
  · refine ⟨parseIndex_eq_error h, fun n hn => ?_⟩
    rw [parseIndex_eq_ok_iff.mpr hn] at h
    cases h
  · rintro ⟨rfl, hnot⟩
    cases h : parseIndex text with
    | ok n => exact absurd (parseIndex_eq_ok_iff.mp h) (hnot n)
    | error fault => rw [parseIndex_eq_error h]
  · have hvalue : Index.placeValue (Nat.toDigits 10 n) = n := by
      rw [← Index.value_eq_placeValue, value_toDigits]
    have hspells := Index.Spells.numeral hb .none Nat.toDigits_ne_nil (digits_toDigits n)
      (hvalue.symm ▸ hlt) ha
    rw [hvalue] at hspells
    rw [parseIndex_eq_ok_iff, Nat.toString_eq_ofList_toDigits]
    simpa using hspells

/-- The greatest position of all, between an ideographic space with a tab and a no-break space. -/
theorem parseIndex_spec_example :
    2 ^ 64 - 1 < 2 ^ 64 ∧ Blank "\u3000\t".toList ∧ Blank "\u00a0".toList ∧
      parseIndex ("\u3000\t" ++ toString (2 ^ 64 - 1) ++ "\u00a0") = .ok (2 ^ 64 - 1) := by
  have hlt : 2 ^ 64 - 1 < 2 ^ 64 := by decide
  have hbefore : Blank "\u3000\t".toList := by simp [Blank, isBlank, within, blanks]
  have hafter : Blank "\u00a0".toList := by simp [Blank, isBlank, within, blanks]
  exact ⟨hlt, hbefore, hafter, parseIndex_spec.2.2.2 _ _ _ hlt hbefore hafter⟩

example : parseIndex "+0" = .ok 0 ∧ parseIndex "-0" = .error (.invalidIndex "-0") ∧
    parseIndex "000000000018446744073709551615 " = .ok (2 ^ 64 - 1) ∧
    parseIndex "18446744073709551616" = .error (.invalidIndex "18446744073709551616") := by
  decide +kernel

end PathCurves.Text
