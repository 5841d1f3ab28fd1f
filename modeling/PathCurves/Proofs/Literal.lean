/-
The grammar of numerals, and that numerals are read exactly as it says. Main statements:
`Numeral.read?_eq_some_iff`, a text is read as a numeral exactly if the grammar derives it, and
`Numeral.means_iff`, a numeral is read as the double that is nearest to its number.
-/
import PathCurves.Proofs.Rounding
import PathCurves.Text.Numeral

namespace PathCurves.Text.Numeral

/-! ## The grammar -/

/-- Nothing but decimal digits. -/
def Digits (text : List Char) : Prop := ∀ c ∈ text, c.isDigit = true

/-- A sign that may be left out, and whether it makes a number negative. -/
inductive Signs : List Char → Bool → Prop
  | none : Signs [] false
  | plus : Signs ['+'] false
  | minus : Signs ['-'] true

/-- Digits with at most one point before, among or after them: the whole number of all digits,
and how many of them follow the point. -/
inductive Mantissa : List Char → ℕ → ℕ → Prop
  | whole {digits} (hne : digits ≠ []) (hd : Digits digits) : Mantissa digits (value digits) 0
  | pointed {before after} (hne : before ++ after ≠ []) (hb : Digits before)
      (ha : Digits after) :
      Mantissa (before ++ '.' :: after) (value (before ++ after)) after.length

/-- A power of ten that may be left out. -/
inductive Power : List Char → ℤ → Prop
  | none : Power [] 0
  | given {mark sign negative digits} (hm : mark = 'e' ∨ mark = 'E') (hs : Signs sign negative)
      (hne : digits ≠ []) (hd : Digits digits) :
      Power (mark :: (sign ++ digits)) (if negative then -(value digits : ℤ) else value digits)

/-- A numeral after its sign. -/
inductive Unsigned (negative : Bool) : List Char → Numeral → Prop
  | infinite {word} (h : word.map Char.toLower = "inf".toList ∨
      word.map Char.toLower = "infinity".toList) : Unsigned negative word (.infinite negative)
  | undefined {word} (h : word.map Char.toLower = "nan".toList) :
      Unsigned negative word .undefined
  | decimal {mantissa digits places power e} (hm : Mantissa mantissa digits places)
      (hp : Power power e) :
      Unsigned negative (mantissa ++ power) (.decimal negative digits (e - places))

/-- The texts of a numeral. -/
inductive Spells : List Char → Numeral → Prop
  | signed {sign negative text n} (hs : Signs sign negative) (h : Unsigned negative text n) :
      Spells (sign ++ text) n

/-- The doubles that numerals stand for: a number stands for the nearest one. -/
inductive Means : Numeral → Float → Prop
  | undefined : Means .undefined Double.undefined
  | infinite (negative) : Means (.infinite negative) (signed negative Double.infinity)
  | decimal (negative) {digits exponent x}
      (h : Double.Nearest (Double.decimalValue digits exponent) x) :
      Means (.decimal negative digits exponent) (signed negative x)

theorem means_iff {n : Numeral} {x : Float} : Means n x ↔ n.toDouble = x := by
  refine ⟨?_, ?_⟩
  · intro h
    rcases h with _ | _ | ⟨negative, h⟩
    · rfl
    · rfl
    · rw [toDouble, (Double.nearest_ofDecimal _ _).unique h]
  · intro h
    obtain rfl := h
    match n with
    | .undefined => exact .undefined
    | .infinite negative => exact .infinite negative
    | .decimal negative digits exponent => exact .decimal negative (Double.nearest_ofDecimal _ _)

/-! ## Powers of ten -/

theorem digits?_eq_some_iff {text : List Char} {n : ℕ} :
    digits? text = some n ↔ text ≠ [] ∧ Digits text ∧ value text = n := by
  simp [digits?, Digits, and_assoc]

theorem Digits.head_ne {c d : Char} {text : List Char} (h : Digits (c :: text))
    (hd : d.isDigit = false) : c ≠ d := by
  rintro rfl
  rw [h c List.mem_cons_self] at hd
  cases hd

theorem whole?_eq_some_iff {text : List Char} {e : ℤ} :
    whole? text = some e ↔ ∃ sign negative digits, text = sign ++ digits ∧ Signs sign negative ∧
      digits ≠ [] ∧ Digits digits ∧ e = if negative then -(value digits : ℤ) else value digits := by
  refine ⟨?_, ?_⟩
  · intro h
    unfold whole? at h
    split at h <;> obtain ⟨n, hn, rfl⟩ := Option.map_eq_some_iff.mp h <;>
      obtain ⟨hne, hd, rfl⟩ := digits?_eq_some_iff.mp hn
    · exact ⟨['-'], true, _, rfl, .minus, hne, hd, rfl⟩
    · exact ⟨['+'], false, _, rfl, .plus, hne, hd, rfl⟩
    · exact ⟨[], false, _, rfl, .none, hne, hd, rfl⟩
  · intro h
    obtain ⟨sign, negative, digits, rfl, hs, hne, hd, rfl⟩ := h
    have hdigits : digits? digits = some (value digits) := digits?_eq_some_iff.mpr ⟨hne, hd, rfl⟩
    cases hs with
    | none =>
      obtain ⟨c, digits, rfl⟩ := List.exists_cons_of_ne_nil hne
      have hminus := hd.head_ne (d := '-') rfl
      have hplus := hd.head_ne (d := '+') rfl
      rw [List.nil_append, whole?.eq_3 _ (by simpa using hminus) (by simpa using hplus), hdigits]
      rfl
    | plus => simp [whole?, hdigits]
    | minus => simp [whole?, hdigits]

theorem power?_eq_some_iff {text : List Char} {e : ℤ} : power? text = some e ↔ Power text e := by
  refine ⟨?_, ?_⟩
  · intro h
    unfold power? at h
    split at h
    · cases h
      exact .none
    · obtain ⟨sign, negative, digits, rfl, hs, hne, hd, rfl⟩ := whole?_eq_some_iff.mp h
      exact .given (.inl rfl) hs hne hd
    · obtain ⟨sign, negative, digits, rfl, hs, hne, hd, rfl⟩ := whole?_eq_some_iff.mp h
      exact .given (.inr rfl) hs hne hd
    · cases h
  · intro h
    rcases h with _ | ⟨rfl | rfl, hs, hne, hd⟩
    · rfl
    · exact whole?_eq_some_iff.mpr ⟨_, _, _, rfl, hs, hne, hd, rfl⟩
    · exact whole?_eq_some_iff.mpr ⟨_, _, _, rfl, hs, hne, hd, rfl⟩

/-! ## Digits with a point -/

theorem digits_takeWhile (text : List Char) : Digits (text.takeWhile Char.isDigit) :=
  fun _ hc => List.mem_takeWhile_imp hc

/-- Digits are cut off in front of what does not begin with a digit. -/
theorem takeWhile_digits {digits rest : List Char} (hd : Digits digits)
    (hr : ∀ c ∈ rest.head?, c.isDigit = false) :
    (digits ++ rest).takeWhile Char.isDigit = digits ∧
      (digits ++ rest).dropWhile Char.isDigit = rest := by
  rw [List.takeWhile_append_of_pos hd, List.dropWhile_append_of_pos hd]
  cases rest with
  | nil => simp
  | cons c rest => simp [hr c rfl]

theorem Power.head {text : List Char} {e : ℤ} (h : Power text e) :
    ∀ c ∈ text.head?, c.isDigit = false ∧ c ≠ '.' := by
  rintro c hc
  cases h with
  | none => cases hc
  | given hm _ _ _ =>
    obtain rfl := Option.some.inj hc
    rcases hm with rfl | rfl <;> decide

theorem fraction_spec (text : List Char) :
    text = '.' :: ((fraction text).1 ++ (fraction text).2) ∧ Digits (fraction text).1 ∨
      text = (fraction text).2 ∧ (fraction text).1 = [] := by
  unfold fraction
  split
  · left
    exact ⟨by rw [List.takeWhile_append_dropWhile], digits_takeWhile _⟩
  · right
    exact ⟨rfl, rfl⟩

theorem decimal?_eq_some_iff {negative : Bool} {text : List Char} {n : Numeral} :
    decimal? negative text = some n ↔ ∃ mantissa digits places power e, text = mantissa ++ power ∧
      Mantissa mantissa digits places ∧ Power power e ∧
      n = .decimal negative digits (e - places) := by
  refine ⟨?_, ?_⟩
  · intro h
    have hsplit := List.takeWhile_append_dropWhile (p := Char.isDigit) (l := text)
    have hbefore := digits_takeWhile text
    have hfraction := fraction_spec (text.dropWhile Char.isDigit)
    unfold decimal? at h
    dsimp only at h
    generalize text.takeWhile Char.isDigit = before at *
    generalize text.dropWhile Char.isDigit = tail at *
    generalize fraction tail = parts at *
    obtain ⟨after, rest⟩ := parts
    dsimp only at h hfraction
    split at h
    · cases h
    · next hne =>
      obtain ⟨e, he, rfl⟩ := Option.map_eq_some_iff.mp h
      have hpower := power?_eq_some_iff.mp he
      rcases hfraction with ⟨rfl, hafter⟩ | ⟨rfl, rfl⟩
      · refine ⟨_, _, _, rest, e, ?_, .pointed hne hbefore hafter, hpower, rfl⟩
        rw [← hsplit, List.append_assoc, List.cons_append]
      · rw [List.append_nil] at hne ⊢
        exact ⟨_, _, _, tail, e, hsplit.symm, .whole hne hbefore, hpower, rfl⟩
  · intro h
    obtain ⟨mantissa, digits, places, power, e, rfl, hm, hp, rfl⟩ := h
    have hpower := power?_eq_some_iff.mpr hp
    cases hm with
    | whole hne hd =>
      obtain ⟨htake, hdrop⟩ := takeWhile_digits hd fun c hc => (hp.head c hc).1
      have hfraction : fraction power = ([], power) := by
        unfold fraction
        split
        · exact absurd rfl (hp.head '.' rfl).2
        · rfl
      simp [decimal?, htake, hdrop, hfraction, hne, hpower]
    | @pointed before after hne hb ha =>
      have hdot : ∀ c ∈ ('.' :: (after ++ power)).head?, c.isDigit = false := by
        intro c hc
        obtain rfl := Option.some.inj hc
        rfl
      obtain ⟨htake, hdrop⟩ := takeWhile_digits hb hdot
      obtain ⟨htake', hdrop'⟩ := takeWhile_digits ha fun c hc => (hp.head c hc).1
      rw [List.append_assoc, List.cons_append, decimal?, htake, hdrop, fraction, htake', hdrop']
      simp only [hne, if_false, hpower, Option.map_some]

/-! ## Numerals -/

/-- Digits with a point begin with a digit or the point. -/
theorem Mantissa.head {text : List Char} {digits places : ℕ} (h : Mantissa text digits places) :
    ∃ c rest, text = c :: rest ∧ (c.isDigit = true ∨ c = '.') := by
  cases h with
  | whole hne hd =>
    obtain ⟨c, rest, rfl⟩ := List.exists_cons_of_ne_nil hne
    exact ⟨c, rest, rfl, .inl (hd c List.mem_cons_self)⟩
  | @pointed before after _ hb _ =>
    cases before with
    | nil => exact ⟨'.', after, rfl, .inr rfl⟩
    | cons c before => exact ⟨c, before ++ '.' :: after, rfl, .inl (hb c List.mem_cons_self)⟩

theorem toLower_of_isDigit {c : Char} (h : c.isDigit = true ∨ c = '.') : c.toLower = c := by
  rcases h with h | rfl
  · have hlt : ¬ 'A'.val ≤ c.val := by
      simp only [Char.isDigit, Bool.and_eq_true, decide_eq_true_eq] at h
      intro h'
      have := UInt32.le_iff_toNat_le.mp h.2
      have := UInt32.le_iff_toNat_le.mp h'
      simp at *
      omega
    unfold Char.toLower
    rw [dif_neg fun h' => hlt h'.1]
  · rfl

/-- A number is not spelled like a word that begins with a letter. -/
theorem decimal_ne_word {mantissa : List Char} {digits places : ℕ}
    (hm : Mantissa mantissa digits places) (power : List Char) {word : List Char} {c : Char}
    (hc : word.head? = some c) (hletter : c.isDigit = false ∧ c ≠ '.') :
    (mantissa ++ power).map Char.toLower ≠ word := by
  obtain ⟨d, rest, rfl, hd⟩ := hm.head
  rintro rfl
  rw [List.cons_append, List.map_cons, List.head?_cons, toLower_of_isDigit hd] at hc
  obtain rfl := Option.some.inj hc
  rcases hd with hd | rfl
  · rw [hletter.1] at hd
    cases hd
  · exact hletter.2 rfl

theorem unsigned?_eq_some_iff {negative : Bool} {text : List Char} {n : Numeral} :
    unsigned? negative text = some n ↔ Unsigned negative text n := by
  unfold unsigned?
  refine ⟨?_, ?_⟩
  · intro h
    dsimp only at h
    split at h
    · next hword =>
      cases h
      exact .infinite hword
    · split at h
      · next hword =>
        cases h
        exact .undefined hword
      · obtain ⟨_, _, _, _, _, rfl, hm, hp, rfl⟩ := decimal?_eq_some_iff.mp h
        exact .decimal hm hp
  · intro h
    dsimp only
    cases h with
    | infinite hword => rw [if_pos hword]
    | undefined hword =>
      rw [hword, if_neg (by decide), if_pos rfl]
    | @decimal mantissa _ _ power _ hm hp =>
      have hinf : (mantissa ++ power).map Char.toLower ≠ "inf".toList :=
        decimal_ne_word hm power rfl (by decide)
      have hinfinity : (mantissa ++ power).map Char.toLower ≠ "infinity".toList :=
        decimal_ne_word hm power rfl (by decide)
      have hnan : (mantissa ++ power).map Char.toLower ≠ "nan".toList :=
        decimal_ne_word hm power rfl (by decide)
      rw [if_neg (not_or.mpr ⟨hinf, hinfinity⟩), if_neg hnan]
      exact decimal?_eq_some_iff.mpr ⟨_, _, _, _, _, rfl, hm, hp, rfl⟩

theorem Unsigned.not_sign {negative : Bool} {c : Char} {text : List Char} {n : Numeral}
    (hc : c = '-' ∨ c = '+') : ¬ Unsigned negative (c :: text) n := by
  intro h
  have hlower : c.toLower ≠ 'i' ∧ c.toLower ≠ 'n' := by rcases hc with rfl | rfl <;> decide
  generalize hl : c :: text = whole at h
  cases h with
  | infinite hword =>
    subst hl
    rcases hword with hword | hword <;> exact hlower.1 (List.cons.inj hword).1
  | undefined hword =>
    subst hl
    exact hlower.2 (List.cons.inj hword).1
  | decimal hm _ =>
    obtain ⟨d, rest, rfl, hd⟩ := hm.head
    obtain ⟨rfl, -⟩ := List.cons.inj hl
    rcases hc with rfl | rfl <;> revert hd <;> decide

/-- A text is read as a numeral exactly if the grammar derives it. -/
theorem read?_eq_some_iff {text : List Char} {n : Numeral} :
    read? text = some n ↔ Spells text n := by
  refine ⟨?_, ?_⟩
  · intro h
    unfold read? at h
    split at h
    · exact .signed .minus (unsigned?_eq_some_iff.mp h)
    · exact .signed .plus (unsigned?_eq_some_iff.mp h)
    · exact .signed .none (unsigned?_eq_some_iff.mp h)
  · intro h
    obtain ⟨hs, h⟩ := h
    cases hs with
    | minus => exact unsigned?_eq_some_iff.mpr h
    | plus => exact unsigned?_eq_some_iff.mpr h
    | none =>
      rw [List.nil_append]
      unfold read?
      split
      · exact absurd h (Unsigned.not_sign (.inl rfl))
      · exact absurd h (Unsigned.not_sign (.inr rfl))
      · exact unsigned?_eq_some_iff.mpr h

end PathCurves.Text.Numeral
