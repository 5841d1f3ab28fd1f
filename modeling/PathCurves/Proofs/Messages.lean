/-
The messages of the faults that reading finds, which quote the text at fault. A quoted character is
read back from the front of whatever follows it (`unescape?_escaped`), so different texts are quoted
differently (`quoted_injective`); and no character between the quotes ends a line or controls how it
is shown (`oneLine_quoted`). Main statement: `Fault.message_of_reading`.
-/
import PathCurves.Fault.Wording
import PathCurves.Proofs.Printing

namespace PathCurves

namespace Text

/-! ## Digits -/

/-- The number of a hexadecimal digit. -/
def hexDigit (c : Char) : ℕ := if c.isDigit then c.toNat - '0'.toNat else c.toNat - 'a'.toNat + 10

/-- The value of a row of hexadecimal digits. -/
def hexValue (digits : List Char) : ℕ := digits.foldl (fun v c => 16 * v + hexDigit c) 0

theorem hexDigit_digitChar {d : ℕ} (h : d < 16) : hexDigit d.digitChar = d := by
  revert d
  decide

theorem hexValue_toDigits (n : ℕ) : hexValue (Nat.toDigits 16 n) = n := by
  induction n using Nat.strong_induction_on with
  | _ n ih =>
    by_cases h : n < 16
    · rw [Nat.toDigits_of_lt_base h, hexValue, List.foldl_cons, List.foldl_nil,
        hexDigit_digitChar h]
      omega
    · have hlast := hexDigit_digitChar (Nat.mod_lt n (show 0 < 16 by decide))
      rw [Nat.toDigits_of_base_le (by decide) (not_lt.mp h), hexValue, List.foldl_concat,
        ← hexValue, ih (n / 16) (by omega), hlast]
      omega

theorem exists_digitChar {b n : ℕ} {c : Char} (hb : 1 < b) (h : c ∈ Nat.toDigits b n) :
    ∃ d < b, c = d.digitChar := by
  induction n using Nat.strong_induction_on with
  | _ n ih =>
    by_cases hn : n < b
    · rw [Nat.toDigits_of_lt_base hn] at h
      exact ⟨n, hn, List.mem_singleton.mp h⟩
    · have hpos : 0 < n := (Nat.zero_lt_of_lt hb).trans_le (not_lt.mp hn)
      rw [Nat.toDigits_of_base_le hb (not_lt.mp hn), List.mem_append] at h
      rcases h with h | h
      · exact ih (n / b) (Nat.div_lt_self hpos hb) h
      · exact ⟨n % b, Nat.mod_lt n (Nat.zero_lt_of_lt hb), List.mem_singleton.mp h⟩

/-- What comes before a colon are the digits of one number only. -/
theorem toDigits_append_inj {n m : ℕ} {a b : List Char}
    (h : Nat.toDigits 10 n ++ ':' :: a = Nat.toDigits 10 m ++ ':' :: b) : n = m ∧ a = b := by
  have hcolon : ∀ {a : List Char}, ∀ c ∈ (':' :: a).head?, c.isDigit = false := by
    intro a c hc
    obtain rfl := Option.some.inj hc
    rfl
  obtain ⟨htake, hdrop⟩ := Numeral.takeWhile_digits (Numeral.digits_toDigits n) (hcolon (a := a))
  obtain ⟨htake', hdrop'⟩ := Numeral.takeWhile_digits (Numeral.digits_toDigits m) (hcolon (a := b))
  rw [h] at htake hdrop
  rw [← Numeral.value_toDigits n, ← htake, htake', Numeral.value_toDigits]
  exact ⟨rfl, (List.cons.inj (hdrop.symm.trans hdrop')).2⟩

/-! ## Escapes -/

/-- The character that follows a backslash, and what comes after it. -/
def escape? : List Char → Option (Char × List Char)
  | '0' :: rest => some ('\x00', rest)
  | 't' :: rest => some ('\t', rest)
  | 'r' :: rest => some ('\r', rest)
  | 'n' :: rest => some ('\n', rest)
  | '"' :: rest => some ('"', rest)
  | '\\' :: rest => some ('\\', rest)
  | 'u' :: '\x7b' :: rest =>
    some (.ofNat (hexValue (rest.takeWhile (· ≠ '\x7d'))), (rest.dropWhile (· ≠ '\x7d')).tail)
  | _ => none

/-- The first character of a quoted text, and what comes after it. -/
def unescape? : List Char → Option (Char × List Char)
  | [] => none
  | c :: rest => if c = '\\' then escape? rest else some (c, rest)

theorem unescape?_byCode (c : Char) (rest : List Char) :
    unescape? (byCode c ++ rest) = some (c, rest) := by
  have hdigits : ∀ d ∈ Nat.toDigits 16 c.toNat, decide (d ≠ '\x7d') = true := by
    intro d hd
    obtain ⟨k, -, rfl⟩ := exists_digitChar (by decide) hd
    exact decide_eq_true (Nat.digitChar_ne '\x7d' rfl)
  have hcode : byCode c ++ rest =
      '\\' :: 'u' :: '\x7b' :: (Nat.toDigits 16 c.toNat ++ '\x7d' :: rest) := by
    simp [byCode]
  rw [hcode, unescape?, if_pos rfl, escape?, List.takeWhile_append_of_pos hdigits,
    List.dropWhile_append_of_pos hdigits]
  simp [hexValue_toDigits]

/-- A character is read back from the front of whatever it was written in front of. -/
theorem unescape?_escaped (c : Char) (rest : List Char) :
    unescape? (escaped c ++ rest) = some (c, rest) := by
  unfold escaped
  split_ifs with hnul htab hret hfeed hquote hslash hhidden
  · subst hnul; rfl
  · subst htab; rfl
  · subst hret; rfl
  · subst hfeed; rfl
  · subst hquote; rfl
  · subst hslash; rfl
  · exact unescape?_byCode c rest
  · exact if_neg hslash

theorem escaped_append_inj {c d : Char} {a b : List Char}
    (h : escaped c ++ a = escaped d ++ b) : c = d ∧ a = b := by
  have hread := unescape?_escaped c a
  rw [h, unescape?_escaped] at hread
  cases hread
  exact ⟨rfl, rfl⟩

/-- No character is written with a quote in front, so the quote that ends a text is none of its
characters. -/
theorem escaped_append_ne (c : Char) (a b : List Char) : escaped c ++ a ≠ '"' :: b := by
  intro h
  -- Only a quote would be read back here, and that is written with a backslash in front.
  have hread := unescape?_escaped c a
  rw [h] at hread
  obtain rfl : '"' = c := congrArg Prod.fst (Option.some.inj hread)
  exact absurd (List.cons.inj h).1 (by decide)

/-! ## Quoted texts -/

theorem flatMap_escaped_inj {s t a b : List Char}
    (h : s.flatMap escaped ++ '"' :: a = t.flatMap escaped ++ '"' :: b) : s = t ∧ a = b := by
  induction s generalizing t with
  | nil =>
    cases t with
    | nil => exact ⟨rfl, (List.cons.inj h).2⟩
    | cons d t =>
      rw [List.flatMap_cons, List.append_assoc] at h
      exact absurd h.symm (escaped_append_ne d _ _)
  | cons c s ih =>
    cases t with
    | nil =>
      rw [List.flatMap_cons, List.append_assoc] at h
      exact absurd h (escaped_append_ne c _ _)
    | cons d t =>
      rw [List.flatMap_cons, List.flatMap_cons, List.append_assoc, List.append_assoc] at h
      obtain ⟨rfl, hrest⟩ := escaped_append_inj h
      obtain ⟨rfl, rfl⟩ := ih hrest
      exact ⟨rfl, rfl⟩

theorem toList_quoted (text : String) :
    (quoted text).toList = '"' :: (text.toList.flatMap escaped ++ ['"']) :=
  String.toList_ofList

theorem quoted_injective : Function.Injective quoted := by
  intro s t h
  have hlist := congrArg String.toList h
  rw [toList_quoted, toList_quoted, List.cons.injEq] at hlist
  exact String.toList_injective (flatMap_escaped_inj hlist.2).1

-- A space without width, and next to it a text that looks like the escape of one.
example : quoted "\u200b\\u\x7b200b\x7d" = "\"\\u\x7b200b\x7d\\\\u\x7b200b\x7d\"" := by
  decide +kernel

/-! ## One line -/

/-- The codes of the control characters, and of the two characters that separate lines and
paragraphs. -/
def controls : List (ℕ × ℕ) := [(0x0, 0x1F), (0x7F, 0x9F), (0x2028, 0x2029)]

/-- Whether a character controls how a text is shown or ends a line of it. -/
def isControl (c : Char) : Bool := within controls c

/-- A text without control characters, so that it is one line. -/
def OneLine (text : List Char) : Prop := ∀ c ∈ text, isControl c = false

instance : DecidablePred OneLine := fun text => List.decidableBAll (isControl · = false) text

theorem within_eq_true_iff {ranges : List (ℕ × ℕ)} {c : Char} :
    within ranges c = true ↔ ∃ range ∈ ranges, range.1 ≤ c.toNat ∧ c.toNat ≤ range.2 := by
  simp [within]

theorem isHidden_of_isControl {c : Char} (h : isControl c = true) : isHidden c = true := by
  have hcover : ∀ range ∈ controls, ∃ wider ∈ unmarked, wider.1 ≤ range.1 ∧ range.2 ≤ wider.2 := by
    decide +kernel
  have hbelow : ∀ range ∈ controls, ∀ marks ∈ voicingMarks, range.2 < marks.1 := by
    decide
  obtain ⟨range, hrange, hlow, hhigh⟩ := within_eq_true_iff.mp h
  obtain ⟨wider, hwider, hlow', hhigh'⟩ := hcover range hrange
  have hunmarked : within unmarked c = true :=
    within_eq_true_iff.mpr ⟨wider, hwider, hlow'.trans hlow, hhigh.trans hhigh'⟩
  have hvoicing : ¬ within voicingMarks c = true := by
    rw [within_eq_true_iff]
    rintro ⟨marks, hmarks, hle, -⟩
    exact (hhigh.trans_lt (hbelow range hrange marks hmarks)).not_ge hle
  simp [isHidden, hunmarked, hvoicing]

theorem OneLine.append {a b : List Char} (ha : OneLine a) (hb : OneLine b) : OneLine (a ++ b) :=
  List.forall_mem_append.mpr ⟨ha, hb⟩

theorem oneLine_toDigits {b : ℕ} (hb : 1 < b) (hb' : b ≤ 16) (n : ℕ) :
    OneLine (Nat.toDigits b n) := by
  have hdigit : ∀ d < 16, isControl d.digitChar = false := by decide
  intro c hc
  obtain ⟨d, hd, rfl⟩ := exists_digitChar hb hc
  exact hdigit d (hd.trans_le hb')

theorem oneLine_byCode (c : Char) : OneLine (byCode c) := by
  have hopen : OneLine ['\\', 'u', '\x7b'] := by decide
  have hclose : OneLine ['\x7d'] := by decide
  exact hopen.append ((oneLine_toDigits (by decide) le_rfl _).append hclose)

theorem oneLine_escaped (c : Char) : OneLine (escaped c) := by
  unfold escaped
  split_ifs with hnul htab hret hfeed hquote hslash hhidden
  · decide
  · decide
  · decide
  · decide
  · decide
  · decide
  · exact oneLine_byCode c
  · refine List.forall_mem_singleton.mpr ?_
    exact Bool.eq_false_of_not_eq_true (mt isHidden_of_isControl hhidden)

theorem oneLine_quoted (text : String) : OneLine (quoted text).toList := by
  have hquote : OneLine ['"'] := by decide
  have hbody : OneLine (text.toList.flatMap escaped) := by
    intro c hc
    obtain ⟨d, -, hd⟩ := List.mem_flatMap.mp hc
    exact oneLine_escaped d c hd
  rw [toList_quoted]
  exact hquote.append (hbody.append hquote)

end Text

namespace Fault

open Text

theorem toList_message_malformedLine (number : ℕ) (text : String) :
    (malformedLine number text).message.toList = "line ".toList ++ (Nat.toDigits 10 number ++
      (": expected two numbers, found ".toList ++ (quoted text).toList)) := by
  have hmessage : (malformedLine number text).message =
      "line " ++ toString number ++ ": expected two numbers, found " ++ quoted text := by
    unfold message
    rfl
  rw [hmessage, Nat.toString_eq_ofList_toDigits]
  simp only [String.toList_append, String.toList_ofList, List.append_assoc]

theorem toList_message_invalidIndex (text : String) : (invalidIndex text).message.toList =
    "expected a non-negative index, found ".toList ++ (quoted text).toList := by
  have hmessage : (invalidIndex text).message =
      "expected a non-negative index, found " ++ quoted text := by
    unfold message
    rfl
  rw [hmessage, String.toList_append]

theorem oneLine_malformedLine (number : ℕ) (text : String) :
    OneLine (malformedLine number text).message.toList := by
  have hfront : OneLine "line ".toList := by decide
  have hmiddle : OneLine ": expected two numbers, found ".toList := by decide
  rw [toList_message_malformedLine]
  exact hfront.append ((oneLine_toDigits (by decide) (by decide) number).append
    (hmiddle.append (oneLine_quoted text)))

theorem oneLine_invalidIndex (text : String) : OneLine (invalidIndex text).message.toList := by
  have hfront : OneLine "expected a non-negative index, found ".toList := by decide
  rw [toList_message_invalidIndex]
  exact hfront.append (oneLine_quoted text)

theorem message_malformedLine_inj {n m : ℕ} {s t : String} :
    (malformedLine n s).message = (malformedLine m t).message ↔ n = m ∧ s = t := by
  refine ⟨fun h => ?_, ?_⟩
  · have hlist := congrArg String.toList h
    rw [toList_message_malformedLine, toList_message_malformedLine] at hlist
    obtain ⟨hnumber, hrest⟩ := toDigits_append_inj (List.append_cancel_left hlist)
    exact ⟨hnumber, quoted_injective (String.toList_injective (List.append_cancel_left hrest))⟩
  · rintro ⟨rfl, rfl⟩
    rfl

theorem message_invalidIndex_inj {s t : String} :
    (invalidIndex s).message = (invalidIndex t).message ↔ s = t := by
  refine ⟨fun h => ?_, ?_⟩
  · have hlist := congrArg String.toList h
    rw [toList_message_invalidIndex, toList_message_invalidIndex] at hlist
    exact quoted_injective (String.toList_injective (List.append_cancel_left hlist))
  · rintro rfl
    rfl

theorem message_malformedLine_ne (n : ℕ) (s t : String) :
    (malformedLine n s).message ≠ (invalidIndex t).message := by
  intro h
  have hlist := congrArg String.toList h
  rw [toList_message_malformedLine, toList_message_invalidIndex] at hlist
  exact absurd (List.cons.inj hlist).1 (by decide)

/-- The message of a fault that reading finds is one line without control characters, whatever the
text at fault is, and tells the number of the line and the text: no other fault that reading finds
has the same message. -/
theorem message_of_reading :
    (∀ number text, OneLine (malformedLine number text).message.toList) ∧
    (∀ text, OneLine (invalidIndex text).message.toList) ∧
    (∀ n m s t, (malformedLine n s).message = (malformedLine m t).message ↔ n = m ∧ s = t) ∧
    (∀ s t, (invalidIndex s).message = (invalidIndex t).message ↔ s = t) ∧
    ∀ n s t, (malformedLine n s).message ≠ (invalidIndex t).message :=
  ⟨oneLine_malformedLine, oneLine_invalidIndex, fun _ _ _ _ => message_malformedLine_inj,
    fun _ _ => message_invalidIndex_inj, message_malformedLine_ne⟩

end Fault

end PathCurves
