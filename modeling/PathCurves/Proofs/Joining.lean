/-
Texts one after the other. The line feed between two texts completes the line that the first one
left unfinished (`lines_append`), which is read as before (`readLast_utf8`), and the lines of the
second one are read as they would be alone, but for their numbers (`readLines_add`). Main statement:
`parse_join`.
-/
import PathCurves.Proofs.Streaming

namespace PathCurves

namespace Text

/-! ## Lines -/

section

variable {α : Type} [DecidableEq α] {feed ret : α}

theorem length_completeLines (feed ret : α) (text : List α) :
    (completeLines feed ret text).length = text.count feed := by
  induction text using lines_induction feed with
  | last a ha => rw [completeLines_of_not_mem ha, List.count_eq_zero_of_not_mem ha, List.length_nil]
  | line a rest ha ih =>
    rw [completeLines_append_cons ha, List.length_cons, ih, List.count_append, List.count_cons_self,
      List.count_eq_zero_of_not_mem ha, Nat.zero_add]

/-- A line feed between two texts completes the line that the first one left unfinished. -/
theorem lines_append (feed ret : α) (a b : List α) :
    lines feed ret (a ++ feed :: b) =
      completeLines feed ret a ++ withoutEnd ret (unfinished feed a) :: lines feed ret b := by
  induction a using lines_induction feed with
  | last a ha =>
    rw [lines_append_cons ha, completeLines_of_not_mem ha, unfinished_of_not_mem ha,
      List.nil_append]
  | line a rest ha ih =>
    rw [List.append_assoc, List.cons_append, lines_append_cons ha, ih, completeLines_append_cons ha,
      unfinished_append_cons ha, List.cons_append]

/-- The text with `ret` before each line feed. -/
def withReturns (feed ret : α) (text : List α) : List α :=
  text.flatMap fun c => if c = feed then [ret, c] else [c]

theorem withReturns_of_not_mem {a : List α} (h : feed ∉ a) : withReturns feed ret a = a := by
  induction a with
  | nil => rfl
  | cons c a ih =>
    rw [List.mem_cons, not_or] at h
    rw [withReturns, List.flatMap_cons, ← withReturns, ih h.2, if_neg (Ne.symm h.1)]
    rfl

theorem withReturns_append_cons {a : List α} (h : feed ∉ a) (rest : List α) :
    withReturns feed ret (a ++ feed :: rest) =
      (a ++ [ret]) ++ feed :: withReturns feed ret rest := by
  rw [withReturns, List.flatMap_append, ← withReturns, withReturns_of_not_mem h, List.flatMap_cons,
    ← withReturns, if_pos rfl, List.append_assoc]
  rfl

/-- It makes no difference to the lines how they end. -/
theorem lines_withReturns (hne : ret ≠ feed) {text : List α} (h : ret ∉ text) :
    lines feed ret (withReturns feed ret text) = lines feed ret text := by
  induction text using lines_induction feed with
  | last a ha => rw [withReturns_of_not_mem ha]
  | line a rest ha ih =>
    rw [List.mem_append, List.mem_cons, not_or, not_or] at h
    have ha' : feed ∉ a ++ [ret] := by
      rw [List.mem_append, List.mem_singleton, not_or]
      exact ⟨ha, hne.symm⟩
    rw [withReturns_append_cons ha, lines_append_cons ha', lines_append_cons ha, ih h.2.2,
      withoutEnd_concat, withoutEnd_of_not_mem h.1]

end

/-! ## White space at the end of a line -/

theorem Row.append_blank {text after : List Char} {words : List (List Char)} (h : Row text words)
    (ha : Blank after) : Row (text ++ after) words := by
  induction h with
  | blank h => exact .blank (List.forall_mem_append.mpr ⟨h, ha⟩)
  | @word before word rest words hb hw hr _ ih =>
    have hr' : ∀ c ∈ (rest ++ after).head?, isBlank c = true := by
      cases rest with
      | nil => exact fun c hc => ha c (List.mem_of_mem_head? hc)
      | cons d rest => exact hr
    rw [List.append_assoc, List.append_assoc]
    exact .word hb hw hr' ih

/-- A carriage return is white space. -/
theorem fields_withoutEnd (text : List Char) : fields (withoutEnd '\r' text) = fields text := by
  rcases withoutEnd_cases '\r' text with h | h
  · rw [h]
  · have hblank : Blank ['\r'] := List.forall_mem_singleton.mpr rfl
    have hrow := (row_fields (withoutEnd '\r' text)).append_blank hblank
    rw [h] at hrow
    exact (fields_eq_iff.mpr hrow).symm

end Text

/-- The fault of the same line after so many lines more. -/
def Fault.later (count : ℕ) : Fault → Fault
  | .malformedLine number text => .malformedLine (number + count) text
  | fault => fault

namespace Polyline

open Text Reader

/-! ## Lines after other lines -/

theorem readLine_add (number count : ℕ) (line : String) :
    readLine (number + count) line = (readLine number line).mapError (Fault.later count) := by
  unfold readLine
  split
  · rfl
  · split <;> rfl
  · rfl

theorem readBytes_add (number count : ℕ) (line : List UInt8) :
    readBytes (number + count) line = (readBytes number line).mapError (Fault.later count) := by
  unfold readBytes
  split
  · rfl
  · exact readLine_add number count _

/-- Lines are read alike wherever they stand, but for their numbers. -/
theorem readLines_add (number count : ℕ) (lines : List (List UInt8)) :
    readLines (number + count) lines = (readLines number lines).mapError (Fault.later count) := by
  induction lines generalizing number with
  | nil => rfl
  | cons line lines ih =>
    rw [readLines, readLines, Nat.add_right_comm, readBytes_add, ih]
    cases readBytes (number + 1) line with
    | error fault => rfl
    | ok point =>
      cases readLines (number + 1) lines <;> rfl

theorem readLine_of_fields_eq {s t : String} (h : fields s.toList = fields t.toList) (number : ℕ) :
    readLine number t = (readLine number s).mapError fun _ => .malformedLine number t := by
  unfold readLine
  rw [h]
  split
  · rfl
  · split <;> rfl
  · rfl

theorem readBytes_utf8 (number : ℕ) (text : List Char) :
    readBytes number (utf8 text) = readLine number (.ofList text) := by
  have hdecoded : String.fromUTF8? ⟨(utf8 text).toArray⟩ = some (.ofList text) :=
    fromUTF8?_eq_some_iff.mpr (by rw [String.toList_ofList])
  rw [readBytes, hdecoded]

/-- A last line without a line feed is read as it would be with one, but a fault quotes it with its
carriage return. -/
theorem readLast_utf8 (number : ℕ) (text : List Char) :
    readLast number (utf8 text) .complete =
      ((readBytes (number + 1) (utf8 (withoutEnd '\r' text))).mapError
        fun _ => .malformedLine (number + 1) (.ofList text)).map Option.toList := by
  have hfields : fields (String.ofList (withoutEnd '\r' text)).toList =
      fields (String.ofList text).toList := by
    rw [String.toList_ofList, String.toList_ofList, fields_withoutEnd]
  rw [readLast, readBytes_utf8, readBytes_utf8, ← readLine_of_fields_eq hfields]
  split
  · next hnil =>
    rw [utf8_eq_nil_iff.mp hnil]
    rfl
  · rfl

/-! ## Texts after other texts -/

theorem exists_malformedLine {text : String} {fault : Fault} (h : parse text = .error fault) :
    ∃ number line, fault = .malformedLine number line := by
  obtain ⟨before, line, after, -, -, hfault⟩ := read_eq_error_iff.mp h
  cases hfault with
  | notUtf8 _ => exact absurd h (parse_ne_unreadable text _)
  | malformed _ => exact ⟨_, _, rfl⟩

theorem parse_eq_readLines (text : String) :
    parse text = (readLines 0 ((lines '\n' '\r' text.toList).map utf8)).map Polyline.mk := by
  rw [parse, read_complete, List.flatten_singleton, toUTF8_eq, lines_utf8]

/-- The last line stands apart. -/
theorem parse_eq (a : String) :
    parse a = (readLines 0 ((completeLines '\n' '\r' a.toList).map utf8) >>= fun before =>
      (readLast (a.toList.count '\n') (utf8 (unfinished '\n' a.toList)) .complete).map fun last =>
        ⟨before ++ last⟩) := by
  rw [parse, read_eq, List.flatten_singleton, toUTF8_eq, completeLines_utf8, unfinished_utf8,
    List.length_map, length_completeLines]
  cases readLines 0 ((completeLines '\n' '\r' a.toList).map utf8) with
  | error fault => rfl
  | ok before =>
    rw [Except.ok_bind, Except.ok_bind]
    cases readLast _ (utf8 (unfinished '\n' a.toList)) .complete <;> rfl

theorem parse_join_eq (a b : String) :
    parse (a ++ "\n" ++ b) =
      (readLines 0 ((completeLines '\n' '\r' a.toList).map utf8) >>= fun before =>
        readBytes (a.toList.count '\n' + 1)
          (utf8 (withoutEnd '\r' (unfinished '\n' a.toList))) >>= fun point =>
        ((parse b).mapError (Fault.later (a.toList.count '\n' + 1))).map fun q =>
          ⟨before ++ (point.toList ++ q.points)⟩) := by
  have hchars : (a ++ "\n" ++ b).toList = a.toList ++ '\n' :: b.toList := by simp
  have hlater := readLines_add 0 (a.toList.count '\n' + 1) ((lines '\n' '\r' b.toList).map utf8)
  rw [Nat.zero_add] at hlater
  rw [parse_eq_readLines, parse_eq_readLines, hchars, lines_append, List.map_append, List.map_cons,
    readLines_append, readLines, List.length_map, length_completeLines, Nat.zero_add, hlater]
  cases readLines 0 ((completeLines '\n' '\r' a.toList).map utf8) with
  | error fault => rfl
  | ok before =>
    rw [Except.ok_bind, Except.ok_bind]
    cases readBytes _ (utf8 (withoutEnd '\r' (unfinished '\n' a.toList))) with
    | error fault => rfl
    | ok point =>
      rw [Except.ok_bind, Except.ok_bind]
      cases readLines 0 ((lines '\n' '\r' b.toList).map utf8) <;> rfl

/-- What comes of a text that another one follows: either it is read, and then the other one as if
it stood alone, but for the numbers of its lines, or it is at fault in the same line as without the
other one. Where that line is the last one, it is quoted without its carriage return. -/
theorem parse_join_cases (a b : String) :
    (∃ p, parse a = .ok p ∧ parse (a ++ "\n" ++ b) =
      ((parse b).mapError (Fault.later (a.toList.count '\n' + 1))).map fun q =>
        ⟨p.points ++ q.points⟩) ∨
    ∃ number text shown, parse a = .error (.malformedLine number text) ∧
      parse (a ++ "\n" ++ b) = .error (.malformedLine number shown) ∧
      (shown = text ∨ shown ++ "\r" = text) := by
  cases hbefore : readLines 0 ((completeLines '\n' '\r' a.toList).map utf8) with
  | error fault =>
    have hfirst : parse a = .error fault := by rw [parse_eq, hbefore]; rfl
    have hjoined : parse (a ++ "\n" ++ b) = .error fault := by rw [parse_join_eq, hbefore]; rfl
    obtain ⟨number, text, rfl⟩ := exists_malformedLine hfirst
    exact .inr ⟨number, text, text, hfirst, hjoined, .inl rfl⟩
  | ok before =>
    cases hlast : readBytes (a.toList.count '\n' + 1)
        (utf8 (withoutEnd '\r' (unfinished '\n' a.toList))) with
    | error fault =>
      obtain rfl := readLine_eq_error (readBytes_utf8 _ _ ▸ hlast)
      refine .inr ⟨a.toList.count '\n' + 1, .ofList (unfinished '\n' a.toList),
        .ofList (withoutEnd '\r' (unfinished '\n' a.toList)), ?_, ?_, ?_⟩
      · rw [parse_eq, hbefore, Except.ok_bind, readLast_utf8, hlast]
        rfl
      · rw [parse_join_eq, hbefore, Except.ok_bind, hlast]
        rfl
      · refine (withoutEnd_cases '\r' (unfinished '\n' a.toList)).imp (congrArg String.ofList) ?_
        intro hconcat
        nth_rewrite 2 [← hconcat]
        rw [String.ofList_append]
    | ok point =>
      refine .inl ⟨⟨before ++ point.toList⟩, ?_, ?_⟩
      · rw [parse_eq, hbefore, Except.ok_bind, readLast_utf8, hlast]
        rfl
      · rw [parse_join_eq, hbefore, Except.ok_bind, hlast, Except.ok_bind]
        simp only [List.append_assoc]

/-- Two texts with a line feed between them are read one after the other: the points of both, or the
fault of the second one, whose line now stands after all lines of the first, or the fault of the
first one, in the same line as ever. It makes no difference whether lines end with a line feed or
with a carriage return and a line feed. -/
theorem parse_join :
    (∀ (a b : String) (p q : Polyline Float), parse a = .ok p → parse b = .ok q →
      parse (a ++ "\n" ++ b) = .ok ⟨p.points ++ q.points⟩) ∧
    (∀ (a b : String) (p : Polyline Float) (fault : Fault), parse a = .ok p →
      parse b = .error fault → ∃ number text, fault = .malformedLine number text ∧
        parse (a ++ "\n" ++ b) =
          .error (.malformedLine (number + (1 + a.toList.count '\n')) text)) ∧
    (∀ (a b : String) (fault : Fault), parse a = .error fault → ∃ number text shown,
      fault = .malformedLine number text ∧
        parse (a ++ "\n" ++ b) = .error (.malformedLine number shown) ∧
        (shown = text ∨ shown ++ "\r" = text)) ∧
    ∀ text : String, '\r' ∉ text.toList →
      parse (.ofList (withReturns '\n' '\r' text.toList)) = parse text := by
  refine ⟨fun a b p q ha hb => ?_, fun a b p fault ha hb => ?_, fun a b fault ha => ?_,
    fun text h => ?_⟩
  · rcases parse_join_cases a b with ⟨p', hp, hjoined⟩ | ⟨_, _, _, hfault, -⟩
    · cases hp.symm.trans ha
      rw [hjoined, hb]
      rfl
    · cases hfault.symm.trans ha
  · obtain ⟨number, text, rfl⟩ := exists_malformedLine hb
    refine ⟨number, text, rfl, ?_⟩
    rcases parse_join_cases a b with ⟨p', hp, hjoined⟩ | ⟨_, _, _, hfault, -⟩
    · rw [hjoined, hb, Nat.add_comm 1]
      rfl
    · cases hfault.symm.trans ha
  · rcases parse_join_cases a b with ⟨p', hp, -⟩ | ⟨number, text, shown, hfault, hjoined⟩
    · cases hp.symm.trans ha
    · exact ⟨number, text, shown, Except.error.inj (ha.symm.trans hfault), hjoined⟩
  · rw [parse_eq_readLines, parse_eq_readLines, String.toList_ofList,
      lines_withReturns (by decide) h]

/-- The first text leaves a blank line unfinished, with a carriage return at its end. The second
one begins with a blank line; what follows is a point, or is none. -/
theorem parse_join_example :
    parse ("1 2\n \r" ++ "\n" ++ "\n3 4\r") = .ok ⟨[⟨1, 2⟩, ⟨3, 4⟩]⟩ ∧
      parse ("1 2\n \r" ++ "\n" ++ "\n3 x") = .error (.malformedLine 4 "3 x") ∧
      (∃ shown, parse ("1 2\n3 x\r" ++ "\n" ++ "\n3 4\r") = .error (.malformedLine 2 shown)) ∧
      '\r' ∉ "1 2\n\n3 4".toList ∧ parse "1 2\r\n\r\n3 4" = .ok ⟨[⟨1, 2⟩, ⟨3, 4⟩]⟩ := by
  have hfirst : parse "1 2\n \r" = .ok ⟨[⟨1, 2⟩]⟩ := by decide +kernel
  have hsecond : parse "\n3 4\r" = .ok ⟨[⟨3, 4⟩]⟩ := by decide +kernel
  have hlater : parse "\n3 x" = .error (.malformedLine 2 "3 x") := by decide +kernel
  have hfault : parse "1 2\n3 x\r" = .error (.malformedLine 2 "3 x\r") := by decide +kernel
  have hends : parse "1 2\n\n3 4" = .ok ⟨[⟨1, 2⟩, ⟨3, 4⟩]⟩ := by decide +kernel
  have hnone : '\r' ∉ "1 2\n\n3 4".toList := by decide
  obtain ⟨hread, hbehind, hbefore, hreturns⟩ := parse_join
  refine ⟨hread _ _ _ _ hfirst hsecond, ?_, ?_, hnone, (hreturns _ hnone).trans hends⟩
  · obtain ⟨number, text, hline, hjoined⟩ := hbehind _ _ _ _ hfirst hlater
    cases hline
    exact hjoined
  · obtain ⟨number, text, shown, hline, hjoined, -⟩ := hbefore _ "\n3 4\r" _ hfault
    cases hline
    exact ⟨shown, hjoined⟩

end Polyline

end PathCurves
