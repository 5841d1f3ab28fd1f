/-
The lines of a text and of its bytes, and the reader of paths as a reader of lines. Main
statements: `lines_utf8`, the lines of the bytes of a text are the bytes of its lines, `chunk_eq`,
after a chunk the complete lines are read and the unfinished one is kept, and `close_chunk`, what
is read from bytes is what is read from their lines, one after the other.
-/
import Mathlib
import PathCurves.Polyline.Reader

namespace PathCurves

namespace Text

/-! ## Cutting a list into lines -/

section

variable {α : Type} [DecidableEq α] {feed ret : α} {a rest : List α}

/-- A list without its last element if that is `ret`. -/
def withoutEnd (ret : α) (a : List α) : List α := if a.getLast? = some ret then a.dropLast else a

theorem withoutEnd_concat (ret : α) (a : List α) : withoutEnd ret (a ++ [ret]) = a := by
  rw [withoutEnd, List.getLast?_concat, if_pos rfl, List.dropLast_concat]

theorem withoutEnd_of_not_mem (h : ret ∉ a) : withoutEnd ret a = a :=
  if_neg fun hlast => h (List.mem_of_getLast? hlast)

theorem withoutEnd_cases (ret : α) (a : List α) :
    withoutEnd ret a = a ∨ withoutEnd ret a ++ [ret] = a := by
  unfold withoutEnd
  split
  · next hlast => exact .inr (List.dropLast_append_getLast? ret hlast)
  · exact .inl rfl

/-- The lines of a text: the pieces before each line feed without the carriage return at their
end, and what comes after the last line feed unless it is empty. -/
def lines (feed ret : α) (text : List α) : List (List α) :=
  (text.splitOn feed).dropLast.map (withoutEnd ret) ++
    (text.splitOn feed).getLast?.toList.filter (· ≠ [])

theorem lines_of_not_mem (h : feed ∉ a) : lines feed ret a = [a].filter (· ≠ []) := by
  simp [lines, List.splitOn_eq_singleton h]

@[simp] theorem lines_nil : lines feed ret [] = [] := by
  rw [lines_of_not_mem List.not_mem_nil]
  rfl

theorem lines_append_cons (h : feed ∉ a) :
    lines feed ret (a ++ feed :: rest) = withoutEnd ret a :: lines feed ret rest := by
  have hne : rest.splitOn feed ≠ [] := List.splitOn_ne_nil feed rest
  rw [lines, List.splitOn_append_cons_self_of_not_mem h, List.dropLast_cons_of_ne_nil hne,
    List.getLast?_cons_of_ne_nil hne, List.map_cons, List.cons_append, ← lines]

/-- The lines that have their line feed, without it and without the carriage return before it. -/
def completeLines (feed ret : α) (text : List α) : List (List α) :=
  (text.splitOn feed).dropLast.map (withoutEnd ret)

/-- What comes after the last line feed. -/
def unfinished (feed : α) (text : List α) : List α := (text.splitOn feed).getLastD []

theorem completeLines_of_not_mem (h : feed ∉ a) : completeLines feed ret a = [] := by
  simp [completeLines, List.splitOn_eq_singleton h]

theorem unfinished_of_not_mem (h : feed ∉ a) : unfinished feed a = a := by
  simp [unfinished, List.splitOn_eq_singleton h]

theorem completeLines_append_cons (h : feed ∉ a) :
    completeLines feed ret (a ++ feed :: rest) =
      withoutEnd ret a :: completeLines feed ret rest := by
  have hne : rest.splitOn feed ≠ [] := List.splitOn_ne_nil feed rest
  rw [completeLines, List.splitOn_append_cons_self_of_not_mem h, List.dropLast_cons_of_ne_nil hne,
    List.map_cons, ← completeLines]

theorem unfinished_append_cons (h : feed ∉ a) :
    unfinished feed (a ++ feed :: rest) = unfinished feed rest := by
  have hne : rest.splitOn feed ≠ [] := List.splitOn_ne_nil feed rest
  rw [unfinished, List.splitOn_append_cons_self_of_not_mem h, List.getLastD_eq_getLast?,
    List.getLast?_cons_of_ne_nil hne, ← List.getLastD_eq_getLast?, ← unfinished]

/-- The lines of a text are the complete ones and the unfinished one, if that has anything. -/
theorem lines_eq (feed ret : α) (text : List α) :
    lines feed ret text =
      completeLines feed ret text ++ [unfinished feed text].filter (· ≠ []) := by
  have hne : text.splitOn feed ≠ [] := List.splitOn_ne_nil feed text
  rw [lines, completeLines, unfinished, List.getLastD_eq_getLast?,
    List.getLast?_eq_some_getLast hne]
  rfl

/-- A text is a line without end, or a line with its end and a shorter text. -/
theorem lines_induction (feed : α) {P : List α → Prop} (last : ∀ a, feed ∉ a → P a)
    (line : ∀ a rest, feed ∉ a → P rest → P (a ++ feed :: rest)) (text : List α) : P text := by
  induction hn : text.length using Nat.strong_induction_on generalizing text with
  | _ n ih =>
    by_cases h : feed ∈ text
    · obtain ⟨a, rest, rfl, ha⟩ := List.eq_append_cons_of_mem h
      refine line a rest ha (ih rest.length ?_ rest rfl)
      rw [← hn, List.length_append, List.length_cons]
      omega
    · exact last text h

end

/-! ## Characters as bytes -/

/-- The bytes of characters in UTF-8. -/
def utf8 (text : List Char) : List UInt8 := text.flatMap String.utf8EncodeChar

theorem utf8_append (a b : List Char) : utf8 (a ++ b) = utf8 a ++ utf8 b := List.flatMap_append

theorem utf8_cons (c : Char) (a : List Char) : utf8 (c :: a) = String.utf8EncodeChar c ++ utf8 a :=
  List.flatMap_cons

theorem toUTF8_eq (text : String) : text.toUTF8.data.toList = utf8 text.toList := by
  rw [String.toUTF8_eq_toByteArray, ← String.utf8Encode_toList, List.utf8Encode]
  simp [utf8]

/-- Bytes are decoded to the text whose bytes they are. -/
theorem fromUTF8?_eq_some_iff {bytes : List UInt8} {text : String} :
    String.fromUTF8? ⟨bytes.toArray⟩ = some text ↔ bytes = utf8 text.toList := by
  rw [← toUTF8_eq]
  unfold String.fromUTF8?
  refine ⟨?_, ?_⟩
  · intro h
    split at h
    · next hvalid =>
      cases h
      rfl
    · cases h
  · intro h
    obtain rfl := h
    have hvalid : (⟨text.toUTF8.data.toList.toArray⟩ : ByteArray) = text.toUTF8 := rfl
    rw [hvalid, dif_pos (show text.toUTF8.IsValidUTF8 from text.isValidUTF8)]
    rfl

theorem fromUTF8?_eq_none_iff {bytes : List UInt8} :
    String.fromUTF8? ⟨bytes.toArray⟩ = none ↔ ∀ text, bytes ≠ utf8 text := by
  rw [Option.eq_none_iff_forall_ne_some]
  constructor
  · intro h text hbytes
    refine h (.ofList text) (fromUTF8?_eq_some_iff.mpr ?_)
    rwa [String.toList_ofList]
  · exact fun h text hsome => h _ (fromUTF8?_eq_some_iff.mp hsome)

/-- Below `0x80` a byte is a character of its own; the bytes of all other characters are at
least `0x80`. -/
theorem mem_utf8EncodeChar_iff {b : UInt8} (hb : b.toNat < 0x80) {c : Char} :
    b ∈ String.utf8EncodeChar c ↔ c.toNat = b.toNat := by
  have hc : c.val.toNat = c.toNat := rfl
  unfold String.utf8EncodeChar
  dsimp only
  split
  · next h =>
    rw [List.mem_singleton, ← UInt8.toNat_inj, UInt8.toNat_ofNat', hc]
    omega
  · next h =>
    split
    · simp only [List.mem_cons, List.not_mem_nil, or_false, ← UInt8.toNat_inj, UInt8.toNat_ofNat']
      omega
    · split <;>
      · simp only [List.mem_cons, List.not_mem_nil, or_false, ← UInt8.toNat_inj, UInt8.toNat_ofNat']
        omega

theorem mem_utf8_iff {b : UInt8} (hb : b.toNat < 0x80) {text : List Char} :
    b ∈ utf8 text ↔ ∃ c ∈ text, c.toNat = b.toNat := by
  simp only [utf8, List.mem_flatMap, mem_utf8EncodeChar_iff hb]

theorem utf8_eq_nil_iff {text : List Char} : utf8 text = [] ↔ text = [] := by
  cases text with
  | nil => simp [utf8]
  | cons c text => simp [utf8_cons]

open Polyline.Reader

theorem lineFeed_mem_utf8_iff {text : List Char} : lineFeed ∈ utf8 text ↔ '\n' ∈ text := by
  rw [mem_utf8_iff (by decide)]
  constructor
  · rintro ⟨c, hc, hcode⟩
    rwa [← Char.toNat_inj.mp (show c.toNat = '\n'.toNat from hcode)]
  · exact fun h => ⟨'\n', h, rfl⟩

theorem withoutEnd_utf8 (text : List Char) :
    withoutEnd carriageReturn (utf8 text) = utf8 (withoutEnd '\r' text) := by
  induction text using List.reverseRecOn with
  | nil => rfl
  | append_singleton text c _ =>
    rw [utf8_append]
    by_cases hc : c = '\r'
    · subst hc
      have hbyte : utf8 ['\r'] = [carriageReturn] := rfl
      rw [hbyte, withoutEnd_concat, withoutEnd_concat]
    · have hne : utf8 [c] ≠ [] := mt utf8_eq_nil_iff.mp (by simp)
      have hlast : (utf8 text ++ utf8 [c]).getLast? ≠ some carriageReturn := by
        intro h
        rw [List.getLast?_append_of_ne_nil _ hne] at h
        obtain ⟨d, hd, hcode⟩ := (mem_utf8_iff (by decide)).mp (List.mem_of_getLast? h)
        rw [List.mem_singleton.mp hd] at hcode
        exact hc (Char.toNat_inj.mp hcode)
      rw [withoutEnd, withoutEnd, List.getLast?_concat, if_neg hlast, if_neg (by simpa using hc),
        utf8_append]

theorem utf8_append_feed (a rest : List Char) :
    utf8 (a ++ '\n' :: rest) = utf8 a ++ lineFeed :: utf8 rest := by
  rw [utf8_append, utf8_cons]
  rfl

theorem completeLines_utf8 (text : List Char) :
    completeLines lineFeed carriageReturn (utf8 text) =
      (completeLines '\n' '\r' text).map utf8 := by
  induction text using lines_induction '\n' with
  | last a ha =>
    rw [completeLines_of_not_mem (mt lineFeed_mem_utf8_iff.mp ha), completeLines_of_not_mem ha]
    rfl
  | line a rest ha ih =>
    rw [utf8_append_feed, completeLines_append_cons (mt lineFeed_mem_utf8_iff.mp ha),
      completeLines_append_cons ha, ih, withoutEnd_utf8, List.map_cons]

theorem unfinished_utf8 (text : List Char) :
    unfinished lineFeed (utf8 text) = utf8 (unfinished '\n' text) := by
  induction text using lines_induction '\n' with
  | last a ha =>
    rw [unfinished_of_not_mem (mt lineFeed_mem_utf8_iff.mp ha), unfinished_of_not_mem ha]
  | line a rest ha ih =>
    rw [utf8_append_feed, unfinished_append_cons (mt lineFeed_mem_utf8_iff.mp ha),
      unfinished_append_cons ha, ih]

/-- The lines of the bytes of a text are the bytes of its lines. -/
theorem lines_utf8 (text : List Char) :
    lines lineFeed carriageReturn (utf8 text) = (lines '\n' '\r' text).map utf8 := by
  rw [lines_eq, lines_eq, completeLines_utf8, unfinished_utf8, List.map_append]
  by_cases hnil : unfinished '\n' text = []
  · rw [hnil]
    rfl
  · simp [hnil, utf8_eq_nil_iff]

end Text

namespace Polyline

open Text Reader

/-! ## Reading line by line -/

/-- The point that the bytes of a line stand for. -/
def readBytes (number : ℕ) (line : List UInt8) : Except Fault (Option (Point Float)) :=
  match String.fromUTF8? ⟨line.toArray⟩ with
  | none => .error (.unreadable .notUtf8)
  | some text => readLine number text

/-- The points that lines stand for, after a number of lines before them. -/
def readLines (number : ℕ) : List (List UInt8) → Except Fault (List (Point Float))
  | [] => .ok []
  | line :: rest => do
    let point ← readBytes (number + 1) line
    let points ← readLines (number + 1) rest
    return point.toList ++ points

theorem finish_eq (r : Reader) (backwards : List UInt8) :
    r.finish backwards = (readBytes (r.lines + 1) backwards.reverse).map
      fun point => ⟨point.toList ++ r.points, r.lines + 1, []⟩ := by
  unfold finish readBytes
  cases String.fromUTF8? ⟨backwards.reverse.toArray⟩ with
  | none => rfl
  | some text =>
    dsimp only
    cases readLine (r.lines + 1) text <;> rfl

theorem withoutReturn_reverse (pending : List UInt8) :
    (withoutReturn pending).reverse = withoutEnd carriageReturn pending.reverse := by
  cases pending with
  | nil => rfl
  | cons b before =>
    rw [withoutReturn, withoutEnd, List.reverse_cons, List.getLast?_concat]
    by_cases hb : b = carriageReturn
    · simp [hb]
    · simp [hb]

theorem readLines_append (number : ℕ) (before after : List (List UInt8)) :
    readLines number (before ++ after) = (readLines number before >>= fun points =>
      (readLines (number + before.length) after).map (points ++ ·)) := by
  induction before generalizing number with
  | nil =>
    show readLines number after = (readLines (number + 0) after).map ([] ++ ·)
    rw [Nat.add_zero]
    cases readLines number after <;> rfl
  | cons line before ih =>
    have hnumber : number + (line :: before).length = number + 1 + before.length := by
      rw [List.length_cons]
      omega
    rw [List.cons_append, readLines, readLines, hnumber]
    cases readBytes (number + 1) line with
    | error fault => rfl
    | ok point =>
      rw [Except.ok_bind, Except.ok_bind, ih]
      cases readLines (number + 1) before with
      | error fault => rfl
      | ok points =>
        rw [Except.ok_bind, Except.ok_bind]
        cases readLines (number + 1 + before.length) after with
        | error fault => rfl
        | ok rest => simp [Except.map, pure, Except.pure, bind, Except.bind]

/-- What the reader holds after some bytes: the points of the lines that they complete, of which
the first begins with the bytes that were pending, and what they leave unfinished. -/
theorem chunk_eq (bytes : List UInt8) (r : Reader) (h : lineFeed ∉ r.pending) :
    r.chunk bytes =
      (readLines r.lines (completeLines lineFeed carriageReturn (r.pending.reverse ++ bytes))).map
        fun points => ⟨points.reverse ++ r.points,
          r.lines + (completeLines lineFeed carriageReturn (r.pending.reverse ++ bytes)).length,
          (unfinished lineFeed (r.pending.reverse ++ bytes)).reverse⟩ := by
  have hreverse : lineFeed ∉ r.pending.reverse := mt List.mem_reverse.mp h
  induction bytes generalizing r with
  | nil =>
    rw [List.append_nil, completeLines_of_not_mem hreverse, unfinished_of_not_mem hreverse,
      List.reverse_reverse]
    rfl
  | cons b bytes ih =>
    show (r.byte b >>= fun r => r.chunk bytes) = _
    rw [byte]
    by_cases hb : b = lineFeed
    · subst hb
      rw [if_pos rfl, finish_eq, withoutReturn_reverse, completeLines_append_cons hreverse,
        unfinished_append_cons hreverse, readLines, List.length_cons]
      cases readBytes (r.lines + 1) (withoutEnd carriageReturn r.pending.reverse) with
      | error fault => rfl
      | ok point =>
        show Reader.chunk ⟨point.toList ++ r.points, r.lines + 1, []⟩ bytes = _
        rw [ih _ List.not_mem_nil List.not_mem_nil]
        simp only [List.reverse_nil, List.nil_append, bind, Except.bind]
        cases readLines (r.lines + 1) (completeLines lineFeed carriageReturn bytes) with
        | error fault => rfl
        | ok points =>
          cases point <;> simp [Except.map, pure, Except.pure] <;> omega
    · have hpending : lineFeed ∉ b :: r.pending := by
        rw [List.mem_cons, not_or]
        exact ⟨Ne.symm hb, h⟩
      rw [if_neg hb]
      show Reader.chunk { r with pending := b :: r.pending } bytes = _
      rw [ih _ hpending (mt List.mem_reverse.mp hpending), List.reverse_cons, List.append_assoc]
      rfl

/-- What is read from bytes is what is read from their lines, of which the first begins with
the bytes that are pending. -/
theorem close_chunk (bytes : List UInt8) (r : Reader) (h : lineFeed ∉ r.pending) :
    (r.chunk bytes >>= fun r => r.close .complete) =
      (readLines r.lines (lines lineFeed carriageReturn (r.pending.reverse ++ bytes))).map
        fun points => ⟨r.points.reverse ++ points⟩ := by
  rw [chunk_eq bytes r h, lines_eq, readLines_append]
  generalize completeLines lineFeed carriageReturn (r.pending.reverse ++ bytes) = complete
  generalize unfinished lineFeed (r.pending.reverse ++ bytes) = last
  cases readLines r.lines complete with
  | error fault => rfl
  | ok points =>
    show close ⟨points.reverse ++ r.points, r.lines + complete.length, last.reverse⟩ .complete = _
    by_cases hlast : last = []
    · simp [close, hlast, readLines, Except.map, bind, Except.bind]
    · have hreverse : last.reverse ≠ [] := by simpa using hlast
      rw [close, if_neg hreverse, finish_eq, List.reverse_reverse]
      simp only [hlast, ne_eq, not_false_eq_true, decide_true, List.filter_cons_of_pos,
        List.filter_nil, readLines]
      cases readBytes (r.lines + complete.length + 1) last with
      | error fault => rfl
      | ok point => cases point <;> simp [Except.map, bind, Except.bind, pure, Except.pure]

theorem read_complete (chunks : List (List UInt8)) :
    read ⟨chunks, .complete⟩ =
      (readLines 0 (lines lineFeed carriageReturn chunks.flatten)).map Polyline.mk := by
  have h := close_chunk chunks.flatten {} List.not_mem_nil
  rw [read, foldlM_chunk]
  exact h

end Polyline

end PathCurves
