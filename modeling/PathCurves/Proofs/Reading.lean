/-
What the reader of paths accepts, and where it stops. Main statement: `read_spec`, a path is
read exactly if every line is blank or has two numerals, and otherwise the first line that is
neither is at fault.
-/
import PathCurves.Proofs.Fields
import PathCurves.Proofs.Lines
import PathCurves.Proofs.Literal

namespace PathCurves.Polyline

open Text Text.Numeral Reader

/-! ## What a line stands for -/

/-- The point that a line stands for by its bytes: none if it is blank, and otherwise that of
the two numerals in it. -/
inductive LineMeans : List UInt8 → Option (Point Float) → Prop
  | blank {text} (h : Blank text) : LineMeans (utf8 text) none
  | point {text x y m n p} (h : Row text [x, y]) (hx : Spells x m) (hy : Spells y n)
      (hm : Means m p.x) (hn : Means n p.y) : LineMeans (utf8 text) (some p)

/-- What is wrong with a line that stands for nothing: it is no text, or else it is at fault as
it stands. -/
inductive LineFault (number : ℕ) : List UInt8 → Fault → Prop
  | notUtf8 {line} (h : ∀ text, line ≠ utf8 text) : LineFault number line (.unreadable .notUtf8)
  | malformed {text : String} (h : ∀ point, ¬ LineMeans (utf8 text.toList) point) :
      LineFault number (utf8 text.toList) (.malformedLine number text)

theorem utf8_injective {a b : List Char} (h : utf8 a = utf8 b) : a = b := by
  have ha := @fromUTF8?_eq_some_iff (utf8 a) (.ofList a)
  have hb := @fromUTF8?_eq_some_iff (utf8 a) (.ofList b)
  rw [String.toList_ofList] at ha hb
  exact String.ofList_injective (Option.some.inj ((ha.mpr rfl).symm.trans (hb.mpr h)))

theorem row_nil_iff {text : List Char} : Row text [] ↔ Blank text :=
  ⟨fun h => by cases h; assumption, .blank⟩

theorem readLine_eq_ok_iff {number : ℕ} {text : String} {point : Option (Point Float)} :
    readLine number text = .ok point ↔ LineMeans (utf8 text.toList) point := by
  refine ⟨?_, ?_⟩
  · intro h
    unfold readLine at h
    split at h
    · next hfields =>
      cases h
      exact .blank (row_nil_iff.mp (fields_eq_iff.mp hfields))
    · next x y hfields =>
      split at h
      · next m n hm hn =>
        cases h
        exact .point (fields_eq_iff.mp hfields) (read?_eq_some_iff.mp hm)
          (read?_eq_some_iff.mp hn) (means_iff.mpr rfl) (means_iff.mpr rfl)
      · cases h
    · cases h
  · intro h
    generalize hline : utf8 text.toList = line at h
    cases h with
    | blank h =>
      rw [← utf8_injective hline] at h
      rw [readLine, fields_eq_iff.mpr (.blank h)]
    | point h hx hy hm hn =>
      rw [← utf8_injective hline] at h
      rw [readLine, fields_eq_iff.mpr h]
      dsimp only
      rw [read?_eq_some_iff.mpr hx, read?_eq_some_iff.mpr hy]
      dsimp only
      rw [means_iff.mp hm, means_iff.mp hn]

theorem readLine_eq_error {number : ℕ} {text : String} {fault : Fault}
    (h : readLine number text = .error fault) : fault = .malformedLine number text := by
  unfold readLine at h
  split at h
  · cases h
  · split at h
    · cases h
    · cases h
      rfl
  · cases h
    rfl

theorem readBytes_eq_ok_iff {number : ℕ} {line : List UInt8} {point : Option (Point Float)} :
    readBytes number line = .ok point ↔ LineMeans line point := by
  unfold readBytes
  split
  · next hnone =>
    refine ⟨fun h => (nomatch h), fun h => ?_⟩
    cases h with
    | blank _ => exact absurd rfl (fromUTF8?_eq_none_iff.mp hnone _)
    | point _ _ _ _ _ => exact absurd rfl (fromUTF8?_eq_none_iff.mp hnone _)
  · next text hsome => rw [readLine_eq_ok_iff, ← fromUTF8?_eq_some_iff.mp hsome]

theorem readBytes_eq_error_iff {number : ℕ} {line : List UInt8} {fault : Fault} :
    readBytes number line = .error fault ↔ LineFault number line fault := by
  refine ⟨?_, ?_⟩
  · intro h
    have hnot : ∀ point, ¬ LineMeans line point := by
      intro point hpoint
      rw [readBytes_eq_ok_iff.mpr hpoint] at h
      cases h
    unfold readBytes at h
    split at h
    · next hnone =>
      cases h
      exact .notUtf8 (fromUTF8?_eq_none_iff.mp hnone)
    · next text hsome =>
      obtain rfl := fromUTF8?_eq_some_iff.mp hsome
      rw [readLine_eq_error h]
      exact .malformed hnot
  · intro h
    rcases h with h | h
    · rw [readBytes, fromUTF8?_eq_none_iff.mpr h]
    · next text =>
      cases hresult : readBytes number (utf8 text.toList) with
      | ok point => exact absurd (readBytes_eq_ok_iff.mp hresult) (h point)
      | error fault =>
        rw [readBytes, fromUTF8?_eq_some_iff.mpr rfl] at hresult
        rw [readLine_eq_error hresult]

/-! ## What the lines of a path stand for -/

theorem readLines_eq_ok_iff {number : ℕ} {lines : List (List UInt8)} {points : List (Point Float)} :
    readLines number lines = .ok points ↔
      ∃ means, List.Forall₂ LineMeans lines means ∧ points = means.reduceOption := by
  induction lines generalizing number points with
  | nil =>
    rw [readLines]
    refine ⟨?_, ?_⟩
    · intro h
      cases h
      exact ⟨[], .nil, rfl⟩
    · intro h
      obtain ⟨means, hmeans, rfl⟩ := h
      cases hmeans
      rfl
  | cons line lines ih =>
    rw [readLines, Except.bind_eq_ok_iff]
    refine ⟨?_, ?_⟩
    · intro h
      obtain ⟨point, hpoint, h⟩ := h
      obtain ⟨rest, hrest, h⟩ := Except.bind_eq_ok_iff.mp h
      obtain ⟨means, hmeans, rfl⟩ := ih.mp hrest
      cases h
      refine ⟨point :: means, .cons (readBytes_eq_ok_iff.mp hpoint) hmeans, ?_⟩
      cases point <;> rfl
    · intro h
      obtain ⟨means, hmeans, rfl⟩ := h
      cases hmeans with
      | @cons _ point _ means hpoint hmeans =>
        refine ⟨point, readBytes_eq_ok_iff.mpr hpoint, Except.bind_eq_ok_iff.mpr
          ⟨_, ih.mpr ⟨means, hmeans, rfl⟩, ?_⟩⟩
        cases point <;> rfl

/-- The first line that stands for nothing is at fault. -/
theorem readLines_eq_error_iff {number : ℕ} {lines : List (List UInt8)} {fault : Fault} :
    readLines number lines = .error fault ↔ ∃ before line after, lines = before ++ line :: after ∧
      (∀ l ∈ before, ∃ point, LineMeans l point) ∧
      LineFault (number + before.length + 1) line fault := by
  induction lines generalizing number with
  | nil => simp [readLines]
  | cons line lines ih =>
    have length_succ : ∀ before : List (List UInt8),
        number + (line :: before).length + 1 = number + 1 + before.length + 1 := by
      intro before
      rw [List.length_cons]
      omega
    rw [readLines]
    cases hresult : readBytes (number + 1) line with
    | error found =>
      refine ⟨?_, ?_⟩
      · intro h
        cases h
        exact ⟨[], line, lines, rfl, by simp, readBytes_eq_error_iff.mp hresult⟩
      · intro h
        obtain ⟨before, bad, after, hlines, hbefore, hbad⟩ := h
        cases before with
        | nil =>
          cases hlines
          have hfault := readBytes_eq_error_iff.mpr hbad
          rw [List.length_nil, Nat.add_zero, hresult] at hfault
          cases hfault
          rfl
        | cons l before =>
          cases hlines
          obtain ⟨point, hpoint⟩ := hbefore line List.mem_cons_self
          rw [readBytes_eq_ok_iff.mpr hpoint] at hresult
          cases hresult
    | ok point =>
      have hmeans := readBytes_eq_ok_iff.mp hresult
      have hrest : (readLines (number + 1) lines >>= fun points =>
          pure (point.toList ++ points)) = .error fault ↔
            readLines (number + 1) lines = .error fault := by
        cases readLines (number + 1) lines <;> simp [bind, Except.bind, pure, Except.pure]
      show (readLines (number + 1) lines >>= fun points => pure (point.toList ++ points)) = _ ↔ _
      rw [hrest, ih]
      refine ⟨?_, ?_⟩
      · intro h
        obtain ⟨before, bad, after, rfl, hbefore, hbad⟩ := h
        refine ⟨line :: before, bad, after, rfl, ?_, ?_⟩
        · intro l hl
          rcases List.mem_cons.mp hl with rfl | hl
          · exact ⟨point, hmeans⟩
          · exact hbefore l hl
        · rwa [length_succ]
      · intro h
        obtain ⟨before, bad, after, hlines, hbefore, hbad⟩ := h
        cases before with
        | nil =>
          cases hlines
          have hfault := readBytes_eq_error_iff.mpr hbad
          rw [List.length_nil, Nat.add_zero, hresult] at hfault
          cases hfault
        | cons l before =>
          cases hlines
          refine ⟨before, bad, after, rfl, fun l hl => hbefore l (List.mem_cons_of_mem _ hl), ?_⟩
          rwa [length_succ] at hbad

/-! ## The reader -/

variable {chunks : List (List UInt8)}

theorem read_eq_ok_iff {path : Polyline Float} :
    read ⟨chunks, .complete⟩ = .ok path ↔
      ∃ means, List.Forall₂ LineMeans (lines lineFeed carriageReturn chunks.flatten) means ∧
        path.points = means.reduceOption := by
  rw [read_complete, ← readLines_eq_ok_iff]
  cases readLines 0 (lines lineFeed carriageReturn chunks.flatten) with
  | error fault => simp [Except.map]
  | ok points =>
    obtain ⟨found⟩ := path
    simp [Except.map]

theorem read_eq_error_iff {fault : Fault} :
    read ⟨chunks, .complete⟩ = .error fault ↔ ∃ before line after,
      lines lineFeed carriageReturn chunks.flatten = before ++ line :: after ∧
        (∀ l ∈ before, ∃ point, LineMeans l point) ∧ LineFault (before.length + 1) line fault := by
  have h := @readLines_eq_error_iff 0 (lines lineFeed carriageReturn chunks.flatten) fault
  simp only [Nat.zero_add] at h
  rw [← h, read_complete]
  cases readLines 0 (lines lineFeed carriageReturn chunks.flatten) <;> simp [Except.map]

/-- Every line of a text is a text. -/
theorem parse_ne_unreadable (text : String) (failure : ReadFailure) :
    parse text ≠ .error (.unreadable failure) := by
  intro h
  obtain ⟨before, line, after, hlines, -, hfault⟩ := read_eq_error_iff.mp h
  rw [List.flatten_singleton, toUTF8_eq, lines_utf8] at hlines
  have hmem : line ∈ (lines '\n' '\r' text.toList).map utf8 := by
    rw [hlines]
    exact List.mem_append_right _ List.mem_cons_self
  obtain ⟨characters, -, hline⟩ := List.mem_map.mp hmem
  cases hfault with
  | notUtf8 hnot => exact hnot characters hline.symm

/-- Bytes are read exactly if each of their lines stands for something, and the path has the
points of the lines in order. Otherwise the first line that stands for nothing is at fault,
with its number from one. A text is read as its bytes are, and is never unreadable. -/
theorem read_spec :
    (∀ (chunks : List (List UInt8)) (path : Polyline Float),
      read ⟨chunks, .complete⟩ = .ok path ↔
        ∃ means, List.Forall₂ LineMeans (lines lineFeed carriageReturn chunks.flatten) means ∧
          path.points = means.reduceOption) ∧
    (∀ (chunks : List (List UInt8)) (fault : Fault),
      read ⟨chunks, .complete⟩ = .error fault ↔
        ∃ before line after, lines lineFeed carriageReturn chunks.flatten = before ++ line :: after ∧
          (∀ l ∈ before, ∃ point, LineMeans l point) ∧
          LineFault (before.length + 1) line fault) ∧
    ∀ text : String, parse text = read ⟨[text.toUTF8.data.toList], .complete⟩ ∧
      ∀ failure, parse text ≠ .error (.unreadable failure) :=
  ⟨fun _ _ => read_eq_ok_iff, fun _ _ => read_eq_error_iff,
    fun text => ⟨rfl, parse_ne_unreadable text⟩⟩

end PathCurves.Polyline
