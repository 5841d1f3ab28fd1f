/-
The fields of a text are the words that white space separates. Main statement: `fields_eq_iff`,
a text has given fields exactly if it is a row of these words.
-/
import Mathlib
import PathCurves.Text.Blank

namespace PathCurves.Text

/-- Nothing but white space. -/
def Blank (text : List Char) : Prop := ∀ c ∈ text, isBlank c = true

/-- Some characters of which none is white space. -/
def IsWord (word : List Char) : Prop := word ≠ [] ∧ ∀ c ∈ word, isBlank c = false

/-- Words with white space between them, and white space or nothing on both sides. -/
inductive Row : List Char → List (List Char) → Prop
  | blank {text} (h : Blank text) : Row text []
  | word {before word rest words} (hb : Blank before) (hw : IsWord word)
      (hr : ∀ c ∈ rest.head?, isBlank c = true) (h : Row rest words) :
      Row (before ++ (word ++ rest)) (word :: words)

theorem fields_append_of_blank {before : List Char} (h : Blank before) (text : List Char) :
    fields (before ++ text) = fields text := by
  induction before with
  | nil => rfl
  | cons c before ih =>
    rw [List.cons_append, fields_cons_of_blank (h c List.mem_cons_self),
      ih fun d hd => h d (List.mem_cons_of_mem c hd)]

/-- Elements in front that do not separate belong to the first piece. -/
theorem pieces_append {α : Type} {p : α → Bool} {front : List α} (h : ∀ a ∈ front, p a = false)
    {list first : List α} {others : List (List α)} (hl : pieces p list = first :: others) :
    pieces p (front ++ list) = (front ++ first) :: others := by
  induction front with
  | nil => exact hl
  | cons a front ih =>
    have ha : p a = false := h a List.mem_cons_self
    have hrest := ih fun b hb => h b (List.mem_cons_of_mem a hb)
    rw [List.cons_append, pieces, List.foldr_cons, ← pieces, hrest, ha]
    rfl

/-- A word in front that is followed by white space or nothing is the first field. -/
theorem fields_append_of_word {word rest : List Char} (hw : IsWord word)
    (hr : ∀ c ∈ rest.head?, isBlank c = true) : fields (word ++ rest) = word :: fields rest := by
  have hne : word.isEmpty = false := by simpa using hw.1
  cases rest with
  | nil =>
    have hpieces : pieces isBlank [] = [] :: [] := rfl
    rw [fields, pieces_append hw.2 hpieces]
    simp [hne]
  | cons c rest =>
    have hc : isBlank c = true := hr c rfl
    have hpieces : pieces isBlank (c :: rest) = [] :: pieces isBlank rest := by
      rw [pieces, List.foldr_cons, ← pieces, if_pos hc]
    rw [fields, pieces_append hw.2 hpieces, fields_cons_of_blank hc]
    simp [hne, fields]

theorem row_fields (text : List Char) : Row text (fields text) := by
  induction hn : text.length using Nat.strong_induction_on generalizing text with
  | _ n ih =>
    -- The white space in front, the first word, and what follows it.
    have hsplit := List.takeWhile_append_dropWhile (p := isBlank) (l := text)
    have hbefore : Blank (text.takeWhile isBlank) := fun c hc => List.mem_takeWhile_imp hc
    cases htext : text.dropWhile isBlank with
    | nil =>
      rw [htext, List.append_nil] at hsplit
      rw [← hsplit]
      have hnil := fields_append_of_blank hbefore []
      rw [List.append_nil] at hnil
      rw [hnil]
      exact .blank hbefore
    | cons c tail =>
      have hc : isBlank c = false := by
        have := List.head?_dropWhile_not isBlank text
        rw [htext] at this
        simpa using this
      have hsplit' := List.takeWhile_append_dropWhile (p := fun d => !isBlank d) (l := c :: tail)
      have hrest := List.head?_dropWhile_not (fun d => !isBlank d) (c :: tail)
      have hword : IsWord ((c :: tail).takeWhile fun d => !isBlank d) := by
        refine ⟨?_, fun d hd => by simpa using List.mem_takeWhile_imp hd⟩
        rw [List.takeWhile_cons, hc]
        exact List.cons_ne_nil _ _
      generalize (c :: tail).takeWhile (fun d => !isBlank d) = word at *
      generalize (c :: tail).dropWhile (fun d => !isBlank d) = rest at *
      have hr : ∀ d ∈ rest.head?, isBlank d = true := by
        intro d hd
        rw [Option.mem_def.mp hd] at hrest
        simpa using hrest
      have hlt : rest.length < n := by
        have := List.length_pos_of_ne_nil hword.1
        rw [← hn, ← hsplit, htext, ← hsplit', List.length_append, List.length_append]
        omega
      rw [htext, ← hsplit'] at hsplit
      rw [← hsplit, fields_append_of_blank hbefore, fields_append_of_word hword hr]
      exact .word hbefore hword hr (ih rest.length hlt rest rfl)

/-- The fields of a text are the words of which it is a row. -/
theorem fields_eq_iff {text : List Char} {words : List (List Char)} :
    fields text = words ↔ Row text words := by
  refine ⟨?_, ?_⟩
  · intro h
    obtain rfl := h
    exact row_fields text
  · intro h
    induction h with
    | blank h =>
      have hnil := fields_append_of_blank h []
      rwa [List.append_nil] at hnil
    | word hb hw hr _ ih => rw [fields_append_of_blank hb, fields_append_of_word hw hr, ih]

end PathCurves.Text
