/-
White space, as Unicode has it in the property `White_Space`, and the fields of a text that
it separates. Main statement: `fields_cons_of_blank`, white space in front of a text changes
no field.
-/

namespace PathCurves.Text

/-- Whether the code of a character lies in one of the ranges, both ends included. -/
def within (ranges : List (Nat × Nat)) (c : Char) : Bool :=
  ranges.any fun (first, last) => first ≤ c.toNat && c.toNat ≤ last

/-- The codes of the white space characters. -/
def blanks : List (Nat × Nat) :=
  [(0x09, 0x0D), (0x20, 0x20), (0x85, 0x85), (0xA0, 0xA0), (0x1680, 0x1680), (0x2000, 0x200A),
    (0x2028, 0x2029), (0x202F, 0x202F), (0x205F, 0x205F), (0x3000, 0x3000)]

/-- Whether a character is white space. -/
def isBlank (c : Char) : Bool := within blanks c

/-- Puts an element in front of the first of several pieces. -/
def extendFirst {α : Type} (a : α) : List (List α) → List (List α)
  | [] => [[a]]
  | piece :: others => (a :: piece) :: others

/-- The pieces of a list between the elements that satisfy `p`; one more than there are
such elements. -/
def pieces {α : Type} (p : α → Bool) (list : List α) : List (List α) :=
  list.foldr (fun a found => if p a then [] :: found else extendFirst a found) [[]]

/-- The runs of characters between white space; none is empty. -/
def fields (text : List Char) : List (List Char) :=
  (pieces isBlank text).filter (!·.isEmpty)

/-- The text without the white space at both ends. -/
def trim (text : List Char) : List Char :=
  ((text.dropWhile isBlank).reverse.dropWhile isBlank).reverse

@[simp] theorem fields_nil : fields [] = [] := rfl

@[simp] theorem fields_cons_of_blank {c : Char} (h : isBlank c = true) (text : List Char) :
    fields (c :: text) = fields text := by
  simp [fields, pieces, h]

end PathCurves.Text
