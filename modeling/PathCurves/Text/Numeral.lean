/-
The numerals of coordinates: an optional sign, and then `inf`, `infinity` or `nan` in any
case, or digits with at most one point among them and at most one power of ten after them.
-/
import PathCurves.Double.Nearest

namespace PathCurves.Text

/-- What a numeral says: no number, one beyond all others on either side, or
`digits * 10 ^ exponent` with its sign. -/
inductive Numeral where
  | undefined
  | infinite (negative : Bool)
  | decimal (negative : Bool) (digits : Nat) (exponent : Int)
deriving DecidableEq, Repr

namespace Numeral

/-- The value of a row of decimal digits. -/
def value (digits : List Char) : Nat :=
  digits.foldl (fun v c => 10 * v + (c.toNat - '0'.toNat)) 0

/-- A row of one digit at least. -/
def digits? (text : List Char) : Option Nat :=
  if text ≠ [] ∧ text.all Char.isDigit then some (value text) else none

/-- A row of digits after an optional sign. -/
def whole? : List Char → Option Int
  | '-' :: text => (digits? text).map fun (n : Nat) => -(n : Int)
  | '+' :: text => (digits? text).map fun (n : Nat) => (n : Int)
  | text => (digits? text).map fun (n : Nat) => (n : Int)

/-- The power of ten at the end of a numeral; without one it is zero. -/
def power? : List Char → Option Int
  | [] => some 0
  | 'e' :: text => whole? text
  | 'E' :: text => whole? text
  | _ => none

/-- The digits after a point, and what follows them. -/
def fraction : List Char → List Char × List Char
  | '.' :: text => (text.takeWhile Char.isDigit, text.dropWhile Char.isDigit)
  | text => ([], text)

/-- Digits with at most one point among them, then a power of ten. -/
def decimal? (negative : Bool) (text : List Char) : Option Numeral :=
  let before := text.takeWhile Char.isDigit
  let (after, rest) := fraction (text.dropWhile Char.isDigit)
  if before ++ after = [] then none
  else (power? rest).map fun e => .decimal negative (value (before ++ after)) (e - after.length)

/-- A numeral without its sign. -/
def unsigned? (negative : Bool) (text : List Char) : Option Numeral :=
  let word := text.map Char.toLower
  if word = "inf".toList ∨ word = "infinity".toList then some (.infinite negative)
  else if word = "nan".toList then some .undefined
  else decimal? negative text

/-- The numeral that a text is, if it is one. -/
def read? : List Char → Option Numeral
  | '-' :: text => unsigned? true text
  | '+' :: text => unsigned? false text
  | text => unsigned? false text

/-- The negative of a number if `negative` holds, otherwise the number itself. -/
def signed (negative : Bool) (x : Float) : Float := if negative then -x else x

/-- The nearest double. -/
def toDouble : Numeral → Float
  | .undefined => Double.undefined
  | .infinite negative => signed negative Double.infinity
  | .decimal negative digits exponent => signed negative (Double.ofDecimal digits exponent)

end Numeral

end PathCurves.Text
