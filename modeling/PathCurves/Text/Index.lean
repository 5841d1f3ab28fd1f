/-
Numerals of positions: digits after an optional plus sign, with white space around them,
for numbers below `2 ^ 64`.
-/
import PathCurves.Fault
import PathCurves.Text.Blank
import PathCurves.Text.Numeral

namespace PathCurves.Text

/-- A numeral without the white space around it. -/
def Index.ofTrimmed? : List Char → Option Nat
  | '+' :: digits => Numeral.digits? digits
  | digits => Numeral.digits? digits

/-- The position that a text stands for. -/
def parseIndex (text : String) : Except Fault Nat :=
  match Index.ofTrimmed? (trim text.toList) with
  | some n => if n < UInt64.size then .ok n else .error (.invalidIndex text)
  | none => .error (.invalidIndex text)

end PathCurves.Text
