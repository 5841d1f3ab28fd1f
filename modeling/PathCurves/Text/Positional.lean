/-
Doubles in positional notation: the shortest digits that are read as the same double, with
zeros up to the point where the number is large or small, and never a power of ten.
-/
import PathCurves.Double.Shortest

namespace PathCurves.Text

/-- A decimal in positional notation. The point stands only before further digits, and a
digit stands before the point. -/
def positional (d : Decimal) : List Char :=
  let digits := Nat.toDigits 10 d.digits
  let places := (-d.exponent).toNat
  if places = 0 then digits ++ List.replicate d.exponent.toNat '0'
  else if digits.length ≤ places then
    '0' :: '.' :: (List.replicate (places - digits.length) '0' ++ digits)
  else digits.take (digits.length - places) ++ '.' :: digits.drop (digits.length - places)

/-- The sign of a number, written before it only if it is negative. -/
def sign : Float.Model.UnpackedFloat.Sign → List Char
  | .positive => []
  | .negative => ['-']

/-- The text of a double. -/
def ofDouble (x : Float) : List Char :=
  match x.toModel.unpack with
  | .notANumber => ['N', 'a', 'N']
  | .infinity s => sign s ++ ['i', 'n', 'f']
  | .zero s => sign s ++ ['0']
  | .finite s m e _ => sign s ++ positional (.shortest m e)

end PathCurves.Text
