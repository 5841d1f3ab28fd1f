/-
The shortest decimal number that stands for a double: of the decimals that are read as this
double, one with the fewest digits, and the nearest of those; of two equally near ones the
greater.
-/
import PathCurves.Double.Nearest

namespace PathCurves

/-- The decimal number `digits * 10 ^ exponent`. -/
structure Decimal where
  digits : Nat
  exponent : Int
deriving DecidableEq, Repr

namespace Decimal

-- `^` is the power of `Nat` itself, also where monoids bring another one along.
attribute [local instance (high)] instPowNat

/-- The double that the decimal is read as. -/
def toDouble (d : Decimal) : Float := Double.ofDecimal d.digits d.exponent

/-- The same number without zeros at the end of its digits. -/
def trimmed (digits : Nat) (exponent : Int) : Decimal :=
  if 0 < digits ∧ digits % 10 = 0 then trimmed (digits / 10) (exponent + 1)
  else ⟨digits, exponent⟩
termination_by digits
decreasing_by omega

/-- How many digits a whole number has in decimal notation. -/
def digitCount (n : Nat) : Nat := (Nat.toDigits 10 n).length

/-- The exponent `k` with `10 ^ k ≤ num / den < 10 ^ (k + 1)`, of positive numbers. -/
def order (num den : Nat) : Int :=
  if den ≤ num then (digitCount (num / den) : Int) - 1 else -(digitCount ((den - 1) / num) : Int)

/-- The multiples of `10 ^ place` next to `num / den` below and above, the nearer one first;
of two equally near ones the greater first. -/
def neighbours (num den : Nat) (place : Int) : List Decimal :=
  let n := num * 10 ^ (-place).toNat
  let d := den * 10 ^ place.toNat
  let below := trimmed (n / d) place
  let above := trimmed (n / d + 1) place
  if 2 * (n % d) < d then [below, above] else [above, below]

/-- All digits of `m * 2 ^ e`. -/
def exactly (m : Nat) (e : Int) : Decimal :=
  trimmed (m * 2 ^ e.toNat * 5 ^ (-e).toNat) (min e 0)

/-- The shortest decimal that is read as the double `m * 2 ^ e`. Seventeen digits are always
enough. -/
def shortest (m : Nat) (e : Int) : Decimal :=
  let num := m * 2 ^ e.toNat
  let den := 2 ^ (-e).toNat
  let first := order num den
  let target := Double.ofPlace m e
  let found := (List.range 17).findSome? fun (i : Nat) =>
    (neighbours num den (first - i)).find? fun d => d.toDouble = target
  found.getD (exactly m e)

end Decimal

end PathCurves
