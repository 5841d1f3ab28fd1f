/-
The double nearest to a ratio of natural numbers, and to a decimal number. Ties go to the
double whose last binary digit is zero; ratios beyond the greatest double become infinite.
-/

namespace PathCurves.Double

-- `^` is the power of `Nat` itself, also where monoids bring another one along.
attribute [local instance (high)] instPowNat

/-- The double that is no number. -/
def undefined : Float := .ofModel (.pack .notANumber)

/-- The double beyond all numbers. -/
def infinity : Float := .ofModel (.pack (.infinity .positive))

/-- The positive zero. -/
def zero : Float := .ofModel (.pack (.zero .positive))

/-- The whole number nearest to `num / den`, of two equally near ones the even one. -/
def roundRatio (num den : Nat) : Nat :=
  let quotient := num / den
  let twice := 2 * (num % den)
  if twice < den then quotient
  else if den < twice then quotient + 1
  else quotient + quotient % 2

/-- The exponent `e` with `2 ^ e ≤ num / den < 2 ^ (e + 1)`, of positive numbers. -/
def binaryOrder (num den : Nat) : Int :=
  let e : Int := (num.log2 : Int) - (den.log2 : Int)
  if den * 2 ^ e.toNat ≤ num * 2 ^ (-e).toNat then e else e - 1

/-- The exponent of the last binary digit that a double near `num / den` has: 53 digits from
the first one, or the last place of the subnormal doubles if that comes earlier. -/
def lastPlace (num den : Nat) : Int := max (binaryOrder num den - 52) (-1074)

/-- The double `m * 2 ^ e`, for `m ≤ 2 ^ 53` where `e` is the last place of that number;
infinite if that is beyond the greatest double. -/
def ofPlace (m : Nat) (e : Int) : Float :=
  if h : 0 < m then
    if m = 2 ^ (53 : Nat) then
      .ofModel (.pack (.finite .positive (2 ^ (52 : Nat)) (e + 1) (Nat.two_pow_pos 52)))
    else .ofModel (.pack (.finite .positive m e h))
  else zero

/-- The double nearest to `num / den`, for a positive `den`. -/
def ofRatio (num den : Nat) : Float :=
  let e := lastPlace num den
  ofPlace (roundRatio (num * 2 ^ (-e).toNat) (den * 2 ^ e.toNat)) e

/-- The double nearest to `digits * 10 ^ exponent`. Numbers far outside the range of the
doubles are told by their size alone, so that no huge power is computed for them. -/
def ofDecimal (digits : Nat) (exponent : Int) : Float :=
  if digits = 0 then zero
  else if 400 < exponent then infinity
  else if (digits.log2 : Int) + 3 * exponent < -1100 then zero
  else ofRatio (digits * 10 ^ exponent.toNat) (10 ^ (-exponent).toNat)

end PathCurves.Double
