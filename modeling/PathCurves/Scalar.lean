/-
The numbers that coordinates are made of. Every construction of the library is
written once, over any type with the operations of `Scalar` (and of `Trig` where
angles occur): the definition that is run on doubles is the one that is reasoned
about over the real numbers.
-/

namespace PathCurves

/-- Numbers with arithmetic, an order, a square root and `π`. `==` is the equality of
numbers: on doubles both zeros are equal and not-a-number differs from itself. -/
class Scalar (α : Type) extends Add α, Sub α, Mul α, Div α, Neg α, NatCast α, OfScientific α,
    LT α, LE α, BEq α where
  sqrt : α → α
  pi : α
  isFinite : α → Bool
  decidableLT : DecidableLT α
  decidableLE : DecidableLE α

/-- The circular functions, of angles in radians. They stand apart from `Scalar`
so that a statement can range over every choice of them. -/
class Trig (α : Type) where
  sin : α → α
  cos : α → α
  /-- The angle, from the positive first axis, of the direction whose second coordinate
  is the first argument and whose first coordinate is the second one. -/
  atan2 : α → α → α

namespace Scalar

variable {α : Type} [Scalar α]

instance (priority := low) : DecidableLT α := Scalar.decidableLT

instance (priority := low) : DecidableLE α := Scalar.decidableLE

/-- The distance of a number from zero; that of either zero is the positive one. -/
def abs (a : α) : α := if a < 0.0 then -a else if a == 0.0 then 0.0 else a

/-- The smaller of two numbers; an undefined one gives way to the other. -/
def lesser (a b : α) : α := if b < a then b else if a == a then a else b

/-- The greater of two numbers; an undefined one gives way to the other. -/
def greater (a b : α) : α := if a < b then b else if a == a then a else b

omit [Scalar α] in
theorem choice_cases (c d : Prop) [Decidable c] [Decidable d] (a b : α) :
    (if c then b else if d then a else b) = a ∨ (if c then b else if d then a else b) = b := by
  split
  · exact .inr rfl
  · split
    · exact .inl rfl
    · exact .inr rfl

theorem lesser_cases (a b : α) : lesser a b = a ∨ lesser a b = b := choice_cases _ _ a b

theorem greater_cases (a b : α) : greater a b = a ∨ greater a b = b := choice_cases _ _ a b

/-- Lengths and slopes that differ by less than this count as equal. -/
def tolerance : α := 1e-10

/-- An angle given in degrees, in radians. -/
def radians (degrees : α) : α := degrees * (pi / 180.0)

/-- An angle given in radians, in degrees. -/
def degrees (radians : α) : α := radians * (180.0 / pi)

end Scalar

end PathCurves
