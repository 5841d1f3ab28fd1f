/-
Perpendicular bisectors, as lines of the plane, and the point that two of them share.
-/
import PathCurves.Chord

namespace PathCurves

/-- A line: a vertical one by its place on the first axis, any other by its slope and its
height over the origin. -/
inductive Line (α : Type) where
  | vertical (x : α)
  | sloped (slope intercept : α)
deriving BEq, DecidableEq, Repr

namespace Line

variable {α : Type} [Scalar α]

/-- The line of the points equally far from `a` and `b`, unless these are too close
together. A segment whose ends are level, up to the tolerance, has a vertical bisector. -/
def bisector (a b : Point α) : Option (Line α) :=
  let d := b - a
  if Point.Near a b then none
  else
    let m := Point.midpoint a b
    if Scalar.abs d.y < Scalar.tolerance then some (.vertical m.x)
    else
      let slope := -d.x / d.y
      some (.sloped slope (m.y - slope * m.x))

/-- The point that two lines share, unless they run in the same direction. -/
def meet : Line α → Line α → Option (Point α)
  | .vertical _, .vertical _ => none
  | .vertical x, .sloped slope intercept => some ⟨x, slope * x + intercept⟩
  | .sloped slope intercept, .vertical x => some ⟨x, slope * x + intercept⟩
  | .sloped s₁ i₁, .sloped s₂ i₂ =>
    if Scalar.abs (s₁ - s₂) < Scalar.tolerance then none
    else
      let x := (i₂ - i₁) / (s₁ - s₂)
      some ⟨x, s₁ * x + i₁⟩

end Line

end PathCurves
