/-
Stretches of a curve that is run through by an angle.
-/
import PathCurves.Scalar

namespace PathCurves

/-- The stretch from one angle to another, all of it turned by a third one; in degrees. -/
structure Sweep (α : Type) where
  start : α
  stop : α
  turn : α
deriving BEq, DecidableEq, Repr

namespace Sweep

variable {α : Type} [Scalar α]

/-- A stretch of a curve that is not turned. -/
def unturned (start stop : α) : Sweep α := ⟨start, stop, 0.0⟩

/-- The same stretch of the curve turned by the given angle. -/
def turnedBy (s : Sweep α) (turn : α) : Sweep α := { s with turn }

/-- The two ends of the stretch in radians. -/
def radians (s : Sweep α) : α × α := (Scalar.radians s.start, Scalar.radians s.stop)

end Sweep

end PathCurves
