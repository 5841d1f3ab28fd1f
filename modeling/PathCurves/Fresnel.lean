/-
The Fresnel integrals `∫ cos (π s² / 2) ds` and `∫ sin (π s² / 2) ds` from zero to a
bound, estimated by a sum over evenly spaced positions that counts both ends.
-/
import PathCurves.Fault
import PathCurves.Spacing

namespace PathCurves.Fresnel

variable {α : Type} [Scalar α] [Trig α]

/-- How many positions a sum has unless the caller says otherwise. -/
def defaultSteps : Nat := 10000

/-- The argument of the cosine and the sine at position `s`. -/
@[specialize] def phase (s : α) : α := Scalar.pi / 2.0 * s * s

/-- The sum of `f` over the phases, in order. -/
@[specialize] def total (f : α → α) (phases : List α) : α :=
  phases.foldl (fun sum p => sum + f p) 0.0

/-- The two estimates up to `t`, by `steps` positions that are `t / (steps - 1)` apart. -/
@[specialize] def sums (t : α) (steps : Nat) : α × α :=
  let width := t / ((steps - 1 : Nat) : α)
  let phases := (spaced 0.0 t steps).map phase
  (total Trig.cos phases * width, total Trig.sin phases * width)

/-- The two estimates up to `t`; they need two positions at least. -/
def integrals (t : α) (steps : Nat) : Except Fault (α × α) :=
  if steps < 2 then .error (.tooFew .fresnelSteps steps 2) else .ok (sums t steps)

end PathCurves.Fresnel
