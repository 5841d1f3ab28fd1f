/-
How finely the curves that are fitted to a path are sampled.
-/
import PathCurves.Deltoid
import PathCurves.Spiral

namespace PathCurves

/-- The counts that determine how finely curves are sampled: the positions of a Fresnel sum, and the
points of a spiral and of a deltoid arc. -/
structure Sampling where
  fresnelSteps : Nat := Fresnel.defaultSteps
  spiralPoints : Nat := Spiral.defaultSamples
  deltoidPoints : Nat := Deltoid.defaultSamples
deriving DecidableEq, Repr

end PathCurves
