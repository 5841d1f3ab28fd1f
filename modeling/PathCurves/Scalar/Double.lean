/-
Doubles as scalars: the arithmetic of IEEE binary64, each operation rounded to the
nearest double. Main statement: `Double.ofCount_eq`, a count of any size is rounded once.
-/
import PathCurves.Scalar

namespace PathCurves

/-- A count as the nearest double. -/
def Double.ofCount (count : Nat) : Float :=
  if count < UInt64.size then count.toUInt64.toFloat else .ofModel (.ofNat count)

instance : Scalar Float where
  natCast := Double.ofCount
  sqrt := Float.sqrt
  pi := 3.141592653589793
  isFinite := Float.isFinite
  decidableLT := inferInstance
  decidableLE := inferInstance

instance : Trig Float where
  sin := Float.sin
  cos := Float.cos
  atan2 := Float.atan2

/-- Counts of either size convert in one rounding. -/
theorem Double.ofCount_eq (count : Nat) : Double.ofCount count = .ofModel (.ofNat count) := by
  unfold Double.ofCount
  split
  · next h =>
    simp only [UInt64.toFloat, Float.Model.ofUInt64, Float.Model.ofNat,
      Float.Model.UnpackedFloat.ofUInt64, Nat.toUInt64, UInt64.toNat_ofNat', Nat.mod_eq_of_lt h]
  · rfl

end PathCurves
