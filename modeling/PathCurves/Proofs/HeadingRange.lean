/-
Directions over doubles. A direction in degrees is an angle in radians times a constant, rounded.
The product keeps the order of angles (`degrees_le_degrees`), and half a turn to either side becomes
180 and -180, so no direction lies beyond these. Only the angle of half a turn to the right becomes
-180: for the next double after it the product is already greater (`lt_degrees_iff`).

That angle is found for some chords to the left that fall slightly, and for those to the left whose
ends have zeros of opposite signs as their heights. Main statement: `range_of_heading`.
-/
import PathCurves.Proofs.CircleRange
import PathCurves.Proofs.Differences

namespace PathCurves

open Double

/-! ## Degrees -/

namespace Scalar

variable {x y : Float}

theorem exists_degree : ∃ k, HasValue (180.0 / Scalar.pi : Float) k ∧ 0 < k := by
  refine ⟨_, hasValue_of_bits 1027 8063664102031864 (by norm_num) (by norm_num)
    (.inl (by norm_num)) (by decide +kernel), ?_⟩
  positivity

theorem degrees_le_degrees (hx : x.isFinite = true) (hy : y.isFinite = true) (h : x ≤ y) :
    degrees x ≤ degrees y := by
  obtain ⟨k, hk, hpos⟩ := exists_degree
  obtain ⟨a, ha⟩ := isFinite_iff.mp hx
  obtain ⟨b, hb⟩ := isFinite_iff.mp hy
  have hab : a ≤ b := (le_iff_of_some ha.1 hb.1).mp h
  obtain ⟨v, hv, hround⟩ := ha.mul hk
  obtain ⟨w, hw, hround'⟩ := hb.mul hk
  exact le_iff.mpr ⟨v, w, hv, hw, hround.mono hround' (mul_le_mul_of_nonneg_right hab hpos.le)⟩

/-- Above half a turn to the right there is nothing below the next double. -/
theorem le_of_neg_pi_lt (h : -Scalar.pi < x) : -3.1415926535897927 ≤ x := by
  obtain ⟨u, v, hu, hv, huv⟩ := lt_iff.mp h
  have hnext : bits (Scalar.pi : Float) = bits 3.1415926535897927 + 1 := by decide +kernel
  have hpi := number?_of_bits (x := Scalar.pi) (by decide +kernel)
  have hbelow := number?_of_bits (x := 3.1415926535897927) (by decide +kernel)
  rw [number?_neg, hpi, hnext] at hu
  obtain rfl := Option.some.inj hu
  have hle := (onGrid_of_number? hv).neg.le_of_lt (neg_lt.mp huv)
  exact (le_iff_of_some ((number?_neg _).trans (by rw [hbelow]; rfl)) hv).mpr (neg_le.mp hle)

/-- Of the angles up to half a turn, only that of half a turn to the right is -180 degrees. -/
theorem lt_degrees_iff (hlow : -Scalar.pi ≤ x) (hhigh : x ≤ Scalar.pi) :
    -180.0 < degrees x ↔ -Scalar.pi < x := by
  have hpi : (-Scalar.pi : Float).isFinite = true := by decide +kernel
  have hfinite : x.isFinite = true := isFinite_of_le_of_le hpi (by decide +kernel) hlow hhigh
  refine ⟨fun h => ?_, fun h => ?_⟩
  · by_contra hnot
    have hle := degrees_le_degrees hfinite hpi (Double.le_of_not_lt hnot hlow)
    have hend : degrees (-Scalar.pi : Float) = -180.0 := by decide +kernel
    rw [hend] at hle
    exact absurd (Double.lt_of_lt_of_le h hle) (by decide +kernel)
  · have hnext : -180.0 < degrees (-3.1415926535897927 : Float) := by decide +kernel
    exact Double.lt_of_lt_of_le hnext
      (degrees_le_degrees (by decide +kernel) hfinite (le_of_neg_pi_lt h))

theorem degrees_mem (hlow : -Scalar.pi ≤ x) (hhigh : x ≤ Scalar.pi) :
    -180.0 ≤ degrees x ∧ degrees x ≤ 180.0 := by
  have hpi : (Scalar.pi : Float).isFinite = true := by decide +kernel
  have hneg : (-Scalar.pi : Float).isFinite = true := by decide +kernel
  have hfinite : x.isFinite = true := isFinite_of_le_of_le hneg hpi hlow hhigh
  have hleft : degrees (Scalar.pi : Float) = 180.0 := by decide +kernel
  have hright : degrees (-Scalar.pi : Float) = -180.0 := by decide +kernel
  rw [← hright, ← hleft]
  exact ⟨degrees_le_degrees hneg hfinite hlow, degrees_le_degrees hfinite hpi hhigh⟩

end Scalar

namespace Point

/-! ## Chords -/

variable {a b d : Point Float}

theorem isFinite_of_norm (h : d.norm.isFinite = true) : d.IsFinite := by
  obtain ⟨hx, hy⟩ := isFinite_of_add (isFinite_of_sqrt h)
  exact ⟨(isFinite_of_mul hx).1, (isFinite_of_mul hy).1⟩

theorem not_zero_of_tolerance_le (h : Scalar.tolerance ≤ d.norm) :
    ¬ (HasValue d.x 0 ∧ HasValue d.y 0) := by
  rintro ⟨hx, hy⟩
  have hxx := hx.mul hx
  have hyy := hy.mul hy
  rw [mul_zero] at hxx hyy
  have hsum := (hxx.exact hasValue_zero).add (hyy.exact hasValue_zero)
  rw [add_zero] at hsum
  obtain ⟨s, hs⟩ := unpack_of_zero (hsum.exact hasValue_zero)
  have hnorm : number? d.norm = some 0 := by
    show number? (Float.sqrt _) = some 0
    rw [sqrt_eq_pack, hs]
    exact number?_zero s
  obtain ⟨τ, hτ, hpos⟩ := exists_tolerance
  have hle := (le_iff_of_some hτ.1 hnorm).mp h
  linarith

/-! ## Angles of directions -/

/-- A function that finds the angle of a direction from its two coordinates, the second one first:
the arc tangent of their quotient, in the quadrant that their signs tell. No angle is beyond half a
turn, and that of a direction to the right or straight down is at most a quarter of one below zero.
A direction that rises, or runs along the positive zero, has no angle below zero; to the left along
the negative zero the angle is half a turn downwards. -/
structure Angular (angle : Float → Float → Float) : Prop where
  within : ∀ y x : Float, y.isFinite = true → x.isFinite = true →
    -Scalar.pi ≤ angle y x ∧ angle y x ≤ Scalar.pi
  above : ∀ y x : Float, y.isFinite = true → x.isFinite = true → 0.0 < y ∨ y = 0.0 →
    0.0 ≤ angle y x
  right : ∀ y x : Float, y.isFinite = true → x.isFinite = true →
    0.0 < x ∨ (x == 0.0) = true ∧ y < 0.0 → -(Scalar.pi / 2.0) ≤ angle y x
  left : ∀ x : Float, x < 0.0 → angle (-0.0) x = -Scalar.pi

namespace Angular

variable {angle : Float → Float → Float} {x y : Float} {u v : ℚ}

/-- The angle of half a turn to the right belongs to directions to the left that fall, be it only
along the negative zero. -/
theorem lt_or_of_value (hangle : Angular angle) (hx : HasValue x u) (hy : HasValue y v)
    (hne : ¬ (u = 0 ∧ v = 0)) : -Scalar.pi < angle y x ∨ u < 0 ∧ (v < 0 ∨ y = -0.0) := by
  have habove (h : 0.0 < y ∨ y = 0.0) : -Scalar.pi < angle y x :=
    Double.lt_of_lt_of_le (y := 0.0) (by decide +kernel)
      (hangle.above y x hy.isFinite hx.isFinite h)
  have hright (h : 0.0 < x ∨ (x == 0.0) = true ∧ y < 0.0) : -Scalar.pi < angle y x :=
    Double.lt_of_lt_of_le (y := -(Scalar.pi / 2.0)) (by decide +kernel)
      (hangle.right y x hy.isFinite hx.isFinite h)
  rcases lt_trichotomy u 0 with hu | rfl | hu
  · rcases lt_trichotomy v 0 with hv | rfl | hv
    · exact .inr ⟨hu, .inl hv⟩
    · rcases eq_zero_or_eq_neg_zero hy with h | h
      · exact .inl (habove (.inr h))
      · exact .inr ⟨hu, .inr h⟩
    · exact .inl (habove (.inl ((lt_iff_of_some hasValue_zero.1 hy.1).mpr hv)))
  · rcases lt_trichotomy v 0 with hv | rfl | hv
    · exact .inl (hright (.inr ⟨beq_iff.mpr ⟨0, hx.1, hasValue_zero.1⟩,
        (lt_iff_of_some hy.1 hasValue_zero.1).mpr hv⟩))
    · exact absurd ⟨rfl, rfl⟩ hne
    · exact .inl (habove (.inl ((lt_iff_of_some hasValue_zero.1 hy.1).mpr hv)))
  · exact .inl (hright (.inl ((lt_iff_of_some hasValue_zero.1 hx.1).mpr hu)))

end Angular

/-- A chord of a finite length that counts has a direction between -180 and 180 degrees. It is
greater than -180 exactly if the angle is not half a turn to the right. That can only be so for a
chord to the left that falls or leads from the positive zero to the negative one, and in the second
case it is so: then the direction is -180. -/
theorem range_of_heading [Trig Float] (hangle : Angular Trig.atan2)
    (hfinite : (b - a).norm.isFinite = true) (hlength : Scalar.tolerance ≤ (b - a).norm) :
    ∃ d, heading a b = .ok d ∧ -180.0 ≤ d ∧ d ≤ 180.0 ∧
      (-180.0 < d ↔ -Scalar.pi < Trig.atan2 (b - a).y (b - a).x) ∧
      (-180.0 < d ∨ b.x < a.x ∧ (b.y < a.y ∨ a.y = 0.0 ∧ b.y = -0.0)) ∧
      (b.x < a.x → a.y = 0.0 → b.y = -0.0 → d = -180.0) := by
  have hfar : ¬ Near a b := fun h => Double.lt_irrefl (Double.lt_of_lt_of_le h hlength)
  obtain ⟨hdx, hdy⟩ := isFinite_of_norm hfinite
  obtain ⟨hlow, hhigh⟩ := hangle.within _ _ hdy hdx
  obtain ⟨⟨p, hbx⟩, q, hax⟩ := (isFinite_of_sub hdx).imp isFinite_iff.mp isFinite_iff.mp
  obtain ⟨⟨r, hby⟩, s, hay⟩ := (isFinite_of_sub hdy).imp isFinite_iff.mp isFinite_iff.mp
  obtain ⟨u, hu⟩ := isFinite_iff.mp hdx
  obtain ⟨v, hv⟩ := isFinite_iff.mp hdy
  have hleft : u < 0 ↔ b.x < a.x :=
    (sub_neg_iff hbx hax hu.1).trans (lt_iff_of_some hbx.1 hax.1).symm
  have hfalls : v < 0 ↔ b.y < a.y :=
    (sub_neg_iff hby hay hv.1).trans (lt_iff_of_some hby.1 hay.1).symm
  have hzeros : (b - a).y = -0.0 ↔ a.y = 0.0 ∧ b.y = -0.0 :=
    (sub_eq_neg_zero_iff hby hay).trans and_comm
  obtain ⟨hmin, hmax⟩ := Scalar.degrees_mem hlow hhigh
  have hiff := Scalar.lt_degrees_iff hlow hhigh
  refine ⟨_, heading_of_not_near hfar, hmin, hmax, hiff, ?_, ?_⟩
  · rw [hiff, ← hleft, ← hfalls, ← hzeros]
    exact hangle.lt_or_of_value hu hv fun hzero =>
      not_zero_of_tolerance_le hlength ⟨hzero.1 ▸ hu, hzero.2 ▸ hv⟩
  · intro hx ha hb
    have hback : (b - a).x < 0.0 := (lt_iff_of_some hu.1 hasValue_zero.1).mpr (hleft.mpr hx)
    rw [hzeros.mpr ⟨ha, hb⟩, hangle.left _ hback]
    decide +kernel

/-! ## Eighths of a turn -/

/-- The angle of a direction, to an eighth of a turn. -/
def eighth (y x : Float) : Float :=
  if y < 0.0 then
    if x < 0.0 then -2.356194490192345 else if 0.0 < x then -0.7853981633974483
    else -1.5707963267948966
  else if y = -0.0 then
    if x < 0.0 then -Scalar.pi else -0.0
  else if 0.0 < y then
    if x < 0.0 then 2.356194490192345 else if 0.0 < x then 0.7853981633974483
    else 1.5707963267948966
  else
    if x < 0.0 then Scalar.pi else 0.0

theorem angular_eighth : Angular eighth where
  within y x _ _ := by
    unfold eighth
    split_ifs <;> decide +kernel
  above y x _ _ h := by
    have hlt : ¬ y < 0.0 := by
      rcases h with h | rfl
      · exact Double.lt_asymm h
      · exact Double.lt_irrefl
    have hne : ¬ y = -0.0 := by
      rintro rfl
      revert h
      decide +kernel
    rw [eighth, if_neg hlt, if_neg hne]
    split_ifs <;> decide +kernel
  right y x _ _ h := by
    have hx : ¬ x < 0.0 := by
      rcases h with h | ⟨h, -⟩
      · exact Double.lt_asymm h
      · exact Double.not_lt_of_beq h
    unfold eighth
    rcases h with h | ⟨-, h⟩
    · rw [if_neg hx, if_pos h, if_neg hx, if_neg hx, if_pos h, if_neg hx]
      split_ifs <;> decide +kernel
    · rw [if_pos h, if_neg hx]
      split_ifs <;> decide +kernel
  left x hx := by
    rw [eighth, if_neg (by decide +kernel), if_pos rfl, if_pos hx]

/-- Circular functions that only tell the angle of a direction. -/
@[reducible] def eighths : Trig Float where
  sin _ := 0.0
  cos _ := 0.0
  atan2 := eighth

theorem range_of_heading_example :
    ∃ d, @heading Float _ eighths ⟨0.0, 0.0⟩ ⟨-1.0, -1.0⟩ = .ok d ∧ -180.0 ≤ d ∧ d ≤ 180.0 ∧
      (-180.0 < d ↔ -Scalar.pi < eighth (-1.0 - 0.0) (-1.0 - 0.0)) := by
  have hfinite : ((⟨-1.0, -1.0⟩ : Point Float) - ⟨0.0, 0.0⟩).norm.isFinite = true := by
    decide +kernel
  have hlength : Scalar.tolerance ≤ ((⟨-1.0, -1.0⟩ : Point Float) - ⟨0.0, 0.0⟩).norm := by
    decide +kernel
  obtain ⟨d, hd, hmin, hmax, hiff, -⟩ :=
    @range_of_heading ⟨0.0, 0.0⟩ ⟨-1.0, -1.0⟩ eighths angular_eighth hfinite hlength
  exact ⟨d, hd, hmin, hmax, hiff⟩

/-- A chord to the left from the positive zero to the negative one. -/
theorem heading_neg_zero_example :
    Angular (@Trig.atan2 Float eighths) ∧
      IsFinite (⟨0.0, 0.0⟩ : Point Float) ∧ IsFinite (⟨-1.0, -0.0⟩ : Point Float) ∧
      ((⟨-1.0, -0.0⟩ : Point Float) - ⟨0.0, 0.0⟩).norm.isFinite = true ∧
      Scalar.tolerance ≤ ((⟨-1.0, -0.0⟩ : Point Float) - ⟨0.0, 0.0⟩).norm ∧
      @heading Float _ eighths ⟨0.0, 0.0⟩ ⟨-1.0, -0.0⟩ = .ok (-180.0) ∧
      ¬ (-180.0 : Float) < -180.0 := by
  refine ⟨angular_eighth, ?_⟩
  decide +kernel

end Point

end PathCurves
