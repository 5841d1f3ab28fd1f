/-
Circles over doubles. The radius of a circle is always positive, and finite as long as the length
of the chord is; past that length the centre is no number. Main statement:
`Circle.ofChord_of_finite`. Points up to `2 ^ 300` from the axes are far from that length, and no
step on the way from them to the centre and the radius is infinite: the tolerance bounds every
divisor from below (`Line.within_bisector`, `Line.within_meet`).
-/
import PathCurves.Circle.Chord
import PathCurves.Proofs.Magnitude

namespace PathCurves

open Double

/-! ## Constants and distances -/

theorem exists_tolerance : ∃ τ, HasValue Scalar.tolerance τ ∧ 1 ≤ 2 ^ 34 * τ := by
  refine ⟨_, hasValue_of_bits 988 7737125245533627 (by norm_num) (by norm_num) (.inl (by norm_num))
    (by decide +kernel), ?_⟩
  norm_num

theorem exists_root : ∃ r, HasValue (Scalar.sqrt (3.0 : Float)) r ∧ 1 ≤ r ∧ r ≤ 2 := by
  refine ⟨_, hasValue_of_bits 1022 7800463371553962 (by norm_num) (by norm_num)
    (.inl (by norm_num)) (by decide +kernel), ?_⟩
  norm_num

theorem le_abs_of_not_lt {x : Float} {v : ℚ} (hx : HasValue x v)
    (h : ¬ Scalar.abs x < Scalar.tolerance) : 1 ≤ 2 ^ 34 * |v| := by
  obtain ⟨τ, hτ, hle⟩ := exists_tolerance
  have hlt : ¬ |v| < τ := mt (lt_iff_of_some (number?_abs hx.1) hτ.1).mpr h
  linarith

namespace Point

/-- The length of a chord: at least the tolerance, maybe infinite. -/
def IsLength (length : Float) : Prop :=
  (∃ v, HasValue length v ∧ 1 ≤ 2 ^ 34 * v) ∨ IsInfinity .positive length

variable {a b : Point Float} {k : ℕ}

theorem Within.sub (hb : b.Within k) (ha : a.Within k) (hk : k + 1 < 1024) :
    (b - a).Within (k + 1) :=
  ⟨hb.1.sub ha.1 hk, hb.2.sub ha.2 hk⟩

theorem Within.midpoint (ha : a.Within k) (hb : b.Within k) (hk : k + 1 < 1024) :
    (Point.midpoint a b).Within (k + 1) := by
  have hhalf : Double.Within 0 0.5 := ⟨_, hasValue_half, by norm_num⟩
  exact ⟨(ha.1.add hb.1 hk).mul hhalf hk, (ha.2.add hb.2 hk).mul hhalf hk⟩

theorem nonNeg_norm (ha : a.IsFinite) (hb : b.IsFinite) : NonNeg (b - a).norm := by
  obtain ⟨⟨u, hu⟩, v, hv⟩ := ha.imp isFinite_iff.mp isFinite_iff.mp
  obtain ⟨⟨w, hw⟩, z, hz⟩ := hb.imp isFinite_iff.mp isFinite_iff.mp
  obtain ⟨dx, hdx, -⟩ := hw.sub hu
  obtain ⟨dy, hdy, -⟩ := hz.sub hv
  exact ((NonNeg.mul_self hdx).add (NonNeg.mul_self hdy)).sqrt

/-- Points that span a chord are at least the tolerance apart. -/
theorem norm_of_not_near (ha : a.IsFinite) (hb : b.IsFinite) (h : ¬ Point.Near a b) :
    IsLength (b - a).norm := by
  obtain ⟨v, hv, -⟩ | hinf := (nonNeg_norm ha hb).cases
  · obtain ⟨τ, hτ, hle⟩ := exists_tolerance
    have hlt : ¬ v < τ := mt (lt_iff_of_some hv.1 hτ.1).mpr h
    exact .inl ⟨v, hv, by linarith⟩
  · exact .inr hinf

theorem Within.norm (ha : a.Within k) (hk : 2 * (k + 1) < 1024) : Double.Within (k + 1) a.norm := by
  obtain ⟨u, hu⟩ := ha.1.exists_hasValue
  obtain ⟨v, hv⟩ := ha.2.exists_hasValue
  have hsum := (ha.1.mul ha.1 (by omega)).add (ha.2.mul ha.2 (by omega)) (by omega)
  exact (hsum.mono (show k + k + 1 ≤ 2 * (k + 1) by omega)).sqrt
    ((NonNeg.mul_self hu.1).add (NonNeg.mul_self hv.1)) (by omega)

end Point

/-! ## Bisectors -/

namespace Line

/-- The slope is at most `2 ^ j` away from zero, and the height or the place at most `2 ^ k`. -/
def Within (j k : ℕ) : Line Float → Prop
  | .vertical x => Double.Within k x
  | .sloped slope intercept => Double.Within j slope ∧ Double.Within k intercept

variable {a b : Point Float} {l l₁ l₂ : Line Float} {o : Point Float} {j k : ℕ}

theorem within_bisector (ha : a.Within k) (hb : b.Within k) (hk : 2 * k + 37 < 1024)
    (h : Line.bisector a b = some l) : l.Within (k + 35) (2 * k + 37) := by
  have hd := hb.sub ha (by omega)
  have hm := ha.midpoint hb (by omega)
  unfold Line.bisector at h
  dsimp only at h
  split at h
  · cases h
  · split at h
    · cases h
      exact hm.1.mono (by omega)
    · next hlevel =>
      cases h
      -- The divisor is at least the tolerance, since the segment is not level.
      obtain ⟨v, hv⟩ := hd.2.exists_hasValue
      have hslope := hd.1.neg.div hv (le_abs_of_not_lt hv hlevel) (by omega)
      have hmul := (hslope.mul hm.1 (by omega)).mono
        (show k + 1 + 34 + (k + 1) ≤ 2 * k + 36 by omega)
      exact ⟨hslope, (hm.2.mono (by omega)).sub hmul (by omega)⟩

theorem within_slope_mul_add {slope intercept x : Float} (hs : Double.Within j slope)
    (hi : Double.Within k intercept) (hx : Double.Within (k + 35) x) (hjk : j + k + 36 < 1024) :
    Double.Within (j + k + 36) (slope * x + intercept) :=
  ((hs.mul hx (by omega)).mono (by omega)).add (hi.mono (by omega)) (by omega)

theorem within_meet (h₁ : l₁.Within j k) (h₂ : l₂.Within j k) (hjk : j + k + 36 < 1024)
    (h : Line.meet l₁ l₂ = some o) : o.Within (j + k + 36) := by
  match l₁, l₂, h₁, h₂ with
  | .vertical x, .vertical y, _, _ => cases h
  | .vertical x, .sloped s i, hx, h₂ =>
    cases h
    exact ⟨hx.mono (by omega), within_slope_mul_add h₂.1 h₂.2 (hx.mono (by omega)) hjk⟩
  | .sloped s i, .vertical x, h₁, hx =>
    cases h
    exact ⟨hx.mono (by omega), within_slope_mul_add h₁.1 h₁.2 (hx.mono (by omega)) hjk⟩
  | .sloped s₁ i₁, .sloped s₂ i₂, h₁, h₂ =>
    simp only [Line.meet] at h
    split at h
    · cases h
    · next hparallel =>
      cases h
      -- Again a divisor that has passed the comparison with the tolerance.
      obtain ⟨v, hv⟩ := (h₁.1.sub h₂.1 (by omega)).exists_hasValue
      have hx := (h₂.2.sub h₁.2 (by omega)).div hv (le_abs_of_not_lt hv hparallel) (by omega)
      exact ⟨hx.mono (by omega), within_slope_mul_add h₁.1 h₁.2 (hx.mono (by omega)) hjk⟩

end Line

/-! ## Circles -/

namespace Circle

variable {a b m : Point Float} {c : Circle Float} {k : ℕ}

theorem exists_double_root : ∃ r, HasValue (2.0 * Scalar.sqrt (3.0 : Float)) r ∧ 1 ≤ r := by
  refine ⟨_, hasValue_of_bits 1023 7800463371553962 (by norm_num) (by norm_num)
    (.inl (by norm_num)) (by decide +kernel), ?_⟩
  norm_num

/-- The radius is positive, and finite if the chord is. -/
theorem radius_spec {length : Float} (h : Point.IsLength length) :
    (0.0 : Float) < length / Scalar.sqrt 3.0 ∧
      (length / Scalar.sqrt 3.0).isFinite = length.isFinite := by
  obtain ⟨r, hr, hr₁, hr₂⟩ := exists_root
  obtain ⟨v, hv, hle⟩ | hinf := h
  · obtain ⟨w, hw, -, hround⟩ := hv.div_of_one_le hr (hr₁.trans (le_abs_self r))
    have hsmall : (2 : ℚ) ^ (-35 : ℤ) ≤ v / r := by
      rw [le_div_iff₀ (by linarith)]
      norm_num
      linarith
    have hpos : 0 < w :=
      lt_of_lt_of_le (by positivity) (hround.ge (onGrid_zpow (by norm_num) (by norm_num)) hsmall)
    exact ⟨(lt_iff_of_some hasValue_zero.1 hw.1).mpr hpos, by rw [hw.isFinite, hv.isFinite]⟩
  · obtain ⟨t, ht, hsign⟩ := hinf.div_finite hr
    obtain rfl := hsign (by linarith)
    refine ⟨(lt_iff_of_some hasValue_zero.1 ht.number).mpr ?_, by rw [ht.isFinite, hinf.isFinite]⟩
    simp only [signed]
    positivity

/-- Past an infinite length every shift of the centre is no number. -/
theorem shift_of_infinite {length : Float} (h : IsInfinity .positive length) (d : Point Float) :
    number? ((d / length).quarterTurn * (length / (2.0 * Scalar.sqrt 3.0))).x = none ∧
      number? ((d / length).quarterTurn * (length / (2.0 * Scalar.sqrt 3.0))).y = none := by
  obtain ⟨r, hr, -⟩ := exists_double_root
  obtain ⟨t, ht, -⟩ := h.div_finite hr
  refine ⟨mul_infinity ?_ ht, mul_infinity (div_infinity d.x h) ht⟩
  rcases div_infinity d.y h with h | h
  · exact .inl ((number?_neg _).trans (by rw [Point.div_y, h]; rfl))
  · have hneg := h.neg
    rw [neg_zero] at hneg
    exact .inr hneg

/-- No shift of the centre is longer than its parts allow. -/
theorem within_shift {length : Float} {d : Point Float} (h : Point.IsLength length)
    (hlength : Double.Within k length) (hd : d.Within k) (hk : 2 * k + 34 < 1024) :
    ((d / length).quarterTurn * (length / (2.0 * Scalar.sqrt 3.0))).Within (2 * k + 34) := by
  obtain ⟨r, hr, hr₁⟩ := exists_double_root
  obtain ⟨v, hv, hle⟩ | hinf := h
  · have hv' : 1 ≤ 2 ^ 34 * |v| := hle.trans (by gcongr; exact le_abs_self v)
    have hr' : 1 ≤ 2 ^ 0 * |r| := by
      rw [pow_zero, one_mul]
      exact hr₁.trans (le_abs_self r)
    have hshift : Double.Within k (length / (2.0 * Scalar.sqrt 3.0)) :=
      hlength.div hr hr' (by omega)
    exact ⟨((hd.2.div hv hv' (by omega)).neg.mul hshift (by omega)).mono (by omega),
      ((hd.1.div hv hv' (by omega)).mul hshift (by omega)).mono (by omega)⟩
  · exact absurd hlength.isFinite (by rw [hinf.isFinite]; exact Bool.false_ne_true)

/-- The circle of a chord with finite ends has a positive radius, which is finite as long as the
length of the chord is; past that length the centre is no number. Centre and radius are finite if
all three points are up to `2 ^ 300` from the axes. -/
theorem ofChord_of_finite (ha : a.IsFinite) (hb : b.IsFinite) (h : ofChord a b m = .ok c) :
    0.0 < c.radius ∧ c.radius.isFinite = (b - a).norm.isFinite ∧
      ((b - a).norm.isFinite = false → c.centre.x.isNaN = true ∧ c.centre.y.isNaN = true) ∧
      (a.Within 300 → b.Within 300 → m.Within 300 →
        c.centre.IsFinite ∧ c.radius.isFinite = true) := by
  obtain ⟨l₁, l₂, o, hnear, h₁, h₂, hmeet, hcentre, hradius⟩ := ofChord_eq_ok h
  have hlength := Point.norm_of_not_near ha hb hnear
  obtain ⟨hpos, hfinite⟩ := radius_spec hlength
  rw [hcentre, hradius]
  refine ⟨hpos, hfinite, ?_, ?_⟩
  · intro hinf
    obtain ⟨v, hv, -⟩ | hinf' := hlength
    · rw [hv.isFinite] at hinf
      cases hinf
    · obtain ⟨hx, hy⟩ := shift_of_infinite hinf' (b - a)
      exact ⟨isNaN_iff.mpr (number?_add (.inr hx)), isNaN_iff.mpr (number?_add (.inr hy))⟩
  · intro ha hb hm
    have hd := hb.sub ha (by norm_num)
    have hnorm := hd.norm (by norm_num)
    have ho := Line.within_meet (Line.within_bisector ha hb (by norm_num) h₁)
      (Line.within_bisector ha hm (by norm_num) h₂) (by norm_num) hmeet
    have hshift := within_shift hlength hnorm (hd.mono (by norm_num)) (by norm_num)
    rw [hfinite]
    exact ⟨⟨(ho.1.add (hshift.1.mono (by norm_num)) (by norm_num)).isFinite,
      (ho.2.add (hshift.2.mono (by norm_num)) (by norm_num)).isFinite⟩, hnorm.isFinite⟩

theorem ofChord_of_finite_example :
    ∃ c : Circle Float, ofChord ⟨0.0, 0.0⟩ ⟨2.0, 1.0⟩ ⟨1.0, 2.0⟩ = .ok c ∧
      0.0 < c.radius ∧ c.centre.IsFinite ∧ c.radius.isFinite = true := by
  obtain ⟨c, hc⟩ : ∃ c : Circle Float, ofChord ⟨0.0, 0.0⟩ ⟨2.0, 1.0⟩ ⟨1.0, 2.0⟩ = .ok c :=
    ⟨⟨⟨.ofBits 4603081064467042588, .ofBits 4609031973319306980⟩, .ofBits 4608492941290910866⟩,
      by decide +kernel⟩
  have hzero : Double.Within 300 0.0 := ⟨0, hasValue_zero, by positivity⟩
  have hone : Double.Within 300 1.0 := ⟨1, hasValue_one, by norm_num [one_le_pow₀]⟩
  have htwo : Double.Within 300 2.0 := ⟨2, hasValue_two, by norm_num [le_self_pow₀]⟩
  have ha : Point.Within 300 ⟨0.0, 0.0⟩ := ⟨hzero, hzero⟩
  have hb : Point.Within 300 ⟨2.0, 1.0⟩ := ⟨htwo, hone⟩
  have hm : Point.Within 300 ⟨1.0, 2.0⟩ := ⟨hone, htwo⟩
  obtain ⟨hpos, -, -, hwithin⟩ := ofChord_of_finite ha.isFinite hb.isFinite hc
  exact ⟨c, hc, hpos, hwithin ha hb hm⟩

/-- A chord of finite ends that is too long for a double. -/
theorem exists_ofChord_unbounded_example :
    Point.IsFinite ⟨1e200, 1e200⟩ ∧ Point.IsFinite ⟨1e200, -1e200⟩ ∧
      ∃ c : Circle Float, ofChord ⟨0.0, 0.0⟩ ⟨1e200, 1e200⟩ ⟨1e200, -1e200⟩ = .ok c ∧
        c.centre.x.isNaN = true ∧ c.centre.y.isNaN = true ∧ c.radius.isFinite = false := by
  refine ⟨by decide +kernel, by decide +kernel,
    ⟨⟨Double.undefined, Double.undefined⟩, Double.infinity⟩, ?_⟩
  decide +kernel

end Circle

end PathCurves
