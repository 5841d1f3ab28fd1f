/-
Spirals over doubles. A Fresnel sum is no number exactly if one of its phases is not finite: the
sum of finite ones never leaves `2 ^ 53`, since there one more is rounded away (`within_total`).
Rescaling then keeps what is a number. Main statement: `Spiral.isNaN_of_trace`, which also says
that no phase overflows at rates up to `2 ^ 509`.
-/
import PathCurves.Spiral
import PathCurves.Proofs.Rescaling
import PathCurves.Proofs.SpacedRange

namespace PathCurves

open Double

/-- A circular function of doubles: between -1 and 1 at a finite angle, no number at any other. -/
structure Circular (f : Float → Float) : Prop where
  finite : ∀ angle : Float, angle.isFinite = true → -1.0 ≤ f angle ∧ f angle ≤ 1.0
  infinite : ∀ angle : Float, angle.isFinite = false → (f angle).isNaN = true

theorem Circular.hasValue {f : Float → Float} (hf : Circular f) {angle : Float}
    (h : angle.isFinite = true) : ∃ v, HasValue (f angle) v ∧ |v| ≤ 1 := by
  obtain ⟨hlow, hhigh⟩ := hf.finite angle h
  obtain ⟨l, v, hl, hv, hlv⟩ := le_iff.mp hlow
  obtain ⟨v', u, hv', hu, hvu⟩ := le_iff.mp hhigh
  obtain rfl : v = v' := Option.some.inj (hv.symm.trans hv')
  obtain rfl : u = 1 := Option.some.inj (hu.symm.trans hasValue_one.1)
  obtain rfl : l = -1 := Option.some.inj (hl.symm.trans hasValue_one.neg.1)
  have habs := abs_le.mpr ⟨hlv, hvu⟩
  exact ⟨v, ⟨hv, habs.trans_lt (one_lt_pow₀ one_lt_two (by norm_num))⟩, habs⟩

/-! ## Sums -/

namespace Fresnel

variable {f : Float → Float} {phases : List Float}

/-- At `2 ^ 53` one more is rounded away. -/
theorem within_add_of_le_one {x y : Float} {v : ℚ} (hx : Within 53 x) (hy : HasValue y v)
    (hv : |v| ≤ 1) : Within 53 (x + y) := by
  obtain ⟨u, hu, hle⟩ := hx
  obtain ⟨hlow, hhigh⟩ := abs_le.mp hle
  obtain ⟨hlow', hhigh'⟩ := abs_le.mp hv
  obtain ⟨w, hw, hround⟩ := hu.add hy
  have habs : |w| ≤ 2 ^ 53 := by
    refine abs_le.mpr ⟨?_, hround.mono roundsTo_tie (by linarith)⟩
    exact roundsTo_tie.neg.mono hround (by linarith)
  exact ⟨w, ⟨hw, habs.trans_lt (pow_lt_pow_right₀ one_lt_two (by norm_num))⟩, habs⟩

theorem within_foldl {sum : Float} (hsum : Within 53 sum)
    (hf : ∀ p ∈ phases, ∃ v, HasValue (f p) v ∧ |v| ≤ 1) :
    Within 53 (phases.foldl (fun sum p => sum + f p) sum) := by
  induction phases generalizing sum with
  | nil => exact hsum
  | cons p phases ih =>
    obtain ⟨v, hv, hle⟩ := hf p List.mem_cons_self
    exact ih (within_add_of_le_one hsum hv hle) fun q hq => hf q (List.mem_cons_of_mem _ hq)

theorem within_total (hf : ∀ p ∈ phases, ∃ v, HasValue (f p) v ∧ |v| ≤ 1) :
    Within 53 (total f phases) :=
  within_foldl ⟨0, hasValue_zero, by positivity⟩ hf

theorem number?_foldl {sum : Float}
    (h : number? sum = none ∨ ∃ p ∈ phases, number? (f p) = none) :
    number? (phases.foldl (fun sum p => sum + f p) sum) = none := by
  induction phases generalizing sum with
  | nil => simpa using h
  | cons p phases ih =>
    apply ih
    rcases h with hsum | ⟨q, hq, hnone⟩
    · exact .inl (number?_add (.inl hsum))
    · rcases List.mem_cons.mp hq with rfl | hq
      · exact .inl (number?_add (.inr hnone))
      · exact .inr ⟨q, hq, hnone⟩

theorem number?_total (h : ∃ p ∈ phases, number? (f p) = none) :
    number? (total f phases) = none :=
  number?_foldl (.inr h)

end Fresnel

namespace Fresnel

variable {f : Float → Float} {t : Float} {steps : ℕ}

/-- Some phase of the sums up to `t` is not finite. -/
def Overflows (t : Float) (steps : ℕ) : Prop :=
  ∃ s ∈ spaced 0.0 t steps, (phase s).isFinite = false

theorem finite_of_phase {s : Float} (h : (phase s).isFinite = true) : s.isFinite = true :=
  (isFinite_of_mul h).2

theorem exists_scale : ∃ c, HasValue (Scalar.sqrt (Scalar.pi / 2.0 : Float)) c ∧ c ≠ 0 := by
  refine ⟨_, hasValue_of_bits 1022 5644425081792261 (by norm_num) (by norm_num)
    (.inl (by norm_num)) (by decide +kernel), ?_⟩
  positivity

/-- A scaled sum is no number exactly if a phase overflows. -/
theorem isNaN_estimate_iff (hf : Circular f) (hsteps : 2 ≤ steps) :
    (total f ((spaced 0.0 t steps).map phase) * (t / ofCount (steps - 1)) *
      Scalar.sqrt (Scalar.pi / 2.0)).isNaN = true ↔ Overflows t steps := by
  rw [isNaN_iff]
  refine ⟨fun hnone => ?_, fun h => ?_⟩
  · by_contra hfinite
    have hfinite : ∀ s ∈ spaced 0.0 t steps, (phase s).isFinite = true := by
      simpa [Overflows] using hfinite
    obtain ⟨v, hv⟩ := isFinite_iff.mp (finite_of_phase (hfinite t (stop_mem_spaced 0.0 t hsteps)))
    obtain ⟨w, hw⟩ := exists_div_ofCount hv (show 1 ≤ steps - 1 by omega)
    have hterms : ∀ p ∈ (spaced 0.0 t steps).map phase, ∃ v, HasValue (f p) v ∧ |v| ≤ 1 := by
      intro p hp
      obtain ⟨s, hs, rfl⟩ := List.mem_map.mp hp
      exact hf.hasValue (hfinite s hs)
    obtain ⟨u, hu, -⟩ := within_total hterms
    obtain ⟨z, hz, -⟩ := hu.mul hw
    obtain ⟨c, hc, hne⟩ := exists_scale
    obtain ⟨r, hr⟩ := exists_number_mul hz hc hne
    rw [hr] at hnone
    cases hnone
  · obtain ⟨s, hs, hinfinite⟩ := h
    refine number?_mul (.inl (number?_mul (.inl (number?_total ⟨phase s, ?_, ?_⟩))))
    · exact List.mem_map_of_mem hs
    · exact isNaN_iff.mp (hf.infinite _ hinfinite)

/-! ## Rates without overflow -/

theorem within_parts {k n i : ℕ} {x : Float} (h : Within k x) (hk : k + 1 < 1024) (hn : 1 ≤ n)
    (hn' : n ≤ 2 ^ 64) (hi : i ≤ n) : Within (k + 1) (x / ofCount n * ofCount i) := by
  have hlog : n.log2 ≤ 64 := by
    rw [← Nat.lt_succ_iff]
    exact (Nat.log2_lt (by omega)).mpr (hn'.trans_lt (by norm_num))
  have hlow : ((2 ^ n.log2 : ℕ) : ℚ) ≤ n := Nat.cast_le.mpr (Nat.log2_self_le (by omega))
  have hhigh : (n : ℚ) ≤ ((2 ^ (n.log2 + 1) : ℕ) : ℚ) := Nat.cast_le.mpr Nat.lt_log2_self.le
  have hin : (i : ℚ) ≤ n := Nat.cast_le.mpr hi
  generalize n.log2 = m at *
  push_cast at hlow hhigh
  have hm : (2 : ℚ) ^ (m + 1) < 2 ^ 1024 := pow_lt_pow_right₀ one_lt_two (by omega)
  obtain ⟨c, hc, -, hround⟩ := (rounded_ofCount n).hasValue (onGrid_pow (by omega)) hm
    (by rw [Nat.abs_cast]; exact hhigh)
  obtain ⟨j, hj, hjle, -⟩ := (rounded_ofCount i).hasValue (onGrid_pow (by omega)) hm
    (by rw [Nat.abs_cast]; exact hin.trans hhigh)
  have hcle : (2 : ℚ) ^ m ≤ c := hround.ge (onGrid_pow (by omega)) hlow
  obtain ⟨v, hv, hle⟩ := h
  have hpow : (0 : ℚ) < 2 ^ m := by positivity
  have hquotient : |v / c| ≤ 2 ^ ((k : ℤ) - m) := by
    rw [abs_div, abs_of_pos (hpow.trans_le hcle), zpow_sub₀ two_ne_zero, zpow_natCast, zpow_natCast]
    gcongr
  have hgrid : (2 : ℚ) ^ ((k : ℤ) - m) < 2 ^ 1024 := by
    rw [← zpow_natCast]
    exact zpow_lt_zpow_right₀ one_lt_two (by push_cast; omega)
  obtain ⟨d, hd, hdle, -⟩ := (hv.div hc (hpow.trans_le hcle).ne').hasValue
    (onGrid_zpow (by omega) (by omega)) hgrid hquotient
  refine (hd.mul hj).within hk ?_
  calc |d * j| = |d| * |j| := abs_mul d j
    _ ≤ 2 ^ ((k : ℤ) - m) * 2 ^ (m + 1) := by gcongr
    _ = 2 ^ (k + 1) := by
      rw [zpow_sub₀ two_ne_zero, zpow_natCast, zpow_natCast]
      field_simp
      ring

theorem within_spaced {k n : ℕ} {stop s : Float} (h : Within k stop) (hk : k + 1 < 1024)
    (hn : 2 ≤ n) (hn' : n ≤ 2 ^ 64) (hs : s ∈ spaced 0.0 stop n) : Within (k + 1) s := by
  unfold spaced stride at hs
  rw [if_pos (show 1 < n by omega)] at hs
  obtain ⟨i, hi, rfl⟩ := List.mem_map.mp hs
  rw [List.mem_range] at hi
  split
  · exact h.mono (Nat.le_succ k)
  · obtain ⟨v, hv, hle⟩ := h
    have hstop : Within k (stop - 0.0) := by
      refine (hv.sub hasValue_zero).within (by omega) ?_
      rwa [sub_zero]
    obtain ⟨w, hw, hwle⟩ := within_parts hstop hk (show 1 ≤ n - 1 by omega) (by omega)
      (show i ≤ n - 1 by omega)
    refine (hasValue_zero.add hw).within hk ?_
    rwa [zero_add]

theorem within_phase {k : ℕ} {s : Float} (h : Within k s) (hk : 2 * k + 1 < 1024) :
    Within (2 * k + 1) (phase s) := by
  have hhalf : Within 1 (Scalar.pi / 2.0 : Float) := by
    refine ⟨_, hasValue_of_bits 1022 7074237752028440 (by norm_num) (by norm_num)
      (.inl (by norm_num)) (by decide +kernel), ?_⟩
    rw [abs_of_nonneg (by positivity)]
    norm_num
  exact ((hhalf.mul h (by omega)).mul h (by omega)).mono (by omega)

/-- At rates up to `2 ^ 509` every phase is finite. -/
theorem not_overflows {rate t : Float} {samples : ℕ} (hrate : Within 509 rate)
    (hsamples : 2 ≤ samples) (hsamples' : samples ≤ 2 ^ 64) (hsteps : 2 ≤ steps)
    (hsteps' : steps ≤ 2 ^ 64) (ht : t ∈ spaced 0.0 1.0 samples) :
    ¬ Overflows (rate * t) steps := by
  rintro ⟨x, hx, hinfinite⟩
  have hone : Within 0 1.0 := ⟨1, hasValue_one, by norm_num⟩
  have hparameter := within_spaced hone (by norm_num) hsamples hsamples' ht
  have hposition := within_spaced (hrate.mul hparameter (by norm_num)) (by norm_num) hsteps
    hsteps' hx
  rw [(within_phase hposition (by norm_num)).isFinite] at hinfinite
  cases hinfinite

end Fresnel

/-! ## Spirals -/

namespace Spiral

theorem forall₂_zipWith_mk {α : Type} {R S : α → Float → Prop} {l : List α} {xs ys : List Float}
    (hx : List.Forall₂ R l xs) (hy : List.Forall₂ S l ys) :
    List.Forall₂ (fun t p => R t p.x ∧ S t p.y) l (List.zipWith Point.mk xs ys) := by
  induction hx generalizing ys with
  | nil => exact .nil
  | cons hr _ ih =>
    cases hy with
    | cons hs hy => exact .cons ⟨hr, hs⟩ (ih hy)

/-- A sample of a spiral between finite anchors is no number exactly if a phase of its Fresnel
sums overflows, and then both its coordinates are. At rates up to `2 ^ 509` none does. -/
theorem isNaN_of_trace [Trig Float] {s : Spiral Float} {segment : Segment Float}
    (hcos : Circular Trig.cos) (hsin : Circular Trig.sin) (hstart : s.start.IsFinite)
    (hstop : s.stop.IsFinite) (h : s.trace = .ok segment) :
    List.Forall₂ (fun t p => (p.x.isNaN = true ↔ Fresnel.Overflows (s.rate * t) s.steps) ∧
        (p.y.isNaN = true ↔ Fresnel.Overflows (s.rate * t) s.steps))
      (spaced 0.0 1.0 s.samples) segment.points ∧
    (Within 509 s.rate → s.samples ≤ 2 ^ 64 → s.steps ≤ 2 ^ 64 →
      ∀ p ∈ segment.points, p.x.isNaN = false ∧ p.y.isNaN = false) := by
  obtain ⟨hsamples, -, -, hsteps, xs, ys, hxs, hys, hpoints⟩ := trace_eq_ok_iff.mp h
  have hx := forall₂_isNaN_of_rescale hstart.1 hstop.1 hxs
  have hy := forall₂_isNaN_of_rescale hstart.2 hstop.2 hys
  rw [raw, List.map_map, List.forall₂_map_left_iff] at hx hy
  have hsample := forall₂_zipWith_mk
    (hx.imp fun t x hiff => hiff.trans (Fresnel.isNaN_estimate_iff (t := s.rate * t) hcos hsteps))
    (hy.imp fun t y hiff => hiff.trans (Fresnel.isNaN_estimate_iff (t := s.rate * t) hsin hsteps))
  rw [hpoints] at hsample
  refine ⟨hsample, fun hrate hsamples' hsteps' p hp => ?_⟩
  obtain ⟨i, rfl⟩ := List.mem_iff_get.mp hp
  have hi : i.1 < (spaced 0.0 1.0 s.samples).length := i.2.trans_eq hsample.length_eq.symm
  obtain ⟨hpx, hpy⟩ := hsample.get hi i.2
  have hno := Fresnel.not_overflows hrate hsamples hsamples' hsteps hsteps' (List.get_mem _ ⟨i, hi⟩)
  exact ⟨Bool.eq_false_iff.mpr (mt hpx.mp hno), Bool.eq_false_iff.mpr (mt hpy.mp hno)⟩

/-- A circular function known at zero, at a quarter turn, and at one more angle. -/
def table (atZero atQuarter atOther angle : Float) : Float :=
  if angle.isFinite then
    if angle == 0.0 then atZero else if angle == Scalar.pi / 2.0 then atQuarter else atOther
  else Double.undefined

theorem circular_table {x y z : Float} (hx : -1.0 ≤ x ∧ x ≤ 1.0) (hy : -1.0 ≤ y ∧ y ≤ 1.0)
    (hz : -1.0 ≤ z ∧ z ≤ 1.0) : Circular (table x y z) := by
  refine ⟨fun angle h => ?_, fun angle h => ?_⟩
  · rw [table, if_pos h]
    split
    · exact hx
    · split
      · exact hy
      · exact hz
  · rw [table, if_neg (by rw [h]; exact Bool.false_ne_true)]
    decide +kernel

/-- The cosine and the sine at zero, at a quarter turn and at the phase of rate `0.75e154`. -/
@[reducible] def tabulated : Trig Float where
  cos := table 1.0 6.123233995736766e-17 0.935326471934645
  sin := table 0.0 1.0 0.3537857980449324
  atan2 _ _ := 0.0

theorem circular_cos_tabulated : Circular (@Trig.cos Float tabulated) :=
  circular_table (by decide +kernel) (by decide +kernel) (by decide +kernel)

theorem circular_sin_tabulated : Circular (@Trig.sin Float tabulated) :=
  circular_table (by decide +kernel) (by decide +kernel) (by decide +kernel)

theorem isNaN_of_trace_example :
    ∃ segment : Segment Float,
      @trace Float _ tabulated ⟨⟨0.0, 0.0⟩, ⟨1.0, 1.0⟩, 2, 1.0, 2⟩ = .ok segment ∧
      List.Forall₂ (fun t p => (p.x.isNaN = true ↔ Fresnel.Overflows (1.0 * t) 2) ∧
        (p.y.isNaN = true ↔ Fresnel.Overflows (1.0 * t) 2)) (spaced 0.0 1.0 2) segment.points ∧
      ∀ p ∈ segment.points, p.x.isNaN = false ∧ p.y.isNaN = false := by
  have htrace : @trace Float _ tabulated ⟨⟨0.0, 0.0⟩, ⟨1.0, 1.0⟩, 2, 1.0, 2⟩ =
      .ok ⟨[⟨0.0, 0.0⟩, ⟨1.0, 1.0⟩], List.cons_ne_nil _ _⟩ := by
    decide +kernel
  have hstart : Point.IsFinite ⟨0.0, 0.0⟩ := by decide +kernel
  have hstop : Point.IsFinite ⟨1.0, 1.0⟩ := by decide +kernel
  have hrate : Within 509 1.0 := ⟨1, hasValue_one, by norm_num [one_le_pow₀]⟩
  obtain ⟨hsample, hall⟩ := @isNaN_of_trace tabulated ⟨⟨0.0, 0.0⟩, ⟨1.0, 1.0⟩, 2, 1.0, 2⟩ _
    circular_cos_tabulated circular_sin_tabulated hstart hstop htrace
  exact ⟨_, htrace, hsample, hall hrate (by norm_num) (by norm_num)⟩

/-- A spiral of finite anchors and rate whose last sample is no number. -/
theorem exists_trace_undefined_example :
    Circular (@Trig.cos Float tabulated) ∧ Circular (@Trig.sin Float tabulated) ∧
      Float.isFinite 1.5e154 = true ∧
      ∃ segment : Segment Float,
        @trace Float _ tabulated ⟨⟨0.0, 0.0⟩, ⟨1.0, 1.0⟩, 3, 1.5e154, 2⟩ = .ok segment ∧
        segment.last.x.isNaN = true ∧ segment.last.y.isNaN = true := by
  refine ⟨circular_cos_tabulated, circular_sin_tabulated, by decide +kernel,
    ⟨[⟨0.0, 0.0⟩, ⟨1.0, 1.0⟩, ⟨Double.undefined, Double.undefined⟩], List.cons_ne_nil _ _⟩, ?_⟩
  decide +kernel

end Spiral

end PathCurves
