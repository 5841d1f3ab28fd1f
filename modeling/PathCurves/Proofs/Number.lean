/-
The number that a double stands for, with its sign. The two infinities count as `2 ^ 1024` and its
negative, the powers of two next to the greatest and the least double, so that the order of the
doubles is that of their numbers: `lt_iff`, `le_iff`, `beq_iff`. Only what is no number stands for
none (`isNaN_iff`), and a double is finite when its number is inside the infinite ones
(`isFinite_iff`). The bits say where on the grid a number is (`number?_of_bits`), so two different
doubles that stand for one number are the two zeros (`eq_of_number?`).
-/
import PathCurves.Proofs.Nearest
import PathCurves.Scalar.Double

namespace PathCurves.Double

open Float.Model Float.Model.UnpackedFloat

/-- A number with a sign. -/
def signed (s : Sign) (q : ℚ) : ℚ :=
  match s with
  | .positive => q
  | .negative => -q

/-- The number of the parts of a double. -/
def value? : Float.Model.UnpackedFloat → Option ℚ
  | .notANumber => none
  | .infinity s => some (signed s (2 ^ 1024))
  | .zero _ => some 0
  | .finite s m e _ => some (signed s (m * 2 ^ e))

/-- The number that a double stands for. -/
def number? (x : Float) : Option ℚ := value? x.toModel.unpack

theorem abs_signed (s : Sign) (q : ℚ) : |signed s q| = |q| := by
  cases s with
  | positive => rfl
  | negative => exact abs_neg q

theorem signed_neg (s : Sign) (q : ℚ) : signed (-s) q = -signed s q := by
  cases s with
  | positive => rfl
  | negative => exact (neg_neg q).symm

/-! ## The parts of numbers -/

section

variable {m n : ℕ} {e d : ℤ}

theorem value_pos (hm : 0 < m) : (0 : ℚ) < m * 2 ^ e := by
  have hm' : (0 : ℚ) < m := by exact_mod_cast hm
  positivity

theorem value_lt_top (h : Canonical m e) : (m : ℚ) * 2 ^ e < 2 ^ 1024 := by
  have hlt := h.lt
  have hgreatest := h.greatest
  rw [← gridValue_encode h, ← gridValue_top]
  apply gridValue_strictMono
  simp only [top]
  omega

/-- Canonical parts are in the order of their exponents, and among equal exponents in that of
their mantissas. -/
theorem cmp_value (h : Canonical m e) (h' : Canonical n d) :
    (compare e d).then (compare m n) = cmp ((m : ℚ) * 2 ^ e) (n * 2 ^ d) := by
  have hm := h.lt
  have hn := h'.lt
  have he := h.full
  have hd := h'.full
  have hle := h.least
  have hld := h'.least
  rw [← gridValue_encode h, ← gridValue_encode h', gridValue_strictMono.cmp_map_eq]
  rcases lt_trichotomy e d with hlt | rfl | hlt
  · rw [Int.compare_eq_lt.mpr hlt]
    exact ((cmp_eq_lt_iff _ _).mpr (by omega)).symm
  · rw [Int.compare_eq_eq.mpr rfl]
    rcases lt_trichotomy m n with hlt | rfl | hlt
    · rw [Nat.compare_eq_lt.mpr hlt]
      exact ((cmp_eq_lt_iff _ _).mpr (by omega)).symm
    · rw [Nat.compare_eq_eq.mpr rfl]
      exact (cmp_self_eq_eq _).symm
    · rw [Nat.compare_eq_gt.mpr hlt]
      exact ((cmp_eq_gt_iff _ _).mpr (by omega)).symm
  · rw [Int.compare_eq_gt.mpr hlt]
    exact ((cmp_eq_gt_iff _ _).mpr (by omega)).symm

end

/-- The doubles are compared as their numbers are. -/
theorem compare_eq {f g : Float.Model.UnpackedFloat} (hf : CanonicalParts f)
    (hg : CanonicalParts g) :
    f.compare g = (value? f).bind fun v => (value? g).map fun w => cmp v w := by
  have htop : (0 : ℚ) < 2 ^ 1024 := by positivity
  have lt {v w : ℚ} (h : v < w) : some .lt = some (cmp v w) :=
    congrArg some ((cmp_eq_lt_iff v w).mpr h).symm
  have gt {v w : ℚ} (h : w < v) : some .gt = some (cmp v w) :=
    congrArg some ((cmp_eq_gt_iff v w).mpr h).symm
  have eq (v : ℚ) : some .eq = some (cmp v v) := congrArg some (cmp_self_eq_eq v).symm
  match f, g, hf, hg with
  | .notANumber, _, _, _ => rfl
  | .infinity s, .notANumber, _, _ => cases s <;> rfl
  | .zero _, .notANumber, _, _ => rfl
  | .finite s _ _ _, .notANumber, _, _ => cases s <;> rfl
  | .infinity .positive, .infinity .positive, _, _ => exact eq _
  | .infinity .negative, .infinity .negative, _, _ => exact eq _
  | .infinity .positive, .infinity .negative, _, _ => exact gt (neg_lt_self htop)
  | .infinity .negative, .infinity .positive, _, _ => exact lt (neg_lt_self htop)
  | .infinity .positive, .zero _, _, _ => exact gt htop
  | .infinity .negative, .zero _, _, _ => exact lt (neg_lt_zero.mpr htop)
  | .zero _, .infinity .positive, _, _ => exact lt htop
  | .zero _, .infinity .negative, _, _ => exact gt (neg_lt_zero.mpr htop)
  | .zero _, .zero _, _, _ => exact eq 0
  | .infinity .positive, .finite .positive m e hm, _, h => exact gt (value_lt_top h)
  | .infinity .positive, .finite .negative m e hm, _, h =>
    exact gt ((neg_lt_zero.mpr (value_pos hm)).trans htop)
  | .infinity .negative, .finite .positive m e hm, _, h =>
    exact lt ((neg_lt_zero.mpr htop).trans (value_pos hm))
  | .infinity .negative, .finite .negative m e hm, _, h => exact lt (neg_lt_neg (value_lt_top h))
  | .finite .positive m e hm, .infinity .positive, h, _ => exact lt (value_lt_top h)
  | .finite .negative m e hm, .infinity .positive, h, _ =>
    exact lt ((neg_lt_zero.mpr (value_pos hm)).trans htop)
  | .finite .positive m e hm, .infinity .negative, h, _ =>
    exact gt ((neg_lt_zero.mpr htop).trans (value_pos hm))
  | .finite .negative m e hm, .infinity .negative, h, _ => exact gt (neg_lt_neg (value_lt_top h))
  | .zero _, .finite .positive m e hm, _, _ => exact lt (value_pos hm)
  | .zero _, .finite .negative m e hm, _, _ => exact gt (neg_lt_zero.mpr (value_pos hm))
  | .finite .positive m e hm, .zero _, _, _ => exact gt (value_pos hm)
  | .finite .negative m e hm, .zero _, _, _ => exact lt (neg_lt_zero.mpr (value_pos hm))
  | .finite .positive m e hm, .finite .negative n d hn, _, _ =>
    exact gt ((neg_lt_zero.mpr (value_pos hn)).trans (value_pos hm))
  | .finite .negative m e hm, .finite .positive n d hn, _, _ =>
    exact lt ((neg_lt_zero.mpr (value_pos hm)).trans (value_pos hn))
  | .finite .positive m e hm, .finite .positive n d hn, h, h' =>
    exact congrArg some (cmp_value h h')
  | .finite .negative m e hm, .finite .negative n d hn, h, h' =>
    refine congrArg some ?_
    rw [cmp_value h h', cmp_swap]
    exact (StrictAnti.cmp_map_eq (fun _ _ => neg_lt_neg) _ _).symm

/-! ## The order of doubles -/

variable {x y : Float} {v w : ℚ}

theorem lt_iff : x < y ↔ ∃ v w, number? x = some v ∧ number? y = some w ∧ v < w := by
  have hcompare := compare_eq (unpack_spec x).1 (unpack_spec y).1
  show decide (x.toModel.unpack.lt y.toModel.unpack = true) = true ↔ _
  rw [decide_eq_true_iff, UnpackedFloat.lt, hcompare, ← number?, ← number?]
  cases number? x with
  | none => simp
  | some v =>
    cases number? y with
    | none => simp
    | some w => simp [cmp_eq_lt_iff]

theorem le_iff : x ≤ y ↔ ∃ v w, number? x = some v ∧ number? y = some w ∧ v ≤ w := by
  have hcompare := compare_eq (unpack_spec x).1 (unpack_spec y).1
  show decide (x.toModel.unpack.le y.toModel.unpack = true) = true ↔ _
  rw [decide_eq_true_iff, UnpackedFloat.le, hcompare, ← number?, ← number?]
  cases number? x with
  | none => simp
  | some v =>
    cases number? y with
    | none => simp
    | some w =>
      have hle : (cmp v w).isLE = true ↔ v ≤ w := by
        rw [Ordering.isLE_iff_ne_gt, cmp_eq_gt_iff, not_lt]
      simp [hle]

theorem beq_iff : (x == y) = true ↔ ∃ v, number? x = some v ∧ number? y = some v := by
  have hcompare := compare_eq (unpack_spec x).1 (unpack_spec y).1
  show x.toModel.unpack.beq y.toModel.unpack = true ↔ _
  rw [UnpackedFloat.beq, hcompare, ← number?, ← number?]
  cases number? x with
  | none => simp
  | some v =>
    cases number? y with
    | none => simp
    | some w =>
      show (some (cmp v w) == some .eq) = true ↔ _
      rw [beq_iff_eq, Option.some.injEq, cmp_eq_eq_iff]
      simp [eq_comm]

theorem lt_iff_of_some (hx : number? x = some v) (hy : number? y = some w) : x < y ↔ v < w := by
  simp [lt_iff, hx, hy]

theorem le_iff_of_some (hx : number? x = some v) (hy : number? y = some w) : x ≤ y ↔ v ≤ w := by
  simp [le_iff, hx, hy]

/-! ## What stands for a number -/

theorem isNaN_iff : x.isNaN = true ↔ number? x = none := by
  show x.toModel.unpack.isNaN = true ↔ value? x.toModel.unpack = none
  cases x.toModel.unpack <;> simp [UnpackedFloat.isNaN, value?]

theorem isNaN_eq_false_iff : x.isNaN = false ↔ ∃ v, number? x = some v := by
  rw [Bool.eq_false_iff, ne_eq, isNaN_iff, ← ne_eq, Option.ne_none_iff_exists']

/-- The double is finite and stands for the number. -/
def HasValue (x : Float) (v : ℚ) : Prop := number? x = some v ∧ |v| < 2 ^ 1024

/-- A finite double is a zero, or has a canonical mantissa and exponent. -/
theorem HasValue.parts (h : HasValue x v) :
    (∃ s, x.toModel.unpack = .zero s ∧ v = 0) ∨
    (∃ s m e hm, x.toModel.unpack = .finite s m e hm ∧ Canonical m e ∧
      v = signed s (m * 2 ^ e)) := by
  obtain ⟨hx, hv⟩ := h
  have hcanonical := (unpack_spec x).1
  rw [number?] at hx
  generalize x.toModel.unpack = f at hcanonical hx
  cases f with
  | notANumber => cases hx
  | infinity s =>
    cases hx
    rw [abs_signed, abs_of_pos (by positivity)] at hv
    exact absurd hv (lt_irrefl _)
  | zero s =>
    cases hx
    exact .inl ⟨s, rfl, rfl⟩
  | finite s m e hm =>
    cases hx
    exact .inr ⟨s, m, e, hm, rfl, hcanonical, rfl⟩

theorem isFinite_iff : x.isFinite = true ↔ ∃ v, HasValue x v := by
  refine ⟨?_, ?_⟩
  · intro h
    have hcanonical := (unpack_spec x).1
    unfold HasValue
    rw [number?]
    change x.toModel.unpack.isFinite = true at h
    generalize x.toModel.unpack = f at hcanonical h
    cases f with
    | notANumber => cases h
    | infinity s => cases h
    | zero s => exact ⟨0, rfl, by rw [abs_zero]; positivity⟩
    | finite s m e hm =>
      refine ⟨_, rfl, ?_⟩
      rw [abs_signed, abs_of_pos (value_pos hm)]
      exact value_lt_top hcanonical
  · rintro ⟨v, h⟩
    show x.toModel.unpack.isFinite = true
    obtain ⟨s, hs, -⟩ | ⟨s, m, e, hm, hs, -, -⟩ := h.parts
    · rw [hs]
      rfl
    · rw [hs]
      rfl

theorem HasValue.isFinite (h : HasValue x v) : x.isFinite = true := isFinite_iff.mpr ⟨v, h⟩

theorem isFinite_eq_false_iff : x.isFinite = false ↔
    x.toModel.unpack = .notANumber ∨ ∃ s, x.toModel.unpack = .infinity s := by
  show x.toModel.unpack.isFinite = false ↔ _
  cases x.toModel.unpack <;> simp [UnpackedFloat.isFinite]

theorem isFinite_neg (x : Float) : (-x).isFinite = x.isFinite := by
  show (-x).toModel.unpack.isFinite = x.toModel.unpack.isFinite
  rw [unpack_neg]
  cases x.toModel.unpack <;> rfl

theorem number?_neg (x : Float) : number? (-x) = (number? x).map fun v => -v := by
  rw [number?, number?, unpack_neg]
  cases x.toModel.unpack with
  | notANumber => rfl
  | zero => exact congrArg some neg_zero.symm
  | infinity s => exact congrArg some (signed_neg s _)
  | finite s m e hm => exact congrArg some (signed_neg s _)

/-- The absolute value of a double clears its sign, also that of zero. -/
theorem abs_eq (x : Float) : Scalar.abs x = x.abs := by
  have hlt : x < 0.0 ↔ x.toModel.unpack.lt (.zero .positive) = true := by
    rw [← unpack_zero]
    exact decide_eq_true_iff
  have hbeq : (x == 0.0) = x.toModel.unpack.beq (.zero .positive) := by
    rw [← unpack_zero]
    rfl
  have hneg : -x = .ofModel (.pack x.toModel.unpack.neg) := rfl
  have hzero : .ofModel (.pack (.zero .positive)) = (0.0 : Float) := by
    rw [← unpack_zero, pack_unpack]
  have hx := pack_unpack x
  show _ = Float.ofModel (.pack x.toModel.unpack.abs)
  simp only [Scalar.abs, hlt, hbeq, hneg]
  generalize x.toModel.unpack = f at hx
  subst hx
  cases f with
  | notANumber => rfl
  | zero s => cases s <;> exact hzero.symm
  | infinity s => cases s <;> rfl
  | finite s m e hm => cases s <;> rfl

theorem number?_abs (hx : number? x = some v) : number? (Scalar.abs x) = some |v| := by
  rw [abs_eq, number?, unpack_abs]
  rw [number?] at hx
  generalize x.toModel.unpack = f at hx
  cases f with
  | notANumber => cases hx
  | zero s =>
    cases hx
    exact congrArg some abs_zero.symm
  | infinity s =>
    cases hx
    rw [abs_signed, abs_of_pos (by positivity)]
    rfl
  | finite s m e hm =>
    cases hx
    rw [abs_signed, abs_of_pos (value_pos hm)]
    rfl

/-! ## Numbers and bits -/

/-- A number on the grid of the doubles, or its negative. -/
def OnGrid (v : ℚ) : Prop := ∃ s n, n ≤ top ∧ v = signed s (gridValue n)

theorem onGrid_of_number? (hx : number? x = some v) : OnGrid v := by
  have hcanonical := (unpack_spec x).1
  rw [number?] at hx
  generalize x.toModel.unpack = f at hcanonical hx
  cases f with
  | notANumber => cases hx
  | infinity s =>
    cases hx
    exact ⟨s, top, le_rfl, by rw [gridValue_top]⟩
  | zero s =>
    cases hx
    exact ⟨.positive, 0, Nat.zero_le _, gridValue_zero.symm⟩
  | finite s m e hm =>
    cases hx
    have hlt := (show Canonical m e from hcanonical).lt
    have hgreatest := (show Canonical m e from hcanonical).greatest
    refine ⟨s, _, ?_, by rw [gridValue_encode hcanonical]⟩
    simp only [top]
    omega

theorem number?_of_magnitude? (hx : magnitude? x = some v) : number? x = some v := by
  rw [magnitude?] at hx
  rw [number?]
  generalize x.toModel.unpack = f at hx
  cases f with
  | notANumber => cases hx
  | zero s | infinity s | finite s =>
    cases s with
    | positive => exact hx
    | negative => cases hx

/-- The bits up to those of infinity are the place of the number on the grid. -/
theorem number?_of_bits (h : bits x ≤ top) : number? x = some (gridValue (bits x)) :=
  number?_of_magnitude? (magnitude?_eq_some_iff.mpr ⟨h, rfl⟩)

theorem magnitude?_of_pos (hx : number? x = some v) (hv : 0 < v) : magnitude? x = some v := by
  have negative {q : ℚ} (hq : 0 < q) (h : some (signed .negative q) = some v) : False := by
    obtain rfl := Option.some.inj h
    exact (neg_neg_of_pos hq).not_gt hv
  rw [number?] at hx
  rw [magnitude?]
  generalize x.toModel.unpack = f at hx
  cases f with
  | notANumber => cases hx
  | zero s =>
    cases hx
    exact absurd hv (lt_irrefl 0)
  | infinity s =>
    cases s with
    | positive => exact hx
    | negative => exact (negative (by positivity) hx).elim
  | finite s m e hm =>
    cases s with
    | positive => exact hx
    | negative => exact (negative (value_pos hm) hx).elim

theorem eq_of_number? (hx : number? x = some v) (hy : number? y = some v) (hv : v ≠ 0) :
    x = y := by
  wlog hpos : 0 < v generalizing x y v
  · have hneg : 0 < -v := neg_pos.mpr ((not_lt.mp hpos).lt_of_ne hv)
    have hopposite : -x = -y :=
      this (by rw [number?_neg, hx, Option.map_some]) (by rw [number?_neg, hy, Option.map_some])
        hneg.ne' hneg
    rw [← Double.neg_neg x, hopposite, Double.neg_neg]
  obtain ⟨-, hbits⟩ := magnitude?_eq_some_iff.mp (magnitude?_of_pos hx hpos)
  obtain ⟨-, hbits'⟩ := magnitude?_eq_some_iff.mp (magnitude?_of_pos hy hpos)
  exact eq_of_bits (gridValue_strictMono.injective (hbits.trans hbits'.symm))

end PathCurves.Double
