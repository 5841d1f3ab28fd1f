/-
The bits of a double and its parts. A positive double with mantissa `m` and exponent `e` has
the bits `(e + 1074) * 2 ^ 52 + m`. Main statements: `pack_unpack` and `unpack_pack`, a double
and its parts determine each other, and `neg_pack`, whatever is packed, its sign is only put in
front.
-/
import Mathlib

namespace PathCurves.Double

open Float.Model Float.Model.UnpackedFloat

/-- The bits of a double, as a whole number. -/
def bits (x : Float) : ℕ := x.toBits.toNat

theorem eq_of_bits {x y : Float} (h : bits x = bits y) : x = y := by
  obtain ⟨⟨a, ha⟩⟩ := x
  obtain ⟨⟨b, hb⟩⟩ := y
  have hab : a = b := UInt64.toNat_inj.mp h
  subst hab
  rfl

/-! ## The fields of the bits -/

/-- The bit of a sign, in its place. -/
def signBit : Sign → ℕ
  | .positive => 0
  | .negative => 2 ^ 63

theorem toNat_packComponents (s : Sign) (e : BitVec 11) (m : BitVec 52) :
    (packComponents Format.binary64 s e m).toNat = signBit s + e.toNat * 2 ^ 52 + m.toNat := by
  have hm := m.isLt
  have he := e.isLt
  simp only [packComponents, BitVec.toNat_append]
  rw [← Nat.shiftLeft_add_eq_or_of_lt he, ← Nat.shiftLeft_add_eq_or_of_lt hm]
  simp only [Nat.shiftLeft_eq]
  cases s
  · simp only [Sign.toBitVec, signBit, BitVec.toNat_ofNat]
    omega
  · simp only [Sign.toBitVec, signBit, BitVec.toNat_ofNat]
    omega

theorem toNat_unpackMantissa (b : BitVec 64) :
    (@unpackMantissa Format.binary64 b).toNat = b.toNat % 2 ^ 52 := by
  simp [unpackMantissa]

theorem toNat_unpackExponent (b : BitVec 64) :
    (@unpackExponent Format.binary64 b).toNat = b.toNat / 2 ^ 52 % 2 ^ 11 := by
  simp [unpackExponent, Nat.shiftRight_eq_div_pow]

theorem toNat_unpackSign (b : BitVec 64) :
    (@unpackSign Format.binary64 b).toNat = b.toNat / 2 ^ 63 := by
  have := b.isLt
  simp [unpackSign, Nat.shiftRight_eq_div_pow]
  omega

/-! ## A double by its parts -/

/-- A mantissa and an exponent as a double has them: the mantissa has all 53 digits unless the
exponent is the least one. -/
structure Canonical (m : ℕ) (e : ℤ) : Prop where
  pos : 0 < m
  lt : m < 2 ^ 53
  least : -1074 ≤ e
  greatest : e ≤ 971
  full : 2 ^ 52 ≤ m ∨ e = -1074

/-- Parts as a double has them: the mantissa and the exponent of a number are canonical. -/
def CanonicalParts : Float.Model.UnpackedFloat → Prop
  | .finite _ m e _ => Canonical m e
  | _ => True

/-- The bits of infinity. -/
def top : ℕ := 2047 * 2 ^ 52

/-- The bits of a double with the given parts. -/
def encode : Float.Model.UnpackedFloat → ℕ
  | .notANumber => 0x7FF8000000000000
  | .infinity s => signBit s + top
  | .zero s => signBit s
  | .finite s m e _ => signBit s + ((e + 1074).toNat * 2 ^ 52 + m)

theorem bits_pack (f : Float.Model.UnpackedFloat) (hf : CanonicalParts f) :
    bits (.ofModel (.pack f)) = encode f := by
  show (Float.Model.UnpackedFloat.pack Format.binary64 f).toNat = encode f
  match f, hf with
  | .notANumber, _ => decide
  | .infinity s, _ => cases s <;> decide
  | .zero s, _ => cases s <;> decide
  | .finite s m e hm, hf =>
    obtain ⟨-, hlt, hleast, hgreatest, hfull⟩ := hf
    have hexp : (e + (Format.binary64.exponentBias : ℤ) + (52 : ℕ)).toNat =
        (e + 1075).toNat := by
      show (e + 1023 + 52).toNat = _
      omega
    have hin : ¬ 2 ^ 11 ≤ (e + 1075).toNat + 1 := by omega
    simp only [Float.Model.UnpackedFloat.pack, hexp, hin, if_false]
    by_cases hm52 : 2 ^ 52 ≤ m
    · have hlog : m.log2 + 1 = Format.binary64.mantissaBits := by
        rw [(Nat.log2_eq_iff hm.ne').mpr ⟨hm52, hlt⟩]
        rfl
      rw [if_pos hlog, toNat_packComponents, BitVec.toNat_ofNat, BitVec.toNat_ofNat, encode]
      omega
    · have hlog : m.log2 + 1 ≠ Format.binary64.mantissaBits := by
        have h52 : m.log2 < 52 := (Nat.log2_lt hm.ne').mpr (not_le.mp hm52)
        have hbits : Format.binary64.mantissaBits = 53 := rfl
        rw [hbits]
        omega
      rw [if_neg hlog, toNat_packComponents, BitVec.toNat_ofNat, BitVec.toNat_ofNat, encode]
      omega

theorem signBit_ofBitVec (b : BitVec 1) : signBit (Sign.ofBitVec b) = b.toNat * 2 ^ 63 := by
  have hlt := b.isLt
  unfold Sign.ofBitVec
  split
  · next h =>
    subst h
    rfl
  · next h =>
    have hne : b.toNat ≠ 0 := fun h' => h (BitVec.eq_of_toNat_eq h')
    simp only [signBit]
    omega

theorem toNat_one_append (m : BitVec 52) : (1#1 ++ m).toNat = 2 ^ 52 + m.toNat := by
  rw [BitVec.toNat_append, ← Nat.shiftLeft_add_eq_or_of_lt m.isLt]
  rfl

/-- The parts of a double are canonical and make up its bits. -/
theorem unpack_spec (x : Float) :
    CanonicalParts x.toModel.unpack ∧ encode x.toModel.unpack = bits x := by
  obtain ⟨⟨word, valid⟩⟩ := x
  show CanonicalParts (unpack Format.binary64 word.toBitVec) ∧
    encode (unpack Format.binary64 word.toBitVec) = word.toBitVec.toNat
  generalize word.toBitVec = b at valid
  have hm := toNat_unpackMantissa b
  have he := toNat_unpackExponent b
  have hs := signBit_ofBitVec (@unpackSign Format.binary64 b)
  rw [toNat_unpackSign] at hs
  have hb := b.isLt
  have hbias : ((Format.binary64.exponentBias : ℕ) : ℤ) = 1023 := rfl
  unfold Float.Model.UnpackedFloat.unpack
  dsimp only
  split
  · next hexp =>
    have he1 : b.toNat / 2 ^ 52 % 2 ^ 11 = 2047 := by rw [← he, hexp]; rfl
    split
    · next hman =>
      have hm0 : b.toNat % 2 ^ 52 = 0 := by rw [← hm, hman]; rfl
      refine ⟨trivial, ?_⟩
      simp only [encode, hs, top]
      omega
    · next hman =>
      rw [valid.eq_packedNaN hexp hman]
      exact ⟨trivial, by decide⟩
  · next hexp =>
    have hexp' : b.toNat / 2 ^ 52 % 2 ^ 11 ≠ 2047 := by
      rw [← he]
      exact fun h => hexp (BitVec.eq_of_toNat_eq h)
    split
    · next hexp0 =>
      have he0 : b.toNat / 2 ^ 52 % 2 ^ 11 = 0 := by rw [← he, hexp0]; rfl
      split
      · next hman =>
        have hm0 : b.toNat % 2 ^ 52 = 0 := by rw [← hm, hman]; rfl
        refine ⟨trivial, ?_⟩
        simp only [encode, hs]
        omega
      · next hman =>
        have hman' : b.toNat % 2 ^ 52 ≠ 0 := by
          rw [← hm]
          exact fun h => hman (BitVec.eq_of_toNat_eq h)
        simp only [CanonicalParts, encode]
        have hleast : ((0 : ℕ) : ℤ) - (1023 + (52 : ℕ)) + 1 = -1074 := by norm_num
        have hzero : ((-1074 : ℤ) + 1074).toNat = 0 := rfl
        rw [hs, hm, he, he0, hbias, hleast, hzero]
        exact ⟨⟨by omega, by omega, by omega, by omega, by omega⟩, by omega⟩
    · next hexp0 =>
      have hexp0' : b.toNat / 2 ^ 52 % 2 ^ 11 ≠ 0 := by
        rw [← he]
        exact fun h => hexp0 (BitVec.eq_of_toNat_eq h)
      simp only [CanonicalParts, encode]
      rw [hs, toNat_one_append, hm, he, hbias]
      exact ⟨⟨by omega, by omega, by omega, by omega, by omega⟩, by omega⟩

theorem signBit_cases (s : Sign) :
    s = .positive ∧ signBit s = 0 ∨ s = .negative ∧ signBit s = 2 ^ 63 := by
  cases s
  · exact .inr ⟨rfl, rfl⟩
  · exact .inl ⟨rfl, rfl⟩

theorem finite_inj {s t : Sign} {m n : ℕ} {e d : ℤ} {hm : 0 < m} {hn : 0 < n}
    (he : Canonical m e) (hd : Canonical n d)
    (h : encode (.finite s m e hm) = encode (.finite t n d hn)) :
    Float.Model.UnpackedFloat.finite s m e hm = .finite t n d hn := by
  obtain ⟨-, hm53, hle, heu, hef⟩ := he
  obtain ⟨-, hn53, hld, hdu, hdf⟩ := hd
  simp only [encode] at h
  obtain ⟨hst, hmn, hed⟩ : s = t ∧ m = n ∧ e = d := by
    rcases signBit_cases s with ⟨rfl, hs⟩ | ⟨rfl, hs⟩ <;>
      rcases signBit_cases t with ⟨rfl, ht⟩ | ⟨rfl, ht⟩
    · exact ⟨rfl, by omega, by omega⟩
    · omega
    · omega
    · exact ⟨rfl, by omega, by omega⟩
  subst hst hmn hed
  rfl

/-- The bits of a number other than zero are those of nothing else. -/
theorem encode_finite_ne {s : Sign} {m : ℕ} {e : ℤ} {hm : 0 < m} (he : Canonical m e)
    {g : Float.Model.UnpackedFloat} (hg : ∀ t n d hn, g ≠ .finite t n d hn) :
    encode (.finite s m e hm) ≠ encode g := by
  obtain ⟨-, hm53, hle, heu, -⟩ := he
  have hbody : (e + 1074).toNat * 2 ^ 52 + m < 2047 * 2 ^ 52 := by omega
  have hsign := signBit_cases s
  match g with
  | .notANumber =>
    simp only [encode]
    omega
  | .infinity t =>
    have := signBit_cases t
    simp only [encode, top]
    omega
  | .zero t =>
    have := signBit_cases t
    simp only [encode]
    omega
  | .finite t n d hn => exact absurd rfl (hg t n d hn)

theorem encode_inj {f g : Float.Model.UnpackedFloat} (hf : CanonicalParts f)
    (hg : CanonicalParts g) (h : encode f = encode g) : f = g := by
  match f, g, hf, hg with
  | .finite _ _ _ _, .finite _ _ _ _, he, hd => exact finite_inj he hd h
  | .finite _ _ _ _, .notANumber, he, _
  | .finite _ _ _ _, .infinity _, he, _
  | .finite _ _ _ _, .zero _, he, _ => exact absurd h (encode_finite_ne he (by simp))
  | .notANumber, .finite _ _ _ _, _, hd
  | .infinity _, .finite _ _ _ _, _, hd
  | .zero _, .finite _ _ _ _, _, hd => exact absurd h.symm (encode_finite_ne hd (by simp))
  | .notANumber, .notANumber, _, _ => rfl
  | .infinity s, .infinity t, _, _ => cases s <;> cases t <;> first | rfl | cases h
  | .zero s, .zero t, _, _ => cases s <;> cases t <;> first | rfl | cases h
  | .notANumber, .infinity s, _, _ => cases s <;> cases h
  | .infinity s, .notANumber, _, _ => cases s <;> cases h
  | .notANumber, .zero s, _, _ => cases s <;> cases h
  | .zero s, .notANumber, _, _ => cases s <;> cases h
  | .infinity s, .zero t, _, _ => cases s <;> cases t <;> cases h
  | .zero s, .infinity t, _, _ => cases s <;> cases t <;> cases h

theorem bits_eq_encode (x : Float) : bits x = encode x.toModel.unpack := (unpack_spec x).2.symm

/-- The parts of a double determine it. -/
theorem pack_unpack (x : Float) : .ofModel (.pack x.toModel.unpack) = x :=
  eq_of_bits ((bits_pack _ (unpack_spec x).1).trans (unpack_spec x).2)

theorem unpack_pack {f : Float.Model.UnpackedFloat} (hf : CanonicalParts f) :
    (Float.Model.pack f).unpack = f := by
  have h := unpack_spec (.ofModel (.pack f))
  exact encode_inj h.1 hf (h.2.trans (bits_pack f hf))

theorem unpack_zero : (0.0 : Float).toModel.unpack = .zero .positive := by
  have hbits : bits 0.0 = encode (.zero .positive) := by decide +kernel
  exact encode_inj (unpack_spec 0.0).1 trivial ((bits_eq_encode 0.0).symm.trans hbits)

/-! ## Signs -/

theorem CanonicalParts.abs {f : Float.Model.UnpackedFloat} (h : CanonicalParts f) :
    CanonicalParts f.abs := by
  cases f with
  | finite => exact h
  | _ => trivial

theorem CanonicalParts.neg {f : Float.Model.UnpackedFloat} (h : CanonicalParts f) :
    CanonicalParts f.neg := by
  cases f with
  | finite => exact h
  | _ => trivial

theorem unpack_abs (x : Float) : x.abs.toModel.unpack = x.toModel.unpack.abs :=
  unpack_pack (unpack_spec x).1.abs

theorem unpack_neg (x : Float) : (-x).toModel.unpack = x.toModel.unpack.neg :=
  unpack_pack (unpack_spec x).1.neg

protected theorem neg_neg (x : Float) : - -x = x := by
  have hsign (s : Sign) : - -s = s := by cases s <;> rfl
  have hparts : x.toModel.unpack.neg.neg = x.toModel.unpack := by
    cases x.toModel.unpack <;> simp only [UnpackedFloat.neg, hsign]
  have h : - -x = .ofModel (.pack (-x).toModel.unpack.neg) := rfl
  rw [h, unpack_neg, hparts, pack_unpack]

theorem signBit_neg (s : Sign) : signBit (-s) = 2 ^ 63 - signBit s := by
  cases s <;> rfl

theorem bits_neg {x : Float} {s : Sign} {n : ℕ} (hn : n ≤ top) (h : bits x = signBit s + n) :
    bits (-x) = signBit (-s) + n := by
  have hcanonical := (unpack_spec x).1
  rw [bits_eq_encode] at h ⊢
  rw [unpack_neg]
  generalize x.toModel.unpack = f at hcanonical h
  have hs := signBit_cases s
  simp only [top] at hn
  cases f with
  | notANumber =>
    simp only [encode] at h
    omega
  | infinity t | zero t =>
    have ht := signBit_cases t
    simp only [encode, UnpackedFloat.neg, signBit_neg, top] at h ⊢
    omega
  | finite t m e hm =>
    obtain ⟨-, hlt, -, hgreatest, -⟩ := hcanonical
    have ht := signBit_cases t
    simp only [encode, UnpackedFloat.neg, signBit_neg] at h ⊢
    omega

/-- Packing puts the sign in its place, and the rest without regard to it. -/
theorem exists_bits_pack_finite {m : ℕ} (hm : 0 < m) (e : ℤ) : ∃ n ≤ top, ∀ s,
    bits (.ofModel (.pack (.finite s m e hm))) = signBit s + n := by
  show ∃ n ≤ top, ∀ s, (UnpackedFloat.pack Format.binary64 (.finite s m e hm)).toNat = signBit s + n
  simp only [UnpackedFloat.pack, packedInfinity]
  split
  · exact ⟨_, by decide, fun s => (toNat_packComponents s _ _).trans (add_assoc _ _ _)⟩
  · split
    · refine ⟨_, ?_, fun s => (toNat_packComponents s _ _).trans (add_assoc _ _ _)⟩
      rw [BitVec.toNat_ofNat, BitVec.toNat_ofNat, top]
      omega
    · refine ⟨_, ?_, fun s => (toNat_packComponents s _ _).trans (add_assoc _ _ _)⟩
      rw [BitVec.toNat_ofNat, BitVec.toNat_ofNat, top]
      omega

/-- The opposite of packed parts is that of their opposites, also of parts that no double has. -/
theorem neg_pack (f : Float.Model.UnpackedFloat) :
    -Float.ofModel (.pack f) = .ofModel (.pack f.neg) := by
  have hcanonical (hf : CanonicalParts f) :
      -Float.ofModel (.pack f) = .ofModel (.pack f.neg) := by
    show Float.ofModel (.pack (Float.Model.pack f).unpack.neg) = _
    rw [unpack_pack hf]
  cases f with
  | finite s m e hm =>
    obtain ⟨n, hn, h⟩ := exists_bits_pack_finite hm e
    exact eq_of_bits ((bits_neg hn (h s)).trans (h (-s)).symm)
  | _ => exact hcanonical trivial

end PathCurves.Double
