import ConstraintHandling.Binary64
import Mathlib

/-! Equality of floating-point numbers. The operations of machine floats go through the parts of a
number, and the parts determine the bits; so equality of values is equality of bits, the NaNs and the
two zeros apart. -/
namespace ConstraintHandling
open Float.Model Float.Model.UnpackedFloat

namespace Binary64

/-- The bits of a number, seen as the three fields of the format. -/
abbrev Word := BitVec Format.binary64.numBits

lemma toBitVec_ofBitVec (b : BitVec 1) : (Sign.ofBitVec b).toBitVec = b := by
  revert b; decide

lemma packComponents_fields (b : Word) :
    packComponents Format.binary64 (Sign.ofBitVec (unpackSign b))
      (unpackExponent b) (unpackMantissa b) = b := by
  rw [packComponents, toBitVec_ofBitVec]
  apply BitVec.eq_of_getLsbD_eq
  intro i hi
  have hi : i < 64 := hi
  simp only [unpackSign, unpackExponent, unpackMantissa, BitVec.getLsbD_append,
    BitVec.getLsbD_cast, BitVec.getLsbD_extractLsb]
  by_cases low : i < 52
  · simp [low]
  · by_cases middle : i - 52 < 11
    · have : 52 + (i - 52) = i := by omega
      simp [low, middle, this]
    · obtain rfl : i = 63 := by omega
      simp
      rfl

lemma toNat_one_append (m : BitVec 52) : (1#1 ++ m).toNat = 2 ^ 52 + m.toNat := by
  rw [BitVec.toNat_append, ← Nat.shiftLeft_add_eq_or_of_lt m.isLt]
  rfl

lemma pack_unpack (b : Word) (h : unpackExponent b = -1#_ → unpackMantissa b = 0#_) :
    UnpackedFloat.pack Format.binary64 (UnpackedFloat.unpack Format.binary64 b) = b := by
  conv_rhs => rw [← packComponents_fields b]
  have he : (unpackExponent b).toNat < 2048 := (unpackExponent b).isLt
  have hm : (unpackMantissa b).toNat < 2 ^ 52 := (unpackMantissa b).isLt
  unfold UnpackedFloat.unpack
  dsimp only
  by_cases top : unpackExponent b = -1#_
  · rw [if_pos top, if_pos (h top), top, h top]
    rfl
  rw [if_neg top]
  have below : (unpackExponent b).toNat ≠ 2047 := fun h => top (BitVec.eq_of_toNat_eq h)
  by_cases bottom : unpackExponent b = 0#_
  · rw [if_pos bottom]
    by_cases null : unpackMantissa b = 0#_
    · rw [dif_pos null, bottom, null]
      rfl
    · have hlog : (unpackMantissa b).toNat.log2 < 52 :=
        (Nat.log2_lt fun h => null (BitVec.eq_of_toNat_eq h)).mpr hm
      have hn : ¬(unpackMantissa b).toNat.log2 + 1 = 1 + 52 := by omega
      simp [null, bottom, UnpackedFloat.pack, Format.mantissaBits, Format.exponentBias, hn]
  · rw [if_neg bottom]
    have hlog : (1#1 ++ unpackMantissa b).toNat.log2 = 52 := by
      rw [toNat_one_append]
      exact (Nat.log2_eq_iff (by omega)).mpr ⟨by omega, by omega⟩
    have hmant : BitVec.ofNat 52 (1#1 ++ unpackMantissa b).toNat = unpackMantissa b := by
      apply BitVec.eq_of_toNat_eq
      rw [toNat_one_append, BitVec.toNat_ofNat]
      omega
    simp only [UnpackedFloat.pack, Format.mantissaBits, Format.exponentBias, hlog]
    rw [if_neg (by omega), if_pos trivial, hmant]
    have hexp : ((unpackExponent b).toNat - ((2 ^ (11 - 1) - 1 : Nat) + (52 : Nat)) +
        (2 ^ (11 - 1) - 1 : Nat) + (52 : Nat) : Int).toNat = (unpackExponent b).toNat := by omega
    rw [hexp, BitVec.ofNat_toNat, BitVec.setWidth_eq]

/-- The number taken apart: sign, mantissa and exponent, or a special value. -/
def parts (x : Binary64) : UnpackedFloat :=
  UnpackedFloat.unpack Format.binary64 x.bits.toBitVec

lemma unpack_of_nan (b : Word) (he : unpackExponent b = -1#_) (hm : unpackMantissa b ≠ 0#_) :
    UnpackedFloat.unpack Format.binary64 b = .notANumber := by
  simp [UnpackedFloat.unpack, he, hm]

lemma unpack_repacked (b : Word) :
    UnpackedFloat.unpack Format.binary64
        (UnpackedFloat.pack Format.binary64 (UnpackedFloat.unpack Format.binary64 b)) =
      UnpackedFloat.unpack Format.binary64 b := by
  by_cases nan : unpackExponent b = -1#_ ∧ unpackMantissa b ≠ 0#_
  · rw [unpack_of_nan b nan.1 nan.2]
    exact unpack_of_nan _ (by decide) (by decide)
  · rw [pack_unpack b (by simpa using nan)]

lemma unpack_value (x : Binary64) : x.value.toModel.unpack = x.parts :=
  unpack_repacked x.bits.toBitVec

lemma bits_eq_of_parts_eq {x y : Binary64} (h : x.parts = y.parts) (hx : x.parts ≠ .notANumber) :
    x.bits = y.bits := by
  have number (z : Binary64) (hz : z.parts ≠ .notANumber) :
      UnpackedFloat.pack Format.binary64 z.parts = z.bits.toBitVec :=
    pack_unpack _ fun he => Classical.byContradiction fun hm => hz (unpack_of_nan _ he hm)
  apply UInt64.toBitVec_inj.mp
  rw [← number x hx, ← number y (h ▸ hx), h]

lemma compare_eq {u v : UnpackedFloat} (h : u.compare v = some .eq) :
    (u = v ∧ u ≠ .notANumber) ∨ ∃ s t, u = .zero s ∧ v = .zero t := by
  unfold UnpackedFloat.compare at h
  split at h <;> try simp_all
  case h_3 s t =>
    cases s <;> cases t <;> simp_all [compare]

lemma compare_self (u : UnpackedFloat) (h : u ≠ .notANumber) : u.compare u = some .eq := by
  cases u with
  | notANumber => exact absurd rfl h
  | infinity s => cases s <;> rfl
  | zero s => rfl
  | finite s m e hm => cases s <;> simp [UnpackedFloat.compare]

lemma isNaN_iff (x : Binary64) : x.isNaN = true ↔ x.parts = .notANumber := by
  rw [isNaN, Float.isNaN, Float.Model.isNaN, unpack_value]
  cases x.parts <;> simp [UnpackedFloat.isNaN]

lemma isZero_iff (x : Binary64) : x.isZero = true ↔ ∃ s, x.parts = .zero s := by
  have zero : (0 : Float).toModel.unpack = .zero .positive := by rfl
  change (x.value.toModel.unpack.compare (0 : Float).toModel.unpack == some .eq) = true ↔ _
  rw [unpack_value, zero, beq_iff_eq]
  constructor
  · intro h
    obtain ⟨h, -⟩ | ⟨s, -, h, -⟩ := compare_eq h
    · exact ⟨_, h⟩
    · exact ⟨s, h⟩
  · rintro ⟨s, h⟩
    rw [h]
    rfl

theorem equal_iff (x y : Binary64) :
    x.equal y = true ↔ (x = y ∧ x.isNaN = false) ∨ (x.isZero = true ∧ y.isZero = true) := by
  change (x.value.toModel.unpack.compare y.value.toModel.unpack == some .eq) = true ↔ _
  rw [unpack_value, unpack_value, beq_iff_eq, ← Bool.not_eq_true, isNaN_iff, isZero_iff, isZero_iff]
  constructor
  · intro h
    obtain ⟨h, number⟩ | ⟨s, t, hx, hy⟩ := compare_eq h
    · have bits := bits_eq_of_parts_eq h number
      cases x; cases y
      exact .inl ⟨congrArg _ bits, number⟩
    · exact .inr ⟨⟨s, hx⟩, ⟨t, hy⟩⟩
  · rintro (⟨rfl, number⟩ | ⟨⟨s, hx⟩, ⟨t, hy⟩⟩)
    · exact compare_self _ number
    · rw [hx, hy]
      rfl

end Binary64
end ConstraintHandling
