import ConstraintHandling.Proofs.Binary64

/-! The order of floating-point numbers. The parts of a number are canonical: the mantissa has its full
length, or the exponent is the smallest one. Exponent and mantissa can therefore be read as one integer,
which with the sign in front of it gives the place of the number in the order. -/
namespace ConstraintHandling
open Float.Model Float.Model.UnpackedFloat

namespace Binary64

/-- The parts that the encoding of a number has. -/
def IsCanonical : UnpackedFloat → Prop
  | .finite _ m e _ => m < 2 ^ 53 ∧ -1074 ≤ e ∧ e ≤ 971 ∧ (2 ^ 52 ≤ m ∨ e = -1074)
  | _ => True

lemma isCanonical_unpack (b : Word) : IsCanonical (UnpackedFloat.unpack .binary64 b) := by
  have he : (unpackExponent b).toNat < 2048 := (unpackExponent b).isLt
  have hm : (unpackMantissa b).toNat < 2 ^ 52 := (unpackMantissa b).isLt
  unfold UnpackedFloat.unpack
  dsimp only
  split
  · split <;> trivial
  · next top =>
    have below : (unpackExponent b).toNat ≠ 2047 :=
      fun h => top (BitVec.eq_of_toNat_eq h)
    split
    · next bottom =>
      split
      · trivial
      · rw [bottom]
        refine ⟨by omega, ?_, ?_, .inr ?_⟩ <;> simp [Format.exponentBias]
    · next bottom =>
      have above : (unpackExponent b).toNat ≠ 0 :=
        fun h => bottom (BitVec.eq_of_toNat_eq h)
      have mantissa := toNat_one_append (unpackMantissa b)
      simp only [IsCanonical, Format.exponentBias]
      refine ⟨?_, ?_, ?_, .inl ?_⟩ <;> omega

lemma isCanonical_parts (x : Binary64) : IsCanonical x.parts :=
  isCanonical_unpack _

/-- Exponent and mantissa read as one integer. -/
def magnitude (m : Nat) (e : Int) : Int :=
  (e + 1074) * 2 ^ 52 + m

/-- The place of parts in the order of numbers. The two zeros share it, and a NaN has none of its own. -/
def placeOfParts : UnpackedFloat → Int
  | .notANumber => 0
  | .infinity s => s.apply (2047 * 2 ^ 52)
  | .zero _ => 0
  | .finite s m e _ => s.apply (magnitude m e)

/-- The place of a number in the order of numbers. -/
def place (x : Binary64) : Int :=
  placeOfParts x.parts

section Parts
variable {m m' : Nat} {e e' : Int}

lemma magnitude_pos (hm : 0 < m) (low : -1074 ≤ e) : 0 < magnitude m e := by
  unfold magnitude
  omega

lemma magnitude_lt (large : m < 2 ^ 53) (high : e ≤ 971) : magnitude m e < 2047 * 2 ^ 52 := by
  unfold magnitude
  omega

lemma compare_magnitude (h : m < 2 ^ 53) (h' : m' < 2 ^ 53) (he : -1074 ≤ e) (he' : -1074 ≤ e')
    (hm : 2 ^ 52 ≤ m ∨ e = -1074) (hm' : 2 ^ 52 ≤ m' ∨ e' = -1074) :
    (compare e e').then (compare m m') = compare (magnitude m e) (magnitude m' e') := by
  unfold magnitude
  obtain lt | rfl | gt := lt_trichotomy e e'
  · rw [compare_lt_iff_lt.mpr lt]
    exact (compare_lt_iff_lt.mpr (by omega)).symm
  · rw [compare_eq_iff_eq.mpr rfl, Ordering.eq_then]
    obtain lt | rfl | gt := lt_trichotomy m m'
    · rw [compare_lt_iff_lt.mpr lt]
      exact (compare_lt_iff_lt.mpr (by omega)).symm
    · rw [compare_eq_iff_eq.mpr rfl, compare_eq_iff_eq.mpr rfl]
    · rw [compare_gt_iff_gt.mpr gt]
      exact (compare_gt_iff_gt.mpr (by omega)).symm
  · rw [compare_gt_iff_gt.mpr gt]
    exact (compare_gt_iff_gt.mpr (by omega)).symm

lemma swap_compare_eq_compare_neg (a b : Int) : (compare a b).swap = compare (-a) (-b) := by
  rw [← Std.OrientedCmp.eq_swap]
  obtain lt | rfl | gt := lt_trichotomy a b
  · rw [compare_gt_iff_gt.mpr lt, compare_gt_iff_gt.mpr (neg_lt_neg lt)]
  · rw [compare_eq_iff_eq.mpr rfl, compare_eq_iff_eq.mpr rfl]
  · rw [compare_lt_iff_lt.mpr gt, compare_lt_iff_lt.mpr (neg_lt_neg gt)]

lemma compare_parts {u v : UnpackedFloat} (hu : IsCanonical u) (hv : IsCanonical v)
    (numberu : u ≠ .notANumber) (numberv : v ≠ .notANumber) :
    u.compare v = some (compare (placeOfParts u) (placeOfParts v)) := by
  have lt {a b : Int} (h : a < b) : some Ordering.lt = some (compare a b) :=
    congrArg some (compare_lt_iff_lt.mpr h).symm
  have gt {a b : Int} (h : b < a) : some Ordering.gt = some (compare a b) :=
    congrArg some (compare_gt_iff_gt.mpr h).symm
  cases u with
  | notANumber => exact absurd rfl numberu
  | infinity s =>
    cases v with
    | notANumber => exact absurd rfl numberv
    | infinity t => cases s <;> cases t <;> rfl
    | zero t => cases s <;> rfl
    | finite t m e hm =>
      obtain ⟨large, low, high, -⟩ := hv
      have := magnitude_pos hm low
      have := magnitude_lt large high
      cases s <;> cases t <;> simp only [placeOfParts, Sign.apply]
      · exact lt (by omega)
      · exact lt (by omega)
      · exact gt (by omega)
      · exact gt (by omega)
  | zero s =>
    cases v with
    | notANumber => exact absurd rfl numberv
    | infinity t => cases t <;> rfl
    | zero t => rfl
    | finite t m e hm =>
      have := magnitude_pos hm hv.2.1
      cases t <;> simp only [placeOfParts, Sign.apply]
      · exact gt (by omega)
      · exact lt (by omega)
  | finite s m e hm =>
    obtain ⟨large, low, high, full⟩ := hu
    have := magnitude_pos hm low
    have := magnitude_lt large high
    cases v with
    | notANumber => exact absurd rfl numberv
    | infinity t =>
      cases s <;> cases t <;> simp only [placeOfParts, Sign.apply]
      · exact gt (by omega)
      · exact lt (by omega)
      · exact gt (by omega)
      · exact lt (by omega)
    | zero t =>
      cases s <;> simp only [placeOfParts, Sign.apply]
      · exact lt (by omega)
      · exact gt (by omega)
    | finite t m' e' hm' =>
      obtain ⟨large', low', -, full'⟩ := hv
      have := magnitude_pos hm' low'
      have both := compare_magnitude large large' low low' full full'
      cases s <;> cases t <;> simp only [placeOfParts, Sign.apply]
      · exact congrArg some ((congrArg Ordering.swap both).trans (swap_compare_eq_compare_neg _ _))
      · exact lt (by omega)
      · exact gt (by omega)
      · exact congrArg some both

end Parts

lemma parts_ne_notANumber {x : Binary64} (h : x.isNaN = false) : x.parts ≠ .notANumber := by
  rw [Ne, ← isNaN_iff, h]
  simp

section Numbers
variable {x y : Binary64}

lemma compare_value (hx : x.isNaN = false) (hy : y.isNaN = false) :
    x.value.toModel.unpack.compare y.value.toModel.unpack = some (compare x.place y.place) := by
  rw [unpack_value, unpack_value]
  exact compare_parts (isCanonical_parts x) (isCanonical_parts y) (parts_ne_notANumber hx)
    (parts_ne_notANumber hy)

lemma value_lt_iff (hx : x.isNaN = false) (hy : y.isNaN = false) :
    x.value < y.value ↔ x.place < y.place := by
  have model : x.value < y.value ↔
      (x.value.toModel.unpack.compare y.value.toModel.unpack == some .lt) = true := by
    change decide _ = true ↔ _
    rw [decide_eq_true_iff]
    rfl
  rw [model, compare_value hx hy, beq_iff_eq, Option.some.injEq, compare_lt_iff_lt]

theorem equal_iff_place_eq (hx : x.isNaN = false) (hy : y.isNaN = false) :
    x.equal y = true ↔ x.place = y.place := by
  change (x.value.toModel.unpack.compare y.value.toModel.unpack == some .eq) = true ↔ _
  rw [compare_value hx hy, beq_iff_eq, Option.some.injEq, compare_eq_iff_eq]

/-- Numbers are compared by their places. -/
theorem compare?_eq (hx : x.isNaN = false) (hy : y.isNaN = false) :
    x.compare? y = some (compare x.place y.place) := by
  simp only [compare?, value_lt_iff hx hy, value_lt_iff hy hx, equal_iff_place_eq hx hy]
  obtain lt | eq | gt := lt_trichotomy x.place y.place
  · rw [if_pos lt, compare_lt_iff_lt.mpr lt]
  · simp [eq]
  · rw [if_neg gt.not_gt, if_pos gt, compare_gt_iff_gt.mpr gt]

end Numbers

end Binary64
end ConstraintHandling
