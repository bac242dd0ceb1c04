import ConstraintHandling.Proofs.Binary64.Order

/-! The numbers nearest to integers. A mantissa is rounded to the nearest integer, and to the even one of
two; this makes no larger number smaller than a smaller one, and neither does the sign. -/
namespace ConstraintHandling
open Float.Model Float.Model.UnpackedFloat

namespace Binary64

/-- The integer is nearest to the quotient of the first number by a power of two; between two such
integers it is the even one. -/
structure IsNearest (n k r : Nat) : Prop where
  below : 2 * (r * 2 ^ k) ≤ 2 * n + 2 ^ k
  above : 2 * n ≤ 2 * (r * 2 ^ k) + 2 ^ k
  tie : 2 * (r * 2 ^ k) = 2 * n + 2 ^ k ∨ 2 * n = 2 * (r * 2 ^ k) + 2 ^ k → r % 2 = 0

section Nearest
variable {n n' m k r r' : Nat}

lemma isNearest_self (m k : Nat) : IsNearest (m * 2 ^ k) k m where
  below := Nat.le_add_right _ _
  above := Nat.le_add_right _ _
  tie := by
    have := Nat.two_pow_pos k
    omega

lemma IsNearest.mono (hn : n ≤ n') (h : IsNearest n k r) (h' : IsNearest n' k r') : r ≤ r' := by
  obtain ⟨below, -, tie⟩ := h
  obtain ⟨-, above, tie'⟩ := h'
  by_contra larger
  have positive := Nat.two_pow_pos k
  have step : r' * 2 ^ k + 2 ^ k ≤ r * 2 ^ k := by
    rw [← Nat.succ_mul]
    exact Nat.mul_le_mul_right _ (by omega)
  -- All bounds are reached, so that both are even and next to each other.
  have even := tie (.inl (by omega))
  have even' := tie' (.inr (by omega))
  have next : r * 2 ^ k = (r' + 1) * 2 ^ k := by
    rw [Nat.succ_mul]
    omega
  have := Nat.eq_of_mul_eq_mul_right positive next
  omega

lemma IsNearest.le (h : IsNearest n k r) (hn : n ≤ m * 2 ^ k) : r ≤ m :=
  h.mono hn (isNearest_self m k)

lemma IsNearest.ge (h : IsNearest n k r) (hn : m * 2 ^ k ≤ n) : m ≤ r :=
  (isNearest_self m k).mono hn h

lemma IsNearest.scale (h : IsNearest n k r) (i : Nat) : IsNearest (n * 2 ^ i) (k + i) r := by
  have positive := Nat.two_pow_pos i
  have below : 2 * (r * 2 ^ (k + i)) = 2 * (r * 2 ^ k) * 2 ^ i := by ring
  have above : 2 * (n * 2 ^ i) = 2 * n * 2 ^ i := by ring
  refine ⟨?_, ?_, ?_⟩ <;> rw [below, above, Nat.pow_add, ← Nat.add_mul]
  · exact Nat.mul_le_mul_right _ h.below
  · exact Nat.mul_le_mul_right _ h.above
  · rw [← Nat.add_mul]
    exact fun tie => h.tie (tie.imp (Nat.eq_of_mul_eq_mul_right positive)
      (Nat.eq_of_mul_eq_mul_right positive))

/-- The mantissa is the quotient by a power of two, and the two bits compare the remainder with one half of
the power. -/
def Leaves (n k : Nat) (em : ExtendedMantissa) : Prop :=
  ∃ d < 2 ^ k, n = em.mantissa * 2 ^ k + d ∧
    match em.roundBit, em.stickyBit with
    | false, false => d = 0
    | false, true => 0 < d ∧ 2 * d < 2 ^ k
    | true, false => 2 * d = 2 ^ k
    | true, true => 2 ^ k < 2 * d

lemma leaves_shiftRight (n k : Nat) :
    Leaves n k (ExtendedMantissa.ofMantissaAndAccuracy n .exact >>> k) := by
  change Leaves n k (Nat.repeat _ k _)
  induction k with
  | zero => exact ⟨0, by simp, by simp [Nat.repeat, ExtendedMantissa.ofMantissaAndAccuracy], rfl⟩
  | succ k ih =>
    rw [Nat.repeat]
    generalize Nat.repeat _ k _ = em at ih
    obtain ⟨m, round, sticky⟩ := em
    obtain ⟨d, small, heq, bits⟩ := ih
    dsimp only at heq bits
    have parity : m % 2 = 0 ∨ m % 2 = 1 := by omega
    have power : 2 ^ (k + 1) = 2 * 2 ^ k := by rw [Nat.pow_succ]; omega
    refine ⟨d + m % 2 * 2 ^ k, ?_, ?_, ?_⟩
    · obtain h | h := parity <;> rw [h] <;> omega
    · dsimp only [ExtendedMantissa.shiftRightOne]
      rw [heq, power]
      conv_lhs => rw [← Nat.div_add_mod m 2]
      ring
    · dsimp only [ExtendedMantissa.shiftRightOne]
      obtain h | h := parity <;> rw [h] <;> cases round <;> cases sticky <;>
        simp at bits ⊢ <;> omega

lemma Leaves.isNearest {em : ExtendedMantissa} (h : Leaves n k em) :
    IsNearest n k em.roundedMantissa := by
  obtain ⟨m, round, sticky⟩ := em
  obtain ⟨d, small, rfl, bits⟩ := h
  have positive := Nat.two_pow_pos k
  have nearest (r : Nat) (down : r = m → 2 * d ≤ 2 ^ k ∧ (2 * d = 2 ^ k → m % 2 = 0))
      (up : r ≠ m → r = m + 1 ∧ 2 ^ k ≤ 2 * d ∧ (2 * d = 2 ^ k → m % 2 = 1)) :
      IsNearest (m * 2 ^ k + d) k r := by
    by_cases hr : r = m
    · obtain ⟨half, even⟩ := down hr
      subst hr
      exact ⟨by omega, by omega, by omega⟩
    · obtain ⟨rfl, half, odd⟩ := up hr
      have next : (m + 1) * 2 ^ k = m * 2 ^ k + 2 ^ k := by ring
      exact ⟨by omega, by omega, by omega⟩
  cases round <;> cases sticky <;>
    simp only [ExtendedMantissa.roundedMantissa, ExtendedMantissa.accuracy,
      Accuracy.roundToNearestEven] at bits ⊢
  · exact nearest m (fun _ => by omega) (fun h => absurd rfl h)
  · exact nearest m (fun _ => by omega) (fun h => absurd rfl h)
  · exact nearest (m + m % 2) (fun _ => by omega) (fun _ => by omega)
  · exact nearest (m + 1) (fun _ => by omega) (fun _ => by omega)

end Nearest

/-- A mantissa of full length and an exponent within its range. -/
structure IsNormal (m : Nat) (e : Int) : Prop where
  full : 2 ^ 52 ≤ m
  short : m < 2 ^ 53
  low : -1074 ≤ e
  high : e ≤ 971

section Rounding
variable {s : Sign} {m : Nat} {e : Int}

lemma IsNormal.pos (h : IsNormal m e) : 0 < m :=
  (Nat.two_pow_pos 52).trans_le h.full

lemma IsNormal.log2_eq (h : IsNormal m e) : m.log2 = 52 :=
  (Nat.log2_eq_iff h.pos.ne').mpr ⟨h.full, h.short⟩

lemma shiftToTargetExponent_eq (full : 2 ^ 52 ≤ m) (low : -1074 ≤ e) :
    shiftToTargetExponent .binary64 m e .exact =
      (ExtendedMantissa.ofMantissaAndAccuracy m .exact >>> (m.log2 - 52),
        e + (m.log2 - 52 : Nat)) := by
  have target : (Format.binary64.targetExponent (totalExponent m e) - e).toNat = m.log2 - 52 := by
    have : 52 ≤ m.log2 := (Nat.le_log2 (by omega)).mpr full
    simp only [Format.targetExponent, Format.minExponent, Format.mantissaBits, totalExponent]
    omega
  simp only [shiftToTargetExponent, shiftToExponent, target]

lemma exists_carry (full : 2 ^ 52 ≤ m) (carry : m ≤ 2 ^ 53) (low : -1074 ≤ e) :
    ∃ em e', shiftToTargetExponent .binary64 m e .exact = (em, e') ∧
      2 ^ 52 ≤ em.mantissa ∧ em.mantissa < 2 ^ 53 ∧ e ≤ e' ∧ e' ≤ e + 1 ∧
      magnitude em.mantissa e' = magnitude m e := by
  -- The exponent takes the bit by which rounding has made the mantissa too long.
  rw [shiftToTargetExponent_eq full low]
  obtain short | rfl := carry.lt_or_eq
  · have hlog : m.log2 = 52 := (Nat.log2_eq_iff (by omega)).mpr ⟨full, short⟩
    rw [hlog]
    exact ⟨_, _, rfl, full, short, by omega, by omega, congrArg (magnitude m) (by omega)⟩
  · rw [show Nat.log2 (2 ^ 53) = 53 from Nat.log2_two_pow]
    refine ⟨_, _, rfl, by decide, by decide, by omega, by omega, ?_⟩
    change (e + 1 + 1074) * 2 ^ 52 + ((2 ^ 52 : Nat) : Int) = (e + 1074) * 2 ^ 52 + (2 ^ 53 : Nat)
    omega

lemma roundWithAccuracy_of_shifts {spec : Format} {em₁ em₂ : ExtendedMantissa} {e₁ e₂ : Int}
    (first : shiftToTargetExponent spec m e .exact = (em₁, e₁))
    (second : shiftToTargetExponent spec em₁.roundedMantissa e₁ .exact = (em₂, e₂))
    (positive : 0 < em₂.mantissa) :
    roundWithAccuracy spec s m e .exact = .finite s em₂.mantissa e₂ positive := by
  simp only [roundWithAccuracy, first, second]
  exact dif_neg positive.ne'

lemma exists_roundWithAccuracy_eq (s : Sign) (full : 2 ^ 52 ≤ m) (low : -1074 ≤ e)
    (high : e + m.log2 ≤ 971) :
    ∃ r m' e' hm, IsNearest m (m.log2 - 52) r ∧ IsNormal m' e' ∧
      roundWithAccuracy .binary64 s m e .exact = .finite s m' e' hm ∧
      magnitude m' e' = magnitude r (e + (m.log2 - 52 : Nat)) := by
  have log : 52 ≤ m.log2 := (Nat.le_log2 (by omega)).mpr full
  have nearest := (leaves_shiftRight m (m.log2 - 52)).isNearest
  have lower := nearest.ge (m := 2 ^ 52) <| by
    rw [← Nat.pow_add, Nat.add_sub_of_le log]
    exact Nat.log2_self_le (by omega)
  have upper := nearest.le (m := 2 ^ 53) <| by
    rw [← Nat.pow_add, show 53 + (m.log2 - 52) = m.log2 + 1 by omega]
    exact Nat.lt_log2_self.le
  obtain ⟨em, e', second, full', short, above, below, same⟩ :=
    exists_carry lower upper (e := e + (m.log2 - 52 : Nat)) (by omega)
  exact ⟨_, _, _, _, nearest, ⟨full', short, by omega, by omega⟩,
    roundWithAccuracy_of_shifts (shiftToTargetExponent_eq full low) second (by omega), same⟩

lemma unpack_pack (h : IsNormal m e) (hm : 0 < m) :
    UnpackedFloat.unpack .binary64 (UnpackedFloat.pack .binary64 (.finite s m e hm)) =
      .finite s m e hm := by
  have log := h.log2_eq
  obtain ⟨full, short, low, high⟩ := h
  have packed : UnpackedFloat.pack .binary64 (.finite s m e hm) =
      packComponents .binary64 s (BitVec.ofNat 11 (e + 1075).toNat) (BitVec.ofNat 52 m) := by
    have biased : (e + (2 ^ (11 - 1) - 1 : Nat) + (52 : Nat)).toNat = (e + 1075).toNat := by omega
    simp only [UnpackedFloat.pack, Format.mantissaBits, Format.exponentBias, log, biased]
    rw [if_neg (by omega), if_pos trivial]
  have exponent : (BitVec.ofNat 11 (e + 1075).toNat).toNat = (e + 1075).toNat := by
    rw [BitVec.toNat_ofNat]
    omega
  have mantissa : (1#1 ++ BitVec.ofNat 52 m).toNat = m := by
    rw [toNat_one_append, BitVec.toNat_ofNat]
    omega
  have top : BitVec.ofNat 11 (e + 1075).toNat ≠ -1#11 := fun h => by
    have : (e + 1075).toNat = 2047 := exponent.symm.trans (congrArg BitVec.toNat h)
    omega
  have bottom : BitVec.ofNat 11 (e + 1075).toNat ≠ 0#11 := fun h => by
    have : (e + 1075).toNat = 0 := exponent.symm.trans (congrArg BitVec.toNat h)
    omega
  rw [packed]
  unfold UnpackedFloat.unpack
  simp only [unpackExponent_packComponents, unpackMantissa_packComponents, unpackSign_packComponents,
    Sign.ofBitVec_toBitVec, top, bottom, exponent, mantissa, if_false, Format.exponentBias,
    UnpackedFloat.finite.injEq, true_and]
  omega

lemma roundWithAccuracy_exact (h : IsNormal m e) (hm : 0 < m) :
    roundWithAccuracy .binary64 s m e .exact = .finite s m e hm := by
  have shift : shiftToTargetExponent .binary64 m e .exact = (⟨m, false, false⟩, e) := by
    rw [shiftToTargetExponent_eq h.full h.low, h.log2_eq]
    exact Prod.ext rfl (by omega)
  exact roundWithAccuracy_of_shifts shift shift hm

lemma isNormal_lengthened (hm : 0 < m) (short : m < 2 ^ 53) :
    IsNormal (m * 2 ^ (52 - m.log2)) (-((52 - m.log2 : Nat) : Int)) := by
  have log : m.log2 < 53 := (Nat.log2_lt hm.ne').mpr short
  refine ⟨?_, ?_, by omega, by omega⟩
  · calc 2 ^ 52 = 2 ^ m.log2 * 2 ^ (52 - m.log2) := by rw [← Nat.pow_add]; congr 1; omega
      _ ≤ m * 2 ^ (52 - m.log2) := Nat.mul_le_mul_right _ (Nat.log2_self_le hm.ne')
  · calc m * 2 ^ (52 - m.log2) < 2 ^ (m.log2 + 1) * 2 ^ (52 - m.log2) :=
          Nat.mul_lt_mul_of_pos_right Nat.lt_log2_self (Nat.two_pow_pos _)
      _ = 2 ^ 53 := by rw [← Nat.pow_add]; congr 1; omega

lemma round_eq (hm : 0 < m) (short : m < 2 ^ 53) (positive : 0 < m * 2 ^ (52 - m.log2)) :
    UnpackedFloat.round .binary64 s m 0 =
      .finite s (m * 2 ^ (52 - m.log2)) (-((52 - m.log2 : Nat) : Int)) positive := by
  have decreased : decreaseExponent m 0 (Format.binary64.targetExponent (totalExponent m 0)) =
      (m * 2 ^ (52 - m.log2), -((52 - m.log2 : Nat) : Int)) := by
    have log : m.log2 < 53 := (Nat.log2_lt hm.ne').mpr short
    have amount :
        (0 - Format.binary64.targetExponent (totalExponent m 0)).toNat = 52 - m.log2 := by
      simp only [Format.targetExponent, Format.minExponent, Format.mantissaBits, totalExponent]
      omega
    unfold decreaseExponent
    dsimp only
    rw [amount, Nat.shiftLeft_eq, Int.zero_sub]
  simp only [UnpackedFloat.round, decreased]
  exact roundWithAccuracy_exact (isNormal_lengthened hm short) positive

end Rounding

section Conversion
variable {n n' : Nat}

lemma ofNat_of_short (h : n < 2 ^ 53) :
    Float.ofNat n = n.toUInt64.toFloat * Float.ofBits 0x3FF0000000000000 := by
  have h : n < 2 ^ 53 ∧ 0 ≤ 22 := ⟨h, Nat.zero_le _⟩
  change Float.ofScientific n false 0 = _
  unfold Float.ofScientific
  rw [dif_pos h]
  rfl

lemma ofNat_of_long (h : 2 ^ 53 ≤ n) :
    Float.ofNat n = .ofModel (.pack
      (roundWithAccuracy .binary64 .positive (n * 2 ^ 53) (-53) .exact)) := by
  have long : ¬(n < 2 ^ 53 ∧ 0 ≤ 22) := by omega
  have zero : ¬n = 0 := by omega
  have small : ¬(Int.ofNat 0 : Int) > 2 ^ Format.binary64.exponentBits := by decide
  have large : ¬(Int.ofNat 0 : Int) < -((2 ^ Format.binary64.exponentBits : Int) + n.log2) := by
    have : (0 : Int) < 2 ^ Format.binary64.exponentBits := by decide
    simp only [Int.ofNat_eq_natCast]
    omega
  change Float.ofScientific n false 0 = _
  unfold Float.ofScientific
  rw [dif_neg long]
  simp only [Float.Model.ofScientific, UnpackedFloat.ofScientific, if_neg Bool.false_ne_true]
  rw [dif_neg zero, if_neg small, if_neg large, if_pos (show (0 : Int) ≤ Int.ofNat 0 by decide)]
  simp only [UnpackedFloat.mul, Nat.shiftLeft_eq]
  change Float.ofModel (.pack
    (roundWithAccuracy .binary64 .positive (n * 2 ^ 53 * 1) (-53) .exact)) = _
  rw [Nat.mul_one]

lemma unpack_toFloat (hn : 0 < n) (short : n < 2 ^ 53) (positive : 0 < n * 2 ^ (52 - n.log2)) :
    n.toUInt64.toFloat.toModel.unpack =
      .finite .positive (n * 2 ^ (52 - n.log2)) (-((52 - n.log2 : Nat) : Int)) positive := by
  have same : n.toUInt64.toNat = n := by
    rw [Nat.toUInt64_eq, UInt64.toNat_ofNat']
    omega
  have rounded : UnpackedFloat.ofUInt64 .binary64 n.toUInt64 =
      UnpackedFloat.round .binary64 .positive n 0 := by
    have : compare (n : Int) 0 = .gt := compare_gt_iff_gt.mpr (by omega)
    simp only [UnpackedFloat.ofUInt64, UnpackedFloat.ofNat, UnpackedFloat.ofInt, same,
      UnpackedFloat.normalize, this, Int.toNat_natCast]
  change UnpackedFloat.unpack .binary64 (UnpackedFloat.pack .binary64
    (UnpackedFloat.ofUInt64 .binary64 n.toUInt64)) = _
  rw [rounded, round_eq hn short positive, unpack_pack (isNormal_lengthened hn short)]

lemma exists_parts_ofInt (hn : 0 < n) : ∃ k : Nat, k ≤ 104 ∧ 2 ^ 52 ≤ n * 2 ^ k ∧
    (ofInt n).parts = UnpackedFloat.unpack .binary64 (UnpackedFloat.pack .binary64
      (roundWithAccuracy .binary64 .positive (n * 2 ^ k) (-(k : Int)) .exact)) := by
  change ∃ k : Nat, k ≤ 104 ∧ 2 ^ 52 ≤ n * 2 ^ k ∧ (Float.ofNat n).toModel.unpack = _
  by_cases short : n < 2 ^ 53
  · have log : n.log2 < 53 := (Nat.log2_lt hn.ne').mpr short
    have normal := isNormal_lengthened hn short
    have full := normal.full
    have one : (Float.ofBits 0x3FF0000000000000).toModel.unpack =
        .finite .positive (2 ^ 52) (-52) (by decide) := by rfl
    have split : n * 2 ^ (104 - n.log2) = n * 2 ^ (52 - n.log2) * 2 ^ 52 := by
      rw [Nat.mul_assoc, ← Nat.pow_add, show 104 - n.log2 = 52 - n.log2 + 52 by omega]
    refine ⟨104 - n.log2, by omega, by omega, ?_⟩
    rw [ofNat_of_short short]
    change UnpackedFloat.unpack .binary64 (UnpackedFloat.pack .binary64 (UnpackedFloat.mul .binary64
      n.toUInt64.toFloat.toModel.unpack (Float.ofBits 0x3FF0000000000000).toModel.unpack)) = _
    rw [unpack_toFloat hn short normal.pos, one, split,
      show -((104 - n.log2 : Nat) : Int) = -((52 - n.log2 : Nat) : Int) + -52 by omega]
    rfl
  · refine ⟨53, by omega, by omega, ?_⟩
    rw [ofNat_of_long (by omega)]
    rfl

lemma log2_mul_two_pow (hn : 0 < n) (k : Nat) : (n * 2 ^ k).log2 = n.log2 + k := by
  have positive := Nat.two_pow_pos k
  rw [Nat.log2_eq_iff (Nat.mul_pos hn positive).ne', Nat.pow_add, Nat.add_right_comm, Nat.pow_add]
  exact ⟨Nat.mul_le_mul_right _ (Nat.log2_self_le hn.ne'),
    Nat.mul_lt_mul_of_pos_right Nat.lt_log2_self positive⟩

lemma exists_nearest (hn : 0 < n) (bound : n < 2 ^ 64) :
    ∃ r m e hm, IsNearest (n * 2 ^ 104) (n.log2 + 52) r ∧ IsNormal m e ∧
      (ofInt n).parts = .finite .positive m e hm ∧ magnitude m e = magnitude r (n.log2 - 52) := by
  obtain ⟨k, hk, full, parts⟩ := exists_parts_ofInt hn
  have log := log2_mul_two_pow hn k
  have bits : n.log2 < 64 := (Nat.log2_lt hn.ne').mpr bound
  have long : 52 ≤ n.log2 + k := by
    rw [← log]
    exact (Nat.le_log2 (by omega)).mpr full
  obtain ⟨r, m, e, hm, nearest, normal, rounded, same⟩ :=
    exists_roundWithAccuracy_eq .positive full (e := -(k : Int)) (by omega) (by omega)
  rw [log] at nearest same
  refine ⟨r, m, e, hm, ?_, normal, ?_, ?_⟩
  · have scaled := nearest.scale (104 - k)
    rwa [Nat.mul_assoc, ← Nat.pow_add, Nat.add_sub_of_le hk,
      show n.log2 + k - 52 + (104 - k) = n.log2 + 52 by omega] at scaled
  · rw [parts, rounded, unpack_pack normal]
  · rw [same]
    exact congrArg (magnitude r) (by omega)

lemma parts_ofInt_ne_notANumber (bound : n < 2 ^ 64) : (ofInt n).parts ≠ .notANumber := by
  obtain rfl | hn := Nat.eq_zero_or_pos n
  · have zero : (ofInt 0).parts = .zero .positive := by rfl
    exact zero ▸ nofun
  · obtain ⟨r, m, e, hm, -, -, parts, -⟩ := exists_nearest hn bound
    exact parts ▸ nofun

lemma place_ofInt_nonneg (bound : n < 2 ^ 64) : 0 ≤ (ofInt n).place := by
  obtain rfl | hn := Nat.eq_zero_or_pos n
  · exact Int.le_refl 0
  · obtain ⟨r, m, e, hm, -, normal, parts, -⟩ := exists_nearest hn bound
    rw [place, parts]
    exact (magnitude_pos hm normal.low).le

lemma place_ofInt_mono_nat (h : n ≤ n') (bound : n' < 2 ^ 64) :
    (ofInt n).place ≤ (ofInt n').place := by
  obtain rfl | hn := Nat.eq_zero_or_pos n
  · exact place_ofInt_nonneg bound
  obtain ⟨r, m, e, hm, nearest, -, parts, same⟩ := exists_nearest hn (h.trans_lt bound)
  obtain ⟨r', m', e', hm', nearest', -, parts', same'⟩ := exists_nearest (hn.trans_le h) bound
  rw [place, place, parts, parts']
  change magnitude m e ≤ magnitude m' e'
  rw [same, same']
  have log : n.log2 ≤ n'.log2 := by
    rw [Nat.log2_eq_log_two, Nat.log2_eq_log_two]
    exact Nat.log_mono_right h
  unfold magnitude
  obtain eq | lt := log.eq_or_lt
  · rw [eq] at nearest ⊢
    have := nearest.mono (Nat.mul_le_mul_right _ h) nearest'
    omega
  · have upper : r ≤ 2 ^ 53 := nearest.le <| by
      rw [← Nat.pow_add, show 53 + (n.log2 + 52) = n.log2 + 1 + 104 by omega, Nat.pow_add]
      exact Nat.mul_le_mul_right _ Nat.lt_log2_self.le
    have lower : 2 ^ 52 ≤ r' := nearest'.ge <| by
      rw [← Nat.pow_add, show 52 + (n'.log2 + 52) = n'.log2 + 104 by omega, Nat.pow_add]
      exact Nat.mul_le_mul_right _ (Nat.log2_self_le (by omega))
    omega

lemma parts_ofInt_neg (hn : 0 < n) (bound : n < 2 ^ 64) :
    (ofInt (-n)).parts = (ofInt n).parts.neg := by
  obtain ⟨r, m, e, hm, -, normal, parts, -⟩ := exists_nearest hn bound
  obtain ⟨k, rfl⟩ := Nat.exists_eq_succ_of_ne_zero hn.ne'
  change UnpackedFloat.unpack .binary64 (UnpackedFloat.pack .binary64
    (ofInt (k + 1 : Nat)).parts.neg) = (ofInt (k + 1 : Nat)).parts.neg
  rw [parts]
  exact unpack_pack normal hm

lemma placeOfParts_neg (u : UnpackedFloat) : placeOfParts u.neg = -placeOfParts u := by
  cases u with
  | notANumber => rfl
  | zero s => rfl
  | infinity s => cases s <;> rfl
  | finite s m e hm => cases s <;> simp [UnpackedFloat.neg, placeOfParts, Sign.apply]

lemma place_ofInt_neg (bound : n < 2 ^ 64) : (ofInt (-n)).place = -(ofInt n).place := by
  obtain rfl | hn := Nat.eq_zero_or_pos n
  · rfl
  · rw [place, parts_ofInt_neg hn bound, placeOfParts_neg, place]

/-- Converting integers keeps their order, although different ones may become equal. -/
theorem place_ofInt_mono {a b : Int} (h : a ≤ b) (low : -2 ^ 64 < a) (high : b < 2 ^ 64) :
    (ofInt a).place ≤ (ofInt b).place := by
  obtain ⟨n, rfl | rfl⟩ := a.eq_nat_or_neg <;> obtain ⟨n', rfl | rfl⟩ := b.eq_nat_or_neg
  · exact place_ofInt_mono_nat (by omega) (by omega)
  · have zero : n = 0 := by omega
    have zero' : n' = 0 := by omega
    subst zero zero'
    exact Int.le_refl _
  · have negative := place_ofInt_nonneg (n := n) (by omega)
    have positive := place_ofInt_nonneg (n := n') (by omega)
    rw [place_ofInt_neg (by omega)]
    omega
  · rw [place_ofInt_neg (by omega), place_ofInt_neg (by omega)]
    exact neg_le_neg (place_ofInt_mono_nat (by omega) (by omega))

theorem isNaN_ofInt {a : Int} (low : -2 ^ 64 < a) (high : a < 2 ^ 64) :
    (ofInt a).isNaN = false := by
  rw [← Bool.not_eq_true, isNaN_iff]
  obtain ⟨n, rfl | rfl⟩ := a.eq_nat_or_neg
  · exact parts_ofInt_ne_notANumber (by omega)
  · obtain rfl | hn := Nat.eq_zero_or_pos n
    · exact parts_ofInt_ne_notANumber (n := 0) (by omega)
    · have positive := parts_ofInt_ne_notANumber (n := n) (by omega)
      rw [parts_ofInt_neg hn (by omega)]
      cases h : (ofInt n).parts with
      | notANumber => exact absurd h positive
      | _ => nofun

end Conversion

end Binary64
end ConstraintHandling
