import ConstraintHandling.Proofs.Evaluation
import Mathlib.Tactic.Common

/-! Exact arithmetic. Operations on integers compute the exact result, or they leave the
expression as it is: because there is no exact result, because it does not fit, or in two cases in
which it is missed although it fits. -/
namespace ConstraintHandling

lemma fit?_eq_some_iff {n : Int} {i : Int64} : fit? n = some i ↔ i.toInt = n := by
  refine ⟨toInt_of_fit?, ?_⟩
  rintro rfl
  rw [fit?, if_pos ⟨i.minValue_le_toInt, i.toInt_le⟩, Int64.ofInt_toInt]

def Fits (n : Int) : Prop :=
  Int64.minValue.toInt ≤ n ∧ n ≤ Int64.maxValue.toInt

lemma fits_iff {n : Int} : Fits n ↔ ∃ i : Int64, i.toInt = n := by
  constructor
  · intro bounds
    exact ⟨_, toInt_of_fit? (if_pos bounds)⟩
  · rintro ⟨i, rfl⟩
    exact ⟨i.minValue_le_toInt, i.toInt_le⟩

namespace Arithmetic

/-- The dividend is a multiple of the divisor and a rest that is smaller than the divisor. -/
def Leaves (a b quotient rest : Int) : Prop :=
  a = b * quotient + rest ∧ rest.natAbs < b.natAbs

/-- The exact result of an operation. The rest of a quotient has the sign of the dividend, which
makes the quotient the one truncated toward zero; as a modulus, the rest has the sign of the
divisor. -/
def Yields : Arithmetic → Int → Int → Int → Prop
  | add, a, b, r => r = a + b
  | subtract, a, b, r => r = a - b
  | multiply, a, b, r => r = a * b
  | divide, a, b, r => ∃ rest, Leaves a b r rest ∧ (0 ≤ a → 0 ≤ rest) ∧ (a ≤ 0 → rest ≤ 0)
  | modulo, a, b, r => ∃ q, Leaves a b q r ∧ (0 < b → 0 ≤ r) ∧ (b < 0 → r ≤ 0)
  | power, a, b, r => 0 ≤ b ∧ r = a ^ b.toNat

/-- The operation has no exact result: a division by zero or a power with a negative exponent. -/
def IsUndefined : Arithmetic → Int → Prop
  | divide, b | modulo, b => b = 0
  | power, b => b < 0
  | _, _ => False

/-- The exact result is missed although it fits: the quotient behind a modulus does not fit, or an
exponent beyond the limit belongs to a base whose powers all fit. -/
def Misses : Arithmetic → Int64 → Int64 → Prop
  | modulo, a, b => a = Int64.minValue ∧ b = -1
  | power, a, b => exponentLimit ≤ b.toInt ∧ a.toInt.natAbs ≤ 1
  | _, _, _ => False

lemma yields_divide_iff {a b r : Int} : divide.Yields a b r ↔ b ≠ 0 ∧ r = a.tdiv b := by
  constructor
  · rintro ⟨rest, ⟨whole, smaller⟩, nonneg, nonpos⟩
    have hb : b ≠ 0 := by omega
    refine ⟨hb, ?_⟩
    obtain ha | ha := Int.le_total 0 a
    · exact ((Int.tdiv_tmod_unique ha hb).mpr ⟨by omega, nonneg ha, by omega⟩).1.symm
    · exact ((Int.tdiv_tmod_unique' ha hb).mpr ⟨by omega, by omega, nonpos ha⟩).1.symm
  · rintro ⟨hb, rfl⟩
    refine ⟨a.tmod b, ⟨by rw [Int.add_comm, Int.tmod_add_mul_tdiv], ?_⟩, ?_, ?_⟩
    · rw [Int.natAbs_tmod]
      exact Nat.mod_lt _ (by omega)
    · exact fun ha => ((Int.tdiv_tmod_unique ha hb).mp ⟨rfl, rfl⟩).2.1
    · exact fun ha => ((Int.tdiv_tmod_unique' ha hb).mp ⟨rfl, rfl⟩).2.2

lemma yields_modulo_iff {a b r : Int} : modulo.Yields a b r ↔ b ≠ 0 ∧ r = a.fmod b := by
  constructor
  · rintro ⟨q, ⟨whole, smaller⟩, nonneg, nonpos⟩
    have hb : b ≠ 0 := by omega
    refine ⟨hb, ?_⟩
    obtain hb | hb := Int.lt_or_gt_of_ne hb
    · exact ((Int.fdiv_fmod_unique' (q := q) hb).mpr ⟨by omega, by omega, nonpos hb⟩).2.symm
    · exact ((Int.fdiv_fmod_unique (q := q) hb).mpr ⟨by omega, nonneg hb, by omega⟩).2.symm
  · rintro ⟨hb, rfl⟩
    have whole : a = b * a.fdiv b + a.fmod b := (Int.mul_fdiv_add_fmod a b).symm
    obtain hb | hb := Int.lt_or_gt_of_ne hb
    · obtain ⟨-, above, below⟩ := (Int.fdiv_fmod_unique' (a := a) hb).mp ⟨rfl, rfl⟩
      exact ⟨a.fdiv b, ⟨whole, by omega⟩, by omega, fun _ => below⟩
    · obtain ⟨-, above, below⟩ := (Int.fdiv_fmod_unique (a := a) hb).mp ⟨rfl, rfl⟩
      exact ⟨a.fdiv b, ⟨whole, by omega⟩, fun _ => above, by omega⟩

lemma Yields.unique {op : Arithmetic} {a b m n : Int} (hm : op.Yields a b m)
    (hn : op.Yields a b n) : m = n := by
  cases op with
  | divide => rw [(yields_divide_iff.mp hm).2, (yields_divide_iff.mp hn).2]
  | modulo => rw [(yields_modulo_iff.mp hm).2, (yields_modulo_iff.mp hn).2]
  | power => rw [hm.2, hn.2]
  | _ => rw [hm, hn]

lemma exists_yields_iff {op : Arithmetic} {a b : Int} :
    (∃ n, op.Yields a b n) ↔ ¬op.IsUndefined b := by
  cases op with
  | divide => simp [yields_divide_iff, IsUndefined]
  | modulo => simp [yields_modulo_iff, IsUndefined]
  | power => simp [Yields, IsUndefined]
  | _ => simp [Yields, IsUndefined]

lemma toInt_ne_zero_iff {b : Int64} : b.toInt ≠ 0 ↔ b ≠ 0 := by
  rw [Ne, ← Int64.toInt_zero, Int64.toInt_inj]

lemma quotient?_eq_none_iff {a b : Int64} :
    quotient? a b = none ↔ b = 0 ∨ a = Int64.minValue ∧ b = -1 := by
  unfold quotient?
  split
  · next zero => simp [zero]
  · next nonzero =>
    have hb : b.toInt ≠ 0 := toInt_ne_zero_iff.mpr nonzero
    have lower := a.minValue_le_toInt
    have upper := a.toInt_le
    have least : Int64.minValue.toInt = -2 ^ 63 := rfl
    have greatest : Int64.maxValue.toInt = 2 ^ 63 - 1 := rfl
    have atMost : (a.toInt.tdiv b.toInt).natAbs ≤ a.toInt.natAbs := Int.natAbs_tdiv_le_natAbs ..
    simp only [fit?, nonzero, false_or, ite_eq_right_iff, reduceCtorEq, imp_false]
    constructor
    · intro outside
      have whole : a.toInt.tdiv b.toInt = 2 ^ 63 := by omega
      obtain rfl : a = Int64.minValue := Int64.toInt_inj.mp (by omega)
      refine ⟨rfl, Int64.toInt_inj.mp ?_⟩
      have product := Int.mul_tdiv_add_tmod Int64.minValue.toInt b.toInt
      have rest := Int.natAbs_tmod Int64.minValue.toInt b.toInt
      have smaller := Nat.mod_lt Int64.minValue.toInt.natAbs (Int.natAbs_pos.mpr hb)
      have one : (-1 : Int64).toInt = -1 := rfl
      rw [whole] at product
      omega
    · rintro ⟨rfl, rfl⟩
      decide

/-- The remainder of a quotient rounded toward zero, with the divisor added where their signs differ. -/
def corrected (a b : Int) : Int :=
  if a.tmod b ≠ 0 ∧ (a.tmod b < 0) ≠ (b < 0) then a.tmod b + b else a.tmod b

lemma yields_corrected {a b : Int} (hb : b ≠ 0) : modulo.Yields a b (corrected a b) := by
  have whole : a = b * a.tdiv b + a.tmod b := (Int.mul_tdiv_add_tmod a b).symm
  have smaller : (a.tmod b).natAbs < b.natAbs := by
    rw [Int.natAbs_tmod]
    exact Nat.mod_lt _ (Int.natAbs_pos.mpr hb)
  unfold corrected
  split
  · next signs =>
    rw [ne_eq (_ < _), eq_iff_iff] at signs
    refine ⟨a.tdiv b - 1, ⟨?_, by omega⟩, by omega, by omega⟩
    rw [Int.mul_sub, Int.mul_one]
    omega
  · next signs =>
    rw [ne_eq (_ < _), eq_iff_iff] at signs
    exact ⟨a.tdiv b, ⟨whole, smaller⟩, by omega, by omega⟩

lemma modulus?_of_quotient {a b : Int64} (h : quotient? a b ≠ none) :
    modulus? a b = fit? (corrected a.toInt b.toInt) := by
  obtain ⟨q, hq⟩ := Option.ne_none_iff_exists'.mp h
  have rest : (a % b).toInt = a.toInt.tmod b.toInt := Int64.toInt_mod a b
  rw [modulus?, remainder?, hq, Option.map_some, Option.bind_some, corrected]
  simp only [← rest, ← toInt_ne_zero_iff, Int64.lt_iff_toInt_lt, Int64.toInt_zero]
  split
  · rfl
  · exact (fit?_eq_some_iff.mpr rfl).symm

lemma modulus?_eq_some_iff {a b r : Int64} :
    modulus? a b = some r ↔
      modulo.Yields a.toInt b.toInt r.toInt ∧ ¬(a = Int64.minValue ∧ b = -1) := by
  cases quotient : quotient? a b with
  | none =>
    rw [modulus?, remainder?, quotient, Option.map_none, Option.bind_none]
    obtain zero | missed := quotient?_eq_none_iff.mp quotient
    · simp [yields_modulo_iff, zero]
    · simp [missed]
  | some q =>
    have there : quotient? a b ≠ none := quotient ▸ Option.some_ne_none q
    obtain ⟨nonzero, kept⟩ := not_or.mp (mt quotient?_eq_none_iff.mpr there)
    have result := yields_corrected (a := a.toInt) (toInt_ne_zero_iff.mpr nonzero)
    rw [modulus?_of_quotient there, fit?_eq_some_iff, and_iff_left kept]
    exact ⟨fun same => same ▸ result, fun yields => yields.unique result⟩

lemma modulus?_eq (a b : Int64) :
    modulus? a b =
      if b = 0 ∨ (a = Int64.minValue ∧ b = -1) then none else fit? (a.toInt.fmod b.toInt) := by
  refine Option.ext fun r => ?_
  rw [modulus?_eq_some_iff, yields_modulo_iff, toInt_ne_zero_iff]
  split
  · next refused => simp; tauto
  · next accepted =>
    rw [not_or] at accepted
    simp [accepted, fit?_eq_some_iff]

lemma not_fits_pow {a : Int} {n : Nat} (ha : 2 ≤ a.natAbs) (hn : 64 ≤ n) : ¬Fits (a ^ n) := by
  have large : 2 ^ 64 ≤ (a ^ n).natAbs := by
    rw [Int.natAbs_pow]
    calc 2 ^ 64 ≤ 2 ^ n := Nat.pow_le_pow_right (by decide) hn
      _ ≤ a.natAbs ^ n := Nat.pow_le_pow_left ha n
  rintro ⟨lower, upper⟩
  have hmin : Int64.minValue.toInt = -2 ^ 63 := rfl
  have hmax : Int64.maxValue.toInt = 2 ^ 63 - 1 := rfl
  omega

lemma pow_eq_of_small {a : Int} {n : Nat} (ha : a.natAbs ≤ 1) (hn : 0 < n) :
    a ^ (2 - n % 2) = a ^ n := by
  obtain rfl | rfl | rfl : a = 0 ∨ a = 1 ∨ a = -1 := by omega
  · rw [zero_pow (by omega), zero_pow (by omega)]
  · rw [one_pow, one_pow]
  · obtain ⟨m, rfl | rfl⟩ := n.even_or_odd'
    · rw [Nat.mul_mod_right, pow_mul, neg_one_sq, one_pow]
    · rw [Nat.mul_add_mod, pow_succ (-1) (2 * m), pow_mul, neg_one_sq, one_pow]
      rfl

lemma power?_eq_some_iff {a b : Int} {r : Int64} :
    power? a b = some r ↔ power.Yields a b r.toInt ∧ ¬(exponentLimit ≤ b ∧ a.natAbs ≤ 1) := by
  have hlimit : exponentLimit = 4294967296 := rfl
  have large (ha : 2 ≤ a.natAbs) (hb : 64 ≤ b) : r.toInt ≠ a ^ b.toNat := fun heq =>
    not_fits_pow ha (n := b.toNat) (by omega) (heq ▸ fits_iff.mpr ⟨r, rfl⟩)
  unfold power?
  split
  · next outside =>
    refine ⟨by simp, ?_⟩
    rintro ⟨⟨nonneg, heq⟩, kept⟩
    exact absurd heq (large (by omega) (by omega))
  · next inside =>
    split
    · next short =>
      rw [fit?_eq_some_iff]
      exact ⟨fun heq => ⟨⟨by omega, heq⟩, by omega⟩, fun h => h.1.2⟩
    · next long =>
      split
      · next small =>
        rw [fit?_eq_some_iff]
        change r.toInt = a ^ (2 - b.toNat % 2) ↔ _
        rw [pow_eq_of_small small (by omega)]
        exact ⟨fun heq => ⟨⟨by omega, heq⟩, by omega⟩, fun h => h.1.2⟩
      · next big =>
        refine ⟨by simp, ?_⟩
        rintro ⟨⟨-, heq⟩, -⟩
        exact absurd heq (large (by omega) (by omega))

lemma onIntegers_eq_some_iff {op : Arithmetic} {a b r : Int64} :
    op.onIntegers a b = some r ↔ op.Yields a.toInt b.toInt r.toInt ∧ ¬op.Misses a b := by
  cases op with
  | divide =>
    rw [onIntegers, quotient?, yields_divide_iff, toInt_ne_zero_iff]
    split
    · next hb => simp [hb]
    · next hb => simp [hb, fit?_eq_some_iff, Misses]
  | modulo => exact modulus?_eq_some_iff
  | power => exact power?_eq_some_iff
  | _ => simp [onIntegers, fit?_eq_some_iff, Yields, Misses]

lemma onIntegers_eq_none_iff {op : Arithmetic} {a b : Int64} :
    op.onIntegers a b = none ↔
      op.IsUndefined b.toInt ∨ (∃ n, op.Yields a.toInt b.toInt n ∧ ¬Fits n) ∨ op.Misses a b := by
  rw [Option.eq_none_iff_forall_ne_some]
  simp only [Ne, onIntegers_eq_some_iff]
  constructor
  · intro refused
    by_cases missed : op.Misses a b
    · exact .inr (.inr missed)
    by_cases undefined : op.IsUndefined b.toInt
    · exact .inl undefined
    obtain ⟨n, result⟩ := exists_yields_iff.mpr undefined
    refine .inr (.inl ⟨n, result, fun fits => ?_⟩)
    obtain ⟨r, rfl⟩ := fits_iff.mp fits
    exact refused r ⟨result, missed⟩
  · rintro (undefined | ⟨n, large, unfit⟩ | missed) r ⟨result, kept⟩
    · exact exists_yields_iff.mp ⟨_, result⟩ undefined
    · obtain rfl := large.unique result
      exact unfit (fits_iff.mpr ⟨r, rfl⟩)
    · exact kept missed

lemma Misses.exists_fitting {op : Arithmetic} {a b : Int64} (h : op.Misses a b) :
    ∃ n, op.Yields a.toInt b.toInt n ∧ Fits n := by
  cases op with
  | modulo =>
    obtain ⟨rfl, rfl⟩ := h
    exact ⟨0, yields_modulo_iff.mpr (by decide), fits_iff.mpr ⟨0, rfl⟩⟩
  | power =>
    obtain ⟨long, small⟩ := h
    have hlimit : exponentLimit = 4294967296 := rfl
    refine ⟨a.toInt ^ b.toInt.toNat, ⟨by omega, rfl⟩, ?_⟩
    have bound : (a.toInt ^ b.toInt.toNat).natAbs ≤ 1 := by
      rw [Int.natAbs_pow]
      exact pow_le_one₀ (Nat.zero_le _) small
    have hmin : Int64.minValue.toInt = -2 ^ 63 := rfl
    have hmax : Int64.maxValue.toInt = 2 ^ 63 - 1 := rfl
    constructor <;> omega
  | _ => cases h

lemma evaluate_of_integers {known : Oracle} {env : Environment} {name : String} {op : Arithmetic}
    {p : Nat} {s t : Term} {a b : Int64}
    (operator : BinaryOperation.ofName? name = some (.arithmetic op)) (hp : p ≠ 0)
    (left : evaluate known s env = .int a) (right : evaluate known t env = .int b) :
    evaluate known (.compound name [s, t] p) env =
      ((op.onIntegers a b).map .int).getD (.compound name [.int a, .int b] p) := by
  have computed : Evaluation.operation? known name [.int a, .int b] =
      (op.onIntegers a b).map .int := by
    change Evaluation.binary? known name _ _ = _
    rw [Evaluation.binary?, operator]
    rfl
  rw [evaluate] at left right ⊢
  rw [Environment.substitute_compound, Term.reduce, Term.reduceAll_eq, if_neg hp]
  simp only [List.map_cons, List.map_nil, left, right, computed]

/-- Integer arithmetic is exact or left alone. An operation returns a result exactly if this is
the exact one and is not missed, which only happens to results that fit; so an expression between
two integers has the exact result as its value, or it stays as it is because it is undefined,
because its result does not fit or because that is missed. -/
theorem onIntegers_exact (op : Arithmetic) (a b : Int64) :
    (∀ r, op.onIntegers a b = some r ↔
      op.Yields a.toInt b.toInt r.toInt ∧ ¬op.Misses a b) ∧
    (op.Misses a b → ∃ n, op.Yields a.toInt b.toInt n ∧ Fits n) ∧
    ∀ (known : Oracle) (env : Environment) (name : String) (p : Nat) (s t : Term),
      BinaryOperation.ofName? name = some (.arithmetic op) → p ≠ 0 →
      evaluate known s env = .int a → evaluate known t env = .int b →
        (∀ r, evaluate known (.compound name [s, t] p) env = .int r ↔
          op.Yields a.toInt b.toInt r.toInt ∧ ¬op.Misses a b) ∧
        (evaluate known (.compound name [s, t] p) env = .compound name [.int a, .int b] p ↔
          op.IsUndefined b.toInt ∨ (∃ n, op.Yields a.toInt b.toInt n ∧ ¬Fits n) ∨
            op.Misses a b) := by
  refine ⟨fun r => onIntegers_eq_some_iff, Misses.exists_fitting, ?_⟩
  intro known env name p s t operator hp left right
  rw [evaluate_of_integers operator hp left right, ← onIntegers_eq_none_iff]
  simp only [← onIntegers_eq_some_iff]
  cases op.onIntegers a b with
  | none => simp
  | some r => simp

/-- The modulus of a product takes the sign of its divisor. -/
theorem onIntegers_exact_modulus :
    let product := Term.compound "*" [.int 2, .int 3] 400
    BinaryOperation.ofName? "mod" = some (.arithmetic modulo) ∧
      evaluate .nothing product .empty = .int 6 ∧
      evaluate .nothing (.int (-4)) .empty = .int (-4) ∧ modulo.Yields 6 (-4) (-2) ∧
      evaluate .nothing (.compound "mod" [product, .int (-4)] 400) .empty = .int (-2) := by
  intro product
  have left : evaluate .nothing product .empty = .int 6 := rfl
  have right : evaluate .nothing (.int (-4)) .empty = .int (-4) := rfl
  have yields : modulo.Yields 6 (-4) (-2) := yields_modulo_iff.mpr (by decide)
  refine ⟨rfl, left, right, yields, ?_⟩
  exact (((onIntegers_exact modulo 6 (-4)).2.2 .nothing .empty "mod" 400 product (.int (-4)) rfl
    (by decide) left right).1 (-2)).mpr ⟨yields, fun missed => absurd missed.1 (by decide)⟩

/-- The modulus of the least integer by -1 is zero and every power of 1 is 1, but neither is
returned here. -/
theorem fitting_results_missed :
    modulo.Yields Int64.minValue.toInt (-1) 0 ∧ modulo.onIntegers Int64.minValue (-1) = none ∧
      power.Yields 1 exponentLimit 1 ∧ power.onIntegers 1 (.ofInt exponentLimit) = none :=
  ⟨yields_modulo_iff.mpr (by decide), by decide, ⟨by decide, (one_pow _).symm⟩, by decide⟩

end Arithmetic
end ConstraintHandling
