import ConstraintHandling.Proofs.Arithmetic
import ConstraintHandling.Proofs.Environment.Chase
import ConstraintHandling.Proofs.Search.Combination
import ConstraintHandling.Proofs.Session.Chronicle
import ConstraintHandling.Proofs.Store.Live
import ConstraintHandling.Proofs.Unification.Depth

/-! Programs on constraints that hold one number each. A head with a variable matches all of them and
binds the variable to the number; what guards and bodies compute from such bindings stays within the
natural numbers of a word. -/
namespace ConstraintHandling

/-- The natural numbers of a word are smaller than this power of two, the 63rd. -/
def wordLimit : Nat := 9223372036854775808

section Words
variable {k l : Nat}

lemma toInt_ofNat (h : k < wordLimit) : (Int64.ofNat k).toInt = k :=
  Int64.toInt_ofNat_of_lt h

lemma ofNat_inj (hk : k < wordLimit) (hl : l < wordLimit) :
    Int64.ofNat k = Int64.ofNat l ↔ k = l := by
  rw [← Int64.toInt_inj, toInt_ofNat hk, toInt_ofNat hl, Int.ofNat_inj]

lemma ofNat_toNat {i : Int64} (h : 0 ≤ i) :
    i.toInt.toNat < wordLimit ∧ Int64.ofNat i.toInt.toNat = i := by
  have low : (0 : Int) ≤ i.toInt := Int64.le_iff_toInt_le.mp h
  have high : i.toInt < (wordLimit : Int) := Int64.toInt_lt i
  have small : i.toInt.toNat < wordLimit := by omega
  refine ⟨small, Int64.toInt_inj.mp ?_⟩
  rw [toInt_ofNat small, Int.toNat_of_nonneg low]

lemma ofNat_le_ofNat (hk : k < wordLimit) (hl : l < wordLimit) :
    Int64.ofNat k ≤ Int64.ofNat l ↔ k ≤ l := by
  rw [Int64.le_iff_toInt_le, toInt_ofNat hk, toInt_ofNat hl, Int.ofNat_le]

lemma fit?_natCast (h : k < wordLimit) : fit? (k : Int) = some (.ofNat k) := by
  have low : Int64.minValue.toInt ≤ (k : Int) := by
    have : Int64.minValue.toInt = -9223372036854775808 := rfl
    omega
  have high : (k : Int) ≤ Int64.maxValue.toInt := by
    have : Int64.maxValue.toInt = 9223372036854775807 := rfl
    have : wordLimit = 9223372036854775808 := rfl
    omega
  rw [fit?, if_pos ⟨low, high⟩]
  rfl

lemma modulo_ofNat (hk : k < wordLimit) (hl : l < wordLimit) (positive : 0 < l) :
    Arithmetic.modulo.apply (.int (.ofNat k)) (.int (.ofNat l)) = some (.int (.ofNat (k % l))) := by
  have nonzero : Int64.ofNat l ≠ 0 := fun heq =>
    positive.ne' ((ofNat_inj hl (by decide)).mp heq)
  have above : Int64.ofNat k ≠ Int64.minValue := by
    intro heq
    have := congrArg Int64.toInt heq
    rw [toInt_ofNat hk] at this
    have : Int64.minValue.toInt = -9223372036854775808 := rfl
    omega
  have small : k % l < wordLimit := (Nat.mod_le k l).trans_lt hk
  simp only [Arithmetic.apply, Arithmetic.onIntegers, Arithmetic.modulus?_eq, nonzero, above,
    false_and, or_self, if_false, toInt_ofNat hk, toInt_ofNat hl, ← Int.ofNat_fmod,
    fit?_natCast small, Option.map_some]

lemma subtract_one_ofNat (hk : k < wordLimit) (positive : 0 < k) :
    Arithmetic.subtract.apply (.int (.ofNat k)) (.int 1) = some (.int (.ofNat (k - 1))) := by
  have value : (k : Int) - 1 = ((k - 1 : Nat) : Int) := by omega
  have one : (1 : Int64).toInt = 1 := rfl
  simp only [Arithmetic.apply, Arithmetic.onIntegers, toInt_ofNat hk, one, value,
    fit?_natCast (show k - 1 < wordLimit by omega), Option.map_some]

lemma order_ofNat (hk : k < wordLimit) (hl : l < wordLimit) :
    Comparison.order? (.int (.ofNat k)) (.int (.ofNat l)) = some (compare k l) := by
  have same : compare (k : Int) (l : Int) = compare k l := by
    simp only [compare, compareOfLessAndEq, Int.ofNat_lt, Int.ofNat_inj]
  simp only [Comparison.order?, toInt_ofNat hk, toInt_ofNat hl, same]

lemma greater_ofNat (hk : k < wordLimit) (hl : l < wordLimit) :
    Comparison.greater.apply (.int (.ofNat k)) (.int (.ofNat l)) = some (decide (l < k)) := by
  rw [Comparison.apply, order_ofNat hk hl, Option.map_some, Comparison.holdsFor]
  congr 1
  rw [Bool.eq_iff_iff, beq_iff_eq, decide_eq_true_eq, compare_gt_iff_gt]

lemma atMost_ofNat (hk : k < wordLimit) (hl : l < wordLimit) :
    Comparison.atMost.apply (.int (.ofNat k)) (.int (.ofNat l)) = some (decide (k ≤ l)) := by
  rw [Comparison.apply, order_ofNat hk hl, Option.map_some, Comparison.holdsFor]
  congr 1
  rw [Bool.eq_iff_iff, bne_iff_ne, decide_eq_true_eq, compare_le_iff_le]

lemma settledEqual?_ofNat (hk : k < wordLimit) (hl : l < wordLimit) :
    settledEqual? (.int (.ofNat k)) (.int (.ofNat l)) = some (decide (k = l)) := by
  have numbers : ((Term.int (.ofNat k)).isNumber && (Term.int (.ofNat l)).isNumber) = true := rfl
  rw [settledEqual?, if_pos numbers, order_ofNat hk hl, Option.map_some]
  congr 1
  rw [Bool.eq_iff_iff, beq_iff_eq, decide_eq_true_eq, compare_eq_iff_eq]

end Words

lemma RuleBase.of_get?_pair {base : RuleBase} {a b r : Rule} {id : RuleId}
    (rules : base.rules = [a, b]) (h : base.get? id = some r) : id = 0 ∧ r = a ∨ id = 1 ∧ r = b := by
  rw [RuleBase.get?, rules] at h
  match id with
  | 0 => exact .inl ⟨rfl, (Option.some.inj h).symm⟩
  | 1 => exact .inr ⟨rfl, (Option.some.inj h).symm⟩
  | id + 2 => cases h

namespace Term

def number (f : String) (k : Nat) : Term :=
  ordinary f [.int (.ofNat k)]

def slot (f : String) (v : Variable) : Term :=
  ordinary f [.var v]

lemma number_inj {f : String} {k l : Nat} (hk : k < wordLimit) (hl : l < wordLimit) :
    number f k = number f l ↔ k = l := by
  rw [← ofNat_inj hk hl]
  simp [number, ordinary]

lemma of_number (f : String) (k : Nat) : Partition.of (number f k) = .ordinary := rfl

def heldNumber : Term → Nat
  | .compound _ [.int i] _ => i.toInt.toNat
  | _ => 0

lemma heldNumber_number (f : String) {k : Nat} (hk : k < wordLimit) :
    (number f k).heldNumber = k := by
  rw [number, ordinary, heldNumber, toInt_ofNat hk, Int.toNat_natCast]

end Term

namespace Unification

theorem unify_slot {f : String} {v : Variable} {k : Nat} {env : Environment}
    (unbound : env.lookup v = none) :
    unify (.slot f v) (.number f k) env = some (env.bind v (.int (.ofNat k))) := by
  have walked : env.chaseVisiting (.var v) = (.var v, [v]) := by
    rw [Environment.chaseVisiting, Environment.walk, unbound]
    simp
  have below : within 1 (.var v) (.int (.ofNat k)) env =
      .unified (env.bind v (.int (.ofNat k))) := by
    rw [within, walked, Environment.chaseVisiting_of_not_var env rfl]
    simp [bindChecked, occurs, Term.occurrences]
  refine unify_eq_some_iff.mpr ⟨2, ?_⟩
  rw [within, Environment.chaseVisiting_of_not_var env rfl,
    Environment.chaseVisiting_of_not_var env rfl]
  simp [Term.slot, Term.number, Term.ordinary, fold, below]

theorem unify_number {f : String} {k l : Nat} (hk : k < wordLimit) (hl : l < wordLimit)
    (env : Environment) :
    unify (.number f k) (.number f l) env = if k = l then some env else none := by
  have same : (Term.int (.ofNat k) == Term.int (.ofNat l)) = decide (k = l) := by
    change (Int64.ofNat k == Int64.ofNat l) = _
    rw [Bool.eq_iff_iff, beq_iff_eq, decide_eq_true_eq, ofNat_inj hk hl]
  have below : within 1 (.int (.ofNat k)) (.int (.ofNat l)) env =
      if k = l then .unified env else .clash := by
    rw [within, Environment.chaseVisiting_of_not_var env rfl,
      Environment.chaseVisiting_of_not_var env rfl]
    simp [same]
  have run : within 2 (.number f k) (.number f l) env = if k = l then .unified env else .clash := by
    rw [within, Environment.chaseVisiting_of_not_var env rfl,
      Environment.chaseVisiting_of_not_var env rfl]
    simp only [Term.number, Term.ordinary, List.length_singleton, and_self, if_true, fold, below]
    by_cases hkl : k = l
    · rw [if_pos hkl]
    · rw [if_neg hkl]
  rw [unify_eq_of_within (by rw [run]; split <;> simp), run]
  split <;> rfl

end Unification

namespace Store
variable {s : Store} {f : String}

structure HasLive (s : Store) (f : String) (c : ConstraintId) (k : Nat) : Prop where
  get : s.get? c = some (.number f k)
  live : s.isLive c = true

structure HoldsNumbers (s : Store) (f : String) : Prop extends InStep s where
  number : ∀ c t, s.get? c = some t → ∃ k < wordLimit, t = .number f k

lemma HoldsNumbers.hasLive (h : s.HoldsNumbers f) {c : ConstraintId} (live : s.isLive c = true) :
    ∃ k < wordLimit, s.HasLive f c k := by
  cases hget : s.get? c with
  | none => exact absurd (h.lt_size_of_isLive live) (Nat.not_lt.mpr (get?_eq_none_iff.mp hget))
  | some t =>
    obtain ⟨k, hk, rfl⟩ := h.number c t hget
    exact ⟨k, hk, hget, live⟩

def numbers (s : Store) : List Nat :=
  (s.liveTerms .ordinary).map Term.heldNumber

lemma InStep.numbers_insert (h : s.InStep) (f : String) {k : Nat} (hk : k < wordLimit) :
    (s.insert f (.number f k)).numbers = s.numbers ++ [k] := by
  rw [numbers, liveTerms, h.live_insert, if_pos (Term.of_number f k)]
  simp [numbers, liveTerms, Term.heldNumber_number f hk]

lemma HasLive.mem_live {c : ConstraintId} {k : Nat} (h : s.HasLive f c k) (inStep : s.InStep) :
    (c, Term.number f k) ∈ s.live .ordinary :=
  inStep.mem_live.mpr ⟨h.get, h.live, rfl⟩

lemma HasLive.consume {c d : ConstraintId} {k : Nat} (h : s.HasLive f d k) (hne : c ≠ d) :
    (s.consume c).HasLive f d k where
  get := (get?_consume s c d).trans h.get
  live := by simp [isLive_consume, h.live, hne]

lemma HasLive.perm_numbers {c : ConstraintId} {k : Nat} (h : s.HasLive f c k) (inStep : s.InStep)
    (hk : k < wordLimit) : s.numbers.Perm (k :: (s.consume c).numbers) := by
  have perm := ((inStep.perm_live_consume (h.mem_live inStep)).map Prod.snd).map Term.heldNumber
  rwa [List.map_cons, List.map_cons, Term.heldNumber_number f hk] at perm

lemma HasLive.mem_numbers {c : ConstraintId} {k : Nat} (h : s.HasLive f c k) (inStep : s.InStep)
    (hk : k < wordLimit) : k ∈ s.numbers :=
  (h.perm_numbers inStep hk).mem_iff.mpr List.mem_cons_self

lemma HoldsNumbers.insert (h : s.HoldsNumbers f) {k : Nat} (hk : k < wordLimit) :
    (s.insert f (.number f k)).HoldsNumbers f where
  toInStep := h.toInStep.insert f _
  number c t ht := by
    rw [get?_insert] at ht
    split at ht
    · exact ⟨k, hk, (Option.some.inj ht).symm⟩
    · exact h.number c t ht

lemma HoldsNumbers.consume (h : s.HoldsNumbers f) (id : ConstraintId) :
    (s.consume id).HoldsNumbers f where
  toInStep := h.toInStep.consume id
  number c t ht := by
    rw [get?_consume] at ht
    exact h.number c t ht

lemma HoldsNumbers.liveTerms_builtin (h : s.HoldsNumbers f) : s.liveTerms .builtin = [] := by
  rw [liveTerms, List.map_eq_nil_iff, List.eq_nil_iff_forall_not_mem]
  rintro ⟨c, t⟩ hc
  obtain ⟨get, -, builtin⟩ := h.mem_live.mp hc
  obtain ⟨k, -, rfl⟩ := h.number c t get
  cases builtin

lemma HasLive.canMatch_slot {c : ConstraintId} {k : Nat} (h : s.HasLive f c k) (v : Variable) :
    s.canMatch (.slot f v) c = true := by
  simp only [canMatch, sharesPartition, h.get]
  rfl

lemma HasLive.canMatch_number {c : ConstraintId} {k : Nat} (h : s.HasLive f c k) (l : Nat) :
    s.canMatch (.number f l) c = true := by
  simp only [canMatch, sharesPartition, h.get]
  rfl

end Store

namespace Search
variable {s : Store} {f : String} {cs : List ConstraintId} {env : Environment}

lemma unifyAll_cons {head : Term} {heads : List Term} {c : ConstraintId} {t : Term}
    (ht : s.get? c = some t) (env : Environment) :
    unifyAll s (head :: heads) (c :: cs) env =
      (unify head t env).bind fun env => unifyAll s heads cs env := by
  rw [unifyAll, ht]
  rfl

theorem combines_slot (h : s.HoldsNumbers f) {v : Variable} :
    Combines s s.canMatch [.slot f v] cs env ↔
      ∃ c k, k < wordLimit ∧ s.HasLive f c k ∧ cs = [c] ∧
        env = Environment.empty.bind v (.int (.ofNat k)) := by
  have unified : ∀ {c k}, s.HasLive f c k → unifyAll s [.slot f v] [c] .empty =
      some (Environment.empty.bind v (.int (.ofNat k))) := by
    intro c k hc
    rw [unifyAll_cons hc.get, Unification.unify_slot rfl]
    rfl
  constructor
  · intro combines
    obtain ⟨c, rfl⟩ := List.length_eq_one_iff.mp combines.length
    obtain ⟨k, hk, hc⟩ := h.hasLive (combines.live c (by simp))
    exact ⟨c, k, hk, hc, rfl, Option.some.inj (combines.unified.symm.trans (unified hc))⟩
  · rintro ⟨c, k, -, hc, rfl, rfl⟩
    exact ⟨rfl, List.nodup_singleton c, by simp [hc.live], by simp [hc.canMatch_slot], unified hc⟩

theorem combines_slots (h : s.HoldsNumbers f) {v w : Variable} (hvw : v ≠ w) :
    Combines s s.canMatch [.slot f v, .slot f w] cs env ↔
      ∃ c d k l, c ≠ d ∧ (k < wordLimit ∧ s.HasLive f c k) ∧ (l < wordLimit ∧ s.HasLive f d l) ∧
        cs = [c, d] ∧
        env = (Environment.empty.bind v (.int (.ofNat k))).bind w (.int (.ofNat l)) := by
  have unified : ∀ {c d k l}, s.HasLive f c k → s.HasLive f d l →
      unifyAll s [.slot f v, .slot f w] [c, d] .empty =
        some ((Environment.empty.bind v (.int (.ofNat k))).bind w (.int (.ofNat l))) := by
    intro c d k l hc hd
    have unbound : (Environment.empty.bind v (.int (.ofNat k))).lookup w = none :=
      Environment.lookup_bind_of_ne _ _ (Ne.symm hvw)
    rw [unifyAll_cons hc.get, Unification.unify_slot rfl, Option.bind_some, unifyAll_cons hd.get,
      Unification.unify_slot unbound]
    rfl
  constructor
  · intro combines
    obtain ⟨c, d, rfl⟩ := List.length_eq_two.mp combines.length
    obtain ⟨k, hk, hc⟩ := h.hasLive (combines.live c (by simp))
    obtain ⟨l, hl, hd⟩ := h.hasLive (combines.live d (by simp))
    have distinct : c ≠ d := by simpa using combines.distinct
    exact ⟨c, d, k, l, distinct, ⟨hk, hc⟩, ⟨hl, hd⟩, rfl,
      Option.some.inj (combines.unified.symm.trans (unified hc hd))⟩
  · rintro ⟨c, d, k, l, distinct, ⟨-, hc⟩, ⟨-, hd⟩, rfl, rfl⟩
    exact ⟨rfl, by simpa using distinct, by simp [hc.live, hd.live],
      by simp [hc.canMatch_slot, hd.canMatch_slot], unified hc hd⟩

theorem combines_number (h : s.HoldsNumbers f) {k : Nat} (hk : k < wordLimit) :
    Combines s s.canMatch [.number f k] cs env ↔
      ∃ c, s.HasLive f c k ∧ cs = [c] ∧ env = .empty := by
  have unified : ∀ {c l}, l < wordLimit → s.HasLive f c l → unifyAll s [.number f k] [c] .empty =
      if k = l then some .empty else none := by
    intro c l hl hc
    rw [unifyAll_cons hc.get, Unification.unify_number hk hl]
    split
    · rfl
    · rfl
  constructor
  · intro combines
    obtain ⟨c, rfl⟩ := List.length_eq_one_iff.mp combines.length
    obtain ⟨l, hl, hc⟩ := h.hasLive (combines.live c (by simp))
    have hunified := combines.unified
    rw [unified hl hc, Option.ite_none_right_eq_some] at hunified
    obtain ⟨rfl, henv⟩ := hunified
    exact ⟨c, hc, rfl, (Option.some.inj henv).symm⟩
  · rintro ⟨c, hc, rfl, rfl⟩
    exact ⟨rfl, List.nodup_singleton c, by simp [hc.live], by simp [hc.canMatch_number],
      by rw [unified hk hc, if_pos rfl]⟩

end Search

namespace Store

def insertNumbers (s : Store) (f : String) (ks : List Nat) : Store :=
  ks.foldl (fun s k => s.insert f (.number f k)) s

lemma HoldsNumbers.insertNumbers {s : Store} {f : String} (h : s.HoldsNumbers f) {ks : List Nat}
    (small : ∀ k ∈ ks, k < wordLimit) :
    (s.insertNumbers f ks).HoldsNumbers f ∧ (s.insertNumbers f ks).numbers = s.numbers ++ ks := by
  induction ks generalizing s with
  | nil => exact ⟨h, (List.append_nil _).symm⟩
  | cons k ks ih =>
    obtain ⟨hk, hks⟩ := List.forall_mem_cons.mp small
    obtain ⟨holds, numbers⟩ := ih (h.insert hk) hks
    rw [h.numbers_insert f hk, List.append_assoc] at numbers
    exact ⟨holds, numbers⟩

end Store

lemma assertGoals_numbers (s : Store) (f : String) (ks : List Nat) :
    (Session.assertGoals s (ks.map (Term.number f))).2 = s.insertNumbers f ks := by
  induction ks generalizing s with
  | nil => rfl
  | cons k ks ih => exact ih (s.insert f (.number f k))

theorem store_addGoals_numbers (s : Session) (f : String) (ks : List Nat) :
    (s.addGoals (ks.map (Term.number f))).2.store = s.store.insertNumbers f ks := by
  have value : ∀ k, evaluate .nothing ((Term.number f k).rename (s.lastScope + 1)) .empty =
      .number f k := by
    intro k
    rw [Term.number, Term.rename_ordinary, evaluate_ordinary]
    simp
  have values : ((ks.map (Term.number f)).map fun g =>
      evaluate .nothing (g.rename (s.lastScope + 1)) .empty) = ks.map (Term.number f) := by
    rw [List.map_map]
    exact List.map_congr_left fun k _ => value k
  have kept : ((ks.map (Term.number f)).filter fun t => !(t == .bool true)) =
      ks.map (Term.number f) := by
    rw [List.filter_eq_self, List.forall_mem_map]
    exact fun k _ => rfl
  rw [← assertGoals_numbers]
  change (Session.assertGoals s.store (((ks.map (Term.number f)).map fun g =>
    evaluate .nothing (g.rename (s.lastScope + 1)) .empty).filter fun t => !(t == .bool true))).2 = _
  rw [values, kept]

lemma store_obeyAll_numbers (j : Journal) (f : String) (kss : List (List Nat)) :
    (j.obeyAll (kss.map fun ks => .goals (ks.map (Term.number f)))).session.store =
      j.session.store.insertNumbers f kss.flatten := by
  induction kss generalizing j with
  | nil => rfl
  | cons ks kss ih =>
    have step := ih (j.obey (.goals (ks.map (Term.number f))))
    rw [Journal.obey, store_addGoals_numbers] at step
    rw [List.flatten_cons, Store.insertNumbers, List.foldl_append]
    exact step

end ConstraintHandling
