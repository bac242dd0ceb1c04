import ConstraintHandling.Proofs.Store.Growth
import ConstraintHandling.Proofs.Store.Live

/-! The views of a store agree. Which constraints a store holds, which of them are live and where they
are indexed can all be read off the changes that have made the store. -/
namespace ConstraintHandling

lemma Partition.of_eq_builtin_iff {t : Term} : Partition.of t = .builtin ↔ t.isOperator = true := by
  unfold Partition.of
  split <;> simp_all

namespace Store

section History
variable {changes : List Change} {s : Store} {c d : Change} {id : ConstraintId} {t : Term}

/-- The change was made on the store, which is one of those between the empty store and the last one. -/
def Made (changes : List Change) (s : Store) (c : Change) : Prop :=
  ∃ before after, changes = before ++ c :: after ∧ s = empty.changeAll before

/-- The term was taken when it was to be added, and was given the number. -/
def Asserted (changes : List Change) (id : ConstraintId) (t : Term) : Prop :=
  ∃ s s', Made changes s (.add t) ∧ s.add t = .ok (s', id)

/-- The number was that of a constraint when it was consumed. -/
def Consumed (changes : List Change) (id : ConstraintId) : Prop :=
  ∃ s, Made changes s (.consume id) ∧ id < s.size

lemma not_made_nil : ¬Made [] s c := by
  rintro ⟨before, after, split, -⟩
  simp at split

lemma made_append_singleton :
    Made (changes ++ [d]) s c ↔ Made changes s c ∨ s = empty.changeAll changes ∧ c = d := by
  constructor
  · rintro ⟨before, after, split, rfl⟩
    obtain rfl | ⟨after, last, rfl⟩ := List.eq_nil_or_concat after
    · obtain ⟨rfl, same⟩ := List.append_inj' split rfl
      exact .inr ⟨rfl, (List.singleton_inj.mp same).symm⟩
    · rw [List.concat_eq_append, ← List.cons_append, ← List.append_assoc] at split
      exact .inl ⟨before, after, (List.append_inj' split rfl).1, rfl⟩
  · rintro (⟨before, after, rfl, rfl⟩ | ⟨rfl, rfl⟩)
    · exact ⟨before, after ++ [d], by simp, rfl⟩
    · exact ⟨changes, [], rfl, rfl⟩

lemma changeAll_append_singleton (s : Store) (changes : List Change) (d : Change) :
    s.changeAll (changes ++ [d]) = (s.changeAll changes).change d :=
  changeAll_append s changes [d]

lemma Made.size_le (h : Made changes s c) : s.size ≤ (empty.changeAll changes).size := by
  obtain ⟨before, after, rfl, rfl⟩ := h
  have indexed := (reaches_changeAll empty before).indexed indexed_empty
  rw [changeAll_append]
  exact ((reaches_changeAll _ (c :: after)).extends indexed).size_le

lemma get?_change (s : Store) (d : Change) :
    (s.change d).get? id = some t ↔
      s.get? id = some t ∨ ∃ s', d = .add t ∧ s.add t = .ok (s', id) := by
  cases d with
  | consume other => simp [change]
  | add u =>
    simp only [change, Change.add.injEq]
    cases hadd : s.add u with
    | error refusal =>
      refine ⟨.inl, ?_⟩
      rintro (h | ⟨s', rfl, taken⟩)
      · exact h
      · rw [hadd] at taken
        cases taken
    | ok added =>
      obtain ⟨s', last⟩ := added
      obtain ⟨f, -, rfl, rfl⟩ := add_eq_ok_iff.mp hadd
      dsimp only
      rw [get?_insert]
      split
      · next here =>
        subst here
        have unknown : s.get? s.size = none := get?_eq_none_iff.mpr le_rfl
        simp only [Option.some.injEq, unknown, reduceCtorEq, false_or]
        constructor
        · rintro rfl
          exact ⟨_, rfl, hadd⟩
        · rintro ⟨-, same, -⟩
          exact same
      · next other =>
        refine ⟨.inl, ?_⟩
        rintro (h | ⟨s', -, taken⟩)
        · exact h
        · obtain ⟨-, -, -, last⟩ := add_eq_ok_iff.mp taken
          exact absurd last other

lemma InStep.isLive_change (h : s.InStep) (d : Change) :
    (s.change d).isLive id = true ↔
      s.isLive id = true ∧ d ≠ .consume id ∨ ∃ t s', d = .add t ∧ s.add t = .ok (s', id) := by
  cases d with
  | consume other =>
    simp only [change, isLive_consume, Bool.and_eq_true, bne_iff_ne]
    simp
  | add u =>
    simp only [change]
    cases hadd : s.add u with
    | error refusal => simp_all
    | ok added =>
      obtain ⟨s', last⟩ := added
      obtain ⟨f, -, rfl, rfl⟩ := add_eq_ok_iff.mp hadd
      have last : id = s.size ↔ s.size = id := eq_comm
      simp only [h.isLive_insert, Bool.or_eq_true, beq_iff_eq]
      simp [hadd, or_comm, last]

lemma exists_get?_iff : (∃ t, s.get? id = some t) ↔ id < s.size := by
  rw [← Option.isSome_iff_exists, ← not_iff_not, Option.not_isSome_iff_eq_none, get?_eq_none_iff,
    Nat.not_lt]

lemma lt_size_change (s : Store) (d : Change) :
    id < (s.change d).size ↔ id < s.size ∨ ∃ t s', d = .add t ∧ s.add t = .ok (s', id) := by
  rw [← exists_get?_iff, ← exists_get?_iff, ← exists_or]
  exact exists_congr fun t => get?_change s d

theorem get?_changeAll (changes : List Change) (id : ConstraintId) (t : Term) :
    (empty.changeAll changes).get? id = some t ↔ Asserted changes id t := by
  induction changes using List.reverseRecOn with
  | nil => simp [changeAll, get?, empty, Asserted, not_made_nil]
  | append_singleton changes d ih =>
    simp only [changeAll_append_singleton, get?_change, ih, Asserted, made_append_singleton]
    grind

theorem isLive_changeAll (changes : List Change) (id : ConstraintId) :
    (empty.changeAll changes).isLive id = true ↔
      id < (empty.changeAll changes).size ∧ ¬Consumed changes id := by
  induction changes using List.reverseRecOn with
  | nil => simp [changeAll, isLive, empty, size]
  | append_singleton changes d ih =>
    have known : Consumed changes id → id < (empty.changeAll changes).size := by
      rintro ⟨s, made, hid⟩
      exact hid.trans_le made.size_le
    have later : Consumed (changes ++ [d]) id ↔
        Consumed changes id ∨ d = .consume id ∧ id < (empty.changeAll changes).size := by
      simp only [Consumed, made_append_singleton]
      grind
    have new (t : Term) (s' : Store) (taken : (empty.changeAll changes).add t = .ok (s', id)) :
        id = (empty.changeAll changes).size := by
      obtain ⟨-, -, -, last⟩ := add_eq_ok_iff.mp taken
      exact last
    have inStep := ((reaches_changeAll empty changes).indexed indexed_empty).toInStep
    rw [changeAll_append_singleton, inStep.isLive_change, ih, later, lt_size_change]
    grind

end History

/-- What a store shows from all sides, when the changes have made it from the empty store. -/
structure ViewsAgree (changes : List Change) (s : Store) : Prop where
  /-- A number below the size has the term that was added under it. -/
  terms : ∀ id t, s.get? id = some t ↔ Asserted changes id t
  numbers : ∀ id, id < s.size ↔ ∃ t, Asserted changes id t
  /-- The live constraints of the two partitions are those that have never been consumed. -/
  increasing : ∀ partition, ((s.live partition).map Prod.fst).Pairwise (· < ·)
  disjoint : ((s.live .ordinary).map Prod.fst).Disjoint ((s.live .builtin).map Prod.fst)
  union : ∀ id, id ∈ (s.live .ordinary).map Prod.fst ∨ id ∈ (s.live .builtin).map Prod.fst ↔
    id < s.size ∧ ¬Consumed changes id
  partition : ∀ partition, ∀ c ∈ s.live partition,
    s.get? c.1 = some c.2 ∧ (partition = .builtin ↔ c.2.isOperator = true)
  count : s.liveCount = (s.live .ordinary).length + (s.live .builtin).length
  /-- Every constraint, live or not, is indexed once by its functor and once by its first argument. -/
  functor : ∀ id t, s.get? id = some t → t.functor?.isSome
  allOf : ∀ id t, s.get? id = some t → ∀ partition f, (s.allOf partition f).toList.count id =
    if Partition.of t = partition ∧ t.functor? = some f then 1 else 0
  bucket : ∀ id t, s.get? id = some t → ∀ partition f key,
    (s.bucket partition f key).toList.count id =
      if Partition.of t = partition ∧ t.functor? = some f ∧ FirstArgument.ofConstraint t = key
      then 1 else 0
  /-- A term that is refused leaves everything as it is. -/
  refused : ∀ t refusal, s.add t = .error refusal → s.change (.add t) = s

section Views
variable {s : Store} {id : ConstraintId} {t : Term} {partition : Partition}

lemma InStep.mem_map_fst_live (h : s.InStep) :
    id ∈ (s.live partition).map Prod.fst ↔
      s.isLive id = true ∧ ∃ t, s.get? id = some t ∧ Partition.of t = partition := by
  simp only [List.mem_map, Prod.exists, exists_and_right, exists_eq_right, h.mem_live]
  grind

lemma InStep.length_live (h : s.InStep) (partition : Partition) :
    (s.live partition).length = (List.range s.size).countP fun id =>
      s.isLive id && (s.get? id).any fun t => Partition.of t == partition := by
  rw [h.live_eq, List.length_filterMap_eq_countP]
  refine List.countP_congr fun id _ => ?_
  rw [liveAt]
  cases s.get? id <;> simp [Option.isSome_ite]

lemma InStep.liveCount_eq (h : s.InStep) : s.liveCount = (List.range s.size).countP s.isLive := by
  have numbered : s.consumed.toList.map some = (List.range s.size).map (s.consumed[·]?) := by
    refine List.ext_getElem? fun id => ?_
    rw [List.getElem?_map, List.getElem?_map, Array.getElem?_toList, ← h.flags]
    by_cases known : id < s.consumed.size <;> simp [known]
  have flags : s.consumed.toList.countP (!·) =
      (s.consumed.toList.map some).countP fun flag => flag.any (!·) := by
    rw [List.countP_map]
    rfl
  rw [liveCount, ← Array.countP_toList, flags, numbered, List.countP_map]
  refine List.countP_congr fun id _ => ?_
  rw [Function.comp_apply, isLive]
  cases s.consumed[id]? <;> rfl

lemma InStep.liveCount_eq_add (h : s.InStep) :
    s.liveCount = (s.live .ordinary).length + (s.live .builtin).length := by
  rw [h.liveCount_eq, h.length_live, h.length_live]
  have listed : ∀ id ∈ List.range s.size, ∃ t, s.get? id = some t :=
    fun id hid => exists_get?_iff.mpr (List.mem_range.mp hid)
  generalize List.range s.size = ids at listed ⊢
  induction ids with
  | nil => rfl
  | cons id ids ih =>
    obtain ⟨⟨t, stored⟩, listed⟩ := List.forall_mem_cons.mp listed
    rw [List.countP_cons, List.countP_cons, List.countP_cons, ih listed, stored, Option.any_some,
      Option.any_some]
    cases s.isLive id <;> cases Partition.of t <;> simp +arith

lemma count_idsWhere (h : s.get? id = some t) (p : Term → Bool) :
    (s.idsWhere p).count id = if p t = true then 1 else 0 := by
  rw [List.Nodup.count (nodup_idsWhere s p)]
  simp [mem_idsWhere, h]

end Views

/-- All views of a store agree with each other and with what was done to it. -/
theorem views_agree (changes : List Change) : ViewsAgree changes (empty.changeAll changes) := by
  have indexed := (reaches_changeAll empty changes).indexed indexed_empty
  have inStep := indexed.toInStep
  exact {
    terms := get?_changeAll changes
    numbers id := by
      rw [← exists_get?_iff]
      exact exists_congr (get?_changeAll changes id)
    increasing := inStep.pairwise_live
    disjoint := by
      intro id ordinary builtin
      obtain ⟨-, t, stored, ht⟩ := inStep.mem_map_fst_live.mp ordinary
      obtain ⟨-, u, known, hu⟩ := inStep.mem_map_fst_live.mp builtin
      obtain rfl : t = u := Option.some.inj (stored.symm.trans known)
      rw [ht] at hu
      cases hu
    union id := by
      rw [inStep.mem_map_fst_live, inStep.mem_map_fst_live, ← isLive_changeAll, ← and_or_left]
      refine ⟨And.left, fun live => ⟨live, ?_⟩⟩
      obtain ⟨t, stored⟩ := exists_get?_iff.mpr (inStep.lt_size_of_isLive live)
      cases h : Partition.of t with
      | ordinary => exact .inl ⟨t, stored, h⟩
      | builtin => exact .inr ⟨t, stored, h⟩
    partition partition c hc := by
      obtain ⟨stored, -, rfl⟩ := inStep.mem_live.mp hc
      exact ⟨stored, Partition.of_eq_builtin_iff⟩
    count := inStep.liveCount_eq_add
    functor := indexed.functor
    allOf id t stored partition f := by
      rw [indexed.allOf, count_idsWhere stored]
      simp [hasFunctor, and_comm]
    bucket id t stored partition f key := by
      rw [indexed.bucket, count_idsWhere stored]
      simp [hasFunctor, and_assoc, and_left_comm]
    refused t refusal h := by
      rw [change, h] }

end Store
end ConstraintHandling
