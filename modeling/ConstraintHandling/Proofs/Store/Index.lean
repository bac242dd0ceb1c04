import ConstraintHandling.Store.Basic
import Mathlib.Data.List.Sort

/-! The containers of a store. The flags and the lists of numbers go with the terms, and the indexes
hold, for every key, exactly the constraints that have it, in increasing order; so the candidates for
a head are the constraints that satisfy a property of their own terms, whether they have been consumed
or not. -/
namespace ConstraintHandling
namespace Store

/-- The numbers of the constraints that have a property, in increasing order. -/
def idsWhere (s : Store) (p : Term → Bool) : List ConstraintId :=
  (List.range s.size).filter fun id => (s.get? id).any p

/-- Every constraint has a flag, and the lists hold the numbers of their partitions in increasing
order. -/
structure InStep (s : Store) : Prop where
  flags : s.consumed.size = s.size
  listed : ∀ partition, (s.ids partition).toList = s.idsWhere fun t => Partition.of t == partition

section Fields
variable (s : Store) (f : String) (t : Term) (id : ConstraintId) (partition : Partition)

lemma terms_insert : (s.insert f t).terms = s.terms.push t := rfl

lemma consumed_insert : (s.insert f t).consumed = s.consumed.push false := rfl

lemma ids_insert : (s.insert f t).ids partition =
    if Partition.of t = partition then (s.ids partition).push s.size else s.ids partition := by
  cases partition <;> rfl

lemma terms_consume : (s.consume id).terms = s.terms := rfl

lemma consumed_consume : (s.consume id).consumed = s.consumed.setIfInBounds id true := rfl

lemma ids_consume : (s.consume id).ids partition = s.ids partition := rfl

lemma allOf_insert (g : String) : (s.insert f t).allOf partition g =
    if (⟨Partition.of t, f⟩ : FunctorKey) = ⟨partition, g⟩
    then (s.allOf partition g).push s.size else s.allOf partition g :=
  Buckets.get_push ..

lemma bucket_insert (g : String) (key : FirstArgument) : (s.insert f t).bucket partition g key =
    if (⟨Partition.of t, f, .ofConstraint t⟩ : BucketKey) = ⟨partition, g, key⟩
    then (s.bucket partition g key).push s.size else s.bucket partition g key :=
  Buckets.get_push ..

end Fields

lemma get?_eq_none_iff {s : Store} {id : ConstraintId} : s.get? id = none ↔ s.size ≤ id := by
  simp [get?, size]

lemma lt_size_of_get? {s : Store} {id : ConstraintId} {t : Term} (h : s.get? id = some t) :
    id < s.size := by
  by_contra hge
  rw [get?_eq_none_iff.mpr (Nat.le_of_not_lt hge)] at h
  cases h

lemma get?_insert (s : Store) (f : String) (t : Term) (id : ConstraintId) :
    (s.insert f t).get? id = if id = s.size then some t else s.get? id := by
  rw [get?, terms_insert, Array.getElem?_push]
  rfl

@[simp] lemma get?_consume (s : Store) (id other : ConstraintId) :
    (s.consume id).get? other = s.get? other := rfl

lemma isLive_consume (s : Store) (id other : ConstraintId) :
    (s.consume id).isLive other = (s.isLive other && id != other) := by
  rw [isLive, consumed_consume, Array.getElem?_setIfInBounds, isLive]
  by_cases same : id = other
  · subst same
    split <;> simp_all
  · simp [same]

lemma InStep.isLive_insert {s : Store} (h : s.InStep) (f : String) (t : Term) (id : ConstraintId) :
    (s.insert f t).isLive id = (id == s.size || s.isLive id) := by
  rw [isLive, consumed_insert, Array.getElem?_push, h.flags]
  by_cases last : id = s.size <;> simp [last, isLive]

lemma InStep.lt_size_of_isLive {s : Store} (h : s.InStep) {id : ConstraintId}
    (live : s.isLive id = true) : id < s.size := by
  rw [← h.flags]
  by_contra outside
  rw [isLive, Array.getElem?_eq_none (Nat.le_of_not_lt outside)] at live
  cases live

@[simp] lemma mem_idsWhere {s : Store} {p : Term → Bool} {id : ConstraintId} :
    id ∈ s.idsWhere p ↔ ∃ t, s.get? id = some t ∧ p t = true := by
  simp only [idsWhere, List.mem_filter, List.mem_range, Option.any_eq_true]
  constructor
  · exact fun h => h.2
  · rintro ⟨t, h, hp⟩
    exact ⟨lt_size_of_get? h, t, h, hp⟩

lemma pairwise_idsWhere (s : Store) (p : Term → Bool) : (s.idsWhere p).Pairwise (· < ·) :=
  List.Pairwise.filter _ List.pairwise_lt_range

lemma nodup_idsWhere (s : Store) (p : Term → Bool) : (s.idsWhere p).Nodup :=
  (pairwise_idsWhere s p).imp fun h => Nat.ne_of_lt h

lemma idsWhere_prefix {s s' : Store} (size_le : s.size ≤ s'.size)
    (get : ∀ id < s.size, s'.get? id = s.get? id) (p : Term → Bool) :
    ∃ later, s'.idsWhere p = s.idsWhere p ++ later ∧ ∀ id ∈ later, s.size ≤ id := by
  obtain ⟨n, hn⟩ := Nat.exists_eq_add_of_le size_le
  refine ⟨((List.range n).map (s.size + ·)).filter fun id => (s'.get? id).any p, ?_, ?_⟩
  · rw [idsWhere, hn, List.range_add, List.filter_append, idsWhere]
    congr 1
    apply List.filter_congr
    intro id hid
    rw [get id (List.mem_range.mp hid)]
  · intro id hid
    obtain ⟨hid, -⟩ := List.mem_filter.mp hid
    obtain ⟨k, -, rfl⟩ := List.mem_map.mp hid
    omega

lemma idsWhere_insert (s : Store) (f : String) (t : Term) (p : Term → Bool) :
    (s.insert f t).idsWhere p = s.idsWhere p ++ if p t then [s.size] else [] := by
  rw [idsWhere, size_insert, List.range_succ, List.filter_append, idsWhere]
  congr 1
  · apply List.filter_congr
    intro id hid
    rw [get?_insert, if_neg (List.mem_range.mp hid).ne]
  · simp [List.filter_cons, get?_insert]

@[simp] lemma idsWhere_consume (s : Store) (id : ConstraintId) (p : Term → Bool) :
    (s.consume id).idsWhere p = s.idsWhere p := by
  simp [idsWhere]

lemma perm_mergeIds (xs ys : List ConstraintId) : (mergeIds xs ys).Perm (xs ++ ys) := by
  induction xs generalizing ys with
  | nil => exact .refl _
  | cons x xs ihx =>
    induction ys with
    | nil => rw [mergeIds_nil, List.append_nil]
    | cons y ys ihy =>
      rw [mergeIds_cons]
      split
      · exact (ihx (y :: ys)).cons x
      · exact (ihy.cons y).trans List.perm_middle.symm

lemma pairwise_mergeIds {xs ys : List ConstraintId} (hx : xs.Pairwise (· ≤ ·))
    (hy : ys.Pairwise (· ≤ ·)) : (mergeIds xs ys).Pairwise (· ≤ ·) := by
  induction xs generalizing ys with
  | nil => exact hy
  | cons x xs ihx =>
    obtain ⟨least, rest⟩ := List.pairwise_cons.mp hx
    induction ys with
    | nil => rwa [mergeIds_nil]
    | cons y ys ihy =>
      obtain ⟨least', rest'⟩ := List.pairwise_cons.mp hy
      rw [mergeIds_cons]
      split
      · next before =>
        refine List.pairwise_cons.mpr ⟨fun z hz => ?_, ihx rest hy⟩
        obtain hz | hz := List.mem_append.mp ((perm_mergeIds _ _).mem_iff.mp hz)
        · exact least z hz
        · obtain rfl | hz := List.mem_cons.mp hz
          · exact before.le
          · exact before.le.trans (least' z hz)
      · next behind =>
        have behind := Nat.le_of_not_lt behind
        refine List.pairwise_cons.mpr ⟨fun z hz => ?_, ihy rest'⟩
        obtain hz | hz := List.mem_append.mp ((perm_mergeIds _ _).mem_iff.mp hz)
        · obtain rfl | hz := List.mem_cons.mp hz
          · exact behind
          · exact behind.trans (least z hz)
        · exact least' z hz

lemma mergeIds_idsWhere {s : Store} {p q : Term → Bool}
    (exclusive : ∀ t, ¬(p t = true ∧ q t = true)) :
    mergeIds (s.idsWhere p) (s.idsWhere q) = s.idsWhere fun t => p t || q t := by
  have perm : (s.idsWhere p ++ s.idsWhere q).Perm (s.idsWhere fun t => p t || q t) := by
    apply (List.perm_ext_iff_of_nodup _ (nodup_idsWhere s _)).mpr
    · intro id
      simp only [List.mem_append, mem_idsWhere, Bool.or_eq_true]
      grind
    · refine List.nodup_append.mpr ⟨nodup_idsWhere s p, nodup_idsWhere s q, ?_⟩
      intro x hp y hq
      simp only [mem_idsWhere] at hp hq
      rintro rfl
      grind
  have sorted (p : Term → Bool) : (s.idsWhere p).Pairwise (· ≤ ·) :=
    (pairwise_idsWhere s p).imp Nat.le_of_lt
  exact ((perm_mergeIds _ _).trans perm).eq_of_pairwise'
    (pairwise_mergeIds (sorted p) (sorted q)) (sorted _)

def hasFunctor (partition : Partition) (functor : String) (t : Term) : Bool :=
  t.functor? == some functor && Partition.of t == partition

/-- A constraint whose first argument has the second key may match a head whose first argument has
the first one. -/
def compatible : FirstArgument → FirstArgument → Bool
  | .var, _ => true
  | .absent, own => own == .absent
  | key, own => own == key || own == .var

/-- A constraint that the index offers for a head under an environment. -/
def isOffered (head : Term) (env : Environment) (t : Term) : Bool :=
  match head.functor? with
  | some f => hasFunctor (Partition.of head) f t &&
      compatible (.ofHead head env) (.ofConstraint t)
  | none => false

/-- The containers of a store hold what its terms say, and every constraint has a functor. -/
structure Indexed (s : Store) : Prop extends InStep s where
  functor : ∀ id t, s.get? id = some t → t.functor?.isSome
  allOf : ∀ partition f, (s.allOf partition f).toList = s.idsWhere (hasFunctor partition f)
  bucket : ∀ partition f key, (s.bucket partition f key).toList =
    s.idsWhere fun t => hasFunctor partition f t && FirstArgument.ofConstraint t == key

/-- The candidates for a head are the constraints that the index offers, in increasing order. -/
theorem toList_candidates {s : Store} (h : s.Indexed) (head : Term) (env : Environment) :
    (s.candidates head env).toList = s.idsWhere (isOffered head env) := by
  unfold candidates isOffered
  cases head.functor? with
  | none => simp [idsWhere]
  | some f =>
    dsimp only
    cases hkey : FirstArgument.ofHead head env with
    | var => simpa [compatible] using h.allOf _ f
    | absent => simpa [compatible] using h.bucket _ f .absent
    | _ =>
      simp only [compatible, Bool.and_or_distrib_left, h.bucket]
      apply mergeIds_idsWhere
      intro t
      simp only [Bool.and_eq_true, beq_iff_eq]
      rintro ⟨⟨-, hk⟩, -, hv⟩
      rw [hk] at hv
      cases hv

lemma pairwise_candidates {s : Store} (h : s.Indexed) (head : Term) (env : Environment) :
    (s.candidates head env).toList.Pairwise (· < ·) := by
  rw [toList_candidates h]
  exact pairwise_idsWhere s _

lemma inStep_empty : empty.InStep where
  flags := rfl
  listed partition := by cases partition <;> rfl

lemma InStep.insert {s : Store} (h : s.InStep) (f : String) (t : Term) : (s.insert f t).InStep where
  flags := by rw [consumed_insert, Array.size_push, h.flags, size_insert]
  listed partition := by
    rw [ids_insert, idsWhere_insert, ← h.listed]
    by_cases here : Partition.of t = partition <;> simp [here]

lemma InStep.consume {s : Store} (h : s.InStep) (id : ConstraintId) : (s.consume id).InStep where
  flags := by rw [consumed_consume, Array.size_setIfInBounds, h.flags, size_consume]
  listed partition := by rw [ids_consume, idsWhere_consume, h.listed]

lemma indexed_empty : empty.Indexed where
  toInStep := inStep_empty
  functor id t h := by simp [get?, empty] at h
  allOf partition f := rfl
  bucket partition f key := rfl

lemma Indexed.insert {s : Store} (h : s.Indexed) {f : String} {t : Term}
    (ht : t.functor? = some f) : (s.insert f t).Indexed where
  toInStep := h.toInStep.insert f t
  functor id u hu := by
    rw [get?_insert] at hu
    split at hu
    · cases hu
      simp [ht]
    · exact h.functor id u hu
  allOf partition g := by
    rw [allOf_insert, idsWhere_insert, ← h.allOf]
    simp only [FunctorKey.mk.injEq, hasFunctor, ht]
    by_cases hp : Partition.of t = partition <;> by_cases hf : f = g <;> simp [hp, hf]
  bucket partition g key := by
    rw [bucket_insert, idsWhere_insert, ← h.bucket]
    simp only [BucketKey.mk.injEq, hasFunctor, ht]
    by_cases hp : Partition.of t = partition <;> by_cases hf : f = g <;>
      by_cases hk : FirstArgument.ofConstraint t = key <;> simp [hp, hf, hk]

lemma Indexed.consume {s : Store} (h : s.Indexed) (id : ConstraintId) :
    (s.consume id).Indexed where
  toInStep := h.toInStep.consume id
  functor other t ht := h.functor other t (by simpa using ht)
  allOf partition f := by rw [idsWhere_consume]; exact h.allOf partition f
  bucket partition f key := by rw [idsWhere_consume]; exact h.bucket partition f key

end Store
end ConstraintHandling
