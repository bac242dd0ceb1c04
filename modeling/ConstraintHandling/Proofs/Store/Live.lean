import ConstraintHandling.Proofs.Store.Index
import Mathlib.Data.List.Induction

/-! The live constraints of a partition. They are listed by number, so that a new one comes last and a
consumed one leaves its place. -/
namespace ConstraintHandling
namespace Store
variable {s : Store} {partition : Partition}

/-- The constraint of a number with this number, if it is live and belongs to the partition. -/
def liveAt (s : Store) (partition : Partition) (id : ConstraintId) : Option (ConstraintId × Term) :=
  (s.get? id).bind fun t =>
    if s.isLive id ∧ Partition.of t = partition then some (id, t) else none

lemma InStep.live_eq (h : s.InStep) (partition : Partition) :
    s.live partition = (List.range s.size).filterMap (s.liveAt partition) := by
  rw [live, h.listed, idsWhere, List.filter_filter, List.filterMap_filter]
  refine List.filterMap_congr fun id _ => ?_
  rw [liveAt]
  cases s.get? id <;> simp

lemma liveAt_eq_some_iff {id other : ConstraintId} {t : Term} :
    s.liveAt partition id = some (other, t) ↔
      id = other ∧ s.get? id = some t ∧ s.isLive id = true ∧ Partition.of t = partition := by
  simp only [liveAt, Option.bind_eq_some_iff, Option.ite_none_right_eq_some, Option.some.injEq,
    Prod.mk.injEq]
  grind

lemma get?_of_mem_live {id : ConstraintId} {t : Term} (h : (id, t) ∈ s.live partition) :
    s.get? id = some t := by
  obtain ⟨other, -, found⟩ := List.mem_filterMap.mp h
  obtain ⟨u, stored, same⟩ := Option.map_eq_some_iff.mp found
  cases same
  exact stored

theorem InStep.mem_live (h : s.InStep) {id : ConstraintId} {t : Term} :
    (id, t) ∈ s.live partition ↔
      s.get? id = some t ∧ s.isLive id = true ∧ Partition.of t = partition := by
  rw [h.live_eq, List.mem_filterMap]
  simp only [liveAt_eq_some_iff, List.mem_range]
  constructor
  · rintro ⟨_, -, rfl, h⟩
    exact h
  · exact fun h => ⟨id, lt_size_of_get? h.1, rfl, h⟩

theorem InStep.live_insert (h : s.InStep) (f : String) (t : Term) (partition : Partition) :
    (s.insert f t).live partition =
      s.live partition ++ if Partition.of t = partition then [(s.size, t)] else [] := by
  rw [(h.insert f t).live_eq, h.live_eq, size_insert, List.range_succ, List.filterMap_append]
  congr 1
  · refine List.filterMap_congr fun id hid => ?_
    have old : id ≠ s.size := (List.mem_range.mp hid).ne
    rw [liveAt, liveAt, get?_insert, if_neg old, h.isLive_insert, beq_false_of_ne old, Bool.false_or]
  · by_cases here : Partition.of t = partition <;> simp [liveAt, get?_insert, h.isLive_insert, here]

theorem live_consume (s : Store) (id : ConstraintId) (partition : Partition) :
    (s.consume id).live partition = (s.live partition).filter fun c => c.1 != id := by
  rw [live, live, ids_consume, List.filter_filterMap, List.filterMap_filter, List.filterMap_filter]
  refine List.filterMap_congr fun other _ => ?_
  rw [isLive_consume, get?_consume]
  cases s.get? other with
  | none => simp
  | some t =>
    by_cases same : id = other
    · subst same
      simp [Option.filter]
    · simp [same, Ne.symm same, Option.filter]

lemma InStep.pairwise_live (h : s.InStep) (partition : Partition) :
    ((s.live partition).map Prod.fst).Pairwise (· < ·) := by
  rw [h.live_eq, List.map_filterMap]
  refine List.Pairwise.filterMap _ (fun id id' before c hc c' hc' => ?_) List.pairwise_lt_range
  obtain ⟨entry, found, rfl⟩ := Option.map_eq_some_iff.mp hc
  obtain ⟨entry', found', rfl⟩ := Option.map_eq_some_iff.mp hc'
  rwa [← (liveAt_eq_some_iff.mp found).1, ← (liveAt_eq_some_iff.mp found').1]

lemma InStep.nodup_live (h : s.InStep) (partition : Partition) : (s.live partition).Nodup := by
  rw [h.live_eq]
  refine List.Nodup.filterMap (fun id id' c hid hid' => ?_) List.nodup_range
  rw [(liveAt_eq_some_iff.mp hid).1, (liveAt_eq_some_iff.mp hid').1]

theorem InStep.perm_live_consume (inStep : s.InStep) {id : ConstraintId} {t : Term}
    (h : (id, t) ∈ s.live partition) :
    (s.live partition).Perm ((id, t) :: (s.consume id).live partition) := by
  have nodup := inStep.nodup_live partition
  rw [live_consume]
  refine (List.perm_ext_iff_of_nodup nodup ?_).mpr fun c => ?_
  · exact List.nodup_cons.mpr ⟨by simp, nodup.filter _⟩
  · simp only [List.mem_cons, List.mem_filter, bne_iff_ne]
    constructor
    · intro hc
      by_cases same : c.1 = id
      · have known := (inStep.mem_live.mp h).1
        obtain ⟨other, u⟩ := c
        obtain rfl : other = id := same
        rw [(inStep.mem_live.mp hc).1] at known
        exact .inl (by rw [Option.some.inj known])
      · exact .inr ⟨hc, same⟩
    · rintro (rfl | ⟨hc, -⟩)
      · exact h
      · exact hc

end Store
end ConstraintHandling
