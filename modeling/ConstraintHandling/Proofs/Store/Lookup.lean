import ConstraintHandling.Proofs.Store.Candidate
import ConstraintHandling.Proofs.Term.Equality
import Mathlib.Order.Bounds.Defs

/-! Looking up a term. Equal terms are indexed in the same place, so that the one bucket in which a term
is looked up holds all constraints equal to it; looking there comes to the same as going through all
constraints in order. -/
namespace ConstraintHandling
namespace Store
variable {s : Store} {t u : Term} {id : ConstraintId}

lemma keys_of_beq (h : (u == t) = true) :
    u.functor? = t.functor? ∧ Partition.of u = Partition.of t ∧
      FirstArgument.ofConstraint u = FirstArgument.ofConstraint t := by
  cases Term.beq_iff_equal.mp h with
  | plain => exact ⟨rfl, rfl, rfl⟩
  | float => exact ⟨rfl, rfl, rfl⟩
  | list => exact ⟨rfl, rfl, rfl⟩
  | @compound f as bs p parts =>
    refine ⟨rfl, rfl, ?_⟩
    cases Term.beqAll_iff.mp parts with
    | nil => rfl
    | cons first => exact FirstArgument.ofTerm_eq_of_beq first

/-- The number is that of a live constraint equal to the term. -/
def LiveCopy (s : Store) (t : Term) (id : ConstraintId) : Prop :=
  s.isLive id = true ∧ ∃ u, s.get? id = some u ∧ (u == t) = true

lemma isLiveCopy_iff : s.isLiveCopy t id = true ↔ s.LiveCopy t id := by
  rw [isLiveCopy, LiveCopy, Bool.and_eq_true, Option.any_eq_true]

lemma LiveCopy.lt_size (h : s.LiveCopy t id) : id < s.size := by
  obtain ⟨-, u, stored, -⟩ := h
  exact lt_size_of_get? stored

/-- The index finds what going through all constraints in order finds. -/
theorem find?_eq_scan (h : s.Indexed) (t : Term) :
    s.find? t = (List.range s.size).find? (s.isLiveCopy t) := by
  have indexed (id : ConstraintId) (copy : s.isLiveCopy t id = true) :
      ∃ u, s.get? id = some u ∧ u.functor? = t.functor? ∧ Partition.of u = Partition.of t ∧
        FirstArgument.ofConstraint u = FirstArgument.ofConstraint t := by
    obtain ⟨-, u, stored, heq⟩ := isLiveCopy_iff.mp copy
    exact ⟨u, stored, keys_of_beq heq⟩
  unfold find?
  cases hf : t.functor? with
  | none =>
    refine (List.find?_eq_none.mpr fun id _ copy => ?_).symm
    obtain ⟨u, stored, functor, -⟩ := indexed id copy
    have := h.functor id u stored
    rw [functor, hf] at this
    cases this
  | some f =>
    dsimp only
    rw [← Array.find?_toList, h.bucket, idsWhere, List.find?_filter]
    congr 1
    funext id
    cases copy : s.isLiveCopy t id with
    | false => simp
    | true =>
      obtain ⟨u, stored, functor, partition, first⟩ := indexed id copy
      simp [stored, hasFunctor, functor, hf, partition, first]

lemma holds_iff (h : s.Indexed) :
    s.holds t = true ↔ t.isOperator = true ∧ ∃ id, s.LiveCopy t id := by
  rw [holds, Bool.and_eq_true, find?_eq_scan h, List.find?_isSome]
  simp only [List.mem_range, isLiveCopy_iff]
  refine and_congr_right fun _ => ⟨?_, ?_⟩
  · rintro ⟨id, -, copy⟩
    exact ⟨id, copy⟩
  · rintro ⟨id, copy⟩
    exact ⟨id, copy.lt_size, copy⟩

/-- Lookup is exact: whatever has been added to a store and consumed in it, a term is found under the
least number of a live constraint equal to it, and not at all when there is none. An operator term
holds when it is found; no other term holds. -/
theorem find?_exact (changes : List Change) (t : Term) :
    let s := empty.changeAll changes
    (∀ id, s.find? t = some id ↔ IsLeast {id | s.LiveCopy t id} id) ∧
      (s.find? t = none ↔ ¬∃ id, s.LiveCopy t id) ∧
      (s.holds t = true ↔ t.isOperator = true ∧ ∃ id, s.LiveCopy t id) := by
  intro s
  have indexed : s.Indexed := (reaches_changeAll empty changes).indexed indexed_empty
  have scan : s.find? t = (List.range s.size).find? (s.isLiveCopy t) := find?_eq_scan indexed t
  have missing : s.find? t = none ↔ ¬∃ id, s.LiveCopy t id := by
    rw [scan, List.find?_eq_none, not_exists]
    simp only [List.mem_range, isLiveCopy_iff]
    exact forall_congr' fun id => ⟨fun h copy => h copy.lt_size copy, fun h _ => h⟩
  refine ⟨fun id => ?_, missing, ?_⟩
  · rw [scan, List.find?_range_eq_some, isLiveCopy_iff, List.mem_range]
    constructor
    · rintro ⟨copy, -, before⟩
      refine ⟨copy, fun other found => Nat.le_of_not_lt fun earlier => ?_⟩
      simpa [isLiveCopy_iff.mpr found] using before other earlier
    · rintro ⟨copy, least⟩
      refine ⟨copy, copy.lt_size, fun other earlier => ?_⟩
      rw [Bool.not_eq_true', ← Bool.not_eq_true, isLiveCopy_iff]
      exact fun found => absurd (least found) (Nat.not_le_of_lt earlier)
  · rw [holds, Bool.and_eq_true, Option.isSome_iff_ne_none, Ne, missing, not_not]

end Store
end ConstraintHandling
