import ConstraintHandling.Proofs.Term.Equality

/-! Terms that equal themselves. They are the terms without a NaN inside. -/
namespace ConstraintHandling

lemma Binary64.equal_self_iff {x : Binary64} : x.equal x = true ↔ x.isNaN = false := by
  rw [equal_iff]
  constructor
  · rintro (⟨-, number⟩ | ⟨zero, -⟩)
    · exact number
    · obtain ⟨sign, parts⟩ := (isZero_iff x).mp zero
      rw [← Bool.not_eq_true, isNaN_iff, parts]
      simp
  · exact fun number => .inl ⟨rfl, number⟩

namespace Term

def isNaN : Term → Bool
  | .float x => x.isNaN
  | _ => false

def NaNFree (t : Term) : Prop :=
  ∀ u ∈ t.subterms, u.isNaN = false

instance (t : Term) : Decidable t.NaNFree :=
  inferInstanceAs (Decidable (∀ u ∈ t.subterms, u.isNaN = false))

variable {s t u a : Term}

lemma nanFree_iff : t.NaNFree ↔ t.isNaN = false ∧ ∀ a ∈ t.children, a.NaNFree := by
  simp only [NaNFree]
  rw [subterms_eq, List.forall_mem_cons, List.forall_mem_flatMap]

lemma NaNFree.of_mem_subterms (h : t.NaNFree) (hu : u ∈ t.subterms) : u.NaNFree :=
  fun w hw => h w (mem_subterms_trans hu hw)

lemma NaNFree.of_mem_children (h : t.NaNFree) (ha : a ∈ t.children) : a.NaNFree :=
  (nanFree_iff.mp h).2 a ha

/-- A term equals itself when no NaN is inside. -/
theorem beq_self_iff : (t == t) = true ↔ t.NaNFree := by
  induction t using children_induction with
  | step t ih =>
    have parts : beqAll t.children t.children = true ↔ ∀ a ∈ t.children, a.NaNFree :=
      beqAll_iff.trans (List.forall₂_same.trans (forall₂_congr ih))
    rw [nanFree_iff, ← parts]
    cases t with
    | float x =>
      change beq _ _ = true ↔ _
      simp [beq, isNaN, children, Binary64.equal_self_iff]
    | compound => simp [beq_compound, isNaN, children]
    | list => simp [beq_list, isNaN, children]
    | _ =>
      change beq _ _ = true ↔ _
      simp [beq, isNaN, children]

lemma nanFree_of_beq (h : (s == t) = true) : s.NaNFree :=
  beq_self_iff.mp (beq_trans h (beq_symm h))

end Term
end ConstraintHandling
