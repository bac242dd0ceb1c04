import ConstraintHandling.Term.Basic

/-! The parts of terms, direct and indirect ones. -/
namespace ConstraintHandling
namespace Term

/-- The arguments of a compound term and the elements of a list. -/
def children : Term → List Term
  | .compound _ as _ => as
  | .list as => as
  | _ => []

mutual
/-- A term with all the terms inside it, one for each node. -/
def subterms : Term → List Term
  | .compound f as p => .compound f as p :: subtermsAll as
  | .list as => .list as :: subtermsAll as
  | t => [t]
def subtermsAll : List Term → List Term
  | [] => []
  | a :: as => subterms a ++ subtermsAll as
end

theorem subtermsAll_eq (as : List Term) : subtermsAll as = as.flatMap subterms := by
  induction as with
  | nil => simp [subtermsAll]
  | cons a as ih => simp [subtermsAll, ih]

mutual
theorem length_subterms : (t : Term) → t.subterms.length = t.size
  | .compound f as p => by simp [subterms, size, length_subtermsAll as]
  | .list as => by simp [subterms, size, length_subtermsAll as]
  | .atom _ | .bool _ | .int _ | .float _ | .str _ | .var _ => by simp [subterms, size]
theorem length_subtermsAll : (as : List Term) → (subtermsAll as).length = sizeAll as
  | [] => by simp [subtermsAll, sizeAll]
  | a :: as => by simp [subtermsAll, sizeAll, length_subterms a, length_subtermsAll as]
end

theorem self_mem_subterms (t : Term) : t ∈ t.subterms := by
  cases t <;> simp [subterms]

theorem subterms_eq (t : Term) : t.subterms = t :: t.children.flatMap subterms := by
  cases t <;> simp [subterms, children, subtermsAll_eq]

/-- Induction on terms by their parts, whatever the term is. -/
@[elab_as_elim]
theorem children_induction {motive : Term → Prop}
    (step : ∀ t, (∀ a ∈ t.children, motive a) → motive t) : ∀ t, motive t
  | .compound _ as _ => step _ fun a (_ : a ∈ as) => children_induction step a
  | .list as => step _ fun a (_ : a ∈ as) => children_induction step a
  | .atom _ | .bool _ | .int _ | .float _ | .str _ | .var _ => step _ fun _ h => nomatch h

theorem mem_subterms_of_child {t u a : Term} (ha : a ∈ t.children) (hu : u ∈ a.subterms) :
    u ∈ t.subterms := by
  rw [subterms_eq]
  exact List.mem_cons_of_mem _ (List.mem_flatMap.mpr ⟨a, ha, hu⟩)

theorem mem_subterms_trans {t u v : Term} (hu : u ∈ t.subterms) (hv : v ∈ u.subterms) :
    v ∈ t.subterms := by
  induction t using children_induction with
  | step t ih =>
    rw [subterms_eq] at hu
    obtain rfl | hu := List.mem_cons.mp hu
    · exact hv
    · obtain ⟨a, ha, hu⟩ := List.mem_flatMap.mp hu
      exact mem_subterms_of_child ha (ih a ha hu)

theorem children_mem_subterms {t u a : Term} (hu : u ∈ t.subterms) (ha : a ∈ u.children) :
    a ∈ t.subterms :=
  mem_subterms_trans hu (mem_subterms_of_child ha a.self_mem_subterms)

end Term
end ConstraintHandling
