import ConstraintHandling.Proofs.Term.Equality

/-! Terms without their operator priorities. They are the same tree of names and constants, so that
equality of them compares terms place by place and leaves the priorities out. -/
namespace ConstraintHandling
namespace Term

mutual
/-- The term with every operator inside turned into an ordinary compound term. -/
def withoutPriorities : Term → Term
  | .compound f as _ => .compound f (withoutPrioritiesAll as) 0
  | .list as => .list (withoutPrioritiesAll as)
  | t => t
def withoutPrioritiesAll : List Term → List Term
  | [] => []
  | a :: as => withoutPriorities a :: withoutPrioritiesAll as
end

@[simp] lemma withoutPrioritiesAll_eq (as : List Term) :
    withoutPrioritiesAll as = as.map withoutPriorities := by
  induction as with
  | nil => simp [withoutPrioritiesAll]
  | cons a as ih => simp [withoutPrioritiesAll, ih]

lemma withoutPriorities_beq_compound {f g : String} {as bs : List Term} {p q : Nat} :
    ((compound f as p).withoutPriorities == (compound g bs q).withoutPriorities) = true ↔
      f = g ∧ beqAll (as.map withoutPriorities) (bs.map withoutPriorities) = true := by
  simp only [withoutPriorities, withoutPrioritiesAll_eq, beq_compound, true_and]

lemma withoutPriorities_beq_list {as bs : List Term} :
    ((list as).withoutPriorities == (list bs).withoutPriorities) = true ↔
      beqAll (as.map withoutPriorities) (bs.map withoutPriorities) = true := by
  simp only [withoutPriorities, withoutPrioritiesAll_eq, beq_list]

lemma beq_withoutPriorities {s t : Term} (h : (s == t) = true) :
    (s.withoutPriorities == t.withoutPriorities) = true := by
  have parts {as bs : List Term}
      (h : List.Forall₂ (fun s t => (s.withoutPriorities == t.withoutPriorities) = true) as bs) :
      beqAll (as.map withoutPriorities) (bs.map withoutPriorities) = true := by
    rw [beqAll_iff, List.forall₂_map_left_iff, List.forall₂_map_right_iff]
    exact h
  refine beq_induction (motive := fun s t => (s.withoutPriorities == t.withoutPriorities) = true)
    ?_ ?_ ?_ ?_ h
  · intro t plain
    cases t with
    | float | compound | list => cases plain
    | _ => exact beq_iff_equal.mpr (.plain rfl)
  · exact fun x y values => beq_iff_equal.mpr (.float values)
  · intro f as bs p h
    exact withoutPriorities_beq_compound.mpr ⟨rfl, parts h⟩
  · intro as bs h
    exact withoutPriorities_beq_list.mpr (parts h)

end Term
end ConstraintHandling
