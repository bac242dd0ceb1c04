import ConstraintHandling.Proofs.Evaluated
import ConstraintHandling.Proofs.Term.Occurrences
import ConstraintHandling.Proofs.Term.Reflexivity

/-! Terms without floats. On them equality of terms is identity, and they stay without floats when other
such terms are put in the places of their variables and when they are evaluated. -/
namespace ConstraintHandling
namespace Term

def FloatFree (t : Term) : Prop :=
  ∀ u ∈ t.subterms, u.isFloat = false

instance (t : Term) : Decidable t.FloatFree :=
  inferInstanceAs (Decidable (∀ u ∈ t.subterms, u.isFloat = false))

variable {f : String} {as : List Term} {p : Nat} {s t u : Term} {known : Oracle}

lemma floatFree_iff : t.FloatFree ↔ t.isFloat = false ∧ ∀ a ∈ t.children, a.FloatFree := by
  simp only [FloatFree]
  rw [subterms_eq, List.forall_mem_cons, List.forall_mem_flatMap]

@[simp] lemma floatFree_var (v : Variable) : (var v).FloatFree := by
  simp [FloatFree, subterms, isFloat]

@[simp] lemma floatFree_bool (b : Bool) : (bool b).FloatFree := by
  simp [FloatFree, subterms, isFloat]

@[simp] lemma floatFree_compound : (compound f as p).FloatFree ↔ ∀ a ∈ as, a.FloatFree := by
  rw [floatFree_iff]
  simp [isFloat, children]

@[simp] lemma floatFree_list : (list as).FloatFree ↔ ∀ a ∈ as, a.FloatFree := by
  rw [floatFree_iff]
  simp [isFloat, children]

lemma floatFree_of_isConstant (ht : t.isConstant = true) (h : t.isFloat = false) : t.FloatFree := by
  refine floatFree_iff.mpr ⟨h, ?_⟩
  cases t with
  | compound | list | var => cases ht
  | _ => simp [children]

lemma FloatFree.nanFree (h : t.FloatFree) : t.NaNFree := by
  intro u hu
  have number := h u hu
  cases u with
  | float => cases number
  | _ => rfl

lemma FloatFree.beq_self (h : t.FloatFree) : (t == t) = true :=
  beq_self_iff.mpr h.nanFree

lemma FloatFree.eq_of_beq (h : s.FloatFree) (heq : (s == t) = true) : s = t := by
  have parts {as bs : List Term} (h : List.Forall₂ (fun s t => s.FloatFree → s = t) as bs)
      (free : ∀ a ∈ as, a.FloatFree) : as = bs := by
    induction h with
    | nil => rfl
    | cons hab _ ih =>
      obtain ⟨ha, has⟩ := List.forall_mem_cons.mp free
      rw [hab ha, ih has]
  refine beq_induction (motive := fun s t => s.FloatFree → s = t) ?_ ?_ ?_ ?_ heq h
  · exact fun t _ _ => rfl
  · intro x y _ free
    cases (floatFree_iff.mp free).1
  · exact fun f as bs p h free => by rw [parts h (floatFree_compound.mp free)]
  · exact fun as bs h free => by rw [parts h (floatFree_list.mp free)]

lemma isPartwise_floatFree : IsPartwise FloatFree where
  compound := floatFree_compound
  list := floatFree_list

lemma FloatFree.mapVariables {σ : Variable → Term} (h : t.FloatFree) (hσ : ∀ v, (σ v).FloatFree) :
    (t.mapVariables σ).FloatFree :=
  isPartwise_floatFree.mapVariables isPartwise_floatFree (fun _ _ ht => ht) (fun v _ => hσ v) h

lemma isFloat_of_arithmetic {op : Arithmetic} (h : op.apply s t = some u) (hu : u.isFloat = true) :
    s.isFloat = true ∨ t.isFloat = true := by
  unfold Arithmetic.apply at h
  split at h
  · obtain ⟨i, -, rfl⟩ := Option.map_eq_some_iff.mp h
    cases hu
  · split at h
    · cases h
      cases hu
    · cases h
  · next integers _ =>
    split at h
    · next hs ht =>
      cases s with
      | float => exact .inl rfl
      | int a =>
        cases t with
        | float => exact .inr rfl
        | int b => exact absurd rfl (integers a b rfl)
        | _ => cases ht
      | _ => cases hs
    · cases h

lemma isFloat_of_operation? {name : String} {args : List Term}
    (h : Evaluation.operation? known name args = some u) (hu : u.isFloat = true) :
    ∃ a ∈ args, a.isFloat = true := by
  unfold Evaluation.operation? at h
  split at h
  · next t =>
    unfold Evaluation.unary? at h
    split at h
    · obtain ⟨i, -, rfl⟩ := Option.map_eq_some_iff.mp h
      cases hu
    · exact ⟨_, List.mem_singleton_self _, rfl⟩
    · obtain ⟨b, rfl⟩ := bool_of_map_bool h
      cases hu
    · cases h
  · obtain ⟨op, h⟩ | ⟨b, rfl⟩ | mem := arithmetic_or_bool_or_mem_of_binary? h
    · simpa using isFloat_of_arithmetic h hu
    · cases hu
    · exact ⟨u, mem, hu⟩
  · cases h

lemma floatFree_of_operation? {name : String} {args : List Term}
    (h : Evaluation.operation? known name args = some u) (below : ∀ a ∈ args, a.FloatFree) :
    u.FloatFree := by
  obtain constant | mem := constant_or_mem_of_operation? h
  · refine floatFree_of_isConstant constant ?_
    by_contra hu
    obtain ⟨a, ha, hfloat⟩ := isFloat_of_operation? h (by simpa using hu)
    rw [(floatFree_iff.mp (below a ha)).1] at hfloat
    cases hfloat
  · exact below u mem

lemma FloatFree.reduce (h : t.FloatFree) : (t.reduce known).FloatFree :=
  isPartwise_floatFree.reduce (fun _ _ _ hop below => floatFree_of_operation? hop below) h

end Term
end ConstraintHandling
