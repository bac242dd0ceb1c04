import ConstraintHandling.Proofs.Environment.Chase
import ConstraintHandling.Proofs.Term.Equality
import ConstraintHandling.Proofs.Term.Occurrences
import ConstraintHandling.Proofs.Term.Priorities
import ConstraintHandling.Proofs.Unification.Depth

/-! Unification of ground terms. It binds nothing and compares the two trees place by place, but not the
priorities of operators: an operator term is unified with the ordinary term of the same name and
arguments, although the two are not equal. -/
namespace ConstraintHandling
namespace Term

lemma isGround_of_mem_children {t a : Term} (h : t.isGround = true) (ha : a ∈ t.children) :
    a.isGround = true := by
  rw [isGround_iff, List.eq_nil_iff_forall_not_mem] at h ⊢
  exact fun v hv => h v (mem_occurrences_iff.mpr (.inr ⟨a, ha, hv⟩))

lemma not_var_of_isGround {t : Term} (h : t.isGround = true) : t.asVariable? = none := by
  cases t <;> first | rfl | cases h

end Term

namespace Unification
variable {s t : Term} {env : Environment}

lemma fold_of_compares {step : Term → Term → Environment → Unification} {f : Term → Term}
    {as bs : List Term}
    (compares : ∀ a ∈ as, ∀ b ∈ bs,
      step a b env = if f a == f b then .unified env else .clash)
    (length : as.length = bs.length) :
    fold step as bs env =
      if Term.beqAll (as.map f) (bs.map f) then .unified env else .clash := by
  induction as generalizing bs with
  | nil =>
    obtain rfl : bs = [] := by simpa using length.symm
    simp [fold]
  | cons a as ih =>
    cases bs with
    | nil => simp at length
    | cons b bs =>
      have later := ih (fun a ha b hb => compares a (List.mem_cons_of_mem _ ha) b
        (List.mem_cons_of_mem _ hb)) (by simpa using length)
      rw [fold, compares a List.mem_cons_self b List.mem_cons_self, List.map_cons, List.map_cons,
        Term.beqAll_cons]
      cases f a == f b with
      | true => simpa using later
      | false => simp

/-- A run on ground terms compares them, priorities apart. -/
theorem within_ground {depth : Nat} (hs : s.isGround = true) (ht : t.isGround = true)
    (deep : s.size ≤ depth) :
    within depth s t env =
      if s.withoutPriorities == t.withoutPriorities then .unified env else .clash := by
  induction depth generalizing s t with
  | zero => cases s <;> simp [Term.size] at deep
  | succ depth ih =>
    have parts {as bs : List Term} (h : Pairs s t as bs) (length : as.length = bs.length) :
        fold (within depth) as bs env =
          if Term.beqAll (as.map Term.withoutPriorities) (bs.map Term.withoutPriorities) then
            .unified env else .clash := by
      obtain ⟨rfl, rfl⟩ := h.children
      refine fold_of_compares (fun a ha b hb => ?_) length
      have := Term.size_lt_of_mem_children ha
      exact ih (Term.isGround_of_mem_children hs ha) (Term.isGround_of_mem_children ht hb) (by omega)
    rw [within, Environment.chaseVisiting_of_not_var env (Term.not_var_of_isGround hs),
      Environment.chaseVisiting_of_not_var env (Term.not_var_of_isGround ht)]
    cases s with
    | var => cases hs
    | compound f as p =>
      cases t with
      | var => cases ht
      | compound g bs q =>
        dsimp only
        simp only [Term.withoutPriorities_beq_compound]
        by_cases same : f = g ∧ as.length = bs.length
        · obtain ⟨rfl, length⟩ := same
          rw [if_pos ⟨rfl, length⟩, parts (.compound length) length]
          simp only [true_and]
        · rw [if_neg same, if_neg]
          rintro ⟨name, args⟩
          exact same ⟨name, by simpa using Term.length_eq_of_beqAll args⟩
      | _ => rfl
    | list as =>
      cases t with
      | var => cases ht
      | list bs =>
        dsimp only
        simp only [Term.withoutPriorities_beq_list]
        by_cases length : as.length = bs.length
        · rw [if_pos length, parts (.list length) length]
        · rw [if_neg length, if_neg]
          exact fun items => length (by simpa using Term.length_eq_of_beqAll items)
      | _ => rfl
    | _ =>
      cases t with
      | var => cases ht
      | _ => rfl

end Unification

/-- Ground terms are unified, without any binding, when they are equal up to the priorities of operators;
this is when they are equal, unless they differ in priorities alone. -/
theorem unify_ground {s t : Term} (hs : s.isGround = true) (ht : t.isGround = true)
    (env : Environment) :
    unify s t env = (if s.withoutPriorities == t.withoutPriorities then some env else none) ∧
      (unify s t env = (if s == t then some env else none) ↔
        ((s.withoutPriorities == t.withoutPriorities) = true → (s == t) = true)) := by
  have run := @Unification.within_ground s t env s.size hs ht (Nat.le_refl _)
  have ends : Unification.within s.size s t env ≠ .unfinished := by
    rw [run]
    exact Unification.compared_ne_unfinished
  have outcome : unify s t env =
      if s.withoutPriorities == t.withoutPriorities then some env else none := by
    rw [Unification.unify_eq_of_within ends, run]
    split <;> rfl
  refine ⟨outcome, ?_⟩
  rw [outcome]
  cases heq : s == t with
  | true => simp [Term.beq_withoutPriorities heq]
  | false => cases s.withoutPriorities == t.withoutPriorities <;> simp

/-- Two equal terms with an operator inside, and two different ones. -/
theorem unify_ground_sum :
    let sum : Term := .compound "+" [.atom "a", .float ⟨0⟩] 500
    let s := Term.ordinary "p" [sum, .list [.int 1]]
    s.isGround = true ∧ unify s s .empty = some .empty ∧
      unify s (Term.ordinary "p" [sum, .list [.int 2]]) .empty = none := by
  intro sum s
  have ground : s.isGround = true := by decide
  refine ⟨ground, ?_, ?_⟩
  · exact (unify_ground ground ground .empty).1.trans (if_pos (by decide))
  · exact (unify_ground ground (by decide) .empty).1.trans (if_neg (by decide))

/-- The operator term and the ordinary term of the same name are different, and unify. -/
theorem unify_priorities_differ :
    let s : Term := .compound "+" [.atom "a", .atom "b"] 500
    let t := Term.ordinary "+" [.atom "a", .atom "b"]
    s.isGround = true ∧ t.isGround = true ∧ (s == t) = false ∧
      unify s t .empty = some .empty :=
  ⟨rfl, rfl, rfl, rfl⟩

end ConstraintHandling
