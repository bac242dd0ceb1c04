import ConstraintHandling.Proofs.Binary64
import ConstraintHandling.Proofs.Environment.Chase
import ConstraintHandling.Proofs.Store.Growth
import ConstraintHandling.Proofs.Unification.Step

/-! Candidates and unification. The index offers every constraint that unifies with a head: terms
that unify have the same functor, and first arguments that unify have compatible keys. -/
namespace ConstraintHandling

lemma FirstArgument.ofTerm_eq_of_beq {s t : Term} (h : (s == t) = true) : ofTerm s = ofTerm t := by
  change Term.beq s t = true at h
  cases s <;> cases t <;> simp [Term.beq, Binary64.equal_iff] at h <;> simp [ofTerm, h]
  case float.float x y =>
    obtain ⟨rfl, -⟩ | ⟨hx, hy⟩ := h
    · rfl
    · simp [hx, hy]

namespace Unification

lemma compatible_of_within {depth : Nat} {s t : Term} {env env' : Environment}
    (h : within (depth + 1) s t env = .unified env') :
    Store.compatible (.ofTerm (env.chase s)) (.ofTerm t) = true := by
  cases hs : (env.chase s).asVariable? with
  | some v =>
    have hvar : env.chase s = .var v := by cases hc : env.chase s <;> simp_all [Term.asVariable?]
    rw [hvar]
    rfl
  | none =>
    cases ht : t.asVariable? with
    | some w =>
      have hvar : t = .var w := by cases t <;> simp_all [Term.asVariable?]
      rw [hvar]
      cases env.chase s <;> rfl
    | none =>
      have hstep := step_of_within h
      have hleft : env.chaseVisiting s = (env.chase s, (env.chaseVisiting s).2) :=
        Prod.ext (Environment.chaseVisiting_of_chase hs) rfl
      rw [hleft, Environment.chaseVisiting_of_not_var env ht] at hstep
      generalize env.chase s = u at hstep hs
      have key : FirstArgument.ofTerm t = FirstArgument.ofTerm u := by
        cases hstep with
        | same => cases hs
        | link => cases hs
        | bindLeft => cases hs
        | bindRight => cases ht
        | compound => rfl
        | list => rfl
        | equal _ heq => exact (FirstArgument.ofTerm_eq_of_beq heq).symm
      rw [key]
      cases u <;> simp [Store.compatible, FirstArgument.ofTerm]

end Unification

namespace Store

theorem isOffered_of_unify {head t : Term} {env env' : Environment}
    (hhead : head.functor?.isSome) (ht : t.functor?.isSome)
    (partition : Partition.of t = Partition.of head) (h : unify head t env = some env') :
    isOffered head env t = true := by
  obtain ⟨depth, h⟩ := Unification.exists_within_of_unify h
  have hstep := Unification.step_of_within h
  have hleft : head.asVariable? = none := by cases head <;> first | rfl | cases hhead
  have hright : t.asVariable? = none := by cases t <;> first | rfl | cases ht
  rw [Environment.chaseVisiting_of_not_var env hleft,
    Environment.chaseVisiting_of_not_var env hright] at hstep
  cases hstep with
  | same => cases hleft
  | link => cases hleft
  | bindLeft => cases hleft
  | bindRight => cases hright
  | list => cases hhead
  | equal constant heq =>
    change Term.beq head t = true at heq
    cases head with
    | atom a =>
      cases t with
      | atom b =>
        obtain rfl : a = b := by simpa [Term.beq] using heq
        simp [isOffered, Term.functor?, hasFunctor, FirstArgument.ofHead, Term.args,
          FirstArgument.ofConstraint, compatible]
      | _ => cases heq
    | compound => cases constant
    | _ => cases hhead
  | @compound f as bs p q _ _ _ _ length below =>
    have first : compatible (.ofHead (.compound f as p) env) (.ofConstraint (.compound f bs q)) := by
      cases as with
      | nil =>
        obtain rfl : bs = [] := by simpa using length.symm
        rfl
      | cons a as =>
        cases bs with
        | nil => simp at length
        | cons b bs =>
          obtain ⟨env₁, hab, -⟩ := Unification.fold_cons_eq_unified below
          cases depth with
          | zero => cases hab
          | succ depth => exact Unification.compatible_of_within hab
    simp [isOffered, Term.functor?, hasFunctor, partition, first]

lemma of_isOffered {head t : Term} {env : Environment} (h : isOffered head env t = true) :
    Partition.of t = Partition.of head ∧ t.functor? = head.functor? := by
  unfold isOffered at h
  split at h
  · next f hf =>
    simp only [hasFunctor, Bool.and_eq_true, beq_iff_eq] at h
    obtain ⟨⟨hfunctor, hpartition⟩, -⟩ := h
    exact ⟨hpartition, hfunctor.trans hf.symm⟩
  · cases h

/-- The index hides no matching constraint, whatever the bindings are: the candidates for a head come
in increasing order, are of its partition and functor, and all constraints of the partition that unify
with the head are among them. -/
theorem candidates_complete (changes : List Change) {head : Term} (hhead : head.functor?.isSome)
    (env : Environment) :
    let s := empty.changeAll changes
    let candidates := (s.candidates head env).toList
    candidates.Pairwise (· < ·) ∧
      (∀ id ∈ candidates, ∃ t, s.get? id = some t ∧ Partition.of t = Partition.of head ∧
        t.functor? = head.functor?) ∧
      ∀ id t, s.get? id = some t → Partition.of t = Partition.of head →
        (unify head t env).isSome → id ∈ candidates := by
  intro s candidates
  have indexed : s.Indexed := (reaches_changeAll empty changes).indexed indexed_empty
  have offered : candidates = s.idsWhere (isOffered head env) := toList_candidates indexed head env
  refine ⟨pairwise_candidates indexed head env, ?_, ?_⟩
  · intro id hid
    rw [offered, mem_idsWhere] at hid
    obtain ⟨t, stored, h⟩ := hid
    exact ⟨t, stored, of_isOffered h⟩
  · intro id t stored partition unifies
    rw [offered, mem_idsWhere]
    obtain ⟨env', h⟩ := Option.isSome_iff_exists.mp unifies
    exact ⟨t, stored, isOffered_of_unify hhead (indexed.functor id t stored) partition h⟩

/-- A constraint on the positive zero is found for a head that reaches the negative one along a chain
of variables; a cycle among the other bindings is no obstacle. -/
theorem candidates_complete_zeros :
    let p (t : Term) := Term.ordinary "p" [t]
    let var (name : String) := Term.var ⟨name, 0⟩
    let changes := [.add (p (.float ⟨0⟩)), .add (p (.int 1)), .add (p (var "Y")), .consume 0]
    let env := Environment.ofList [(⟨"C", 0⟩, var "D"), (⟨"D", 0⟩, var "C"), (⟨"A", 0⟩, var "B"),
      (⟨"B", 0⟩, .float ⟨0x8000000000000000⟩)]
    (p (var "A")).functor?.isSome ∧ (unify (p (var "A")) (p (.float ⟨0⟩)) env).isSome ∧
      0 ∈ ((empty.changeAll changes).candidates (p (var "A")) env).toList := by
  intro p var changes env
  have unifies : (unify (p (var "A")) (p (.float ⟨0⟩)) env).isSome := by decide +kernel
  refine ⟨rfl, unifies, ?_⟩
  exact (candidates_complete changes rfl env).2.2 0 (p (.float ⟨0⟩)) rfl rfl unifies

end Store
end ConstraintHandling
