import ConstraintHandling.Proofs.Environment.Links
import ConstraintHandling.Proofs.Term.Subterms
import ConstraintHandling.Proofs.Unification.Step

/-! The bindings that unification makes. A successful run adds bindings one by one: of variables at which
a chase ends, to other such variables or to terms that are no variables, all of them among the terms
met by the run. -/
namespace ConstraintHandling

namespace Environment

def Covered (P : Term → Prop) (env : Environment) : Prop :=
  ∀ v t, env.lookup v = some t → P t

/-- The second environment is made from the first one by bindings as unification makes them, of
variables and to terms with the property. -/
inductive Extended (P : Term → Prop) (env : Environment) : Environment → Prop
  | refl : Extended P env env
  | bind {env' : Environment} {v : Variable} {t : Term} (earlier : Extended P env env')
      (loose : env'.Loose v) (other : ∀ w, t = .var w → w ≠ v ∧ env'.Loose w)
      (hv : P (.var v)) (ht : P t) : Extended P env (env'.bind v t)

variable {P : Term → Prop} {env env' env₁ env₂ env₃ : Environment} {v : Variable} {t : Term}

lemma Covered.bind (h : env.Covered P) (v : Variable) (ht : P t) : (env.bind v t).Covered P :=
  forall_lookup_bind h ht

lemma Covered.chaseVisiting (h : env.Covered P) (ht : P t) : P (env.chaseVisiting t).1 :=
  (chaseVisiting_induct (fun v t _ bound => h v t bound) ht).1

lemma Extended.trans (h : Extended P env₁ env₂) (h' : Extended P env₂ env₃) :
    Extended P env₁ env₃ := by
  induction h' with
  | refl => exact h
  | bind _ loose other hv ht ih => exact ih.bind loose other hv ht

lemma Extended.covered (h : Extended P env env') (covered : env.Covered P) : env'.Covered P := by
  induction h with
  | refl => exact covered
  | bind _ _ _ _ ht ih => exact ih.bind _ ht

end Environment

namespace Unification
open Environment

variable {P : Term → Prop} {env env' : Environment} {s t : Term}

lemma Pairs.children {as bs : List Term} (h : Pairs s t as bs) :
    as = s.children ∧ bs = t.children := by
  cases h <;> exact ⟨rfl, rfl⟩

lemma extended_of_fold {step : Term → Term → Environment → Unification} {as bs : List Term}
    (hstep : ∀ a ∈ as, ∀ b ∈ bs, ∀ env env', env.Covered P → step a b env = .unified env' →
      Extended P env env')
    (covered : env.Covered P) (h : fold step as bs env = .unified env') : Extended P env env' := by
  refine fold_keeps (R := Extended P env) (fun a ha b hb env₁ env₂ h₁ hab => ?_) h .refl
  exact h₁.trans (hstep a ha b hb env₁ env₂ (h₁.covered covered) hab)

/-- A successful run only extends the bindings. -/
theorem extended_of_within (parts : ∀ t, P t → ∀ a ∈ t.children, P a) {depth : Nat}
    (covered : env.Covered P) (hs : P s) (ht : P t) (h : within depth s t env = .unified env') :
    Extended P env env' := by
  induction depth generalizing s t env env' with
  | zero => cases h
  | succ depth ih =>
    have hstep := step_of_within h
    have left := covered.chaseVisiting hs
    have right := covered.chaseVisiting ht
    have looseLeft (v : Variable) (hv : (env.chaseVisiting s).1 = .var v) : env.Loose v :=
      loose_of_chaseVisiting hv
    have looseRight (w : Variable) (hw : (env.chaseVisiting t).1 = .var w) : env.Loose w :=
      loose_of_chaseVisiting hw
    generalize env.chaseVisiting s = l at hstep left looseLeft
    generalize env.chaseVisiting t = r at hstep right looseRight
    cases hstep with
    | same => exact .refl
    | @link v w l r _ hne =>
      refine .bind .refl (looseLeft v rfl) (fun x hx => ?_) left right
      cases hx
      exact ⟨hne.symm, looseRight w rfl⟩
    | @bindLeft v t l r _ ht fresh =>
      refine .bind .refl (looseLeft v rfl) (fun x hx => ?_) left right
      subst hx
      cases ht
    | @bindRight v s l r _ hs fresh =>
      refine .bind .refl (looseRight v rfl) (fun x hx => ?_) right left
      subst hx
      cases hs
    | compound _ run =>
      exact extended_of_fold (fun a ha b hb _ _ covered hab =>
        ih covered (parts _ left a ha) (parts _ right b hb) hab) covered run
    | list _ run =>
      exact extended_of_fold (fun a ha b hb _ _ covered hab =>
        ih covered (parts _ left a ha) (parts _ right b hb) hab) covered run
    | equal => exact .refl

end Unification
end ConstraintHandling
