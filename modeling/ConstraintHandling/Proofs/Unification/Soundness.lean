import ConstraintHandling.Proofs.Environment.Acyclic
import ConstraintHandling.Proofs.Term.Alike
import ConstraintHandling.Proofs.Unification.Bindings

/-! Soundness of unification. Without cycles among variables a run binds only unbound variables, so that
what an earlier part of it has established stays as it is; and every substitution that upholds the
resulting bindings, their own one among them, makes the two terms the same tree. -/
namespace ConstraintHandling

lemma Term.isConstant_of_beq {s t : Term} (constant : s.isConstant = true) (h : (s == t) = true) :
    t.isConstant = true := by
  cases beq_iff_equal.mp h with
  | plain => exact constant
  | float => rfl
  | compound | list => cases constant

namespace Environment
open Relation

/-- The second environment is made from the first one by binding variables that are unbound in the
environment they extend. -/
inductive Grows (env : Environment) : Environment → Prop
  | refl : Grows env env
  | bind {env' : Environment} {v : Variable} {t : Term} (earlier : Grows env env')
      (unbound : env'.lookup v = none) : Grows env (env'.bind v t)

variable {env env' env₁ env₂ env₃ : Environment} {v : Variable} {t : Term}

lemma Grows.trans (h : env₁.Grows env₂) (h' : env₂.Grows env₃) : env₁.Grows env₃ := by
  induction h' with
  | refl => exact h
  | bind _ unbound ih => exact ih.bind unbound

lemma Grows.lookup (h : env.Grows env') (bound : env.lookup v = some t) :
    env'.lookup v = some t := by
  induction h with
  | refl => exact bound
  | @bind env' w u _ unbound ih =>
    have hne : v ≠ w := by
      rintro rfl
      rw [unbound] at ih
      cases ih
    rw [lookup_bind_of_ne env' u hne, ih]

lemma Extended.grows {P : Term → Prop} (h : Extended P env env') (ends : env.Ends) :
    env.Grows env' ∧ env'.Ends := by
  induction h with
  | refl => exact ⟨.refl, ends⟩
  | bind _ loose other _ _ ih =>
    obtain ⟨grows, ends'⟩ := ih
    exact ⟨grows.bind (loose.resolve_right (ends' _)), fun w cycle => ends' w (cycle_of_bind other cycle)⟩

end Environment

/-- The substitution makes every bound variable and its value alike. -/
def Environment.IsUpheldBy (env : Environment) (σ : Variable → Term) : Prop :=
  ∀ v t, env.lookup v = some t → (σ v).alike (t.mapVariables σ) = true

namespace Environment
variable {env env' : Environment} {σ : Variable → Term} {v : Variable} {t : Term}

lemma isUpheldBy_empty (σ : Variable → Term) : empty.IsUpheldBy σ :=
  fun _ _ h => by cases h

lemma IsUpheldBy.bind (h : env.IsUpheldBy σ) (same : (σ v).alike (t.mapVariables σ) = true) :
    (env.bind v t).IsUpheldBy σ :=
  forall_lookup_bind h same

lemma IsUpheldBy.chaseVisiting (h : env.IsUpheldBy σ) (t : Term) :
    (t.mapVariables σ).alike ((env.chaseVisiting t).1.mapVariables σ) = true :=
  (chaseVisiting_induct (P := fun u => (t.mapVariables σ).alike (u.mapVariables σ) = true)
    (fun v u hv bound => Term.alike_trans hv (h v u bound)) (Term.alike_refl _)).1

lemma Grows.isUpheldBy (h : env.Grows env') (upheld : env'.IsUpheldBy σ) : env.IsUpheldBy σ :=
  fun v t bound => upheld v t (h.lookup bound)

lemma substitute_eq_mapVariables (env : Environment) (t : Term) :
    env.substitute t = t.mapVariables fun v => env.substitute (.var v) := by
  rw [substitute_eq, substituteWithin]
  congr 1
  funext v
  rw [substitute_eq, substituteWithin, Term.mapVariables]

lemma Acyclic.isUpheldBy (h : env.Acyclic) : env.IsUpheldBy fun v => env.substitute (.var v) := by
  intro v t bound
  dsimp only
  rw [← substitute_eq_mapVariables, substitute_of_bound h bound]
  exact Term.alike_refl _

end Environment

namespace Unification
open Environment

variable {env env' last : Environment} {σ : Variable → Term} {s t : Term} {depth : Nat}

lemma grows_of_within (ends : env.Ends) (h : within depth s t env = .unified env') :
    env.Grows env' ∧ env'.Ends :=
  (extended_of_within (P := fun _ => True) (fun _ _ _ _ => trivial) (fun _ _ _ => trivial) trivial
    trivial h).grows ends

lemma grows_of_fold {as bs : List Term} (ends : env.Ends)
    (h : fold (within depth) as bs env = .unified env') : env.Grows env' := by
  have extended : Extended (fun _ => True) env env' :=
    extended_of_fold (fun _ _ _ _ _ _ covered run =>
      extended_of_within (fun _ _ _ _ => trivial) covered trivial trivial run)
      (fun _ _ _ => trivial) h
  exact (extended.grows ends).1

lemma substitute_chaseVisiting (acyclic : last.Acyclic) (grows : env.Grows last) (t : Term) :
    last.substitute (env.chaseVisiting t).1 = last.substitute t :=
  (chaseVisiting_induct (P := fun u => last.substitute u = last.substitute t)
    (fun _ _ hv bound => (substitute_of_bound acyclic (grows.lookup bound)).symm.trans hv) rfl).1

lemma alikeAll_of_fold
    (hstep : ∀ {s t env env'}, env.Ends → env'.Grows last → within depth s t env = .unified env' →
      (s.mapVariables σ).alike (t.mapVariables σ) = true)
    {as bs : List Term} (ends : env.Ends) (grows : env'.Grows last) (length : as.length = bs.length)
    (run : fold (within depth) as bs env = .unified env') :
    Term.alikeAll (as.map (Term.mapVariables σ)) (bs.map (Term.mapVariables σ)) = true := by
  induction as generalizing bs env with
  | nil =>
    obtain rfl : bs = [] := by simpa using length.symm
    exact Term.alikeAll_refl []
  | cons a as ih =>
    cases bs with
    | nil => simp at length
    | cons b bs =>
      obtain ⟨env₁, first, later⟩ := fold_cons_eq_unified run
      have ends₁ := (grows_of_within ends first).2
      have here := hstep ends ((grows_of_fold ends₁ later).trans grows) first
      have rest := ih ends₁ (by simpa using length) later
      simp [Term.alikeAll, here, rest]

/-- What upholds later bindings makes terms that a run has unified the same. -/
theorem alike_of_upheld (upheld : last.IsUpheldBy σ) (ends : env.Ends) (grows : env'.Grows last)
    (h : within depth s t env = .unified env') :
    (s.mapVariables σ).alike (t.mapVariables σ) = true := by
  induction depth generalizing s t env env' with
  | zero => cases h
  | succ depth ih =>
    have before := ((grows_of_within ends h).1.trans grows).isUpheldBy upheld
    have left := before.chaseVisiting s
    have right := before.chaseVisiting t
    have hstep := step_of_within h
    generalize env.chaseVisiting s = l at hstep left
    generalize env.chaseVisiting t = r at hstep right
    refine Term.alike_trans left (Term.alike_trans ?_ (Term.alike_symm right))
    cases hstep with
    | same => exact Term.alike_refl _
    | link | bindLeft => exact upheld _ _ (grows.lookup (lookup_bind_self ..))
    | bindRight => exact Term.alike_symm (upheld _ _ (grows.lookup (lookup_bind_self ..)))
    | compound length run =>
      simpa [Term.mapVariables, Term.alike] using alikeAll_of_fold ih ends grows length run
    | list length run =>
      simpa [Term.mapVariables, Term.alike] using alikeAll_of_fold ih ends grows length run
    | equal constant heq =>
      rw [Term.mapVariables_of_isConstant constant,
        Term.mapVariables_of_isConstant (Term.isConstant_of_beq constant heq)]
      exact Term.alike_of_beq heq

lemma alike_of_within (acyclic : last.Acyclic) (ends : env.Ends) (grows : env'.Grows last)
    (h : within depth s t env = .unified env') :
    (last.substitute s).alike (last.substitute t) = true := by
  rw [substitute_eq_mapVariables, substitute_eq_mapVariables last t]
  exact alike_of_upheld acyclic.isUpheldBy ends grows h

end Unification

/-- Successful unification makes the two terms the same tree, and it only binds variables that are
unbound. -/
theorem unify_equalises {s t : Term} {env env' : Environment} (acyclic : env.Acyclic)
    (acyclic' : env'.Acyclic) (h : unify s t env = some env') :
    (env'.substitute s).alike (env'.substitute t) = true ∧ env.Grows env' := by
  obtain ⟨depth, run⟩ := Unification.exists_within_of_unify h
  have ends := Environment.ends_of_acyclic acyclic
  exact ⟨Unification.alike_of_within acyclic' ends .refl run, (Unification.grows_of_within ends run).1⟩

/-- A variable is bound to one zero and then compared with the other one, and an operator term is unified
with an ordinary term of the same name. -/
theorem unify_equalises_zeros :
    let var (name : String) := Term.var ⟨name, 0⟩
    let env := Environment.empty.bind ⟨"A", 0⟩ (var "B")
    let env' := (env.bind ⟨"B", 0⟩ (.float ⟨0⟩)).bind ⟨"C", 0⟩ (.int 2)
    let s := Term.ordinary "p" [var "A", var "B", .compound "+" [.int 1, var "C"] 500]
    let t := Term.ordinary "p" [.float ⟨0⟩, .float ⟨0x8000000000000000⟩,
      Term.ordinary "+" [.int 1, .int 2]]
    env.Acyclic ∧ env'.Acyclic ∧ unify s t env = some env' ∧
      (env'.substitute s).alike (env'.substitute t) = true ∧ env.Grows env' := by
  intro var env env' s t
  let rank (v : Variable) : Nat := if v.name = "A" then 1 else 0
  have acyclic : env.Acyclic := Environment.acyclic_of_rank rank (by decide)
  have acyclic' : env'.Acyclic := Environment.acyclic_of_rank rank (by decide)
  have unified : unify s t env = some env' := by rfl
  exact ⟨acyclic, acyclic', unified, unify_equalises acyclic acyclic' unified⟩

end ConstraintHandling
