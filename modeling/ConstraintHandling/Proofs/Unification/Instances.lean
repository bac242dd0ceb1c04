import ConstraintHandling.Proofs.Environment.Cycles
import ConstraintHandling.Proofs.Unification.Soundness

/-! Common instances. Since the occurs-check is limited, unification can succeed on terms without a common
instance, and the bindings have a cycle then; on terms with a common instance, operator priorities and
signs of zeros apart, they never have one. -/
namespace ConstraintHandling

namespace Environment
open Relation

variable {env : Environment} {σ : Variable → Term} {v w : Variable} {t u : Term}

lemma IsUpheldBy.size_le (h : env.IsUpheldBy σ) (reach : ReflTransGen env.Mentions v w) :
    (σ w).size ≤ (σ v).size := by
  induction reach with
  | refl => exact Nat.le_refl _
  | @tail x y _ last ih =>
    obtain ⟨t, bound, hy⟩ := last
    calc (σ y).size
      _ ≤ (t.mapVariables σ).size := Term.size_le_of_mem_occurrences hy
      _ = (σ x).size := (Term.size_eq_of_alike (h x t bound)).symm
      _ ≤ (σ v).size := ih

/-- Bindings with a common instance of every variable and its value have no cycle, except one of
variables only. -/
theorem IsUpheldBy.acyclic (h : env.IsUpheldBy σ) (ends : env.Ends) : env.Acyclic := by
  refine acyclic_of_not_knotted ends ?_
  rintro ⟨v, t, w, bound, ht, hw, back⟩
  have larger : (σ w).size < (σ v).size := by
    rw [Term.size_eq_of_alike (h v t bound)]
    exact Term.size_lt_of_mem_occurrences ht hw
  exact Nat.lt_irrefl _ (larger.trans_le (h.size_le back))

end Environment

namespace Unification
open Environment

variable {env env' : Environment} {σ : Variable → Term} {s t : Term}

lemma upheld_of_fold {step : Term → Term → Environment → Unification} {as bs : List Term}
    (hstep : ∀ {a b env env'}, env.IsUpheldBy σ →
      (a.mapVariables σ).alike (b.mapVariables σ) = true → step a b env = .unified env' →
      env'.IsUpheldBy σ)
    (upheld : env.IsUpheldBy σ)
    (same : Term.alikeAll (as.map (Term.mapVariables σ)) (bs.map (Term.mapVariables σ)) = true)
    (run : fold step as bs env = .unified env') : env'.IsUpheldBy σ := by
  induction as generalizing bs env with
  | nil =>
    cases run
    exact upheld
  | cons a as ih =>
    cases bs with
    | nil =>
      cases run
      exact upheld
    | cons b bs =>
      rw [List.map_cons, List.map_cons, Term.alikeAll, Bool.and_eq_true] at same
      obtain ⟨env₁, first, later⟩ := fold_cons_eq_unified run
      exact ih (hstep upheld same.1 first) same.2 later

theorem upheld_of_within {depth : Nat} (upheld : env.IsUpheldBy σ)
    (same : (s.mapVariables σ).alike (t.mapVariables σ) = true)
    (run : within depth s t env = .unified env') : env'.IsUpheldBy σ := by
  induction depth generalizing s t env env' with
  | zero => cases run
  | succ depth ih =>
    have hstep := step_of_within run
    have left := upheld.chaseVisiting s
    have right := upheld.chaseVisiting t
    generalize env.chaseVisiting s = l at hstep left
    generalize env.chaseVisiting t = r at hstep right
    have chased := Term.alike_trans (Term.alike_symm left) (Term.alike_trans same right)
    cases hstep with
    | same | equal => exact upheld
    | link | bindLeft => exact upheld.bind chased
    | bindRight => exact upheld.bind (Term.alike_symm chased)
    | compound _ below =>
      refine upheld_of_fold ih upheld ?_ below
      simpa [Term.mapVariables, Term.alike] using chased
    | list _ below =>
      refine upheld_of_fold ih upheld ?_ below
      simpa [Term.mapVariables, Term.alike] using chased

end Unification

end ConstraintHandling
