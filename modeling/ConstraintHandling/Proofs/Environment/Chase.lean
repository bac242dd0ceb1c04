import ConstraintHandling.Environment
import Mathlib.Tactic.Common

/-! Chasing. The chase that counts its steps and the one that watches for repetitions go the same way
as long as it ends at a term that is no variable. -/
namespace ConstraintHandling
namespace Environment

/-- `steps` bindings lead from a term to another one, which is no variable. -/
inductive Leads (env : Environment) : Nat → Term → Term → Prop
  | here {t : Term} (ht : t.asVariable? = none) : Leads env 0 t t
  | step {n : Nat} {v : Variable} {t u : Term} (bound : env.lookup v = some t)
      (later : Leads env n t u) : Leads env (n + 1) (.var v) u

namespace Leads

lemma steps_unique {env : Environment} {m n : Nat} {t u w : Term} (h : Leads env m t u)
    (h' : Leads env n t w) : m = n := by
  induction h generalizing n with
  | here ht =>
    cases h' with
    | here => rfl
    | step => cases ht
  | step bound later ih =>
    cases h' with
    | here ht => cases ht
    | step bound' later' =>
      rw [bound] at bound'
      cases bound'
      rw [ih later']

lemma of_chaseWithin {env : Environment} {n : Nat} {t u : Term}
    (h : env.chaseWithin n t = u) (hu : u.asVariable? = none) : ∃ k ≤ n, Leads env k t u := by
  induction n generalizing t with
  | zero =>
    subst h
    exact ⟨0, Nat.le_refl _, .here (by simpa [chaseWithin] using hu)⟩
  | succ n ih =>
    cases t with
    | var v =>
      simp only [chaseWithin] at h
      cases bound : env.lookup v with
      | none =>
        rw [bound] at h
        subst h
        cases hu
      | some t =>
        rw [bound] at h
        obtain ⟨k, hk, later⟩ := ih h
        exact ⟨k + 1, by omega, .step bound later⟩
    | _ =>
      subst h
      exact ⟨0, by omega, .here hu⟩

lemma walk_eq {env : Environment} {k n : Nat} {t u : Term} (h : Leads env k t u)
    (visited : List Variable) (hn : k ≤ n)
    (far : ∀ w ∈ visited, ∃ j, k < j ∧ Leads env j (.var w) u) :
    (env.walk n visited t).1 = u := by
  -- The variables visited before are farther from the end, so that none of them comes up again.
  induction h generalizing n visited with
  | @here t ht =>
    cases t with
    | var v => cases ht
    | _ => cases n <;> rfl
  | @step k v t u bound later ih =>
    obtain ⟨n, rfl⟩ : ∃ m, n = m + 1 := ⟨n - 1, by omega⟩
    have new : v ∉ visited := by
      intro hv
      obtain ⟨j, hj, way⟩ := far v hv
      have := way.steps_unique (.step bound later)
      omega
    rw [walk, if_neg new, bound]
    apply ih (v :: visited) (by omega)
    intro w hw
    obtain rfl | hw := List.mem_cons.mp hw
    · exact ⟨k + 1, by omega, .step bound later⟩
    · obtain ⟨j, hj, way⟩ := far w hw
      exact ⟨j, by omega, way⟩

end Leads

lemma chaseVisiting_of_chase {env : Environment} {t : Term}
    (h : (env.chase t).asVariable? = none) : (env.chaseVisiting t).1 = env.chase t := by
  obtain ⟨k, hk, way⟩ := Leads.of_chaseWithin rfl h
  exact way.walk_eq [] hk (by simp)

lemma chaseVisiting_of_not_var (env : Environment) {t : Term} (h : t.asVariable? = none) :
    env.chaseVisiting t = (t, []) := by
  cases t <;> first | rfl | cases h

end Environment
end ConstraintHandling
