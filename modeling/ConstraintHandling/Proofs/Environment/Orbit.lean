import ConstraintHandling.Proofs.Environment.Walk
import ConstraintHandling.Proofs.Term.Occurrences
import Mathlib.Dynamics.PeriodicPts.Lemmas

/-! The places of a chase. Following one binding after the other leads a term through a sequence
of places and into a cycle, which has length one where there is nothing left to follow. The chase
that watches for repetitions stops at the first place that comes up again; the one that counts its
steps has more steps to go from there, and ends at the same place exactly if these go round the
whole cycle. -/
namespace ConstraintHandling
namespace Environment

/-- The term to which a bound variable is bound; any other term stays. -/
def follow (env : Environment) : Term → Term
  | .var v => (env.lookup v).getD (.var v)
  | t => t

/-- The second term is the first one to come up again on the way from the first term. -/
def IsFirstRepeated (env : Environment) (t u : Term) : Prop :=
  ∃ n, env.follow^[n] t = u ∧ (∃ k < n, env.follow^[k] t = u) ∧
    Set.InjOn (fun k => env.follow^[k] t) (Set.Iio n)

variable {env : Environment} {visited visited' : List Variable} {v : Variable} {t u : Term}

lemma follow_of_bound (bound : env.lookup v = some t) : env.follow (.var v) = t := by
  rw [follow, bound, Option.getD_some]

lemma follow_of_unbound (unbound : env.lookup v = none) : env.follow (.var v) = .var v := by
  rw [follow, unbound, Option.getD_none]

lemma follow_of_not_var (ht : t.asVariable? = none) : env.follow t = t := by
  cases t with
  | var v => cases ht
  | _ => rfl

lemma chaseWithin_eq_iterate (env : Environment) (n : Nat) (t : Term) :
    env.chaseWithin n t = env.follow^[n] t := by
  induction n generalizing t with
  | zero => cases t <;> rfl
  | succ n ih =>
    obtain ⟨v, rfl⟩ | ht := t.var_or_not_var
    · rw [chaseWithin]
      cases bound : env.lookup v with
      | none => exact (Function.iterate_fixed (follow_of_unbound bound) _).symm
      | some t => rw [Function.iterate_succ_apply, follow_of_bound bound, ← ih]
    · rw [Function.iterate_fixed (follow_of_not_var ht)]
      cases t <;> first | rfl | cases ht

namespace Walks

lemma path (h : env.Walks visited t u visited') : ∃ path : List Variable,
    visited' = path.reverse ++ visited ∧ env.follow^[path.length] t = u ∧
      ∀ k (hk : k < path.length), env.follow^[k] t = .var path[k] := by
  induction h with
  | here | again => exact ⟨[], rfl, rfl, fun k hk => absurd hk (Nat.not_lt_zero k)⟩
  | @free _ v new unbound =>
    refine ⟨[v], rfl, follow_of_unbound unbound, fun k hk => ?_⟩
    obtain rfl : k = 0 := Nat.lt_one_iff.mp hk
    rfl
  | @step _ _ v t u new bound _ ih =>
    obtain ⟨path, heq, there, places⟩ := ih
    refine ⟨v :: path, by simp [heq], ?_, fun k hk => ?_⟩
    · rwa [List.length_cons, Function.iterate_succ_apply, follow_of_bound bound]
    · cases k with
      | zero => rfl
      | succ k =>
        rw [Function.iterate_succ_apply, follow_of_bound bound]
        exact places k (Nat.lt_of_succ_lt_succ hk)

lemma nodup (h : env.Walks visited t u visited') (nodup : visited.Nodup) : visited'.Nodup := by
  induction h with
  | here | again => exact nodup
  | free new => exact List.nodup_cons.mpr ⟨new, nodup⟩
  | step new _ _ ih => exact ih (List.nodup_cons.mpr ⟨new, nodup⟩)

lemma end_mem (h : env.Walks visited t (.var v) visited') : v ∈ visited' := by
  generalize hu : Term.var v = u at h
  induction h with
  | here ht =>
    subst hu
    cases ht
  | again seen =>
    cases hu
    exact seen
  | free =>
    cases hu
    exact List.mem_cons_self
  | step _ _ _ ih => exact ih hu

end Walks

lemma isFirstRepeated_chaseVisiting (env : Environment) (t : Term) :
    env.IsFirstRepeated t (env.chaseVisiting t).1 := by
  have walk := env.walks_chaseVisiting t
  obtain ⟨path, heq, there, places⟩ := walk.path
  rw [List.append_nil] at heq
  have nodup : path.Nodup := List.nodup_reverse.mp (heq ▸ walk.nodup List.nodup_nil)
  have apart {k l : Nat} (hk : k < path.length) (hl : l < path.length)
      (same : env.follow^[k] t = env.follow^[l] t) : k = l := by
    rw [places k hk, places l hl] at same
    exact (List.Nodup.getElem_inj_iff nodup).mp (Term.var.inj same)
  obtain ⟨v, hv⟩ | ended := (env.chaseVisiting t).1.var_or_not_var
  · rw [hv] at walk there ⊢
    obtain ⟨k, hk, here⟩ := List.getElem_of_mem (List.mem_reverse.mp (heq ▸ walk.end_mem))
    exact ⟨path.length, there, ⟨k, hk, by rw [places k hk, here]⟩, fun k hk l hl => apart hk hl⟩
  -- What is no variable is not among the places before, and comes up again at once.
  · have last {k : Nat} (hk : k < path.length) : env.follow^[k] t ≠ env.follow^[path.length] t := by
      rw [places k hk, there]
      rintro same
      rw [← same] at ended
      cases ended
    refine ⟨path.length + 1, ?_, ⟨path.length, Nat.lt_succ_self _, there⟩, fun k hk l hl same => ?_⟩
    · rw [Function.iterate_succ_apply', there, follow_of_not_var ended]
    · obtain hk | rfl := Nat.lt_succ_iff_lt_or_eq.mp hk
      · obtain hl | rfl := Nat.lt_succ_iff_lt_or_eq.mp hl
        · exact apart hk hl same
        · exact absurd same (last hk)
      · obtain hl | rfl := Nat.lt_succ_iff_lt_or_eq.mp hl
        · exact absurd same.symm (last hl)
        · rfl

lemma iterate_length_chaseVisiting (env : Environment) (t : Term) :
    env.follow^[(env.chaseVisiting t).2.length] t = (env.chaseVisiting t).1 := by
  obtain ⟨path, heq, there, -⟩ := (env.walks_chaseVisiting t).path
  rwa [heq, List.append_nil, List.length_reverse]

lemma length_walk_le (env : Environment) (n : Nat) (visited : List Variable) (t : Term) :
    (env.walk n visited t).2.length ≤ visited.length + n := by
  induction n generalizing visited t with
  | zero => cases t <;> exact Nat.le_refl _
  | succ n ih =>
    cases t with
    | var v =>
      rw [walk]
      split
      · exact Nat.le_add_right _ _
      · split
        · next t _ =>
          have := ih (v :: visited) t
          rw [List.length_cons] at this
          omega
        · rw [List.length_cons]
          omega
    | _ => exact Nat.le_add_right _ _

/-- The two chases. The one that watches for repetitions stops at the first place that comes up
again. The one that counts its steps goes on from there: a step for each binding that the other
one has not used, and one more. So they agree exactly if the length of the cycle they have entered
divides the number of these steps; for a chain of bindings that ends, this length is one. -/
theorem chases_agree_iff (env : Environment) (t : Term) :
    let stop := (env.chaseVisiting t).1
    let visited := (env.chaseVisiting t).2
    env.IsFirstRepeated t stop ∧
      env.chase t = env.follow^[env.size + 1 - visited.length] stop ∧
      (env.chase t = stop ↔
        Function.minimalPeriod env.follow stop ∣ env.size + 1 - visited.length) := by
  intro stop visited
  have further : env.chase t = env.follow^[env.size + 1 - visited.length] stop := by
    have enough : visited.length ≤ env.size + 1 := by
      have := env.length_walk_le (env.size + 1) [] t
      rwa [List.length_nil, Nat.zero_add] at this
    have there : env.follow^[visited.length] t = stop := env.iterate_length_chaseVisiting t
    calc env.chase t = env.follow^[env.size + 1] t := env.chaseWithin_eq_iterate _ t
      _ = env.follow^[env.size + 1 - visited.length + visited.length] t := by
        rw [Nat.sub_add_cancel enough]
      _ = env.follow^[env.size + 1 - visited.length] stop := by
        rw [Function.iterate_add_apply, there]
  refine ⟨env.isFirstRepeated_chaseVisiting t, further, ?_⟩
  rw [further, ← Function.isPeriodicPt_iff_minimalPeriod_dvd]
  rfl

/-- On a cycle of two variables the chase that counts its steps goes past the first variable that
comes up again. -/
theorem chase_passes_first_repeated :
    let x : Variable := ⟨"X", 0⟩
    let y : Variable := ⟨"Y", 0⟩
    let env := ofList [(x, .var y), (y, .var x)]
    env.IsFirstRepeated (.var x) (.var x) ∧ (env.chaseVisiting (.var x)).1 = .var x ∧
      env.chase (.var x) = .var y := by
  intro x y env
  exact ⟨env.isFirstRepeated_chaseVisiting (.var x), rfl, rfl⟩

end Environment
end ConstraintHandling
