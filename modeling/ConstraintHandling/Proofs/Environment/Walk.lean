import ConstraintHandling.Environment
import Mathlib.Data.List.Perm.Subperm
import Mathlib.Logic.Relation

/-! Walks along bindings. The bounded walk that watches for repetitions is a walk without a bound: the
variables behind it are different from each other and bound, so that it cannot be longer than there
are bindings. -/
namespace ConstraintHandling
namespace Environment

lemma lookup_bind (env : Environment) (v w : Variable) (t : Term) :
    (env.bind v t).lookup w = if w = v then some t else env.lookup w := by
  by_cases h : w = v
  · rw [h, lookup_bind_self, if_pos rfl]
  · rw [lookup_bind_of_ne env t h, if_neg h]

lemma of_lookup_bind {env : Environment} {v w : Variable} {t u : Term}
    (h : (env.bind v t).lookup w = some u) : (w = v ∧ u = t) ∨ (w ≠ v ∧ env.lookup w = some u) := by
  rw [lookup_bind] at h
  split at h
  · next heq => exact .inl ⟨heq, (Option.some.inj h).symm⟩
  · next hne => exact .inr ⟨hne, h⟩

lemma forall_lookup_bind {env : Environment} {P : Variable → Term → Prop} {v : Variable} {t : Term}
    (old : ∀ w u, env.lookup w = some u → P w u) (new : P v t) :
    ∀ w u, (env.bind v t).lookup w = some u → P w u := by
  intro w u bound
  obtain ⟨rfl, rfl⟩ | ⟨-, before⟩ := of_lookup_bind bound
  · exact new
  · exact old w u before

/-- Two environments in which every variable has the same value; hidden bindings may differ. -/
def SameLookups (env env' : Environment) : Prop :=
  ∀ v, env.lookup v = env'.lookup v

/-- A walk from a term to the place where it ends, with the variables visited before and after. It ends
at a term that is no variable, at a variable seen before and at an unbound variable. -/
inductive Walks (env : Environment) : List Variable → Term → Term → List Variable → Prop
  | here {visited : List Variable} {t : Term} (ht : t.asVariable? = none) : Walks env visited t t visited
  | again {visited : List Variable} {v : Variable} (seen : v ∈ visited) :
      Walks env visited (.var v) (.var v) visited
  | free {visited : List Variable} {v : Variable} (new : v ∉ visited)
      (unbound : env.lookup v = none) : Walks env visited (.var v) (.var v) (v :: visited)
  | step {visited visited' : List Variable} {v : Variable} {t u : Term} (new : v ∉ visited)
      (bound : env.lookup v = some t) (later : Walks env (v :: visited) t u visited') :
      Walks env visited (.var v) u visited'

namespace Walks
variable {env : Environment} {visited visited' : List Variable} {t u : Term}

lemma unique (h : env.Walks visited t u visited') {w : Term} {visited'' : List Variable}
    (h' : env.Walks visited t w visited'') : u = w ∧ visited' = visited'' := by
  induction h with
  | here ht =>
    cases h' with
    | here => exact ⟨rfl, rfl⟩
    | _ => cases ht
  | again seen =>
    cases h' with
    | here ht => cases ht
    | again => exact ⟨rfl, rfl⟩
    | free new => exact absurd seen new
    | step new => exact absurd seen new
  | free new unbound =>
    cases h' with
    | here ht => cases ht
    | again seen => exact absurd seen new
    | free => exact ⟨rfl, rfl⟩
    | step _ bound => rw [unbound] at bound; cases bound
  | step new bound later ih =>
    cases h' with
    | here ht => cases ht
    | again seen => exact absurd seen new
    | free _ unbound => rw [unbound] at bound; cases bound
    | step _ bound' later' =>
      rw [bound] at bound'
      cases bound'
      exact ih later'

lemma congr {env' : Environment} (same : env.SameLookups env')
    (h : env.Walks visited t u visited') : env'.Walks visited t u visited' := by
  induction h with
  | here ht => exact .here ht
  | again seen => exact .again seen
  | free new unbound => exact .free new ((same _).symm.trans unbound)
  | step new bound _ ih => exact .step new ((same _).symm.trans bound) ih

lemma induct {P : Term → Prop} (pass : ∀ v t, P (.var v) → env.lookup v = some t → P t)
    (h : env.Walks visited t u visited') (ht : P t) :
    P u ∧ ∀ w ∈ visited', w ∈ visited ∨ P (.var w) := by
  induction h with
  | here => exact ⟨ht, fun w hw => .inl hw⟩
  | again => exact ⟨ht, fun w hw => .inl hw⟩
  | free =>
    refine ⟨ht, fun w hw => ?_⟩
    obtain rfl | hw := List.mem_cons.mp hw
    · exact .inr ht
    · exact .inl hw
  | step _ bound _ ih =>
    obtain ⟨hu, later⟩ := ih (pass _ _ ht bound)
    refine ⟨hu, fun w hw => ?_⟩
    obtain seen | hw := later w hw
    · obtain rfl | seen := List.mem_cons.mp seen
      · exact .inr ht
      · exact .inl seen
    · exact .inr hw

end Walks

lemma length_le_size_of_bound {env : Environment} {visited : List Variable} (nodup : visited.Nodup)
    (bound : ∀ v ∈ visited, env.isBound v = true) : visited.length ≤ env.size := by
  have subset : visited ⊆ env.bindings.map Prod.fst := by
    intro v hv
    obtain ⟨t, ht⟩ := Option.isSome_iff_exists.mp (bound v hv)
    obtain ⟨before, behind, heq, -⟩ := List.lookup_eq_some_iff.mp ht
    exact List.mem_map.mpr ⟨(v, t), by simp [heq], rfl⟩
  have := (List.subperm_of_subset nodup subset).length_le
  rwa [List.length_map] at this

lemma walks_walk (env : Environment) {n : Nat} {visited : List Variable} {t : Term}
    (nodup : visited.Nodup) (bound : ∀ v ∈ visited, env.isBound v = true)
    (enough : env.size < n + visited.length) :
    env.Walks visited t (env.walk n visited t).1 (env.walk n visited t).2 := by
  induction n generalizing visited t with
  | zero =>
    have := length_le_size_of_bound nodup bound
    omega
  | succ n ih =>
    cases t with
    | var v =>
      rw [walk]
      by_cases seen : v ∈ visited
      · rw [if_pos seen]
        exact .again seen
      · rw [if_neg seen]
        cases hlookup : env.lookup v with
        | none => exact .free seen hlookup
        | some t =>
          apply Walks.step seen hlookup
          apply ih (List.nodup_cons.mpr ⟨seen, nodup⟩)
          · exact List.forall_mem_cons.mpr ⟨by simp [isBound, hlookup], bound⟩
          · rw [List.length_cons]
            omega
    | _ => exact .here rfl

theorem walks_chaseVisiting (env : Environment) (t : Term) :
    env.Walks [] t (env.chaseVisiting t).1 (env.chaseVisiting t).2 :=
  env.walks_walk List.nodup_nil (by simp) (Nat.lt_succ_self _)

lemma chaseVisiting_congr {env env' : Environment} (same : env.SameLookups env') (t : Term) :
    env.chaseVisiting t = env'.chaseVisiting t := by
  obtain ⟨heq, hvisited⟩ := ((env.walks_chaseVisiting t).congr same).unique
    (env'.walks_chaseVisiting t)
  exact Prod.ext heq hvisited

lemma chaseVisiting_induct {env : Environment} {P : Term → Prop}
    (pass : ∀ v t, P (.var v) → env.lookup v = some t → P t) {t : Term} (ht : P t) :
    P (env.chaseVisiting t).1 ∧ ∀ w ∈ (env.chaseVisiting t).2, P (.var w) := by
  obtain ⟨hu, later⟩ := (env.walks_chaseVisiting t).induct pass ht
  exact ⟨hu, fun w hw => (later w hw).resolve_left List.not_mem_nil⟩

end Environment
end ConstraintHandling
