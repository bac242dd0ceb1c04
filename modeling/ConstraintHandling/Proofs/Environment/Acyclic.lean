import ConstraintHandling.Proofs.Environment.Links
import ConstraintHandling.Proofs.Evaluation
import ConstraintHandling.Proofs.Term.Occurrences

/-! Acyclic environments. Where no variable reaches itself through the values of variables, a way through
values is no longer than there are bindings; so substitution is never cut short by its depth, and a
bound variable and its value become the same. -/
namespace ConstraintHandling
namespace Environment
open Relation

def Mentions (env : Environment) (v w : Variable) : Prop :=
  ∃ t, env.lookup v = some t ∧ w ∈ t.occurrences

/-- No variable reaches itself through the terms to which variables are bound. -/
def Acyclic (env : Environment) : Prop :=
  ∀ v, ¬TransGen env.Mentions v v

/-- At most `depth` bound variables follow each other from a term through the values. -/
def Shallow (env : Environment) : Nat → Term → Prop
  | 0, t => ∀ v ∈ t.occurrences, env.lookup v = none
  | depth + 1, t => ∀ v ∈ t.occurrences, ∀ u, env.lookup v = some u → env.Shallow depth u

variable {env : Environment} {v w : Variable} {t u : Term}

lemma acyclic_empty : empty.Acyclic := by
  intro v cycle
  obtain ⟨w, ⟨t, bound, -⟩, -⟩ := TransGen.head'_iff.mp cycle
  cases bound

lemma Acyclic.congr {env' : Environment} (h : env.Acyclic) (same : env.SameLookups env') :
    env'.Acyclic := by
  have mentions : env'.Mentions = env.Mentions := by
    funext v w
    rw [Mentions, Mentions, same v]
  intro v
  rw [mentions]
  exact h v

lemma acyclic_of_rank (rank : Variable → Nat)
    (smaller : ∀ b ∈ env.bindings, ∀ w ∈ b.2.occurrences, rank w < rank b.1) : env.Acyclic := by
  have step : ∀ v w, env.Mentions v w → rank w < rank v := by
    rintro v w ⟨t, bound, hw⟩
    obtain ⟨before, behind, heq, -⟩ := List.lookup_eq_some_iff.mp bound
    exact smaller (v, t) (by rw [heq]; simp) w hw
  have way {v w : Variable} (h : TransGen env.Mentions v w) : rank w < rank v := by
    induction h with
    | single link => exact step _ _ link
    | tail _ link ih => exact (step _ _ link).trans ih
  exact fun v cycle => (way cycle).false

lemma ends_of_acyclic (h : env.Acyclic) : env.Ends := by
  intro v cycle
  refine h v (TransGen.mono ?_ v v cycle)
  intro x y link
  exact ⟨.var y, link, by simp [Term.occurrences]⟩

/-- Bound variables that follow each other through the values, the latest first, up to a term that
shows where it can go on. -/
structure Trail (env : Environment) (seen : List Variable) (t : Term) : Prop where
  nodup : seen.Nodup
  bound : ∀ w ∈ seen, env.isBound w = true
  lead : ∀ w ∈ seen, ∀ v ∈ t.occurrences, TransGen env.Mentions w v

lemma Trail.step (h : env.Acyclic) {seen : List Variable} (trail : Trail env seen t)
    (hv : v ∈ t.occurrences) (hu : env.lookup v = some u) : Trail env (v :: seen) u where
  nodup := List.nodup_cons.mpr ⟨fun hseen => h v (trail.lead v hseen v hv), trail.nodup⟩
  bound := List.forall_mem_cons.mpr ⟨by simp [isBound, hu], trail.bound⟩
  lead := by
    have next (x : Variable) (hx : x ∈ u.occurrences) : env.Mentions v x := ⟨u, hu, hx⟩
    refine List.forall_mem_cons.mpr ⟨fun x hx => .single (next x hx), fun w hw x hx => ?_⟩
    exact (trail.lead w hw v hv).tail (next x hx)

lemma shallow_of_trail (h : env.Acyclic) {depth : Nat} {seen : List Variable}
    (trail : Trail env seen t) (enough : env.size ≤ depth + seen.length) :
    env.Shallow depth t := by
  induction depth generalizing t seen with
  | zero =>
    intro v hv
    cases hlookup : env.lookup v with
    | none => rfl
    | some u =>
      have longer := trail.step h hv hlookup
      have := length_le_size_of_bound longer.nodup longer.bound
      rw [List.length_cons] at this
      omega
  | succ depth ih =>
    intro v hv u hu
    refine ih (trail.step h hv hu) ?_
    rw [List.length_cons]
    omega

/-- In an acyclic environment no way through values is longer than there are bindings. -/
theorem shallow_of_acyclic (h : env.Acyclic) (t : Term) : env.Shallow env.size t :=
  shallow_of_trail h ⟨List.nodup_nil, by simp, by simp⟩ (Nat.le_add_right _ _)

lemma substituteWithin_of_shallow {depth n : Nat} (h : env.Shallow depth t) (hn : depth ≤ n) :
    env.substituteWithin n t = env.substituteWithin depth t := by
  induction depth generalizing t n with
  | zero =>
    cases n with
    | zero => rfl
    | succ n =>
      rw [substituteWithin, substituteWithin]
      apply Term.mapVariables_eq_self
      intro v hv
      rw [h v hv]
  | succ depth ih =>
    obtain ⟨n, rfl⟩ : ∃ m, n = m + 1 := ⟨n - 1, by omega⟩
    rw [substituteWithin, substituteWithin]
    apply Term.mapVariables_congr
    intro v hv
    cases hlookup : env.lookup v with
    | none => rfl
    | some u => exact ih (h v hv u hlookup) (Nat.le_of_succ_le_succ hn)

lemma substitute_eq (env : Environment) (t : Term) :
    env.substitute t = env.substituteWithin (env.size + 1) t := by
  unfold substitute
  split
  · next isEmpty =>
    have none (v : Variable) : env.lookup v = none := by
      rw [lookup, List.isEmpty_iff.mp isEmpty]
      rfl
    rw [substituteWithin]
    refine (Term.mapVariables_eq_self fun v _ => ?_).symm
    rw [none v]
  · rfl

lemma size_substitute_lt (h : u ∈ t.children) :
    (env.substitute u).size < (env.substitute t).size := by
  rw [substitute_eq, substitute_eq]
  exact Term.size_mapVariables_lt h

theorem substitute_of_bound (h : env.Acyclic) (bound : env.lookup v = some t) :
    env.substitute (.var v) = env.substitute t := by
  rw [substitute_eq, substitute_eq, substituteWithin, Term.mapVariables, bound]
  exact (substituteWithin_of_shallow (shallow_of_acyclic h t) (Nat.le_succ _)).symm

end Environment
end ConstraintHandling
