import ConstraintHandling.Proofs.Unification.Instances

/-! Cycles in what matching binds. Heads and constraints that have been unified one after the other leave
bindings without a cycle just when all of them have a common instance. A guard closes a cycle when it
assigns a term to a variable that occurs in it; no later guard opens it again, unless the term is the
variable itself. -/
namespace ConstraintHandling
namespace Search
open Environment

/-- One substitution makes every head and its constraint alike. -/
def HaveInstance (store : Store) (heads : List Term) (cs : List ConstraintId) : Prop :=
  ∃ σ, ∀ pair ∈ heads.zip cs, ∃ t, store.get? pair.2 = some t ∧
    (pair.1.mapVariables σ).alike (t.mapVariables σ) = true

/-- The relation holds of every variable to which a guard assigns and of the value assigned, as long as
the guards before it succeed. -/
def EachAssigned (known : Oracle) (P : Variable → Term → Prop) : List Term → Environment → Prop
  | [], _ => True
  | g :: gs, env =>
    (∀ left right v, g.assignment? = some (left, right) → env.chase left = .var v →
      P v (evaluate known right env)) ∧
    ∀ env', checkGuard known g env = some env' → EachAssigned known P gs env'

section Heads
variable {store : Store} {heads : List Term} {cs : List ConstraintId} {env env' last : Environment}
  {σ : Variable → Term}

lemma grows_of_unifyAll (ends : env.Ends) (h : unifyAll store heads cs env = some env') :
    env.Grows env' ∧ env'.Ends := by
  refine unifyAll_keeps (R := fun later => env.Grows later ∧ later.Ends)
    (fun pair _ t _ env₁ env₂ before unified => ?_) h ⟨.refl, ends⟩
  obtain ⟨depth, run⟩ := Unification.exists_within_of_unify unified
  obtain ⟨grows, ends₂⟩ := Unification.grows_of_within before.2 run
  exact ⟨before.1.trans grows, ends₂⟩

lemma upheld_of_unifyAll (upheld : env.IsUpheldBy σ)
    (same : ∀ pair ∈ heads.zip cs, ∃ t, store.get? pair.2 = some t ∧
      (pair.1.mapVariables σ).alike (t.mapVariables σ) = true)
    (h : unifyAll store heads cs env = some env') : env'.IsUpheldBy σ := by
  refine unifyAll_keeps (R := fun env => env.IsUpheldBy σ)
    (fun pair hpair t ht env₁ env₂ upheld unified => ?_) h upheld
  obtain ⟨u, hu, here⟩ := same pair hpair
  obtain rfl := Option.some.inj (ht.symm.trans hu)
  obtain ⟨depth, run⟩ := Unification.exists_within_of_unify unified
  exact Unification.upheld_of_within upheld here run

lemma alike_of_unifyAll (acyclic : last.Acyclic) (ends : env.Ends) (grows : env'.Grows last)
    (h : unifyAll store heads cs env = some env') :
    ∀ pair ∈ heads.zip cs, ∃ t, store.get? pair.2 = some t ∧
      (last.substitute pair.1).alike (last.substitute t) = true := by
  induction heads generalizing cs env with
  | nil => simp
  | cons head heads ih =>
    cases cs with
    | nil => cases h
    | cons c cs =>
      obtain ⟨t, env₁, ht, first, later⟩ := unifyAll_cons_eq_some h
      obtain ⟨depth, run⟩ := Unification.exists_within_of_unify first
      have ends₁ := (Unification.grows_of_within ends run).2
      have kept := (grows_of_unifyAll ends₁ later).1.trans grows
      rw [List.zip_cons_cons]
      exact List.forall_mem_cons.mpr
        ⟨⟨t, ht, Unification.alike_of_within acyclic ends kept run⟩, ih ends₁ later⟩

/-- Unifying heads with constraints leaves no cycle just when they have a common instance. -/
theorem acyclic_of_unifyAll_iff (h : unifyAll store heads cs .empty = some env) :
    env.Acyclic ↔ HaveInstance store heads cs := by
  have ends := ends_of_acyclic acyclic_empty
  constructor
  · intro acyclic
    refine ⟨fun v => env.substitute (.var v), fun pair hpair => ?_⟩
    obtain ⟨t, ht, same⟩ := alike_of_unifyAll acyclic ends .refl h pair hpair
    refine ⟨t, ht, ?_⟩
    rwa [← substitute_eq_mapVariables, ← substitute_eq_mapVariables]
  · rintro ⟨σ, same⟩
    exact (upheld_of_unifyAll (isUpheldBy_empty σ) same h).acyclic (grows_of_unifyAll ends h).2

end Heads

section Guards
variable {known : Oracle} {guards : List Term} {env env' : Environment}

lemma knotted_of_checkGuards (knotted : env.Knotted)
    (h : checkGuards known guards env = some env') : env'.Knotted := by
  refine checkGuards_keeps (fun g _ left right v env₁ _ chased knotted => ?_) h knotted
  exact knotted.bind (loose_of_chase chased) _

lemma acyclic_of_checkGuards (acyclic : env.Acyclic)
    (assigned : EachAssigned known (fun v value => v ∉ value.occurrences) guards env)
    (h : checkGuards known guards env = some env') : env'.Acyclic := by
  induction guards generalizing env with
  | nil =>
    cases h
    exact acyclic
  | cons g gs ih =>
    obtain ⟨here, later⟩ := assigned
    rw [checkGuards_cons] at h
    obtain ⟨env₁, first, rest⟩ := Option.bind_eq_some_iff.mp h
    refine ih ?_ (later env₁ first) rest
    obtain rfl | ⟨left, right, v, assigns, chased, rfl⟩ := checkGuard_cases first
    · exact acyclic
    · exact acyclic.bind (here left right v assigns chased) (unbound_of_substitute acyclic right).reduce

lemma assigned_of_not_knotted (loosened : ¬env'.Knotted)
    (h : checkGuards known guards env = some env') :
    EachAssigned known (fun v value => v ∈ value.occurrences → value = .var v) guards env := by
  induction guards generalizing env with
  | nil => trivial
  | cons g gs ih =>
    rw [checkGuards_cons] at h
    obtain ⟨env₁, first, rest⟩ := Option.bind_eq_some_iff.mp h
    refine ⟨fun left right v assigns chased hv => ?_, fun env₂ second => ?_⟩
    · by_contra hne
      apply loosened
      have bound : checkGuard known g env = _ := checkGuard_assigned assigns chased
      cases bound.symm.trans first
      refine knotted_of_checkGuards ⟨v, _, v, lookup_bind_self .., ?_, hv, .refl⟩ rest
      refine Term.asVariable?_eq_none_iff.mpr fun w hw => hne ?_
      rw [hw] at hv ⊢
      simpa [Term.occurrences, eq_comm] using hv
    · cases first.symm.trans second
      exact ih rest

end Guards

end Search
end ConstraintHandling
