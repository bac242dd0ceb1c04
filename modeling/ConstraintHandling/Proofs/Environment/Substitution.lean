import ConstraintHandling.Proofs.Environment.Cycles

/-! Substitution without a limit. Replacing bound variables by their values, in the values too, ends just
when no variable reaches itself; the substitution that counts its depth then comes to the same, and
leaves no bound variables. -/
namespace ConstraintHandling
namespace Environment

/-- Replacing every bound variable of the first term by its value, in the values too and however deep they
go, ends with the second term. -/
inductive Resolves (env : Environment) : Term → Term → Prop
  | intro {t : Term} {σ : Variable → Term}
      (free : ∀ v ∈ t.occurrences, env.lookup v = none → σ v = .var v)
      (bound : ∀ v ∈ t.occurrences, ∀ u, env.lookup v = some u → Resolves env u (σ v)) :
      Resolves env t (t.mapVariables σ)

variable {env : Environment} {t u u' : Term} {v : Variable}

lemma Resolves.unique (h : env.Resolves t u) (h' : env.Resolves t u') : u = u' := by
  induction h generalizing u' with
  | @intro t σ free bound ih =>
    cases h' with
    | @intro _ τ free' bound' =>
      refine Term.mapVariables_congr fun v hv => ?_
      cases hlookup : env.lookup v with
      | none => rw [free v hv hlookup, free' v hv hlookup]
      | some w => exact ih v hv w hlookup (bound' v hv w hlookup)

lemma resolves_of_shallow {depth : Nat} (h : env.Shallow depth t) :
    env.Resolves t (env.substituteWithin (depth + 1) t) := by
  induction depth generalizing t with
  | zero =>
    refine .intro (fun v _ hlookup => by rw [hlookup]) fun v hv u hlookup => ?_
    rw [h v hv] at hlookup
    cases hlookup
  | succ depth ih =>
    refine .intro (fun v _ hlookup => by rw [hlookup]) fun v hv u hlookup => ?_
    simp only [hlookup]
    exact ih (h v hv u hlookup)

lemma substitute_of_unbound (h : t.Within fun v => env.lookup v = none) : env.substitute t = t := by
  rw [substitute_eq, substituteWithin]
  refine Term.mapVariables_eq_self fun v hv => ?_
  rw [h v hv]

/-- Substitution under acyclic bindings is complete: it leaves no bound variables, makes the same of a
bound variable and of its value, changes nothing when it is repeated, and ends where replacement without
a limit ends; a depth beyond the number of bindings makes no difference. -/
theorem substitute_complete (h : env.Acyclic) (t : Term) :
    (∀ v ∈ (env.substitute t).occurrences, env.isBound v = false) ∧
      (∀ v u, env.lookup v = some u → env.substitute (.var v) = env.substitute u) ∧
      env.substitute (env.substitute t) = env.substitute t ∧
      (∀ u, env.Resolves t u ↔ u = env.substitute t) ∧
      ∀ depth ≥ env.size, env.substituteWithin depth t = env.substitute t := by
  have unbound : (env.substitute t).Within fun v => env.lookup v = none := unbound_of_substitute h t
  have shallow : env.Shallow env.size t := shallow_of_acyclic h t
  have resolves : env.Resolves t (env.substitute t) := by
    rw [substitute_eq]
    exact resolves_of_shallow shallow
  refine ⟨fun v hv => ?_, fun v u => substitute_of_bound h, substitute_of_unbound unbound,
    fun u => ?_, fun depth deep => ?_⟩
  · rw [isBound, unbound v hv]
    rfl
  · constructor
    · exact fun other => other.unique resolves
    · rintro rfl
      exact resolves
  · rw [substitute_eq, substituteWithin_of_shallow shallow deep,
      substituteWithin_of_shallow shallow (Nat.le_succ _)]

/-- A chain into the parts of values, with a hidden binding that would close a cycle. -/
theorem substitute_complete_hidden :
    let var (name : String) := Term.var ⟨name, 0⟩
    let env := Environment.ofList [(⟨"Z", 0⟩, .ordinary "f" [var "X"]), (⟨"Z", 0⟩, .int 1),
      (⟨"Y", 0⟩, .list [var "Z", var "W"]), (⟨"X", 0⟩, .ordinary "g" [var "Y", var "Z"])]
    let t := Term.ordinary "p" [var "X", var "W"]
    let u := Term.ordinary "p" [.ordinary "g" [.list [.int 1, var "W"], .int 1], var "W"]
    env.Acyclic ∧ env.substitute t = u ∧ env.Resolves t u := by
  intro var env t u
  let shown := Environment.ofList [(⟨"Z", 0⟩, .int 1), (⟨"Y", 0⟩, .list [var "Z", var "W"]),
    (⟨"X", 0⟩, .ordinary "g" [var "Y", var "Z"])]
  have acyclic : shown.Acyclic :=
    acyclic_of_rank (fun v => if v.name = "X" then 2 else if v.name = "Y" then 1 else 0) (by decide)
  have same : shown.SameLookups env := by
    intro v
    simp only [shown, env, ofList, List.foldl_cons, List.foldl_nil, lookup_bind]
    split_ifs <;> rfl
  have acyclic' : env.Acyclic := acyclic.congr same
  exact ⟨acyclic', rfl, ((substitute_complete acyclic' t).2.2.2.1 u).mpr rfl⟩

end Environment
end ConstraintHandling
