import ConstraintHandling.Proofs.Environment.Substitution

/-! Evaluation comes to an end at once. The value of a term is its own value, under the same bindings and
also for an evaluation that knows less than the first one did: what an operator cannot compute with the
knowledge of the store, it cannot compute without it. -/
namespace ConstraintHandling

/-- What the first oracle knows to hold the second one knows too. -/
def Oracle.AtMost (less known : Oracle) : Prop :=
  ∀ t, less t = true → known t = true

lemma Oracle.AtMost.refl (known : Oracle) : known.AtMost known :=
  fun _ h => h

lemma Oracle.nothing_atMost (known : Oracle) : Oracle.nothing.AtMost known :=
  fun _ h => nomatch h

lemma Oracle.AtMost.unknown {less known : Oracle} (h : less.AtMost known) {t : Term}
    (unknown : known t = false) : less t = false := by
  by_contra knows
  rw [h t (by simpa using knows)] at unknown
  cases unknown

namespace Evaluation
variable {less known : Oracle} {name : String} {s t : Term} {args : List Term}

lemma truth?_of_ne_bool (h : ∀ b, t ≠ .bool b) :
    truth? known t = if known t then some true
      else if (t.negation?.map known).getD false then some false else none := by
  cases t with
  | bool b => exact absurd rfl (h b)
  | _ => rfl

lemma truth?_eq_none_iff : truth? known t = none ↔
    (∀ b, t ≠ .bool b) ∧ known t = false ∧ ∀ n, t.negation? = some n → known n = false := by
  by_cases value : ∃ b, t = .bool b
  · obtain ⟨b, rfl⟩ := value
    simp [truth?]
  · rw [not_exists] at value
    rw [truth?_of_ne_bool value]
    cases negation : t.negation? <;> cases known t <;> simp [value]

lemma truth?_of_atMost (h : less.AtMost known) (unknown : truth? known t = none) :
    truth? less t = none := by
  obtain ⟨value, unknown, negation⟩ := truth?_eq_none_iff.mp unknown
  exact truth?_eq_none_iff.mpr ⟨value, h.unknown unknown, fun n hn => h.unknown (negation n hn)⟩

lemma unary?_of_atMost (h : less.AtMost known) (stuck : unary? known name t = none) :
    unary? less name t = none := by
  unfold unary? at stuck ⊢
  split at stuck
  · exact stuck
  · cases stuck
  · exact Option.map_eq_none_iff.mpr (truth?_of_atMost h (Option.map_eq_none_iff.mp stuck))
  · rfl

lemma truth?_of_conjunction? (h : conjunction? known s t = none) :
    truth? known s = none ∧ truth? known t = none ∧ areOpposite s t = false := by
  unfold conjunction? at h
  split at h
  case h_6 hs ht => simpa [hs, ht] using h
  all_goals cases h

lemma truth?_of_disjunction? (h : disjunction? known s t = none) :
    truth? known s = none ∧ truth? known t = none ∧ areOpposite s t = false := by
  unfold disjunction? at h
  split at h
  case h_6 hs ht => simpa [hs, ht] using h
  all_goals cases h

lemma binary?_of_atMost (h : less.AtMost known) (stuck : binary? known name s t = none) :
    binary? less name s t = none := by
  unfold binary? at stuck ⊢
  split at stuck
  · exact stuck
  · exact stuck
  · exact stuck
  · exact stuck
  · obtain ⟨hs, ht, apart⟩ := truth?_of_conjunction? stuck
    simp [conjunction?, truth?_of_atMost h hs, truth?_of_atMost h ht, apart]
  · obtain ⟨hs, ht, apart⟩ := truth?_of_disjunction? stuck
    simp [disjunction?, truth?_of_atMost h hs, truth?_of_atMost h ht, apart]
  · rfl

lemma operation?_of_atMost (h : less.AtMost known) (stuck : operation? known name args = none) :
    operation? less name args = none := by
  unfold operation? at stuck ⊢
  split at stuck
  · exact unary?_of_atMost h stuck
  · exact binary?_of_atMost h stuck
  · rfl

end Evaluation

namespace Term
variable {less known : Oracle} {t : Term} {args : List Term}

lemma reduce_compound_of_stuck {f : String} {p : Nat} (h : args.map (reduce known) = args)
    (stuck : p ≠ 0 → Evaluation.operation? known f args = none) :
    (compound f args p).reduce known = .compound f args p := by
  rw [reduce, reduceAll_eq, h]
  split
  · next ordinary => rw [ordinary]
  · next operator => rw [stuck operator, Option.getD_none]

theorem reduce_reduce (h : less.AtMost known) (t : Term) :
    (t.reduce known).reduce less = t.reduce known := by
  have again {args : List Term} (ih : ∀ t ∈ args, (t.reduce known).reduce less = t.reduce known) :
      (args.map (reduce known)).map (reduce less) = args.map (reduce known) := by
    rw [List.map_map]
    exact List.map_congr_left ih
  induction t using Term.induction with
  | var v => simp [reduce]
  | constant t ht => rw [reduce_of_isConstant ht, reduce_of_isConstant ht]
  | list items ih => rw [reduce, reduceAll_eq, reduce, reduceAll_eq, again ih]
  | compound f args p ih =>
    rw [reduce, reduceAll_eq]
    split
    · exact reduce_compound_of_stuck (again ih) fun operator => absurd rfl operator
    · cases hop : Evaluation.operation? known f (args.map (reduce known)) with
      | none => exact reduce_compound_of_stuck (again ih) fun _ => Evaluation.operation?_of_atMost h hop
      | some u =>
        obtain constant | mem := constant_or_mem_of_operation? hop
        · exact reduce_of_isConstant constant
        · obtain ⟨t, ht, rfl⟩ := List.mem_map.mp mem
          exact ih t ht

/-- The term is its own value. -/
def IsEvaluated (t : Term) : Prop :=
  evaluate .nothing t .empty = t

lemma isEvaluated_iff : t.IsEvaluated ↔ t.reduce .nothing = t := Iff.rfl

lemma isEvaluated_reduce (known : Oracle) (t : Term) : (t.reduce known).IsEvaluated :=
  reduce_reduce known.nothing_atMost t

end Term

theorem isEvaluated_evaluate (known : Oracle) (t : Term) (env : Environment) :
    (evaluate known t env).IsEvaluated :=
  Term.isEvaluated_reduce known _

/-- Evaluating the value of a term again, under the same bindings and with the same knowledge, changes
nothing. -/
theorem evaluate_idempotent {env : Environment} (h : env.Acyclic) (known : Oracle) (t : Term) :
    evaluate known (evaluate known t env) env = evaluate known t env := by
  have unbound : (evaluate known t env).Within fun v => env.lookup v = none :=
    (Environment.unbound_of_substitute h t).reduce
  rw [evaluate, Environment.substitute_of_unbound unbound]
  exact Term.reduce_reduce (.refl known) _

/-- A conjunction is settled by a known fact, and what it leaves holds an expression of values that is
not reduced any further. -/
theorem evaluate_idempotent_factor :
    let z := Term.var ⟨"Z", 0⟩
    let env := (Environment.empty.bind ⟨"Y", 0⟩ (.compound "+" [z, .int 2] 500)).bind ⟨"X", 0⟩
      (.compound "*" [.var ⟨"Y", 0⟩, .int 3] 400)
    let known : Oracle := fun t => t == .relation "<" z (.int 9)
    let t := Term.compound "&&" [.relation "<" z (.int 9),
      .ordinary "p" [.var ⟨"X", 0⟩, .compound "+" [.int 1, .int 1] 500]] 1000
    env.Acyclic ∧
      evaluate known t env =
        .ordinary "p" [.compound "*" [.compound "+" [z, .int 2] 500, .int 3] 400, .int 2] ∧
      evaluate known (evaluate known t env) env = evaluate known t env := by
  intro z env known t
  have acyclic : env.Acyclic :=
    Environment.acyclic_of_rank (fun v => if v.name = "X" then 2 else if v.name = "Y" then 1 else 0)
      (by decide)
  exact ⟨acyclic, rfl, evaluate_idempotent acyclic known t⟩

end ConstraintHandling
