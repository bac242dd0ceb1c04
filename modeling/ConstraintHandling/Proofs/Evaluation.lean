import ConstraintHandling.Firing
import ConstraintHandling.Proofs.Scope.Variables

/-! Laws of evaluation. Substitution, renaming and evaluation go into the arguments of a compound term;
so the value of an expression, the outcome of a guard and the effect of a body are computed from those
of their parts. -/
namespace ConstraintHandling

namespace Environment

lemma substituteWithin_of_isConstant (env : Environment) (depth : Nat) {t : Term}
    (h : t.isConstant = true) : env.substituteWithin depth t = t := by
  cases depth with
  | zero => rfl
  | succ depth => rw [substituteWithin, Term.mapVariables_of_isConstant h]

lemma substitute_of_isConstant (env : Environment) {t : Term} (h : t.isConstant = true) :
    env.substitute t = t := by
  unfold substitute
  split
  · rfl
  · exact env.substituteWithin_of_isConstant _ h

@[simp] lemma substitute_int (env : Environment) (i : Int64) : env.substitute (.int i) = .int i :=
  env.substitute_of_isConstant rfl

lemma substitute_cases (env : Environment) :
    env.substitute = id ∨ ∃ f, env.substitute = Term.mapVariables f := by
  cases h : env.isEmpty with
  | true =>
    left
    funext t
    simp [substitute, h]
  | false =>
    right
    exact ⟨_, funext fun t => by rw [substitute, h, if_neg Bool.false_ne_true, substituteWithin]⟩

@[simp] lemma substitute_compound (env : Environment) (f : String) (args : List Term) (p : Nat) :
    env.substitute (.compound f args p) = .compound f (args.map env.substitute) p := by
  obtain same | ⟨g, same⟩ := env.substitute_cases
  · simp [same]
  · rw [same, Term.mapVariables, Term.mapVariablesAll_eq]

@[simp] lemma substitute_list (env : Environment) (items : List Term) :
    env.substitute (.list items) = .list (items.map env.substitute) := by
  obtain same | ⟨g, same⟩ := env.substitute_cases
  · simp [same]
  · rw [same, Term.mapVariables, Term.mapVariablesAll_eq]

lemma substitute_var {env : Environment} {v : Variable} {t : Term} (bound : env.lookup v = some t)
    (constant : t.isConstant = true) : env.substitute (.var v) = t := by
  have nonempty : env.isEmpty = false := by
    obtain ⟨bindings⟩ := env
    cases bindings with
    | nil => cases bound
    | cons => rfl
  rw [substitute, if_neg (by simp [nonempty]), substituteWithin, Term.mapVariables, bound]
  exact env.substituteWithin_of_isConstant _ constant

end Environment

namespace Term

@[simp] lemma rename_compound (scope : Nat) (f : String) (args : List Term) (p : Nat) :
    (compound f args p).rename scope = .compound f (args.map (rename scope)) p := by
  rw [rename, mapVariables, mapVariablesAll_eq]
  rfl

lemma rename_of_isConstant (scope : Nat) {t : Term} (h : t.isConstant = true) :
    t.rename scope = t :=
  mapVariables_of_isConstant h

@[simp] lemma rename_int (scope : Nat) (i : Int64) : (int i).rename scope = .int i :=
  rename_of_isConstant scope rfl

lemma substitute_ordinary (env : Environment) (f : String) (args : List Term) :
    env.substitute (ordinary f args) = ordinary f (args.map env.substitute) :=
  env.substitute_compound f args 0

lemma rename_ordinary (scope : Nat) (f : String) (args : List Term) :
    (ordinary f args).rename scope = ordinary f (args.map (rename scope)) :=
  rename_compound scope f args 0

lemma assignment?_ordinary (f : String) (args : List Term) : (ordinary f args).assignment? = none := by
  match args with
  | [] | [_] | [_, _] | _ :: _ :: _ :: _ => rfl

lemma isBinaryOperator_ordinary (name f : String) (args : List Term) :
    (ordinary f args).isBinaryOperator name = false := by
  match args with
  | [] | [_] | [_, _] | _ :: _ :: _ :: _ => rfl

end Term

section Evaluate
variable (known : Oracle) (env : Environment)

lemma evaluate_ordinary (f : String) (args : List Term) :
    evaluate known (.ordinary f args) env =
      .ordinary f (args.map fun t => evaluate known t env) := by
  simp [evaluate, Term.ordinary, Term.reduce, Function.comp_def]

lemma evaluate_operator {f : String} {args : List Term} {p : Nat} (hp : p ≠ 0) {value : Term}
    (h : Evaluation.operation? known f (args.map fun t => evaluate known t env) = some value) :
    evaluate known (.compound f args p) env = value := by
  have reduced : ((args.map env.substitute).map (Term.reduce known)) =
      args.map fun t => evaluate known t env := by
    simp [evaluate, Function.comp_def]
  rw [evaluate, Environment.substitute_compound, Term.reduce, Term.reduceAll_eq, reduced]
  simp [hp, h]

lemma evaluate_binary {f : String} {s t u v value : Term} {p : Nat} (hp : p ≠ 0)
    (left : evaluate known s env = u) (right : evaluate known t env = v)
    (h : Evaluation.operation? known f [u, v] = some value) :
    evaluate known (.compound f [s, t] p) env = value := by
  refine evaluate_operator known env hp ?_
  rwa [List.map_cons, List.map_singleton, left, right]

lemma evaluate_of_isConstant {t : Term} (h : t.isConstant = true) : evaluate known t env = t := by
  rw [evaluate, env.substitute_of_isConstant h, Term.reduce_of_isConstant h]

@[simp] lemma evaluate_int (i : Int64) : evaluate known (.int i) env = .int i :=
  evaluate_of_isConstant known env rfl

variable {env} in
lemma evaluate_var {v : Variable} {t : Term} (bound : env.lookup v = some t)
    (constant : t.isConstant = true) : evaluate known (.var v) env = t := by
  rw [evaluate, Environment.substitute_var bound constant, Term.reduce_of_isConstant constant]

end Evaluate

namespace Search
variable {known : Oracle} {env : Environment}

lemma checkGuard_test {guard : Term} {b : Bool} (test : guard.assignment? = none)
    (h : evaluate known guard env = .bool b) :
    checkGuard known guard env = if b then some env else none := by
  rw [checkGuard, test]
  dsimp only
  rw [isTrue, h]
  cases b with
  | true => rfl
  | false => rfl

lemma checkGuard_assigned {guard left right : Term} {v : Variable}
    (assigns : guard.assignment? = some (left, right)) (chased : env.chase left = .var v) :
    checkGuard known guard env = some (env.bind v (evaluate known right env)) := by
  rw [checkGuard, assigns]
  dsimp only
  rw [chased]

lemma checkGuard_assign {guard right : Term} {v : Variable}
    (assigns : guard.assignment? = some (.var v, right)) (unbound : env.lookup v = none) :
    checkGuard known guard env = some (env.bind v (evaluate known right env)) := by
  have chased : env.chase (.var v) = .var v := by
    rw [Environment.chase, Environment.chaseWithin, unbound]
  exact checkGuard_assigned assigns chased

lemma checkGuards_singleton (known : Oracle) (guard : Term) (env : Environment) :
    checkGuards known [guard] env = checkGuard known guard env := by
  rw [checkGuards_cons]
  exact Option.bind_fun_some _

end Search

namespace Progress

lemma performAll_trivial (known : Oracle) (rule : Rule) (scope : Nat) {body : List Term}
    (trivial : ∀ t ∈ body, t = .bool true) (p : Progress) :
    (performAll known rule scope body p).1 = some p.effects := by
  induction body with
  | nil => rfl
  | cons t body ih =>
    obtain ⟨rfl, htrivial⟩ := List.forall_mem_cons.mp trivial
    have performed : p.perform known rule scope (.bool true) = some (p, []) := by
      rw [perform, p.env.substitute_of_isConstant rfl]
      rfl
    rw [performAll, performed]
    exact ih htrivial

lemma performAll_ordinary (known : Oracle) (rule : Rule) (scope : Nat) (f : String)
    (args : List Term) (p : Progress) :
    (performAll known rule scope [.ordinary f args] p).1 =
      some ⟨p.effects.asserted ++ [.ordinary f (args.map fun t =>
        evaluate known ((p.env.substitute t).rename scope) .empty)], p.effects.replacements⟩ := by
  have performed : p.perform known rule scope (.ordinary f args) = some
      (⟨p.env, ⟨p.effects.asserted ++ [.ordinary f (args.map fun t =>
        evaluate known ((p.env.substitute t).rename scope) .empty)], p.effects.replacements⟩⟩, []) := by
    rw [perform, Term.substitute_ordinary, Term.assignment?_ordinary]
    dsimp only
    rw [Term.rename_ordinary, Term.isBinaryOperator_ordinary, if_neg Bool.false_ne_true, assert,
      evaluate_ordinary, List.map_map, List.map_map]
    rfl
  rw [performAll, performed]
  rfl

end Progress

namespace Rule
variable {r : Rule} {m : Match} {scope : Nat} {s : Store}

lemma fire_of_performAll {effects : Effects}
    (h : (Progress.performAll (s.consumeAll (m.constraints.take r.deleteHeads.length)).holds r scope
      r.body ⟨m.env, .none⟩).1 = some effects) :
    (r.fire m scope s).1 =
      ((s.consumeAll (m.constraints.take r.deleteHeads.length)).commit effects).1 := by
  rw [fire]
  generalize Progress.performAll _ r scope r.body ⟨m.env, .none⟩ = performed at h ⊢
  obtain ⟨result, events⟩ := performed
  cases h
  rfl

theorem fire_trivial (trivial : ∀ t ∈ r.body, t = .bool true) :
    (r.fire m scope s).1 = s.consumeAll (m.constraints.take r.deleteHeads.length) :=
  fire_of_performAll (Progress.performAll_trivial _ r scope trivial _)

theorem fire_ordinary {f : String} {args : List Term} (hbody : r.body = [.ordinary f args]) :
    (r.fire m scope s).1 =
      let s := s.consumeAll (m.constraints.take r.deleteHeads.length)
      s.insert f (.ordinary f (args.map fun t =>
        evaluate s.holds ((m.env.substitute t).rename scope) .empty)) := by
  have performed := Progress.performAll_ordinary
    (s.consumeAll (m.constraints.take r.deleteHeads.length)).holds r scope f args ⟨m.env, .none⟩
  rw [← hbody] at performed
  exact fire_of_performAll performed

end Rule
end ConstraintHandling
