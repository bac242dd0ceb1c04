import ConstraintHandling.Proofs.EarlyEvaluation
import ConstraintHandling.Proofs.Logic.Formula

/-! Verdicts. An oracle does no more for a logical operator than to settle the truth values of its
arguments. So a formula is evaluated in two steps: the terms below the logical operators are settled,
and then the operators are applied without asking the oracle again. -/
namespace ConstraintHandling

namespace Evaluation
variable {known : Oracle} {f : String} {args : List Term} {p : Nat} {s t u : Term}

/-- The term as a logical operator takes it: its truth value, if it has one. -/
def settle (known : Oracle) (t : Term) : Term :=
  match truth? known t with
  | some b => .bool b
  | none => t

lemma settle_of_some {b : Bool} (h : truth? known t = some b) : settle known t = .bool b := by
  rw [settle, h]

lemma settle_of_none (h : truth? known t = none) : settle known t = t := by
  rw [settle, h]

@[simp] lemma settle_bool (known : Oracle) (b : Bool) : settle known (.bool b) = .bool b := rfl

@[simp] lemma truth?_settle (known : Oracle) (t : Term) :
    truth? .nothing (settle known t) = truth? known t := by
  cases h : truth? known t with
  | some b => rw [settle_of_some h, truth?_bool]
  | none => rw [settle_of_none h, truth?_of_atMost known.nothing_atMost h]

@[simp] lemma settle_settle (known : Oracle) (t : Term) :
    settle known (settle known t) = settle known t := by
  cases h : truth? known t with
  | some b => rw [settle_of_some h, settle_bool]
  | none => rw [settle_of_none h, settle_of_none h]

lemma logical_cases (h : (Term.compound f args p).isLogical = true) :
    (∃ t, f = "!" ∧ args = [t]) ∨
      ∃ s t unit, args = [s, t] ∧
        ∀ known s t, operation? known f [s, t] = connective? known unit s t := by
  match args with
  | [] | _ :: _ :: _ :: _ => cases h
  | [t] => exact .inl ⟨t, by simp_all [Term.isLogical]⟩
  | [s, t] =>
    obtain rfl | rfl : f = "&&" ∨ f = "||" := by simp_all [Term.isLogical]
    · exact .inr ⟨s, t, true, rfl, fun _ _ _ => rfl⟩
    · exact .inr ⟨s, t, false, rfl, fun _ _ _ => rfl⟩

lemma connective?_settle (known : Oracle) (unit : Bool) (s t : Term) :
    connective? known unit s t = connective? .nothing unit (settle known s) (settle known t) := by
  unfold connective? conjunction? disjunction?
  rw [truth?_settle, truth?_settle]
  cases hs : truth? known s with
  | none =>
    rw [settle_of_none hs]
    cases ht : truth? known t with
    | none => rw [settle_of_none ht]
    | some c => cases c <;> rfl
  | some b =>
    cases ht : truth? known t with
    | none =>
      rw [settle_of_none ht]
      cases b <;> rfl
    | some c => cases b <;> cases c <;> rfl

lemma operation?_settle (h : (Term.compound f args p).isLogical = true) (known : Oracle) :
    operation? known f args = operation? .nothing f (args.map (settle known)) := by
  obtain ⟨t, rfl, rfl⟩ | ⟨s, t, unit, rfl, same⟩ := logical_cases h
  · change (truth? known t).map _ = (truth? .nothing (settle known t)).map _
    rw [truth?_settle]
  · rw [same, connective?_settle, ← same]
    rfl

lemma truth?_of_stuck (h : (Term.compound f args p).isLogical = true)
    (stuck : operation? known f args = none) : ∀ t ∈ args, truth? known t = none := by
  obtain ⟨t, rfl, rfl⟩ | ⟨s, t, unit, rfl, same⟩ := logical_cases h
  · rw [List.forall_mem_singleton]
    exact Option.map_eq_none_iff.mp stuck
  · rw [same] at stuck
    rw [List.forall_mem_cons, List.forall_mem_singleton]
    cases unit with
    | true => exact ⟨(truth?_of_conjunction? stuck).1, (truth?_of_conjunction? stuck).2.1⟩
    | false => exact ⟨(truth?_of_disjunction? stuck).1, (truth?_of_disjunction? stuck).2.1⟩

lemma bool_or_mem_of_logical (h : (Term.compound f args p).isLogical = true)
    (hu : operation? known f args = some u) : (∃ b, u = .bool b) ∨ u ∈ args := by
  obtain ⟨t, rfl, rfl⟩ | ⟨s, t, unit, rfl, same⟩ := logical_cases h
  · exact .inl (Term.bool_of_map_bool hu)
  · rw [same] at hu
    cases unit with
    | true => exact Term.bool_or_mem_of_conjunction? hu
    | false => exact Term.bool_or_mem_of_disjunction? hu

/-- A logical operator applied to arguments whose truth values are settled. -/
def combine (f : String) (args : List Term) (p : Nat) : Term :=
  (operation? .nothing f args).getD (.compound f args p)

end Evaluation

namespace Term
variable {known : Oracle} {f : String} {args : List Term} {p : Nat} {t : Term}

/-- The value of a term as a logical operator takes it. -/
def verdict (known : Oracle) (t : Term) : Term :=
  Evaluation.settle known (t.reduce known)

@[simp] lemma verdict_bool (known : Oracle) (b : Bool) : (bool b).verdict known = .bool b := by
  rw [verdict, reduce_of_isConstant rfl, Evaluation.settle_bool]

lemma reduce_logical (h : (compound f args p).isLogical = true) (known : Oracle) :
    (compound f args p).reduce known = Evaluation.combine f (args.map (verdict known)) p := by
  have top : (compound f (args.map (reduce known)) p).isLogical = true := by
    rwa [isLogical_map]
  have verdicts :
      (args.map (reduce known)).map (Evaluation.settle known) = args.map (verdict known) := by
    rw [List.map_map]
    rfl
  rw [reduce, reduceAll_eq, if_neg (priority_of_isLogical h), Evaluation.combine, ← verdicts,
    ← Evaluation.operation?_settle top]
  cases stuck : Evaluation.operation? known f (args.map (reduce known)) with
  | some u => rfl
  | none =>
    have same :
        (args.map (reduce known)).map (Evaluation.settle known) = args.map (reduce known) := by
      rw [List.map_congr_left fun t ht =>
        Evaluation.settle_of_none (Evaluation.truth?_of_stuck top stuck t ht), List.map_id']
    rw [same]

lemma isLogical_of_complement? {g : String} (h : Operator.complement? f = some g) (s t : Term)
    (p : Nat) : (compound f [s, t] p).isLogical = false := by
  cases operator : (compound f [s, t] p).isLogical with
  | false => rfl
  | true =>
    obtain rfl | rfl : f = "&&" ∨ f = "||" := by simp_all [isLogical]
    all_goals simp [Operator.complement?] at h

lemma negation?_of_isLogical {n : Term} (h : (compound f args p).isLogical = true)
    (hn : (compound f args p).negation? = some n) : args = [n] := by
  obtain ⟨t, rfl, rfl⟩ | ⟨s, t, unit, rfl, same⟩ := Evaluation.logical_cases h
  · rw [negation?_singleton] at hn
    split at hn
    · cases hn
      rfl
    · cases hn
  · rw [negation?_pair] at hn
    split at hn
    · obtain ⟨g, complement, -⟩ := Option.map_eq_some_iff.mp hn
      rw [isLogical_of_complement? complement] at h
      cases h
    · cases hn

lemma verdict_logical (plain : ∀ u, known u = true → u.isLogical = false)
    (h : (compound f args p).isLogical = true) :
    (compound f args p).verdict known = Evaluation.combine f (args.map (verdict known)) p := by
  have top : (compound f (args.map (verdict known)) p).isLogical = true := by
    rwa [isLogical_map]
  have settled : ∀ v ∈ args.map (verdict known), Evaluation.settle known v = v :=
    List.forall_mem_map.mpr fun t _ => Evaluation.settle_settle known _
  rw [verdict, reduce_logical h, Evaluation.combine]
  cases stuck : Evaluation.operation? .nothing f (args.map (verdict known)) with
  | some u =>
    obtain ⟨b, rfl⟩ | mem := Evaluation.bool_or_mem_of_logical top stuck
    · rfl
    · exact settled u mem
  | none =>
    refine Evaluation.settle_of_none (Evaluation.truth?_eq_none_iff.mpr ⟨by simp, ?_, fun n hn => ?_⟩)
    · by_contra knows
      rw [Option.getD_none] at knows
      rw [plain _ (by simpa using knows)] at top
      cases top
    · have whole := negation?_of_isLogical top hn
      have mem : n ∈ args.map (verdict known) := by rw [whole]; exact List.mem_singleton_self n
      have unknown := Evaluation.truth?_of_stuck top stuck n mem
      rw [← settled n mem, Evaluation.truth?_settle] at unknown
      exact (Evaluation.truth?_eq_none_iff.mp unknown).2.1

lemma isReducedFormula_bool (b : Bool) : (bool b).IsReducedFormula :=
  .part ⟨⟨logicFree_of_isConstant rfl, rfl⟩, isEvaluated_iff.mpr (reduce_of_isConstant rfl)⟩

lemma IsFormula.verdict (h : t.IsFormula) (plain : ∀ u, known u = true → u.isLogical = false) :
    (t.verdict known).IsReducedFormula := by
  induction h with
  | @part t h =>
    obtain ⟨free, usual⟩ := h
    rw [Term.verdict]
    cases truth : Evaluation.truth? known (t.reduce known) with
    | some b =>
      rw [Evaluation.settle_of_some truth]
      exact isReducedFormula_bool b
    | none =>
      rw [Evaluation.settle_of_none truth]
      exact .part ⟨⟨free.reduce, hasUsualPriority_reduce free usual⟩, isEvaluated_reduce known t⟩
  | @logical f args p operator _ ih =>
    have top : (compound f (args.map (Term.verdict known)) p).isLogical = true := by
      rwa [isLogical_map]
    have below : ∀ v ∈ args.map (Term.verdict known), v.IsReducedFormula := List.forall_mem_map.mpr ih
    rw [verdict_logical plain operator, Evaluation.combine]
    cases hop : Evaluation.operation? .nothing f (args.map (Term.verdict known)) with
    | none => exact .logical top below
    | some u =>
      obtain ⟨b, rfl⟩ | mem := Evaluation.bool_or_mem_of_logical top hop
      · exact isReducedFormula_bool b
      · exact below u mem

lemma verdict_of_part (free : t.LogicFree) (value : t.IsEvaluated) :
    t.verdict known = Evaluation.settle known t := by
  rw [verdict, free.reduce_eq known .nothing, isEvaluated_iff.mp value]

lemma IsReducedFormula.parts (h : (compound f args p).IsReducedFormula)
    (operator : (compound f args p).isLogical = true) : ∀ t ∈ args, t.IsReducedFormula := by
  cases h with
  | part h =>
    rw [(logicFree_iff.mp h.1.1).1] at operator
    cases operator
  | logical _ parts => exact parts

lemma IsReducedFormula.part (h : t.IsReducedFormula) (plain : t.isLogical = false) :
    (t.LogicFree ∧ t.hasUsualPriority = true) ∧ t.IsEvaluated := by
  cases h with
  | part h => exact h
  | logical operator =>
    rw [operator] at plain
    cases plain

end Term
end ConstraintHandling
