import ConstraintHandling.Proofs.Logic.Knowledge
import ConstraintHandling.Proofs.Store.Lookup

/-! Connectives. What a conjunction or a disjunction settles depends on the truth values of its
sides, and the order of the sides does not matter, unless neither has a truth value: then the
negation is looked for in the left side only. A condition joined with `true` is true if it is
known to hold, also where the condition alone is not. -/
namespace ConstraintHandling

namespace Term

def both (s t : Term) : Term :=
  .compound "&&" [s, t] 1000

def either (s t : Term) : Term :=
  .compound "||" [s, t] 1100

/-- The second term is the negation that can be read off the first one, but not the other way round:
the first one is `!t`, or a relation of another priority than that of the operator table. -/
inductive IsOneSided : Term → Term → Prop
  | not {s t : Term} {p : Nat} (hp : p ≠ 0) (same : (s == t) = true) :
      IsOneSided (.compound "!" [s] p) t
  | relation {f g : String} {left right left' right' : Term} {p : Nat}
      (complement : Operator.complement? f = some g) (hp : p ≠ 0)
      (unusual : p ≠ Operator.relationPriority) (same : (left == left') = true)
      (same' : (right == right') = true) :
      IsOneSided (.compound f [left, right] p) (relation g left' right')

variable {s t n : Term}

lemma beq_pair {f g : String} {a b a' b' : Term} {p q : Nat} :
    (compound f [a, b] p == compound g [a', b'] q) = true ↔
      f = g ∧ p = q ∧ (a == a') = true ∧ (b == b') = true := by
  simp [beq_compound]

lemma negation?_not {p : Nat} (hp : p ≠ 0) (t : Term) :
    (compound "!" [t] p).negation? = some t := by
  simp [negation?_singleton, hp]

lemma negation?_of_complement? {f g : String} {p : Nat}
    (complement : Operator.complement? f = some g) (hp : p ≠ 0) (left right : Term) :
    (compound f [left, right] p).negation? = some (relation g left right) := by
  simp [negation?_pair, hp, complement]

lemma negation?_cases (h : t.negation? = some n) :
    (∃ b, t = .bool b ∧ n = .bool !b) ∨ (∃ p, p ≠ 0 ∧ t = .compound "!" [n] p) ∨
      ∃ f g left right p, p ≠ 0 ∧ Operator.complement? f = some g ∧
        t = .compound f [left, right] p ∧ n = .relation g left right := by
  unfold negation? at h
  split at h
  · next b =>
    cases h
    exact .inl ⟨b, rfl, rfl⟩
  · next f arg p =>
    split at h
    · next operator =>
      cases h
      simp only [Bool.and_eq_true, bne_iff_ne, beq_iff_eq] at operator
      obtain ⟨hp, rfl⟩ := operator
      exact .inr (.inl ⟨p, hp, rfl⟩)
    · cases h
  · next f left right p =>
    split at h
    · next operator =>
      obtain ⟨g, complement, rfl⟩ := Option.map_eq_some_iff.mp h
      exact .inr (.inr ⟨f, g, left, right, p, by simpa using operator, complement, rfl, rfl⟩)
    · cases h
  · cases h

lemma size_negation?_le (h : t.negation? = some n) : n.size ≤ t.size := by
  obtain ⟨b, rfl, rfl⟩ | ⟨p, -, rfl⟩ | ⟨f, g, left, right, p, -, -, rfl, rfl⟩ := negation?_cases h
  · exact Nat.le_refl _
  · simp only [size, sizeAll]
    omega
  · exact Nat.le_refl _

end Term

namespace Evaluation
variable {known : Oracle} {s t : Term}

lemma areOpposite_of_isOneSided (h : s.IsOneSided t) :
    areOpposite s t = true ∧ areOpposite t s = false := by
  cases h with
  | @not s _ p hp same =>
    refine ⟨areOpposite_iff.mpr ⟨s, Term.negation?_not hp s, same⟩, ?_⟩
    by_contra back
    obtain ⟨n, hn, heq⟩ := areOpposite_iff.mp (by simpa using back)
    have smaller := Term.size_negation?_le hn
    rw [Term.size_eq_of_beq heq, ← Term.size_eq_of_beq same] at smaller
    simp only [Term.size, Term.sizeAll] at smaller
    omega
  | @relation f g left right left' right' p complement hp unusual same same' =>
    refine ⟨areOpposite_iff.mpr ⟨_, Term.negation?_of_complement? complement hp left right,
      Term.beq_pair.mpr ⟨rfl, rfl, same, same'⟩⟩, ?_⟩
    by_contra opposite
    obtain ⟨n, hn, heq⟩ := areOpposite_iff.mp (by simpa using opposite)
    have back := Operator.complement?_complement? complement
    rw [Term.relation, Term.negation?_of_complement? back (by decide)] at hn
    cases hn
    exact unusual (Term.beq_pair.mp heq).2.1.symm

lemma isOneSided_of_areOpposite (h : areOpposite s t = true) (h' : areOpposite t s = false) :
    s.IsOneSided t := by
  obtain ⟨n, hn, heq⟩ := areOpposite_iff.mp h
  obtain ⟨b, rfl, rfl⟩ | ⟨p, hp, rfl⟩ | ⟨f, g, left, right, p, hp, complement, rfl, rfl⟩ :=
    Term.negation?_cases hn
  · obtain rfl := (Term.floatFree_bool _).eq_of_beq heq
    cases b <;> cases h'
  · exact .not hp heq
  · cases Term.beq_iff_equal.mp heq with
    | plain => contradiction
    | @compound _ _ args _ parts =>
      match args, Term.beqAll_iff.mp parts with
      | [left', right'], .cons same (.cons same' .nil) =>
        refine .relation complement hp ?_ same same'
        -- With the usual priority the complement of the complement is the relation itself.
        rintro rfl
        have back := Operator.complement?_complement? complement
        have opposite : areOpposite (.compound g [left', right'] Operator.relationPriority)
            (.compound f [left, right] Operator.relationPriority) = true :=
          areOpposite_iff.mpr ⟨_, Term.negation?_of_complement? back hp left' right',
            Term.beq_pair.mpr ⟨rfl, rfl, Term.beq_symm same, Term.beq_symm same'⟩⟩
        rw [h'] at opposite
        cases opposite

lemma areOpposite_comm_iff :
    areOpposite s t = areOpposite t s ↔ ¬s.IsOneSided t ∧ ¬t.IsOneSided s := by
  constructor
  · intro same
    have differ {s t : Term} (oneSided : s.IsOneSided t) : areOpposite s t ≠ areOpposite t s := by
      obtain ⟨h, h'⟩ := areOpposite_of_isOneSided oneSided
      rw [h, h']
      exact Bool.noConfusion
    exact ⟨fun oneSided => differ oneSided same, fun oneSided => differ oneSided same.symm⟩
  · rintro ⟨hs, ht⟩
    cases h : areOpposite s t <;> cases h' : areOpposite t s
    · rfl
    · exact absurd (isOneSided_of_areOpposite h' h) ht
    · exact absurd (isOneSided_of_areOpposite h h') hs
    · rfl

lemma connective?_eq_bool_iff {unit b : Bool} : connective? known unit s t = some (.bool b) ↔
    (b = !unit ∧ (truth? known s = some !unit ∨ truth? known t = some !unit)) ∨
    (b = unit ∧ truth? known s = some unit ∧ truth? known t = some unit) ∨
    (b = !unit ∧ truth? known s = none ∧ truth? known t = none ∧ areOpposite s t = true) := by
  have other {u : Term} (hu : truth? known u = none) : u ≠ .bool b := (truth?_eq_none_iff.mp hu).1 b
  unfold connective? conjunction? disjunction?
  cases hs : truth? known s with
  | none =>
    cases ht : truth? known t with
    | none => cases unit <;> cases b <;> cases areOpposite s t <;> simp
    | some c => cases unit <;> cases c <;> cases b <;> simp [other hs]
  | some c =>
    cases ht : truth? known t with
    | none => cases unit <;> cases c <;> cases b <;> simp [other ht]
    | some d => cases unit <;> cases c <;> cases d <;> cases b <;> simp

/-- Neither term has a truth value, and that they are opposite can be read off one of them only. -/
def IsLopsided (known : Oracle) (s t : Term) : Prop :=
  truth? known s = none ∧ truth? known t = none ∧ (s.IsOneSided t ∨ t.IsOneSided s)

lemma connective?_comm_iff (unit : Bool) :
    (∀ b, connective? known unit s t = some (.bool b) ↔
      connective? known unit t s = some (.bool b)) ↔ ¬IsLopsided known s t := by
  constructor
  · rintro same ⟨hs, ht, oneSided⟩
    have opposite : areOpposite s t = areOpposite t s := by
      have := same !unit
      rw [connective?_eq_bool_iff, connective?_eq_bool_iff] at this
      rw [Bool.eq_iff_iff]
      simpa [hs, ht] using this
    obtain ⟨left, right⟩ := areOpposite_comm_iff.mp opposite
    exact oneSided.elim left right
  · intro balanced b
    have opposite (hs : truth? known s = none) (ht : truth? known t = none) :
        areOpposite s t = areOpposite t s :=
      areOpposite_comm_iff.mpr (not_or.mp fun oneSided => balanced ⟨hs, ht, oneSided⟩)
    rw [connective?_eq_bool_iff, connective?_eq_bool_iff]
    cases hs : truth? known s with
    | none =>
      cases ht : truth? known t with
      | none => rw [opposite hs ht]
      | some c => simp
    | some c => cases ht : truth? known t <;> simp [or_comm, and_comm]

lemma evaluate_connection_iff {f : String} {p : Nat} {unit : Bool} (hp : p ≠ 0)
    (connects : ∀ known s t, operation? known f [s, t] = connective? known unit s t)
    (known : Oracle) (env : Environment) (s t : Term) (b : Bool) :
    evaluate known (.compound f [s, t] p) env = .bool b ↔
      connective? known unit (evaluate known s env) (evaluate known t env) = some (.bool b) := by
  have value : evaluate known (.compound f [s, t] p) env =
      (connective? known unit (evaluate known s env) (evaluate known t env)).getD
        (.compound f [evaluate known s env, evaluate known t env] p) := by
    rw [← connects, evaluate, Environment.substitute_compound, Term.reduce, Term.reduceAll_eq,
      if_neg hp]
    rfl
  rw [value]
  cases connective? known unit (evaluate known s env) (evaluate known t env) <;> simp

lemma evaluate_both_iff (known : Oracle) (env : Environment) (s t : Term) (b : Bool) :
    evaluate known (s.both t) env = .bool b ↔
      connective? known true (evaluate known s env) (evaluate known t env) = some (.bool b) :=
  evaluate_connection_iff (by decide) (fun _ _ _ => rfl) known env s t b

lemma evaluate_either_iff (known : Oracle) (env : Environment) (s t : Term) (b : Bool) :
    evaluate known (s.either t) env = .bool b ↔
      connective? known false (evaluate known s env) (evaluate known t env) = some (.bool b) :=
  evaluate_connection_iff (by decide) (fun _ _ _ => rfl) known env s t b

end Evaluation

open Evaluation

/-- Conjunction and disjunction are commutative in truth exactly if the values of the sides are not
lopsided. -/
theorem connectives_commute_iff (known : Oracle) (env : Environment) (s t : Term) :
    let lopsided := IsLopsided known (evaluate known s env) (evaluate known t env)
    ((∀ b, evaluate known (s.both t) env = .bool b ↔ evaluate known (t.both s) env = .bool b) ↔
      ¬lopsided) ∧
    ((∀ b, evaluate known (s.either t) env = .bool b ↔ evaluate known (t.either s) env = .bool b) ↔
      ¬lopsided) := by
  simp only [evaluate_both_iff, evaluate_either_iff]
  exact ⟨connective?_comm_iff true, connective?_comm_iff false⟩

/-- A negation is seen from the left side only: `!p && p` is false and `!p || p` is true, but
`p && !p` and `p || !p` stay as they are. -/
theorem negation_unseen_from_right :
    let p := Term.atom "p"
    let not := Term.compound "!" [p] 900
    evaluate .nothing (not.both p) .empty = .bool false ∧
      evaluate .nothing (p.both not) .empty = p.both not ∧
      evaluate .nothing (not.either p) .empty = .bool true ∧
      evaluate .nothing (p.either not) .empty = p.either not := by
  exact ⟨rfl, rfl, rfl, rfl⟩

lemma Evaluation.truth?_eq_true_iff {known : Oracle} (plain : ∀ b, known (.bool b) = false)
    {t : Term} : truth? known t = some true ↔ t = .bool true ∨ known t = true := by
  by_cases value : ∃ b, t = .bool b
  · obtain ⟨b, rfl⟩ := value
    simp [truth?, plain]
  · rw [not_exists] at value
    rw [truth?_of_ne_bool value]
    cases known t <;> simp [value]

lemma isTrue_both_true_iff (known : Oracle) (env : Environment) (t : Term) :
    isTrue known (t.both (.bool true)) env = true ↔
      truth? known (evaluate known t env) = some true := by
  have unit : evaluate known (.bool true) env = .bool true := evaluate_of_isConstant known env rfl
  have truth : truth? known (.bool true) = some true := rfl
  rw [isTrue_iff, evaluate_both_iff, connective?_eq_bool_iff, unit, truth]
  simp

/-- A known relation is not recognised everywhere. Joined with `true`, a condition is true if it
is true alone or if its value is an operator term of which there is a live copy; but alone, a
condition of the second kind is not true. -/
theorem isTrue_alone_iff (changes : List Change) (env : Environment) (t : Term) :
    let s := Store.empty.changeAll changes
    let value := evaluate s.holds t env
    let found := value.isOperator = true ∧ ∃ id, s.LiveCopy value id
    (isTrue s.holds (t.both (.bool true)) env = true ↔ isTrue s.holds t env = true ∨ found) ∧
      ((isTrue s.holds t env = true ↔ isTrue s.holds (t.both (.bool true)) env = true) ↔
        ¬found) := by
  intro s value found
  have indexed : s.Indexed := (Store.reaches_changeAll .empty changes).indexed Store.indexed_empty
  have plain (b : Bool) : s.holds (.bool b) = false := rfl
  have joined : isTrue s.holds (t.both (.bool true)) env = true ↔
      isTrue s.holds t env = true ∨ found := by
    rw [isTrue_both_true_iff, truth?_eq_true_iff plain, isTrue_iff, Store.holds_iff indexed]
  have apart : found → isTrue s.holds t env ≠ true := by
    rintro ⟨operator, -⟩ alone
    rw [show value = .bool true from isTrue_iff.mp alone] at operator
    cases operator
  refine ⟨joined, ?_⟩
  rw [joined]
  constructor
  · intro same known
    exact apart known (same.mpr (.inr known))
  · intro unknown
    exact (or_iff_left unknown).symm

/-- A relation that is known to hold is a true condition together with `true`, and not alone. -/
theorem known_relation_untrue_alone :
    let s := Store.empty.changeAll [.add (lessThan "a" "b")]
    isTrue s.holds ((lessThan "a" "b").both (.bool true)) .empty = true ∧
      isTrue s.holds (lessThan "a" "b") .empty = false :=
  ⟨by decide, by decide⟩

end ConstraintHandling
