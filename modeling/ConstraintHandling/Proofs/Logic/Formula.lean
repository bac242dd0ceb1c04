import ConstraintHandling.Proofs.Evaluated
import ConstraintHandling.Proofs.Term.FloatFree

/-! Formulas. Only logical operators ask what is known, and they ask it of their arguments; a term
without them has the same value whatever is known. In a formula they stand above all other terms. -/
namespace ConstraintHandling

namespace Term

def isLogical : Term → Bool
  | .compound f [_] p => p != 0 && f == "!"
  | .compound f [_, _] p => p != 0 && (f == "&&" || f == "||")
  | _ => false

def LogicFree (t : Term) : Prop :=
  ∀ u ∈ t.subterms, u.isLogical = false

instance (t : Term) : Decidable t.LogicFree :=
  inferInstanceAs (Decidable (∀ u ∈ t.subterms, u.isLogical = false))

/-- The term does not differ from a relation in its priority alone. -/
def hasUsualPriority : Term → Bool
  | .compound f [_, _] p =>
    p == 0 || p == Operator.relationPriority || (Operator.complement? f).isNone
  | _ => true

/-- A term that is made of others by logical operators. -/
inductive Combined (Part : Term → Prop) : Term → Prop
  | part {t : Term} (h : Part t) : Combined Part t
  | logical {f : String} {args : List Term} {p : Nat}
      (operator : (compound f args p).isLogical = true) (parts : ∀ t ∈ args, Combined Part t) :
      Combined Part (.compound f args p)

/-- Logical operators stand above all other terms, and relations have their usual priority. -/
def IsFormula (t : Term) : Prop :=
  t.Combined fun u => u.LogicFree ∧ u.hasUsualPriority = true

/-- A formula in which nothing but the logical operators is left to be reduced. -/
def IsReducedFormula (t : Term) : Prop :=
  t.Combined fun u => (u.LogicFree ∧ u.hasUsualPriority = true) ∧ u.IsEvaluated

variable {f : String} {args args' : List Term} {p : Nat} {s t n : Term}

lemma logicFree_iff : t.LogicFree ↔ t.isLogical = false ∧ ∀ a ∈ t.children, a.LogicFree := by
  simp only [LogicFree]
  rw [subterms_eq, List.forall_mem_cons, List.forall_mem_flatMap]

lemma logicFree_of_isConstant (h : t.isConstant = true) : t.LogicFree := by
  cases t with
  | compound | list | var => cases h
  | _ => exact logicFree_iff.mpr ⟨rfl, by simp [children]⟩

lemma isLogical_compound_congr (h : args.length = args'.length) :
    (compound f args p).isLogical = (compound f args' p).isLogical := by
  match args, args', h with
  | [], [], _ | [_], [_], _ | [_, _], [_, _], _ | _ :: _ :: _ :: _, _ :: _ :: _ :: _, _ => rfl

@[simp] lemma isLogical_map (f : String) (args : List Term) (g : Term → Term) (p : Nat) :
    (compound f (args.map g) p).isLogical = (compound f args p).isLogical :=
  isLogical_compound_congr (List.length_map g)

@[simp] lemma hasUsualPriority_map (f : String) (args : List Term) (g : Term → Term) (p : Nat) :
    (compound f (args.map g) p).hasUsualPriority = (compound f args p).hasUsualPriority := by
  match args with
  | [] | [_] | [_, _] | _ :: _ :: _ :: _ => rfl

lemma priority_of_isLogical (h : (compound f args p).isLogical = true) : p ≠ 0 := by
  rintro rfl
  match args with
  | [] | [_] | [_, _] | _ :: _ :: _ :: _ => simp [isLogical] at h

lemma isLogical_eq_of_beq (h : (s == t) = true) : s.isLogical = t.isLogical := by
  cases beq_iff_equal.mp h with
  | plain | float => rfl
  | compound parts => exact isLogical_compound_congr (length_eq_of_beqAll parts)
  | list => rfl

lemma negation?_singleton (f : String) (t : Term) (p : Nat) :
    (compound f [t] p).negation? = if p != 0 && f == "!" then some t else none := rfl

lemma negation?_pair (f : String) (s t : Term) (p : Nat) : (compound f [s, t] p).negation? =
    if p != 0 then (Operator.complement? f).map (relation · s t) else none := rfl

lemma negation?_of_beq (h : (s == t) = true) (hn : s.negation? = some n) :
    ∃ n', t.negation? = some n' ∧ (n == n') = true := by
  cases beq_iff_equal.mp h with
  | plain =>
    cases s with
    | bool b =>
      cases hn
      exact ⟨_, rfl, (floatFree_bool _).beq_self⟩
    | compound => contradiction
    | _ => cases hn
  | float => cases hn
  | list => cases hn
  | @compound f as bs p parts =>
    match as, bs, beqAll_iff.mp parts with
    | [], _, _ | _ :: _ :: _ :: _, _, _ => cases hn
    | [a], [b], .cons hab .nil =>
      rw [negation?_singleton] at hn ⊢
      split at hn
      · next operator =>
        cases hn
        exact ⟨b, if_pos operator, hab⟩
      · cases hn
    | [a, a'], [b, b'], .cons hab (.cons hab' .nil) =>
      rw [negation?_pair] at hn ⊢
      split at hn
      · next operator =>
        obtain ⟨g, complement, rfl⟩ := Option.map_eq_some_iff.mp hn
        refine ⟨relation g b b', by rw [if_pos operator, complement]; rfl, ?_⟩
        exact beq_iff_equal.mpr (.compound (beqAll_iff.mpr (.cons hab (.cons hab' .nil))))
      · cases hn

end Term

namespace Evaluation
variable {known : Oracle} {f : String} {args : List Term} {p : Nat} {u : Term}

lemma name_of_logical {name : String} {op : BinaryOperation}
    (h : BinaryOperation.ofName? name = some op) (logical : op = .conjunction ∨ op = .disjunction) :
    name = "&&" ∨ name = "||" := by
  unfold BinaryOperation.ofName? at h
  split at h <;> simp_all <;> subst h <;> simp_all

lemma operation?_of_not_logical (hp : p ≠ 0) (h : (Term.compound f args p).isLogical = false)
    (known known' : Oracle) : operation? known f args = operation? known' f args := by
  match args with
  | [] | _ :: _ :: _ :: _ => rfl
  | [t] =>
    change unary? known f t = unary? known' f t
    unfold unary?
    split
    · rfl
    · rfl
    · simp [Term.isLogical, hp] at h
    · rfl
  | [s, t] =>
    change binary? known f s t = binary? known' f s t
    unfold binary?
    split
    case h_5 name | h_6 name =>
      obtain rfl | rfl := name_of_logical name (by simp) <;> simp [Term.isLogical, hp] at h
    all_goals rfl

lemma isConstant_of_not_logical (hp : p ≠ 0) (h : (Term.compound f args p).isLogical = false)
    (hu : operation? known f args = some u) : u.isConstant = true := by
  match args with
  | [] | _ :: _ :: _ :: _ => cases hu
  | [t] => exact Term.isConstant_of_unary? hu
  | [s, t] =>
    replace hu : binary? known f s t = some u := hu
    unfold binary? at hu
    split at hu
    · exact Term.isConstant_of_arithmetic hu
    · obtain ⟨b, -, rfl⟩ := Option.map_eq_some_iff.mp hu
      rfl
    · obtain ⟨b, -, rfl⟩ := Option.map_eq_some_iff.mp hu
      rfl
    · obtain ⟨b, -, rfl⟩ := Option.map_eq_some_iff.mp hu
      rfl
    · next name =>
      obtain rfl | rfl := name_of_logical name (by simp) <;> simp [Term.isLogical, hp] at h
    · next name =>
      obtain rfl | rfl := name_of_logical name (by simp) <;> simp [Term.isLogical, hp] at h
    · cases hu

end Evaluation

namespace Term
variable {known : Oracle} {f : String} {args : List Term} {p : Nat} {t : Term}

lemma reduce_of_not_logical (known : Oracle) (h : (compound f args p).isLogical = false) :
    ((compound f args p).reduce known).isConstant = true ∨
      (compound f args p).reduce known = .compound f (args.map (reduce known)) p := by
  rw [← isLogical_map f args (reduce known)] at h
  rw [reduce, reduceAll_eq]
  split
  · next ordinary => exact .inr (by rw [ordinary])
  · next operator =>
    cases hop : Evaluation.operation? known f (args.map (reduce known)) with
    | none => exact .inr rfl
    | some u => exact .inl (Evaluation.isConstant_of_not_logical operator h hop)

lemma LogicFree.reduce_eq (h : t.LogicFree) (known known' : Oracle) :
    t.reduce known = t.reduce known' := by
  induction t using Term.induction with
  | var v => simp [reduce]
  | constant t ht => rw [reduce_of_isConstant ht, reduce_of_isConstant ht]
  | list items ih =>
    have below := (logicFree_iff.mp h).2
    rw [reduce, reduce, reduceAll_eq, reduceAll_eq,
      List.map_congr_left fun t ht => ih t ht (below t ht)]
  | compound f args p ih =>
    obtain ⟨top, below⟩ := logicFree_iff.mp h
    rw [reduce, reduce, reduceAll_eq, reduceAll_eq,
      List.map_congr_left fun t ht => ih t ht (below t ht)]
    split
    · rfl
    · next hp =>
      rw [← isLogical_map f args (reduce known')] at top
      rw [Evaluation.operation?_of_not_logical hp top known known']

lemma LogicFree.reduce (h : t.LogicFree) : (t.reduce known).LogicFree := by
  induction t using Term.induction with
  | var v => simpa [Term.reduce] using h
  | constant t ht => rwa [reduce_of_isConstant ht]
  | list items ih =>
    obtain ⟨-, below⟩ := logicFree_iff.mp h
    rw [Term.reduce, reduceAll_eq]
    exact logicFree_iff.mpr ⟨rfl, List.forall_mem_map.mpr fun t ht => ih t ht (below t ht)⟩
  | compound f args p ih =>
    obtain ⟨top, below⟩ := logicFree_iff.mp h
    obtain constant | same := reduce_of_not_logical known top
    · exact logicFree_of_isConstant constant
    · rw [← isLogical_map f args (Term.reduce known)] at top
      rw [same]
      exact logicFree_iff.mpr ⟨top, List.forall_mem_map.mpr fun t ht => ih t ht (below t ht)⟩

lemma hasUsualPriority_of_isConstant (h : t.isConstant = true) : t.hasUsualPriority = true := by
  cases t with
  | compound | list | var => cases h
  | _ => rfl

lemma hasUsualPriority_reduce (free : t.LogicFree) (h : t.hasUsualPriority = true) :
    (t.reduce known).hasUsualPriority = true := by
  cases t with
  | compound f args p =>
    obtain constant | same := reduce_of_not_logical known (logicFree_iff.mp free).1
    · exact hasUsualPriority_of_isConstant constant
    · rwa [same, hasUsualPriority_map]
  | _ => rfl

end Term
end ConstraintHandling
