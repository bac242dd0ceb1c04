import ConstraintHandling.Proofs.Term.FloatFree

/-! Early evaluation. Goals and the literals of bodies are evaluated while some of their variables have no
values yet. For terms without floats this makes no difference: what an operator computes from values
that hold variables agrees with what it computes from the values of all their instances. -/
namespace ConstraintHandling

/-- The value of an instance of a term. -/
def Term.valueUnder (σ : Variable → Term) (t : Term) : Term :=
  (t.mapVariables σ).reduce .nothing

namespace Term
variable {σ : Variable → Term} {f : String} {args : List Term} {p : Nat} {t : Term}

lemma valueUnder_of_isConstant (h : t.isConstant = true) : t.valueUnder σ = t := by
  rw [valueUnder, mapVariables_of_isConstant h, reduce_of_isConstant h]

@[simp] lemma valueUnder_bool (b : Bool) : (bool b).valueUnder σ = .bool b :=
  valueUnder_of_isConstant rfl

@[simp] lemma valueUnder_list (items : List Term) :
    (list items).valueUnder σ = .list (items.map (valueUnder σ)) := by
  simp [valueUnder, mapVariables, reduce, Function.comp_def]

lemma valueUnder_ordinary :
    (compound f args 0).valueUnder σ = .compound f (args.map (valueUnder σ)) 0 := by
  simp [valueUnder, mapVariables, reduce, Function.comp_def]

lemma valueUnder_operator (hp : p ≠ 0) :
    (compound f args p).valueUnder σ =
      (Evaluation.operation? .nothing f (args.map (valueUnder σ))).getD
        (.compound f (args.map (valueUnder σ)) p) := by
  rw [valueUnder, mapVariables, mapVariablesAll_eq, reduce, reduceAll_eq, List.map_map, if_neg hp]
  rfl

lemma valueUnder_of_ground (ground : t.isGround = true) (value : t.IsEvaluated) :
    t.valueUnder σ = t := by
  have same : t.mapVariables σ = t := by
    refine mapVariables_eq_self fun v hv => ?_
    rw [isGround_iff.mp ground] at hv
    cases hv
  rw [valueUnder, same]
  exact value

lemma FloatFree.valueUnder (h : t.FloatFree) (hσ : ∀ v, (σ v).FloatFree) :
    (t.valueUnder σ).FloatFree :=
  (h.mapVariables hσ).reduce

end Term

namespace Evaluation
variable {σ : Variable → Term} {s t u : Term}

lemma truth?_eq_some {b : Bool} : truth? .nothing t = some b ↔ t = .bool b := by
  have unknown : (t.negation?.map Oracle.nothing).getD false = false := by
    cases t.negation? <;> rfl
  cases t with
  | bool c => simp [truth?]
  | _ => simp [truth?, unknown, Oracle.nothing]

lemma truth?_bool (b : Bool) : truth? .nothing (.bool b) = some b := rfl

lemma truth?_compound (f : String) (args : List Term) (p : Nat) :
    truth? .nothing (.compound f args p) = none := by
  rw [Option.eq_none_iff_forall_ne_some]
  exact fun b h => nomatch truth?_eq_some.mp h

lemma isConstant_of_number? {x : Binary64} (h : t.number? = some x) : t.isConstant = true := by
  cases t <;> first | rfl | cases h

lemma constants_of_arithmetic {op : Arithmetic} (h : op.apply s t = some u) :
    s.isConstant = true ∧ t.isConstant = true := by
  unfold Arithmetic.apply at h
  split at h
  · exact ⟨rfl, rfl⟩
  · exact ⟨rfl, rfl⟩
  · split at h
    · next hs ht => exact ⟨isConstant_of_number? hs, isConstant_of_number? ht⟩
    · cases h

lemma constants_of_order? {o : Ordering} (h : Comparison.order? s t = some o) :
    s.isConstant = true ∧ t.isConstant = true := by
  unfold Comparison.order? at h
  split at h
  · exact ⟨rfl, rfl⟩
  · exact ⟨rfl, rfl⟩
  · split at h
    · next hs ht => exact ⟨isConstant_of_number? hs, isConstant_of_number? ht⟩
    · cases h

lemma settledEqual?_self (h : t.FloatFree) : settledEqual? t t = some true := by
  have same := h.beq_self
  cases t with
  | int a => simp [settledEqual?, Term.isNumber, Comparison.order?]
  | float => cases (Term.floatFree_iff.mp h).1
  | _ => simp [settledEqual?, Term.isNumber, same]

lemma settledEqual?_valueUnder (hs : s.FloatFree) (vs : s.IsEvaluated) (vt : t.IsEvaluated)
    (hσ : ∀ v, (σ v).FloatFree) {b : Bool} (h : settledEqual? s t = some b) :
    settledEqual? (s.valueUnder σ) (t.valueUnder σ) = some b := by
  have settled := h
  unfold settledEqual? at h
  split at h
  · obtain ⟨o, ho, -⟩ := Option.map_eq_some_iff.mp h
    obtain ⟨cs, ct⟩ := constants_of_order? ho
    rwa [Term.valueUnder_of_isConstant cs, Term.valueUnder_of_isConstant ct]
  · split at h
    · next heq =>
      cases h
      obtain rfl := hs.eq_of_beq heq
      exact settledEqual?_self (hs.valueUnder hσ)
    · split at h
      · next ground =>
        rw [Bool.and_eq_true] at ground
        rwa [Term.valueUnder_of_ground ground.1 vs, Term.valueUnder_of_ground ground.2 vt]
      · cases h

lemma binary?_complement {f g : String} (h : Operator.complement? f = some g) (s t : Term) :
    ∃ x : Option Bool, binary? .nothing f s t = x.map .bool ∧
      binary? .nothing g s t = x.map fun b => .bool !b := by
  have inverted (c d : Comparison) (opposite : ∀ o, d.holdsFor o = !c.holdsFor o) :
      (d.apply s t).map Term.bool = (c.apply s t).map fun b => .bool !b := by
    cases order : Comparison.order? s t <;> simp [Comparison.apply, order, opposite]
  unfold Operator.complement? at h
  split at h <;> cases h
  · exact ⟨_, rfl, inverted .less .atLeast (by decide)⟩
  · exact ⟨_, rfl, inverted .atLeast .less (by decide)⟩
  · exact ⟨_, rfl, inverted .greater .atMost (by decide)⟩
  · exact ⟨_, rfl, inverted .atMost .greater (by decide)⟩
  · exact ⟨_, rfl, rfl⟩
  · refine ⟨(settledEqual? s t).map (!·), ?_, ?_⟩ <;>
      cases settled : settledEqual? s t <;> simp [binary?, BinaryOperation.ofName?, settled]

/-- Two values contradict each other: they are different booleans, or both have no truth value and one
can be seen to be the negation of the other one. -/
def Contradict (s t : Term) : Prop :=
  (∃ b, s = .bool b ∧ t = .bool !b) ∨
    (truth? .nothing s = none ∧ truth? .nothing t = none ∧ areOpposite s t = true)

lemma contradict_not {p : Nat} (hp : p ≠ 0) (free : (t.valueUnder σ).FloatFree) :
    Contradict ((Term.compound "!" [t] p).valueUnder σ) (t.valueUnder σ) := by
  have value : (Term.compound "!" [t] p).valueUnder σ =
      ((truth? .nothing (t.valueUnder σ)).map fun b => .bool !b).getD
        (.compound "!" [t.valueUnder σ] p) := Term.valueUnder_operator hp
  cases truth : truth? .nothing (t.valueUnder σ) with
  | some b =>
    rw [truth] at value
    exact .inl ⟨!b, value, by rw [truth?_eq_some.mp truth, Bool.not_not]⟩
  | none =>
    rw [truth] at value
    rw [value]
    refine .inr ⟨truth?_compound .., truth, ?_⟩
    simp [areOpposite, Term.negation?, hp, free.beq_self]

lemma contradict_complement {f g : String} {p : Nat} (hp : p ≠ 0)
    (complement : Operator.complement? f = some g) (hs : (s.valueUnder σ).FloatFree)
    (ht : (t.valueUnder σ).FloatFree) :
    Contradict ((Term.compound f [s, t] p).valueUnder σ) ((Term.relation g s t).valueUnder σ) := by
  obtain ⟨x, hx, hx'⟩ := binary?_complement complement (s.valueUnder σ) (t.valueUnder σ)
  have value : (Term.compound f [s, t] p).valueUnder σ =
      (x.map .bool).getD (.compound f [s.valueUnder σ, t.valueUnder σ] p) :=
    hx ▸ Term.valueUnder_operator hp
  have value' : (Term.relation g s t).valueUnder σ =
      (x.map fun b => .bool !b).getD (.relation g (s.valueUnder σ) (t.valueUnder σ)) :=
    hx' ▸ Term.valueUnder_operator (by decide)
  rw [value, value']
  cases x with
  | some b => exact .inl ⟨b, rfl, rfl⟩
  | none =>
    refine .inr ⟨truth?_compound .., truth?_compound .., ?_⟩
    have free : (Term.relation g (s.valueUnder σ) (t.valueUnder σ)).FloatFree := by
      simp [Term.relation, hs, ht]
    simpa [areOpposite, Term.negation?, Term.relation, hp, complement] using free.beq_self

lemma contradict_valueUnder (hs : s.FloatFree) (hσ : ∀ v, (σ v).FloatFree)
    (h : areOpposite s t = true) : Contradict (s.valueUnder σ) (t.valueUnder σ) := by
  unfold areOpposite at h
  split at h
  · next n negation =>
    unfold Term.negation? at negation
    split at negation
    · next b =>
      cases negation
      obtain rfl := (Term.floatFree_bool _).eq_of_beq h
      exact .inl ⟨b, by simp, by simp⟩
    · next f arg p =>
      split at negation
      · next operator =>
        cases negation
        simp only [Bool.and_eq_true, bne_iff_ne, beq_iff_eq] at operator
        obtain ⟨hp, rfl⟩ := operator
        have free := Term.floatFree_compound.mp hs n List.mem_cons_self
        obtain rfl := free.eq_of_beq h
        exact contradict_not hp (free.valueUnder hσ)
      · cases negation
    · next f left right p =>
      split at negation
      · next operator =>
        obtain ⟨g, complement, rfl⟩ := Option.map_eq_some_iff.mp negation
        have free := Term.floatFree_compound.mp hs
        obtain rfl := (Term.floatFree_compound.mpr free).eq_of_beq h
        exact contradict_complement (by simpa using operator) complement
          ((free left (by simp)).valueUnder hσ) ((free right (by simp)).valueUnder hσ)
      · cases negation
    · cases negation
  · cases h

/-- The connective of which the given boolean is the unit: conjunction for `true`, disjunction for
`false`. -/
def connective? (known : Oracle) (unit : Bool) (s t : Term) : Option Term :=
  if unit then conjunction? known s t else disjunction? known s t

lemma connective?_bool_left (unit b : Bool) (t : Term) :
    connective? .nothing unit (.bool b) t = some (if b = unit then t else .bool b) := by
  cases truth : truth? .nothing t with
  | none => cases unit <;> cases b <;> simp [connective?, conjunction?, disjunction?, truth, truth?_bool]
  | some c =>
    obtain rfl := truth?_eq_some.mp truth
    cases unit <;> cases b <;> cases c <;> rfl

lemma connective?_bool_right (unit : Bool) (s : Term) (b : Bool) :
    connective? .nothing unit s (.bool b) = some (if b = unit then s else .bool b) := by
  cases truth : truth? .nothing s with
  | none => cases unit <;> cases b <;> simp [connective?, conjunction?, disjunction?, truth, truth?_bool]
  | some c =>
    obtain rfl := truth?_eq_some.mp truth
    cases unit <;> cases b <;> cases c <;> rfl

lemma connective?_of_none (unit : Bool) (hs : truth? .nothing s = none)
    (ht : truth? .nothing t = none) :
    connective? .nothing unit s t = if areOpposite s t then some (.bool !unit) else none := by
  cases unit <;> simp [connective?, conjunction?, disjunction?, hs, ht]

lemma Contradict.connective? (h : Contradict s t) (unit : Bool) :
    Evaluation.connective? .nothing unit s t = some (.bool !unit) := by
  obtain ⟨b, rfl, rfl⟩ | ⟨hs, ht, opposite⟩ := h
  · cases unit <;> cases b <;> rfl
  · rw [connective?_of_none unit hs ht, opposite, if_pos rfl]

lemma connective?_valueUnder (unit : Bool) (hs : s.FloatFree) (hσ : ∀ v, (σ v).FloatFree)
    (h : connective? .nothing unit s t = some u) :
    connective? .nothing unit (s.valueUnder σ) (t.valueUnder σ) = some (u.valueUnder σ) := by
  cases left : truth? .nothing s with
  | some b =>
    obtain rfl := truth?_eq_some.mp left
    rw [connective?_bool_left] at h
    cases h
    rw [Term.valueUnder_bool, connective?_bool_left]
    split <;> simp
  | none =>
    cases right : truth? .nothing t with
    | some b =>
      obtain rfl := truth?_eq_some.mp right
      rw [connective?_bool_right] at h
      cases h
      rw [Term.valueUnder_bool, connective?_bool_right]
      split <;> simp
    | none =>
      rw [connective?_of_none unit left right] at h
      split at h
      · next opposite =>
        cases h
        rw [(contradict_valueUnder hs hσ opposite).connective?, Term.valueUnder_bool]
      · cases h

lemma unary?_valueUnder {name : String} (free : t.FloatFree) (h : unary? .nothing name t = some u) :
    unary? .nothing name (t.valueUnder σ) = some (u.valueUnder σ) := by
  have settled := h
  unfold unary? at h
  split at h
  · obtain ⟨i, -, rfl⟩ := Option.map_eq_some_iff.mp h
    rwa [Term.valueUnder_of_isConstant rfl, Term.valueUnder_of_isConstant rfl]
  · cases (Term.floatFree_iff.mp free).1
  · obtain ⟨b, truth, rfl⟩ := Option.map_eq_some_iff.mp h
    obtain rfl := truth?_eq_some.mp truth
    rwa [Term.valueUnder_bool, Term.valueUnder_bool]
  · cases h

lemma binary?_valueUnder {name : String} (hs : s.FloatFree) (vs : s.IsEvaluated)
    (vt : t.IsEvaluated) (hσ : ∀ v, (σ v).FloatFree) (h : binary? .nothing name s t = some u) :
    binary? .nothing name (s.valueUnder σ) (t.valueUnder σ) = some (u.valueUnder σ) := by
  unfold binary? at h ⊢
  cases operation : BinaryOperation.ofName? name with
  | none => simp [operation] at h
  | some op =>
    rw [operation] at h
    cases op with
    | arithmetic op =>
      obtain ⟨cs, ct⟩ := constants_of_arithmetic h
      rw [Term.valueUnder_of_isConstant cs, Term.valueUnder_of_isConstant ct,
        Term.valueUnder_of_isConstant (Term.isConstant_of_arithmetic h)]
      exact h
    | comparison c =>
      obtain ⟨b, holds, rfl⟩ := Option.map_eq_some_iff.mp h
      obtain ⟨o, order, rfl⟩ := Option.map_eq_some_iff.mp holds
      obtain ⟨cs, ct⟩ := constants_of_order? order
      rw [Term.valueUnder_of_isConstant cs, Term.valueUnder_of_isConstant ct, Term.valueUnder_bool]
      exact h
    | equal =>
      obtain ⟨b, settled, rfl⟩ := Option.map_eq_some_iff.mp h
      simp [settledEqual?_valueUnder hs vs vt hσ settled]
    | different =>
      obtain ⟨b, settled, rfl⟩ := Option.map_eq_some_iff.mp h
      simp [settledEqual?_valueUnder hs vs vt hσ settled]
    | conjunction => exact connective?_valueUnder true hs hσ h
    | disjunction => exact connective?_valueUnder false hs hσ h

theorem operation?_valueUnder {name : String} {args : List Term} (free : ∀ a ∈ args, a.FloatFree)
    (values : ∀ a ∈ args, a.IsEvaluated) (hσ : ∀ v, (σ v).FloatFree)
    (h : operation? .nothing name args = some u) :
    operation? .nothing name (args.map (Term.valueUnder σ)) = some (u.valueUnder σ) := by
  match args, h with
  | [t], h => exact unary?_valueUnder (free t (by simp)) h
  | [s, t], h =>
    exact binary?_valueUnder (free s (by simp)) (values s (by simp)) (values t (by simp)) hσ h

end Evaluation

lemma Term.valueUnder_reduce {σ : Variable → Term} {t : Term} (ht : t.FloatFree)
    (hσ : ∀ v, (σ v).FloatFree) : (t.reduce .nothing).valueUnder σ = t.valueUnder σ := by
  induction t using Term.induction with
  | var v => simp [reduce]
  | constant t constant => rw [reduce_of_isConstant constant]
  | list items ih =>
    have free := floatFree_list.mp ht
    rw [reduce, reduceAll_eq, valueUnder_list, valueUnder_list, List.map_map]
    exact congrArg list (List.map_congr_left fun a ha => ih a ha (free a ha))
  | compound f args p ih =>
    have free := floatFree_compound.mp ht
    have parts : (args.map (reduce .nothing)).map (valueUnder σ) = args.map (valueUnder σ) := by
      rw [List.map_map]
      exact List.map_congr_left fun a ha => ih a ha (free a ha)
    rw [reduce, reduceAll_eq]
    split
    · next ordinary => rw [ordinary, valueUnder_ordinary, valueUnder_ordinary, parts]
    · next operator =>
      rw [valueUnder_operator operator, ← parts]
      cases operation : Evaluation.operation? .nothing f (args.map (reduce .nothing)) with
      | none => exact valueUnder_operator operator
      | some u =>
        have later := Evaluation.operation?_valueUnder
          (List.forall_mem_map.mpr fun a ha => (free a ha).reduce)
          (List.forall_mem_map.mpr fun a _ => isEvaluated_reduce .nothing a) hσ operation
        rw [later]
        rfl

/-- Evaluating a term before its variables get their values does not change the final value, provided that
no floats are involved. -/
theorem evaluate_early {t : Term} {σ : Variable → Term} (ht : t.FloatFree)
    (hσ : ∀ v, (σ v).FloatFree) :
    evaluate .nothing ((evaluate .nothing t .empty).mapVariables σ) .empty =
      evaluate .nothing (t.mapVariables σ) .empty :=
  Term.valueUnder_reduce ht hσ

/-- An equation and a disjunction are settled early, and a sum is computed in part. -/
theorem evaluate_early_settled :
    let x := Term.var ⟨"X", 0⟩
    let y := Term.var ⟨"Y", 0⟩
    let sum (s t : Term) : Term := .compound "+" [s, t] 500
    let either := Term.compound "||" [.relation "<" y (.int 3), .relation ">=" y (.int 3)] 1000
    let t := Term.list [.equation x x, sum y (sum (.int 2) (.int 4)), either]
    let σ : Variable → Term := fun v => if v.name = "Y" then sum (.int 1) (.int 1) else .var v
    t.FloatFree ∧ (∀ v, (σ v).FloatFree) ∧
      evaluate .nothing t .empty = .list [.bool true, sum y (.int 6), .bool true] ∧
      evaluate .nothing ((evaluate .nothing t .empty).mapVariables σ) .empty =
        evaluate .nothing (t.mapVariables σ) .empty := by
  intro x y sum either t σ
  have free : t.FloatFree := by decide
  have instances (v : Variable) : (σ v).FloatFree := by
    dsimp only [σ]
    split
    · decide
    · exact Term.floatFree_var v
  exact ⟨free, instances, rfl, evaluate_early free instances⟩

end ConstraintHandling
