import ConstraintHandling.Proofs.Program.Reading
import ConstraintHandling.Proofs.Term.Subterms
import Mathlib.Data.List.Induction

/-! Programs are well formed. Whatever the text, the operator terms of a program that is read are those
of the operator table, its variables have the scope of source text, and its rules can be registered. -/
namespace ConstraintHandling

namespace Term

/-- A variable has the scope of source text; a compound term is ordinary, or it has the functor, the
priority and as many arguments as an operator of the table. -/
def IsRegular : Term → Prop
  | .var v => v.scope = 0
  | .compound f args p => p = 0 ∨ ∃ op : Operator, op.name = f ∧ op.priority = p ∧
    (op ∈ Operator.binaryTable ∧ args.length = 2 ∨ op ∈ Operator.unaryTable ∧ args.length = 1)
  | _ => True

/-- Everything inside the term is regular. -/
def IsWellFormed (t : Term) : Prop :=
  ∀ u ∈ t.subterms, u.IsRegular

lemma isWellFormed_iff {t : Term} :
    t.IsWellFormed ↔ t.IsRegular ∧ ∀ a ∈ t.children, a.IsWellFormed := by
  rw [IsWellFormed, subterms_eq, List.forall_mem_cons]
  simp only [IsWellFormed, List.mem_flatMap]
  exact and_congr_right fun _ =>
    ⟨fun h a ha u hu => h u ⟨a, ha, hu⟩, fun h u ⟨a, ha, hu⟩ => h a ha u hu⟩

lemma isWellFormed_of_children_eq_nil {t : Term} (leaf : t.children = []) (h : t.IsRegular) :
    t.IsWellFormed :=
  isWellFormed_iff.mpr ⟨h, by simp [leaf]⟩

end Term

namespace Token
variable {a : Token} {t : Term}

lemma isWellFormed_of_literal? (h : a.literal? = some t) : t.IsWellFormed := by
  cases a with
  | int | float | str =>
    cases h
    exact Term.isWellFormed_of_children_eq_nil rfl trivial
  | var v =>
    simp only [literal?] at h
    split at h
    · cases h
    · cases h
      exact Term.isWellFormed_of_children_eq_nil rfl rfl
  | name n =>
    simp only [literal?] at h
    split at h
    · cases h
      exact Term.isWellFormed_of_children_eq_nil rfl trivial
    · split at h
      · cases h
        exact Term.isWellFormed_of_children_eq_nil rfl trivial
      · cases h
  | quoted | symbol => cases h

lemma isWellFormed_of_negated? (h : a.negated? = some t) : t.IsWellFormed := by
  cases a with
  | int | float =>
    cases h
    exact Term.isWellFormed_of_children_eq_nil rfl trivial
  | _ => cases h

end Token

theorem Derives.isWellFormed {ts : List Token} {phrase : Phrase} (h : Derives ts phrase) :
    ∀ t ∈ phrase.items, t.IsWellFormed := by
  induction h with
  | literal h => exact List.forall_mem_singleton.mpr (Token.isWellFormed_of_literal? h)
  | negative h => exact List.forall_mem_singleton.mpr (Token.isWellFormed_of_negated? h)
  | atom h =>
    exact List.forall_mem_singleton.mpr (Term.isWellFormed_of_children_eq_nil rfl trivial)
  | compound _ _ ih =>
    exact List.forall_mem_singleton.mpr (Term.isWellFormed_iff.mpr ⟨.inl rfl, ih⟩)
  | list _ ih => exact List.forall_mem_singleton.mpr (Term.isWellFormed_iff.mpr ⟨trivial, ih⟩)
  | parentheses _ _ ih => exact ih
  | @unary s op _ _ _ hop _ _ _ ih =>
    have regular : op ∈ Operator.unaryTable := (Operator.mem_unaryTable_of_unary? hop).1
    exact List.forall_mem_singleton.mpr
      (Term.isWellFormed_iff.mpr ⟨.inr ⟨op, rfl, rfl, .inr ⟨regular, rfl⟩⟩, ih⟩)
  | @binary a op _ _ _ _ _ _ hop _ _ _ _ left right =>
    obtain ⟨name, -, hname⟩ := Option.bind_eq_some_iff.mp hop
    have regular : op ∈ Operator.binaryTable := (Operator.mem_binaryTable_of_binary? hname).1
    have below := List.forall_mem_cons.mpr ⟨List.forall_mem_singleton.mp left, right⟩
    exact List.forall_mem_singleton.mpr
      (Term.isWellFormed_iff.mpr ⟨.inr ⟨op, rfl, rfl, .inl ⟨regular, rfl⟩⟩, below⟩)
  | last _ _ ih => exact ih
  | more _ _ _ ih later =>
    exact List.forall_mem_cons.mpr ⟨List.forall_mem_singleton.mp ih, later⟩
  | none => exact fun _ ht => nomatch ht
  | some _ ih => exact ih

lemma Derives.terms_ne_nil {ts : List Token} {items : List Term} (h : Derives ts (.terms items)) :
    items ≠ [] := by
  cases h with
  | last | more => exact List.cons_ne_nil _ _

section Clauses
variable {ts : List Token} {keep delete guards body : List Term} {clause : Clause} {place : Nat}
  {given : Option String}

lemma DeriveHeads.isWellFormed (h : DeriveHeads ts keep delete) :
    ∀ t ∈ keep ++ delete, t.IsWellFormed := by
  cases h with
  | simplification below => exact below.isWellFormed
  | propagation below =>
    rw [List.append_nil]
    exact below.isWellFormed
  | simpagation first second =>
    exact List.forall_mem_append.mpr ⟨first.isWellFormed, second.isWellFormed⟩

lemma DeriveHeads.ne_nil (h : DeriveHeads ts keep delete) : delete ++ keep ≠ [] := by
  cases h with
  | simplification below => simpa using below.terms_ne_nil
  | propagation below => exact below.terms_ne_nil
  | simpagation first second => simp [first.terms_ne_nil]

lemma DeriveBody.isWellFormed (h : DeriveBody ts guards body) :
    ∀ t ∈ guards ++ body, t.IsWellFormed := by
  cases h with
  | unguarded below => exact below.isWellFormed
  | guarded first second =>
    exact List.forall_mem_append.mpr ⟨first.isWellFormed, second.isWellFormed⟩

namespace Clause

lemma IsDerived.isWellFormed (h : IsDerived place given ts clause) :
    ∀ t ∈ clause.terms, t.IsWellFormed := by
  cases h with
  | goals below => exact below.isWellFormed
  | rule heads behind =>
    intro t ht
    rw [terms, Rule.terms, List.append_assoc, List.mem_append] at ht
    obtain ht | ht := ht
    · exact heads.isWellFormed t ht
    · refine behind.isWellFormed t (List.mem_append.mpr ?_)
      exact (List.mem_append.mp ht).imp_right fun kept => (mem_withoutTrue.mp kept).1

lemma IsDerived.rule_of (h : IsDerived place given ts clause) {r : Rule} (hr : clause.rule? = some r) :
    r.heads ≠ [] ∧ .bool true ∉ r.body := by
  cases h with
  | goals => cases hr
  | rule heads behind =>
    cases hr
    exact ⟨heads.ne_nil, fun kept => (mem_withoutTrue.mp kept).2 rfl⟩

lemma IsDerived.goals_ne_nil (h : IsDerived place given ts clause) {goals : List Term}
    (hgoals : clause.goals? = some goals) : goals ≠ [] := by
  cases h with
  | goals below =>
    cases hgoals
    exact below.terms_ne_nil
  | rule => cases hgoals

end Clause
end Clauses

namespace RuleBase

lemma add_of_headed (base : RuleBase) {r : Rule} (headed : r.heads ≠ []) :
    base.add r = .ok (⟨base.rules ++ [r]⟩, base.size) :=
  if_neg (by simpa using headed)

lemma ofRules_concat (rs : List Rule) {r : Rule} (headed : r.heads ≠ []) :
    ofRules (rs ++ [r]) = (⟨(ofRules rs).1.rules ++ [r]⟩, (ofRules rs).2) := by
  rw [ofRules, List.foldl_append, List.foldl_cons, List.foldl_nil, ← ofRules]
  dsimp only
  rw [add_of_headed _ headed]

theorem ofRules_eq {rs : List Rule} (headed : ∀ r ∈ rs, r.heads ≠ []) :
    ofRules rs = (⟨rs⟩, []) := by
  induction rs using List.reverseRecOn with
  | nil => rfl
  | append_singleton rs r ih =>
    rw [List.forall_mem_append, List.forall_mem_singleton] at headed
    rw [ofRules_concat rs headed.2, ih headed.1]

end RuleBase

namespace Program

def terms (p : Program) : List Term :=
  p.rules.flatMap Rule.terms ++ p.goals.flatten

/-- Every term is well formed, every rule has a head and gets its place as its number when it is
registered, under which it is found, no body keeps a `true`, and every conjunction of goals has a
goal. -/
structure IsWellFormed (p : Program) : Prop where
  regular : ∀ t ∈ p.terms, t.IsWellFormed
  headed : ∀ r ∈ p.rules, r.heads ≠ []
  registered : p.ruleBase.2 = []
  numbered : ∀ i r, p.rules[i]? = some r →
    ∃ base, (RuleBase.ofRules (p.rules.take i)).1.add r = .ok (base, i)
  placed : ∀ i, p.ruleBase.1.get? i = p.rules[i]?
  effective : ∀ r ∈ p.rules, .bool true ∉ r.body
  purposeful : ∀ goals ∈ p.goals, goals ≠ []

lemma IsDerived.clauses {rules anonymous : Nat} {ts : List Token} {clauses : List Clause}
    (h : IsDerived rules anonymous ts clauses) :
    ∀ clause ∈ clauses, ∃ place given us, Clause.IsDerived place given us clause := by
  induction h with
  | nil => simp
  | cons _ first _ ih => exact List.forall_mem_cons.mpr ⟨⟨_, _, _, first⟩, ih⟩

lemma mem_terms_ofClauses {clauses : List Clause} {t : Term} (h : t ∈ (ofClauses clauses).terms) :
    ∃ clause ∈ clauses, t ∈ clause.terms := by
  simp only [terms, ofClauses, List.mem_append, List.mem_flatMap, List.mem_flatten,
    List.mem_filterMap] at h
  obtain ⟨r, ⟨clause, hclause, hr⟩, ht⟩ | ⟨goals, ⟨clause, hclause, hgoals⟩, ht⟩ := h
  all_goals
    refine ⟨clause, hclause, ?_⟩
    cases clause <;> simp_all [Clause.rule?, Clause.goals?, Clause.terms]

lemma rule_of_readBytes {bytes : ByteArray} {p : Program} (h : (readBytes bytes).result = .ok p)
    {r : Rule} (hr : r ∈ p.rules) : r.heads ≠ [] ∧ .bool true ∉ r.body := by
  obtain ⟨text, -, hread⟩ := read_of_readBytes h
  obtain ⟨ls, clauses, -, derived, rfl⟩ := derived_of_read hread
  obtain ⟨clause, hclause, hr⟩ := List.mem_filterMap.mp hr
  obtain ⟨_, _, _, derived⟩ := derived.clauses clause hclause
  exact derived.rule_of hr

/-- Every program that is read is well formed, whatever the text. -/
theorem isWellFormed_of_readBytes {bytes : ByteArray} {p : Program}
    (h : (readBytes bytes).result = .ok p) : p.IsWellFormed := by
  obtain ⟨text, -, hread⟩ := read_of_readBytes h
  obtain ⟨ls, clauses, -, derived, rfl⟩ := derived_of_read hread
  have parts := derived.clauses
  have rules : ∀ r ∈ (ofClauses clauses).rules, r.heads ≠ [] ∧ .bool true ∉ r.body :=
    fun r hr => rule_of_readBytes h hr
  have base : (ofClauses clauses).ruleBase = (⟨(ofClauses clauses).rules⟩, []) :=
    RuleBase.ofRules_eq fun r hr => (rules r hr).1
  exact {
    regular := fun t ht => by
      obtain ⟨clause, hclause, ht⟩ := mem_terms_ofClauses ht
      obtain ⟨_, _, _, derived⟩ := parts clause hclause
      exact derived.isWellFormed t ht
    headed := fun r hr => (rules r hr).1
    registered := congrArg Prod.snd base
    numbered := fun i r hr => by
      have within : i < (ofClauses clauses).rules.length := (List.getElem?_eq_some_iff.mp hr).1
      have before : RuleBase.ofRules ((ofClauses clauses).rules.take i) =
          (⟨(ofClauses clauses).rules.take i⟩, []) :=
        RuleBase.ofRules_eq fun r hr => (rules r (List.mem_of_mem_take hr)).1
      have place : RuleBase.size ⟨(ofClauses clauses).rules.take i⟩ = i := by
        rw [RuleBase.size, List.length_take, Nat.min_eq_left within.le]
      rw [before, RuleBase.add_of_headed _ (rules r (List.mem_of_getElem? hr)).1, place]
      exact ⟨_, rfl⟩
    placed := fun i => congrArg (fun b : RuleBase × List Headless => b.1.get? i) base
    effective := fun r hr => (rules r hr).2
    purposeful := fun goals hgoals => by
      obtain ⟨clause, hclause, hgoals⟩ := List.mem_filterMap.mp hgoals
      obtain ⟨_, _, _, derived⟩ := parts clause hclause
      exact derived.goals_ne_nil hgoals }

/-- A rule with heads of both kinds, a guard and a `true` in its body, and two goals. -/
theorem isWellFormed_of_readBytes_guarded :
    let p : Program := ⟨[⟨"take", [.ordinary "p" [.var ⟨"_1", 0⟩]],
      [.ordinary "q" [.compound "-" [.var ⟨"X", 0⟩] 200]], [.relation "<" (.int 1) (.var ⟨"X", 0⟩)],
      [.ordinary "r" [.bool true]]⟩], [[.atom "s", .ordinary "p" []]]⟩
    (readBytes "take @ p(_) \\ q(-X) <=> 1<X | true, r(true). s, p().".toUTF8).result = .ok p ∧
      p.IsWellFormed := by
  intro p
  have read : (readBytes "take @ p(_) \\ q(-X) <=> 1<X | true, r(true). s, p().".toUTF8).result =
      .ok p := by
    rw [readBytes_toUTF8]
    cbv
  exact ⟨read, isWellFormed_of_readBytes read⟩

end Program
end ConstraintHandling
