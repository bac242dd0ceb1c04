import ConstraintHandling.Proofs.Logic.Verdict

/-! Growing knowledge. The verdict on a formula is the verdict on what an oracle that knows less has
made of it, as long as the facts known do not contradict each other; so a formula that is true stays
true when more facts are learned. -/
namespace ConstraintHandling

/-- The oracle knows facts: it makes no difference between equal terms, no fact is a logical
operation, and no fact has a negation that is known too. -/
structure Oracle.IsFactual (known : Oracle) : Prop where
  congr {s t : Term} (h : (s == t) = true) : known s = known t
  plain (t : Term) (h : known t = true) : t.isLogical = false
  consistent {t n : Term} (h : known t = true) (hn : t.negation? = some n) : known n = false

lemma Oracle.isFactual_nothing : Oracle.nothing.IsFactual where
  congr _ := rfl
  plain _ h := nomatch h
  consistent h _ := nomatch h

namespace Evaluation
variable {known : Oracle} {f : String} {p : Nat} {s s' t t' u : Term} {us vs : List Term}

lemma truth?_congr (facts : known.IsFactual) (h : (s == t) = true) :
    truth? known s = truth? known t := by
  by_cases value : ∃ b, s = .bool b
  · obtain ⟨b, rfl⟩ := value
    rw [(Term.floatFree_bool b).eq_of_beq h]
  · rw [not_exists] at value
    have other (b : Bool) : t ≠ .bool b := by
      rintro rfl
      exact value b ((Term.floatFree_bool b).eq_of_beq (Term.beq_symm h)).symm
    have negations : s.negation?.map known = t.negation?.map known := by
      cases hs : s.negation? with
      | some n =>
        obtain ⟨n', hn', same⟩ := Term.negation?_of_beq h hs
        rw [hn', Option.map_some, Option.map_some, facts.congr same]
      | none =>
        cases ht : t.negation? with
        | none => rfl
        | some n =>
          obtain ⟨n', hn', -⟩ := Term.negation?_of_beq (Term.beq_symm h) ht
          rw [hs] at hn'
          cases hn'
    rw [truth?_of_ne_bool value, truth?_of_ne_bool other, facts.congr h, negations]

lemma settle_congr (facts : known.IsFactual) (h : (s == t) = true) :
    (settle known s == settle known t) = true := by
  cases truth : truth? known s with
  | some b =>
    rw [settle_of_some truth, settle_of_some (truth?_congr facts h ▸ truth)]
    exact (Term.floatFree_bool b).beq_self
  | none => rwa [settle_of_none truth, settle_of_none (truth?_congr facts h ▸ truth)]

lemma areOpposite_iff : areOpposite s t = true ↔ ∃ n, s.negation? = some n ∧ (n == t) = true := by
  unfold areOpposite
  cases s.negation? <;> simp

lemma areOpposite_of_beq (hs : (s == s') = true) (ht : (t == t') = true)
    (h : areOpposite s t = true) : areOpposite s' t' = true := by
  obtain ⟨n, hn, opposite⟩ := areOpposite_iff.mp h
  obtain ⟨n', hn', same⟩ := Term.negation?_of_beq hs hn
  exact areOpposite_iff.mpr
    ⟨n', hn', Term.beq_trans (Term.beq_symm same) (Term.beq_trans opposite ht)⟩

lemma areOpposite_congr (hs : (s == s') = true) (ht : (t == t') = true) :
    areOpposite s t = areOpposite s' t' :=
  Bool.eq_iff_iff.mpr ⟨areOpposite_of_beq hs ht,
    areOpposite_of_beq (Term.beq_symm hs) (Term.beq_symm ht)⟩

lemma connective?_congr (unit : Bool) (hs : (s == s') = true) (ht : (t == t') = true) :
    connective? .nothing unit s t = none ∧ connective? .nothing unit s' t' = none ∨
      ∃ u u', connective? .nothing unit s t = some u ∧
        connective? .nothing unit s' t' = some u' ∧ (u == u') = true := by
  cases left : truth? .nothing s with
  | some b =>
    obtain rfl := truth?_eq_some.mp left
    obtain rfl := (Term.floatFree_bool b).eq_of_beq hs
    rw [connective?_bool_left, connective?_bool_left]
    refine .inr ⟨_, _, rfl, rfl, ?_⟩
    split
    · exact ht
    · exact hs
  | none =>
    cases right : truth? .nothing t with
    | some b =>
      obtain rfl := truth?_eq_some.mp right
      obtain rfl := (Term.floatFree_bool b).eq_of_beq ht
      rw [connective?_bool_right, connective?_bool_right]
      refine .inr ⟨_, _, rfl, rfl, ?_⟩
      split
      · exact hs
      · exact ht
    | none =>
      rw [connective?_of_none unit left right,
        connective?_of_none unit (truth?_congr Oracle.isFactual_nothing hs ▸ left)
          (truth?_congr Oracle.isFactual_nothing ht ▸ right), ← areOpposite_congr hs ht]
      cases areOpposite s t with
      | true => exact .inr ⟨_, _, rfl, rfl, (Term.floatFree_bool _).beq_self⟩
      | false => exact .inl ⟨rfl, rfl⟩

lemma combine_not_of_none (h : truth? .nothing t = none) (p : Nat) :
    combine "!" [t] p = .compound "!" [t] p := by
  change ((truth? .nothing t).map _).getD _ = _
  rw [h]
  rfl

lemma combine_connective {unit : Bool}
    (connects : ∀ known s t, operation? known f [s, t] = connective? known unit s t) (s t : Term)
    (p : Nat) : combine f [s, t] p = (connective? .nothing unit s t).getD (.compound f [s, t] p) :=
  congrArg (Option.getD · _) (connects .nothing s t)

lemma combine_congr (h : (Term.compound f us p).isLogical = true)
    (same : List.Forall₂ (fun u v => (u == v) = true) us vs) :
    (combine f us p == combine f vs p) = true := by
  have stuck : (Term.compound f us p == .compound f vs p) = true :=
    Term.beq_iff_equal.mpr (.compound (Term.beqAll_iff.mpr same))
  obtain ⟨t, rfl, rfl⟩ | ⟨s, t, unit, rfl, connects⟩ := logical_cases h
  · match vs, same with
    | [t'], .cons ht .nil =>
      cases truth : truth? .nothing t with
      | some b =>
        obtain rfl := truth?_eq_some.mp truth
        obtain rfl := (Term.floatFree_bool b).eq_of_beq ht
        exact (Term.floatFree_bool _).beq_self
      | none =>
        rwa [combine_not_of_none truth,
          combine_not_of_none (truth?_congr Oracle.isFactual_nothing ht ▸ truth)]
  · match vs, same with
    | [s', t'], .cons hs (.cons ht .nil) =>
      rw [combine_connective connects, combine_connective connects]
      obtain ⟨left, right⟩ | ⟨u, u', left, right, huu⟩ := connective?_congr unit hs ht
      · rwa [left, right]
      · rwa [left, right]

end Evaluation

section Verdicts
open Evaluation
variable {known : Oracle} {s t u : Term}

lemma Term.IsReducedFormula.verdict_congr (facts : known.IsFactual) (hs : s.IsReducedFormula)
    (ht : t.IsReducedFormula) (h : (s == t) = true) :
    (s.verdict known == t.verdict known) = true := by
  induction hs generalizing t with
  | @part s hs =>
    have plain : t.isLogical = false := by
      rw [← Term.isLogical_eq_of_beq h]
      exact (Term.logicFree_iff.mp hs.1.1).1
    obtain ⟨⟨free, -⟩, value⟩ := ht.part plain
    rw [Term.verdict_of_part hs.1.1 hs.2, Term.verdict_of_part free value]
    exact settle_congr facts h
  | @logical f args p operator parts ih =>
    cases Term.beq_iff_equal.mp h with
    | plain => contradiction
    | @compound _ _ args' _ same =>
      have operator' : (Term.compound f args' p).isLogical = true := by
        rw [← operator]
        exact (Term.isLogical_compound_congr (Term.length_eq_of_beqAll same)).symm
      rw [Term.verdict_logical facts.plain operator, Term.verdict_logical facts.plain operator']
      refine combine_congr ?_ ?_
      · rwa [Term.isLogical_map]
      · rw [List.forall₂_map_left_iff, List.forall₂_map_right_iff]
        have verdicts := Term.forall₂_of_beqAll
          (motive := fun a b => b.IsReducedFormula → (a.verdict known == b.verdict known) = true)
          (fun a ha b hab hb => ih a ha hb hab) same
        have below := ht.parts operator'
        clear h same ht operator' ih parts operator
        induction verdicts with
        | nil => exact .nil
        | cons hab _ later =>
          obtain ⟨hb, hbs⟩ := List.forall_mem_cons.mp below
          exact .cons (hab hb) (later hbs)

lemma contradict_relation {f g : String} {left right : Term} (facts : known.IsFactual)
    (complement : Operator.complement? f = some g)
    (hs : (Term.relation f left right).IsReducedFormula) (ht : t.IsReducedFormula)
    (same : (Term.relation g left right == t) = true) :
    Contradict ((Term.relation f left right).verdict known) (t.verdict known) := by
  have negation {f g : String} (h : Operator.complement? f = some g) :
      (Term.relation f left right).negation? = some (.relation g left right) := by
    rw [Term.relation, Term.negation?_pair, if_pos (by decide), h]
    rfl
  have back := Operator.complement?_complement? complement
  have hs' := negation complement
  have hn' := negation back
  have hs := hs.part (Term.isLogical_of_complement? complement ..)
  have ht := ht.part (Term.isLogical_eq_of_beq same ▸ Term.isLogical_of_complement? back ..)
  rw [Term.verdict_of_part hs.1.1 hs.2, Term.verdict_of_part ht.1.1 ht.2]
  have truthn : truth? known (.relation g left right) =
      if known (.relation g left right) then some true
      else if known (.relation f left right) then some false else none := by
    rw [truth?_of_ne_bool (by simp [Term.relation]), hn']
    rfl
  have truths : truth? known (.relation f left right) =
      if known (.relation f left right) then some true
      else if known (.relation g left right) then some false else none := by
    rw [truth?_of_ne_bool (by simp [Term.relation]), hs']
    rfl
  rw [truth?_congr facts same] at truthn
  cases holds : known (.relation f left right) with
  | true =>
    rw [holds, facts.consistent holds hs'] at truthn
    rw [holds] at truths
    exact .inl ⟨true, settle_of_some truths, settle_of_some truthn⟩
  | false =>
    rw [holds] at truthn truths
    cases fails : known (.relation g left right) with
    | true =>
      rw [fails] at truthn truths
      exact .inl ⟨false, settle_of_some truths, settle_of_some truthn⟩
    | false =>
      rw [fails] at truthn truths
      rw [settle_of_none truths, settle_of_none truthn]
      exact .inr ⟨truth?_of_atMost known.nothing_atMost truths,
        truth?_of_atMost known.nothing_atMost truthn, areOpposite_iff.mpr ⟨_, hs', same⟩⟩

lemma contradict_verdict (facts : known.IsFactual) (hs : s.IsReducedFormula)
    (ht : t.IsReducedFormula) (h : areOpposite s t = true) :
    Contradict (s.verdict known) (t.verdict known) := by
  obtain ⟨n, hn, same⟩ := areOpposite_iff.mp h
  unfold Term.negation? at hn
  split at hn
  · next b =>
    cases hn
    obtain rfl := (Term.floatFree_bool _).eq_of_beq same
    exact .inl ⟨b, by simp, by simp⟩
  · next f arg p =>
    split at hn
    · next operator =>
      cases hn
      simp only [Bool.and_eq_true, bne_iff_ne, beq_iff_eq] at operator
      obtain ⟨hp, rfl⟩ := operator
      have top : (Term.compound "!" [n] p).isLogical = true := by simp [Term.isLogical, hp]
      have verdicts := (hs.parts top n (by simp)).verdict_congr facts ht same
      rw [Term.verdict_logical facts.plain top, List.map_singleton]
      cases truth : truth? .nothing (n.verdict known) with
      | some b =>
        rw [truth?_eq_some.mp truth] at verdicts ⊢
        exact .inl ⟨!b, rfl, by rw [Bool.not_not, (Term.floatFree_bool b).eq_of_beq verdicts]⟩
      | none =>
        rw [combine_not_of_none truth]
        refine .inr ⟨truth?_compound .., truth?_congr Oracle.isFactual_nothing verdicts ▸ truth, ?_⟩
        exact areOpposite_iff.mpr ⟨_, by simp [Term.negation?_singleton, hp], verdicts⟩
    · cases hn
  · next f left right p =>
    split at hn
    · next operator =>
      obtain ⟨g, complement, rfl⟩ := Option.map_eq_some_iff.mp hn
      have usual : p = Operator.relationPriority := by
        have hp : p ≠ 0 := by simpa using operator
        have := (hs.part (Term.isLogical_of_complement? complement ..)).1.2
        simpa [Term.hasUsualPriority, complement, hp] using this
      subst usual
      exact contradict_relation facts complement hs ht same
    · cases hn
  · cases hn

lemma operation?_verdict {f : String} {args : List Term} {p : Nat} (facts : known.IsFactual)
    (operator : (Term.compound f args p).isLogical = true) (formulas : ∀ t ∈ args, t.IsReducedFormula)
    (h : operation? .nothing f args = some u) :
    operation? .nothing f (args.map (Term.verdict known)) = some (u.verdict known) := by
  obtain ⟨t, rfl, rfl⟩ | ⟨s, t, unit, rfl, connects⟩ := logical_cases operator
  · obtain ⟨b, truth, rfl⟩ := Option.map_eq_some_iff.mp h
    obtain rfl := truth?_eq_some.mp truth
    rw [List.map_singleton, Term.verdict_bool, Term.verdict_bool]
    rfl
  · rw [connects] at h
    rw [List.map_cons, List.map_singleton, connects]
    cases left : truth? .nothing s with
    | some b =>
      obtain rfl := truth?_eq_some.mp left
      rw [connective?_bool_left] at h
      cases h
      rw [Term.verdict_bool, connective?_bool_left]
      split <;> simp
    | none =>
      cases right : truth? .nothing t with
      | some b =>
        obtain rfl := truth?_eq_some.mp right
        rw [connective?_bool_right] at h
        cases h
        rw [Term.verdict_bool, connective?_bool_right]
        split <;> simp
      | none =>
        rw [connective?_of_none unit left right] at h
        split at h
        · next opposite =>
          cases h
          have contradict :=
            contradict_verdict facts (formulas s (by simp)) (formulas t (by simp)) opposite
          rw [contradict.connective?, Term.verdict_bool]
        · cases h

lemma truth?_mono {less more : Oracle} (facts : more.IsFactual) (h : less.AtMost more) {b : Bool}
    (truth : truth? less t = some b) : truth? more t = some b := by
  by_cases value : ∃ b, t = .bool b
  · obtain ⟨c, rfl⟩ := value
    exact truth
  · rw [not_exists] at value
    rw [truth?_of_ne_bool value] at truth ⊢
    split at truth
    · next fact =>
      cases truth
      rw [if_pos (h t fact)]
    · split at truth
      · next refuted =>
        cases truth
        obtain ⟨n, hn, fact⟩ : ∃ n, t.negation? = some n ∧ less n = true := by
          cases negation : t.negation? <;> simp_all
        have unknown : more t = false := by
          by_contra holds
          have := facts.consistent (by simpa using holds) hn
          rw [h n fact] at this
          cases this
        simp [unknown, hn, h n fact]
      · cases truth

/-- The verdict on a formula is the verdict on what an oracle that knows less has made of it. -/
theorem verdict_verdict {less more : Oracle} (facts : more.IsFactual) (h : less.AtMost more)
    (formula : t.IsFormula) : (t.verdict less).verdict more = t.verdict more := by
  have plain : ∀ u, less u = true → u.isLogical = false := fun u fact => facts.plain u (h u fact)
  induction formula with
  | @part t ht =>
    have value : t.reduce more = t.reduce less := ht.1.reduce_eq more less
    cases truth : truth? less (t.reduce less) with
    | some b =>
      have before : t.verdict less = .bool b := settle_of_some truth
      rw [before, Term.verdict_bool, Term.verdict, value, settle_of_some (truth?_mono facts h truth)]
    | none =>
      have before : t.verdict less = t.reduce less := settle_of_none truth
      rw [before, Term.verdict_of_part ht.1.reduce (Term.isEvaluated_reduce less t), Term.verdict,
        value]
  | @logical f args p operator parts ih =>
    have top : (Term.compound f (args.map (Term.verdict less)) p).isLogical = true := by
      rwa [Term.isLogical_map]
    have verdicts : (args.map (Term.verdict less)).map (Term.verdict more) =
        args.map (Term.verdict more) := by
      rw [List.map_map]
      exact List.map_congr_left ih
    rw [Term.verdict_logical plain operator, Term.verdict_logical facts.plain operator, ← verdicts]
    cases hop : operation? .nothing f (args.map (Term.verdict less)) with
    | none =>
      rw [combine, hop, Option.getD_none, Term.verdict_logical facts.plain top]
    | some u =>
      have formulas : ∀ v ∈ args.map (Term.verdict less), v.IsReducedFormula :=
        List.forall_mem_map.mpr fun t ht => Term.IsFormula.verdict (parts t ht) plain
      rw [combine, hop, combine, operation?_verdict facts top formulas hop]
      rfl

lemma reduce_mono {less more : Oracle} (facts : more.IsFactual) (h : less.AtMost more)
    (formula : t.IsFormula) (truth : t.reduce less = .bool true) : t.reduce more = .bool true := by
  have verdict : t.verdict more = .bool true := by
    have before : t.verdict less = .bool true := by rw [Term.verdict, truth, settle_bool]
    rw [← verdict_verdict facts h formula, before, Term.verdict_bool]
  cases formula with
  | part ht => rwa [ht.1.reduce_eq more less]
  | logical operator =>
    rwa [Term.reduce_logical operator, ← Term.verdict_logical facts.plain operator]

end Verdicts

lemma isTrue_iff {known : Oracle} {t : Term} {env : Environment} :
    isTrue known t env = true ↔ evaluate known t env = .bool true := by
  unfold isTrue
  split <;> simp_all

def IsConsistent (facts : Set Term) : Prop :=
  ∀ f ∈ facts, ∀ n ∈ f.negation?, ∀ g ∈ facts, (g == n) = false

open Classical in
/-- The oracle that knows a set of facts: what equals one of them holds. -/
noncomputable def Oracle.ofFacts (facts : Set Term) : Oracle :=
  fun t => decide (∃ f ∈ facts, (f == t) = true)

lemma Oracle.ofFacts_iff {facts : Set Term} {t : Term} :
    Oracle.ofFacts facts t = true ↔ ∃ f ∈ facts, (f == t) = true := by
  simp [ofFacts]

lemma Oracle.ofFacts_list (facts : List Term) :
    Oracle.ofFacts {f | f ∈ facts} = fun t => facts.any (· == t) := by
  funext t
  rw [Bool.eq_iff_iff, ofFacts_iff, List.any_eq_true]
  rfl

lemma Oracle.isFactual_ofFacts {facts : Set Term} (plain : ∀ f ∈ facts, f.isLogical = false)
    (consistent : IsConsistent facts) : (Oracle.ofFacts facts).IsFactual where
  congr {s t} h := by
    rw [Bool.eq_iff_iff, ofFacts_iff, ofFacts_iff]
    constructor
    · rintro ⟨f, hf, same⟩
      exact ⟨f, hf, Term.beq_trans same h⟩
    · rintro ⟨f, hf, same⟩
      exact ⟨f, hf, Term.beq_trans same (Term.beq_symm h)⟩
  plain t h := by
    obtain ⟨f, hf, same⟩ := ofFacts_iff.mp h
    rw [← Term.isLogical_eq_of_beq same]
    exact plain f hf
  consistent {t n} h hn := by
    obtain ⟨f, hf, same⟩ := ofFacts_iff.mp h
    obtain ⟨n', hn', opposite⟩ := Term.negation?_of_beq (Term.beq_symm same) hn
    by_contra known
    obtain ⟨g, hg, same'⟩ := ofFacts_iff.mp (by simpa using known)
    have apart := consistent f hf n' hn' g hg
    rw [Term.beq_trans same' opposite] at apart
    cases apart

/-- Learning more facts never makes a true formula untrue, provided that the facts are no logical
operations and do not contradict each other. -/
theorem isTrue_mono {facts more : Set Term} (grows : facts ⊆ more)
    (plain : ∀ f ∈ more, f.isLogical = false) (consistent : IsConsistent more) {t : Term}
    {env : Environment} (formula : (env.substitute t).IsFormula)
    (truth : isTrue (.ofFacts facts) t env = true) : isTrue (.ofFacts more) t env = true := by
  have atMost : (Oracle.ofFacts facts).AtMost (.ofFacts more) := by
    intro t h
    obtain ⟨f, hf, same⟩ := Oracle.ofFacts_iff.mp h
    exact Oracle.ofFacts_iff.mpr ⟨f, grows hf, same⟩
  rw [isTrue_iff] at truth ⊢
  exact reduce_mono (Oracle.isFactual_ofFacts plain consistent) atMost formula truth

def lessThan (a b : String) : Term :=
  .relation "<" (.atom a) (.atom b)

/-- A guard with a variable in it, which one fact makes true, stays true when another fact is
learned. -/
theorem isTrue_mono_guard :
    let facts : Set Term := {f | f ∈ [lessThan "p" "q"]}
    let more : Set Term := {f | f ∈ [lessThan "p" "q", lessThan "r" "s"]}
    let x := Term.var ⟨"X", 0⟩
    let env := Environment.empty.bind ⟨"X", 0⟩ (.atom "p")
    let t := Term.compound "&&" [.compound "!" [.relation ">=" x (.atom "q")] 900,
      .compound "||" [.relation "<" x (.atom "q"), lessThan "r" "s"] 1100] 1000
    facts ⊆ more ∧ (∀ f ∈ more, f.isLogical = false) ∧ IsConsistent more ∧
      (env.substitute t).IsFormula ∧ isTrue (.ofFacts facts) t env = true ∧
      isTrue (.ofFacts more) t env = true := by
  intro facts more x env t
  have grows : facts ⊆ more := fun f hf => List.mem_cons.mpr (.inl (List.mem_singleton.mp hf))
  have plain : ∀ f ∈ [lessThan "p" "q", lessThan "r" "s"], f.isLogical = false := by decide
  have consistent : ∀ f ∈ [lessThan "p" "q", lessThan "r" "s"], ∀ n ∈ f.negation?,
    ∀ g ∈ [lessThan "p" "q", lessThan "r" "s"], (g == n) = false := by decide
  have relation (name a b : String) (free : (Term.relation name (.atom a) (.atom b)).LogicFree) :
      (Term.relation name (.atom a) (.atom b)).IsFormula :=
    .part ⟨free, by simp [Term.relation, Term.hasUsualPriority]⟩
  have formula : (env.substitute t).IsFormula := by
    change (Term.compound "&&" [.compound "!" [.relation ">=" (.atom "p") (.atom "q")] 900,
      .compound "||" [lessThan "p" "q", lessThan "r" "s"] 1100] 1000).IsFormula
    refine .logical rfl (List.forall_mem_cons.mpr ⟨.logical rfl ?_, List.forall_mem_singleton.mpr
      (.logical rfl (List.forall_mem_cons.mpr ⟨?_, List.forall_mem_singleton.mpr ?_⟩))⟩)
    · exact List.forall_mem_singleton.mpr (relation _ _ _ (by decide))
    · exact relation _ _ _ (by decide)
    · exact relation _ _ _ (by decide)
  have truth : isTrue (.ofFacts facts) t env = true := by
    rw [Oracle.ofFacts_list]
    rfl
  exact ⟨grows, plain, consistent, formula, truth,
    isTrue_mono grows plain consistent formula truth⟩

/-- The second facts extend the first ones by operator terms and without a contradiction, and the
term is true for the first ones only. -/
def Unproves (facts more : List Term) (t : Term) : Prop :=
  facts ⊆ more ∧ (∀ f ∈ more, f.isOperator = true) ∧ IsConsistent {f | f ∈ more} ∧
    isTrue (.ofFacts {f | f ∈ facts}) t .empty = true ∧
    isTrue (.ofFacts {f | f ∈ more}) t .empty = false

lemma Unproves.of_lists {facts more : List Term} {t : Term} (grows : facts ⊆ more)
    (operators : ∀ f ∈ more, f.isOperator = true)
    (consistent : ∀ f ∈ more, ∀ n ∈ f.negation?, ∀ g ∈ more, (g == n) = false)
    (before : isTrue (fun u => facts.any (· == u)) t .empty = true)
    (after : isTrue (fun u => more.any (· == u)) t .empty = false) : Unproves facts more t :=
  ⟨grows, operators, consistent, by rwa [Oracle.ofFacts_list], by rwa [Oracle.ofFacts_list]⟩

/-- A new fact unproves an equality between conditions, a condition that has been taken for a fact
itself, the negation of a contradiction one side of which becomes known, and a disjunction of a
relation of an unusual priority with its complement. -/
theorem unproved_by_learning :
    let and (s t : Term) := Term.compound "&&" [s, t] 1000
    let not (t : Term) := Term.compound "!" [t] 900
    Unproves [lessThan "p" "q"] [lessThan "p" "q", lessThan "r" "s"]
        (.equation (and (lessThan "p" "q") (lessThan "r" "s")) (lessThan "r" "s")) ∧
      Unproves [and (lessThan "p" "q") (lessThan "r" "s")]
        [and (lessThan "p" "q") (lessThan "r" "s"), lessThan "p" "q"]
        (and (and (lessThan "p" "q") (lessThan "r" "s")) (.bool true)) ∧
      Unproves [] [not (lessThan "p" "q")] (not (and (not (lessThan "p" "q")) (lessThan "p" "q"))) ∧
      Unproves [] [lessThan "p" "q"]
        (.compound "||" [.compound "<" [.atom "p", .atom "q"] 500,
          .relation ">=" (.atom "p") (.atom "q")] 1100) := by
  intro and not
  exact ⟨.of_lists (by simp) (by decide) (by decide) rfl rfl,
    .of_lists (by simp) (by decide) (by decide) rfl rfl,
    .of_lists (by simp) (by decide) (by decide) rfl rfl,
    .of_lists (by simp) (by decide) (by decide) rfl rfl⟩

end ConstraintHandling
