import ConstraintHandling.Proofs.Evaluated
import ConstraintHandling.Proofs.Session.Goals
import ConstraintHandling.Proofs.Session.Invariant

/-! Where stored constraints come from. A constraint enters the store as a goal, as a literal of a body,
as the new term of a constraint that an equation has changed, or as an equation. Goals and literals are
evaluated before they are asserted; new terms are not evaluated again. -/
namespace ConstraintHandling

/-- How a constraint has entered the store. A rewritten one stands for an older one of the given
number, under the replacements of a body. -/
inductive Origin where
  | goal
  | literal
  | rewritten (old : ConstraintId) (e : Effects)
  | equation

/-- The origins of the constraints that effects bring into a store, once their literals have been
asserted. -/
def Effects.origins (e : Effects) (staged : Store) : List Origin :=
  ((staged.successions e).filter fun c => c.2.isAssertable).map (fun c => .rewritten c.1 e) ++
    e.equations.map fun _ => .equation

/-- The course of a session, with the origins of all constraints in the order of their numbers. -/
inductive Provenance (base : RuleBase) : Session → List Origin → Prop
  | start : Provenance base (.start base) []
  | goals {s : Session} {os : List Origin} (ts : List Term) (h : Provenance base s os) :
    Provenance base (s.addGoals ts).2
      (os ++ List.replicate ((s.addGoals ts).2.store.size - s.store.size) .goal)
  | limit {s : Session} {os : List Origin} (passes : Nat) (h : Provenance base s os) :
    Provenance base { s with maxPasses := passes } os
  | search {s : Session} {os : List Origin} {r : Rule} {id : RuleId} (h : Provenance base s os)
    (registered : base.get? id = some r) (none : (r.nextMatch id s.store s.memo).1 = none) :
    Provenance base (s.tryRule r id).session os
  | abort {s : Session} {os : List Origin} {r : Rule} {id : RuleId} {m : Match} {events : List Event}
    (h : Provenance base s os) (registered : base.get? id = some r)
    (found : (r.nextMatch id s.store s.memo).1 = some m)
    (fails : r.performs m (s.lastScope + 1) s.store = (Option.none, events)) :
    Provenance base (s.tryRule r id).session os
  | fire {s : Session} {os : List Origin} {r : Rule} {id : RuleId} {m : Match} {events : List Event}
    {e : Effects} (h : Provenance base s os) (registered : base.get? id = some r)
    (found : (r.nextMatch id s.store s.memo).1 = some m)
    (performed : r.performs m (s.lastScope + 1) s.store = (some e, events)) :
    Provenance base (s.tryRule r id).session
      (os ++ e.asserted.map (fun _ => .literal) ++
        e.origins ((r.consumed m s.store).addAll e.asserted).1)

/-- What an origin says of the constraint of a number: goals and literals are their own values, and a
rewritten constraint is what the replacements make of an older one, which is gone. -/
def Origin.Accounts (s : Store) (id : ConstraintId) (t : Term) : Origin → Prop
  | goal | literal => t.IsEvaluated
  | rewritten old e => old < id ∧ s.isLive old = false ∧ ∃ u, s.get? old = some u ∧ e.apply u = t
  | equation => Partition.of t = .builtin

/-- The origins account for all constraints of a store. -/
structure Accounted (s : Store) (os : List Origin) : Prop where
  indexed : s.Indexed
  length : os.length = s.size
  accounts : ∀ {id t o}, s.get? id = some t → os[id]? = some o → o.Accounts s id t

section Growth
variable {s s' : Store} {os ns : List Origin} {o : Origin} {id : ConstraintId} {t : Term}
  {ts : List Term}

lemma Origin.Accounts.later (h : o.Accounts s id t) (grows : s.Extends s') (known : id < s.size) :
    o.Accounts s' id t := by
  cases o with
  | goal | literal | equation => exact h
  | rewritten old e =>
    obtain ⟨older, gone, u, hu, rfl⟩ := h
    have old_lt := older.trans known
    refine ⟨older, ?_, u, (grows.get old old_lt).trans hu, rfl⟩
    by_contra alive
    rw [grows.live old old_lt (by simpa using alive)] at gone
    cases gone

lemma Accounted.consumeAll (h : Accounted s os) (ids : List ConstraintId) :
    Accounted (s.consumeAll ids) os where
  indexed := (s.reaches_consumeAll ids).indexed h.indexed
  length := by rw [h.length, Store.size_consumeAll]
  accounts ht ho := by
    rw [Store.get?_consumeAll] at ht
    exact (h.accounts ht ho).later ((s.reaches_consumeAll ids).extends h.indexed)
      (Store.lt_size_of_get? ht)

lemma Accounted.addAll (h : Accounted s os)
    (length : ns.length = (ts.filter Term.isAssertable).length)
    (new : ∀ {k : Nat} {t : Term} {o : Origin}, (ts.filter Term.isAssertable)[k]? = some t →
      ns[k]? = some o → o.Accounts (s.addAll ts).1 (s.size + k) t) :
    Accounted (s.addAll ts).1 (os ++ ns) where
  indexed := (s.reaches_addAll ts).indexed h.indexed
  length := by rw [List.length_append, length, h.length, Store.size_addAll]
  accounts {id t o} ht ho := by
    by_cases old : id < s.size
    · rw [Store.get?_addAll_of_lt old] at ht
      rw [List.getElem?_append_left (h.length ▸ old)] at ho
      exact (h.accounts ht ho).later ((s.reaches_addAll ts).extends h.indexed) old
    · obtain ⟨k, rfl⟩ := Nat.exists_eq_add_of_le (Nat.le_of_not_lt old)
      rw [Store.get?_addAll_add] at ht
      rw [← h.length, List.getElem?_append_right (Nat.le_add_right ..), Nat.add_sub_cancel_left] at ho
      exact new ht ho

lemma Accounted.addGoals {s : Session} (h : Accounted s.store os) (ts : List Term) :
    Accounted (s.addGoals ts).2.store
      (os ++ List.replicate ((s.addGoals ts).2.store.size - s.store.size) .goal) := by
  obtain ⟨us, evaluated, grown⟩ : ∃ us : List Term, (∀ u ∈ us, u.IsEvaluated) ∧
      (s.addGoals ts).2.store = (s.store.addAll us).1 := by
    refine ⟨_, fun u hu => ?_, congrArg Prod.snd (Session.assertGoals_eq ..)⟩
    have value := List.mem_of_mem_filter (List.takeWhile_subset _ hu)
    obtain ⟨g, -, rfl⟩ := List.mem_map.mp value
    exact isEvaluated_evaluate ..
  rw [grown]
  refine h.addAll ?_ fun {k t o} ht ho => ?_
  · rw [List.length_replicate, Store.size_addAll, Nat.add_sub_cancel_left]
  · obtain rfl := List.eq_of_mem_replicate (List.mem_of_getElem? ho)
    exact evaluated t (List.mem_of_mem_filter (List.mem_of_getElem? ht))

lemma Accounted.commit {e : Effects} {known : Oracle} (h : Accounted s os)
    (staged : ∀ t ∈ e.asserted, Progress.IsStaged known t) :
    Accounted (s.commit e).1
      (os ++ e.asserted.map (fun _ => .literal) ++ e.origins (s.addAll e.asserted).1) := by
  have literals : Accounted (s.addAll e.asserted).1 (os ++ e.asserted.map fun _ => .literal) := by
    refine h.addAll ?_ fun {k t o} ht ho => ?_
    · rw [List.length_map, List.filter_eq_self.mpr fun t ht => (staged t ht).1]
    · obtain ⟨_, -, rfl⟩ := List.mem_map.mp (List.mem_of_getElem? ho)
      obtain ⟨-, literal, rfl⟩ := staged t (List.mem_of_mem_filter (List.mem_of_getElem? ht))
      exact isEvaluated_evaluate ..
  rw [h.indexed.commit_eq]
  dsimp only
  generalize (s.addAll e.asserted).1 = staged at literals ⊢
  have inStep := literals.indexed.toInStep
  have consumed := literals.consumeAll ((staged.successions e).map Prod.fst)
  rw [Store.addAll_append, Effects.origins, ← List.append_assoc]
  refine Accounted.addAll (consumed.addAll ?_ fun {k t o} ht ho => ?_) ?_ fun {k t o} ht ho => ?_
  · rw [List.filter_map, List.length_map, List.length_map]
    rfl
  · rw [List.filter_map, List.getElem?_map, Option.map_eq_some_iff] at ht
    rw [List.getElem?_map, Option.map_eq_some_iff] at ho
    obtain ⟨⟨old, t⟩, hold, rfl⟩ := ht
    obtain ⟨change, same, rfl⟩ := ho
    obtain rfl := Option.some.inj (hold.symm.trans same)
    have changes := List.mem_of_mem_filter (List.mem_of_getElem? hold)
    obtain ⟨-, live, u, hu, rewritten, -⟩ := inStep.mem_successions.mp changes
    have known := inStep.lt_size_of_isLive live
    rw [← Store.size_consumeAll staged ((staged.successions e).map Prod.fst)] at known
    refine ⟨known.trans_le (Nat.le_add_right ..), ?_, u, ?_, rewritten⟩
    · rw [consumed.indexed.isLive_addAll_of_lt known, Store.isLive_consumeAll,
        List.contains_iff_mem.mpr (List.mem_map_of_mem changes)]
      exact Bool.and_false _
    · rw [Store.get?_addAll_of_lt known, Store.get?_consumeAll, hu]
  · rw [List.length_map, List.filter_eq_self.mpr e.assertable_equations]
  · obtain ⟨_, -, rfl⟩ := List.mem_map.mp (List.mem_of_getElem? ho)
    obtain ⟨r, -, rfl⟩ := List.mem_map.mp (List.mem_of_mem_filter (List.mem_of_getElem? ht))
    rfl

end Growth
section Course
variable {base : RuleBase} {s : Session} {os : List Origin}

/-- In the course of a session the origins account for all constraints. -/
theorem Provenance.accounted (h : Provenance base s os) : Accounted s.store os := by
  induction h with
  | start =>
    exact ⟨Store.indexed_empty, rfl, fun _ ho => nomatch ho⟩
  | goals ts _ ih => exact ih.addGoals ts
  | limit passes _ ih => exact ih
  | search _ _ none ih =>
    rw [(tryRule_of_none none).2]
    exact ih
  | abort _ _ found fails ih =>
    rw [(tryRule_of_some found).2]
    dsimp only
    rw [Rule.fire_of_fails fails]
    exact ih.consumeAll _
  | fire _ _ found performed ih =>
    rw [(tryRule_of_some found).2]
    dsimp only
    rw [Rule.fire_of_performs performed]
    exact (ih.consumeAll _).commit (Rule.staged_performs performed)

lemma isInvariant_provenance (base : RuleBase) :
    Session.IsInvariant base (fun _ => True) fun s => ∃ os, Provenance base s os where
  start := ⟨[], .start⟩
  goals := fun ⟨_, h⟩ _ => ⟨_, h.goals _⟩
  limit := fun ⟨os, h⟩ passes => ⟨os, h.limit passes⟩
  tryRule {s r id} := fun ⟨os, h⟩ registered => by
    cases found : (r.nextMatch id s.store s.memo).1 with
    | none => exact ⟨os, h.search registered found⟩
    | some m =>
      cases performed : r.performs m (s.lastScope + 1) s.store with
      | mk result events =>
        cases result with
        | none => exact ⟨os, h.abort registered found performed⟩
        | some e => exact ⟨_, h.fire registered found performed⟩

lemma Provenance.keeps {P : Session → Prop} (inv : Session.IsInvariant base (fun _ => True) P)
    (h : Provenance base s os) : P s := by
  induction h with
  | start => exact inv.start
  | goals ts _ ih => exact inv.goals ih trivial
  | limit passes _ ih => exact inv.limit ih passes
  | search _ registered _ ih | abort _ registered _ _ ih | fire _ registered _ _ ih =>
    exact inv.tryRule ih registered

end Course

/-- Stored constraints are evaluated, unless equality propagation has rewritten them. Whatever a user
does with a session, and at every point on the way, every live ordinary constraint that was added as a
goal or as a literal of a body is its own value; every other one stands for an older constraint, which
is gone, and is what the replacements of a body make of that one. -/
theorem stored_evaluated (base : RuleBase) :
    (∀ commands : List Command,
      ∃ os, Provenance base ((Journal.begin base).obeyAll commands).session os) ∧
    ∀ s os, Provenance base s os → os.length = s.store.size ∧
      ∀ id t, (id, t) ∈ s.store.live .ordinary →
        ((os[id]? = some .goal ∨ os[id]? = some .literal) ∧ t.IsEvaluated) ∨
        ∃ old e u, os[id]? = some (.rewritten old e) ∧ old < id ∧ s.store.isLive old = false ∧
          s.store.get? old = some u ∧ e.apply u = t := by
  refine ⟨fun commands => (isInvariant_provenance base).obeyAll fun _ _ => trivial,
    fun s os provenance => ?_⟩
  have accounted := provenance.accounted
  refine ⟨accounted.length, fun id t ht => ?_⟩
  obtain ⟨stored, -, ordinary⟩ := accounted.indexed.mem_live.mp ht
  obtain ⟨o, ho⟩ : ∃ o, os[id]? = some o :=
    ⟨_, List.getElem?_eq_getElem (accounted.length ▸ Store.lt_size_of_get? stored)⟩
  have accounts := accounted.accounts stored ho
  cases o with
  | goal => exact .inl ⟨.inl ho, accounts⟩
  | literal => exact .inl ⟨.inr ho, accounts⟩
  | rewritten old e =>
    obtain ⟨older, gone, u, hu, rewritten⟩ := accounts
    exact .inr ⟨old, e, u, ho, older, gone, hu, rewritten⟩
  | equation =>
    have builtin : Partition.of t = .builtin := accounts
    rw [ordinary] at builtin
    cases builtin

def binding : Rule where
  name := "bind"
  keepHeads := []
  deleteHeads := [.ordinary "q" [.var ⟨"X", 0⟩]]
  guards := []
  body := [.equation (.var ⟨"X", 0⟩) (.int 3)]

def bound : Session :=
  ((Journal.begin (RuleBase.ofRules [binding]).1).obeyAll
    [.goals [.ordinary "p" [.compound "+" [.var ⟨"X", 0⟩, .int 1] 500], .ordinary "p" [.int 4],
      .ordinary "q" [.var ⟨"X", 0⟩]], .solve]).session

/-- The constraint with an expression in it is the first goal, rewritten. -/
theorem stored_evaluated_bound : ∃ os old e u,
    Provenance (RuleBase.ofRules [binding]).1 bound os ∧ os[3]? = some (.rewritten old e) ∧ old < 3 ∧
      bound.store.get? old = some u ∧
      e.apply u = .ordinary "p" [.compound "+" [.int 3, .int 1] 500] := by
  obtain ⟨provenances, all⟩ := stored_evaluated (RuleBase.ofRules [binding]).1
  obtain ⟨os, provenance⟩ := provenances
    [.goals [.ordinary "p" [.compound "+" [.var ⟨"X", 0⟩, .int 1] 500], .ordinary "p" [.int 4],
      .ordinary "q" [.var ⟨"X", 0⟩]], .solve]
  have live : (3, .ordinary "p" [.compound "+" [.int 3, .int 1] 500]) ∈ bound.store.live .ordinary :=
    List.mem_of_getElem? (i := 1) rfl
  obtain ⟨-, evaluated⟩ | ⟨old, e, u, origin, older, -, known, rewritten⟩ :=
    (all bound os provenance).2 3 _ live
  · cases evaluated
  · exact ⟨os, old, e, u, provenance, origin, older, known, rewritten⟩

/-- A constraint that holds an expression of a variable keeps the expression when the variable gets its
value, beside the constraint that holds the value of the expression. -/
theorem unevaluated_of_equation :
    bound.store.liveTerms .ordinary =
        [.ordinary "p" [.int 4], .ordinary "p" [.compound "+" [.int 3, .int 1] 500]] ∧
      evaluate .nothing (.ordinary "p" [.compound "+" [.int 3, .int 1] 500]) .empty =
        .ordinary "p" [.int 4] ∧
      ¬ ∀ t ∈ bound.store.liveTerms .ordinary, t.IsEvaluated := by
  have live : bound.store.liveTerms .ordinary =
      [.ordinary "p" [.int 4], .ordinary "p" [.compound "+" [.int 3, .int 1] 500]] := by rfl
  have value : evaluate .nothing (.ordinary "p" [.compound "+" [.int 3, .int 1] 500]) .empty =
      .ordinary "p" [.int 4] := by rfl
  refine ⟨live, value, fun all => ?_⟩
  have same := all (.ordinary "p" [.compound "+" [.int 3, .int 1] 500]) (by rw [live]; simp)
  rw [Term.IsEvaluated, value] at same
  cases same

end ConstraintHandling
