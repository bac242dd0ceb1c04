import ConstraintHandling.Proofs.Propagation

/-! Adding goals. The goals of a conjunction are evaluated together, but asserted one by one up to the
first that is refused; what is asserted by then is not taken back. -/
namespace ConstraintHandling

namespace Store
variable {s : Store} {ts : List Term}

lemma InStep.liveTerms_addAll (inStep : s.InStep) (ts : List Term) (partition : Partition) :
    (s.addAll ts).1.liveTerms partition = s.liveTerms partition ++
      ts.filter fun t => t.isAssertable && Partition.of t == partition := by
  induction ts generalizing s with
  | nil => exact (List.append_nil _).symm
  | cons t ts ih =>
    rw [addAll_cons, ih ((s.reaches_addOrReport t).inStep inStep)]
    obtain ⟨taken, f, -, h⟩ | ⟨refused, h⟩ := s.addOrReport_cases t
    · rw [h, liveTerms, inStep.live_insert, liveTerms, List.map_append, List.append_assoc,
        List.filter_cons, taken]
      by_cases here : Partition.of t = partition <;> simp [here]
    · rw [h, List.filter_cons, refused]
      rfl

lemma addAll_eq_self_iff (assertable : ∀ t ∈ ts, t.isAssertable = true) :
    (s.addAll ts).1 = s ↔ ts = [] := by
  constructor
  · intro same
    have size := s.size_addAll ts
    rw [same, List.filter_eq_self.mpr assertable] at size
    exact List.eq_nil_of_length_eq_zero (by omega)
  · rintro rfl
    rfl

end Store

namespace Session
variable {s : Session} {goals : List Term} {refusal : GoalRefusal}

/-- The goals as they are asserted: evaluated in a scope of their own, without those that are true. -/
def goalValues (s : Session) (goals : List Term) : List Term :=
  (goals.map fun g => evaluate .nothing (g.rename (s.lastScope + 1)) .empty).filter
    fun t => !(t == .bool true)

lemma assertGoals_eq (store : Store) (ts : List Term) :
    assertGoals store ts =
      (match ts.find? fun t => !t.isAssertable with
        | some t => .error ⟨t, ⟨t⟩⟩
        | none => .ok (),
      (store.addAll (ts.takeWhile Term.isAssertable)).1) := by
  induction ts generalizing store with
  | nil => rfl
  | cons t ts ih =>
    unfold assertGoals Store.add
    cases h : t.functor? with
    | none =>
      have refused : t.isAssertable = false := by rw [Term.isAssertable, h]; rfl
      rw [List.takeWhile_cons, List.find?_cons, refused]
      rfl
    | some f =>
      have taken : t.isAssertable = true := by rw [Term.isAssertable, h]; rfl
      rw [List.takeWhile_cons, List.find?_cons, taken, if_pos rfl, Store.addAll_cons,
        Store.addOrReport, Store.add, h]
      exact ih _

lemma addGoals_eq (s : Session) (goals : List Term) :
    s.addGoals goals = ((assertGoals s.store (s.goalValues goals)).1,
      { s with
        store := (assertGoals s.store (s.goalValues goals)).2
        lastScope := s.lastScope + 1 }) := rfl

/-- What a refused goal leaves behind: the goals in front of it are asserted and stay, and nothing else
of the session changes but its scope. -/
structure PartlyAdded (s : Session) (goals : List Term) (refusal : GoalRefusal)
    (before after : List Term) : Prop where
  values : s.goalValues goals = before ++ refusal.goal :: after
  taken : ∀ t ∈ before, t.isAssertable = true
  refused : refusal.goal.isAssertable = false
  cause : refusal.cause = ⟨refusal.goal⟩
  session : (s.addGoals goals).2 =
    { s with store := (s.store.addAll before).1, lastScope := s.lastScope + 1 }
  terms : (s.addGoals goals).2.store.terms.toList = s.store.terms.toList ++ before
  flags : (s.addGoals goals).2.store.consumed.toList =
    s.store.consumed.toList ++ before.map fun _ => false
  live (partition : Partition) : (s.addGoals goals).2.store.liveTerms partition =
    s.store.liveTerms partition ++ before.filter fun t => Partition.of t == partition
  unchanged : (s.addGoals goals).2.store = s.store ↔ before = []

/-- Adding goals is not all or nothing: when one is refused, those in front of it are asserted already
and stay. The store is as it was only if there are none. -/
theorem addGoals_refused (inStep : s.store.InStep)
    (h : (s.addGoals goals).1 = .error refusal) :
    ∃ before after, PartlyAdded s goals refusal before after := by
  rw [addGoals_eq, assertGoals_eq] at h
  dsimp only at h
  split at h
  · next goal found =>
    cases h
    obtain ⟨refused, before, after, values, taken⟩ := List.find?_eq_some_iff_append.mp found
    have taken : ∀ t ∈ before, t.isAssertable = true := by simpa using taken
    have refused : goal.isAssertable = false := by simpa using refused
    have front : (s.goalValues goals).takeWhile Term.isAssertable = before := by
      rw [values, List.takeWhile_append_of_pos taken, List.takeWhile_cons_of_neg (by simp [refused]),
        List.append_nil]
    have session : (s.addGoals goals).2 =
        { s with store := (s.store.addAll before).1, lastScope := s.lastScope + 1 } := by
      rw [addGoals_eq, assertGoals_eq, front]
    refine ⟨before, after, values, taken, refused, rfl, session, ?_, ?_, fun partition => ?_, ?_⟩
    · rw [session, Store.terms_addAll, List.filter_eq_self.mpr taken]
    · rw [session, Store.consumed_addAll, List.filter_eq_self.mpr taken]
    · rw [session, inStep.liveTerms_addAll]
      congr 1
      exact List.filter_congr fun t ht => by rw [taken t ht, Bool.true_and]
    · rw [session]
      exact Store.addAll_eq_self_iff taken
  · cases h

/-- A goal that is false behind one that holds a variable and one that is true. -/
theorem addGoals_refused_false :
    let goals : List Term := [.ordinary "p" [.var ⟨"X", 0⟩], .relation "<" (.int 1) (.int 2),
      .relation "<" (.int 2) (.int 1), .atom "q"]
    ((start .empty).addGoals goals).1 = .error ⟨.bool false, ⟨.bool false⟩⟩ ∧
      ∃ before after, PartlyAdded (start .empty) goals ⟨.bool false, ⟨.bool false⟩⟩ before after := by
  intro goals
  have refused : ((start .empty).addGoals goals).1 = .error ⟨.bool false, ⟨.bool false⟩⟩ := by rfl
  exact ⟨refused, addGoals_refused Store.inStep_empty refused⟩

/-- A constraint in front of a number is asserted, although the conjunction is refused. -/
theorem partly_added_of_number :
    let s := start .empty
    let goals : List Term := [.atom "p", .int 3]
    (s.addGoals goals).1 = .error ⟨.int 3, ⟨.int 3⟩⟩ ∧
      s.store.liveTerms .ordinary = [] ∧
      (s.addGoals goals).2.store.liveTerms .ordinary = [.atom "p"] ∧
      (s.addGoals goals).2.store.size = 1 :=
  ⟨rfl, rfl, rfl, rfl⟩

end Session
end ConstraintHandling
