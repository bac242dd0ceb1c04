import ConstraintHandling.Proofs.Equations

/-! Contradictory equations in a body. An equation is refused, and the firing is aborted, just when
its two sides stand for different values that are still visible: a boolean or an integer whose class
holds an atom is replaced by that atom, and no later equation is compared with it. -/
namespace ConstraintHandling
namespace Term

def equation? : Term → Option (Term × Term)
  | .compound f [left, right] p =>
    if p != 0 && f == Operator.equality then some (left, right) else none
  | _ => none

lemma equation?_eq_some {t : Term} {q : Term × Term} :
    t.equation? = some q ↔ ∃ p, p ≠ 0 ∧ t = .compound Operator.equality [q.1, q.2] p := by
  constructor
  · intro h
    unfold equation? at h
    split at h
    · next f left right p =>
      obtain ⟨test, sides⟩ := Option.ite_none_right_eq_some.mp h
      obtain ⟨operator, name⟩ := Bool.and_eq_true_iff.mp test
      cases sides
      exact ⟨p, bne_iff_ne.mp operator, by rw [beq_iff_eq.mp name]⟩
    · cases h
  · rintro ⟨p, operator, rfl⟩
    simp [equation?, operator]

lemma isBinaryOperator_of_equation?_eq_none {t : Term} (h : t.equation? = none) :
    t.isBinaryOperator Operator.equality = false := by
  unfold equation? at h
  split at h
  · simpa [isBinaryOperator] using h
  · next other =>
    unfold isBinaryOperator
    split
    · exact (other _ _ _ _ rfl).elim
    · rfl

lemma assignment?_of_equation? {t : Term} {scope : Nat} {q : Term × Term}
    (h : (t.rename scope).equation? = some q) : t.assignment? = none := by
  obtain ⟨p, -, renamed⟩ := equation?_eq_some.mp h
  cases t with
  | compound f args p' =>
    rw [rename_compound] at renamed
    obtain ⟨rfl, -, -⟩ := Term.compound.inj renamed
    unfold assignment?
    split
    · next same =>
      obtain ⟨rfl, -, -⟩ := Term.compound.inj same
      rw [show Operator.isAssignment Operator.equality = false from rfl, Bool.and_false]
      rfl
    · rfl
  | _ => rfl

end Term

namespace Progress
variable {known : Oracle} {rule : Rule} {scope : Nat} {p p' : Progress} {literal : Term}
  {events : List Event}

/-- The equations that a body makes, read with the bindings that the literals before them leave. Those
behind a false literal of another kind are not reached. -/
def equations (known : Oracle) (rule : Rule) (scope : Nat) :
    List Term → Environment → List (Term × Term)
  | [], _ => []
  | literal :: rest, env =>
    match ((env.substitute literal).rename scope).equation? with
    | some q => q :: equations known rule scope rest env
    | none =>
      match perform known rule scope ⟨env, .none⟩ literal with
      | some (p, _) => equations known rule scope rest p.env
      | none => []

lemma perform_of_equation {q : Term × Term}
    (h : ((p.env.substitute literal).rename scope).equation? = some q) :
    p.perform known rule scope literal =
      (p.effects.addEquation known q.1 q.2).map fun effects => (⟨p.env, effects⟩, []) := by
  rw [perform, Term.assignment?_of_equation? h]
  obtain ⟨priority, operator, renamed⟩ := Term.equation?_eq_some.mp h
  dsimp only
  rw [renamed, if_pos (by simp [Term.isBinaryOperator, operator])]
  rfl

lemma assign_frame {left right : Term}
    (h : p.assign known rule scope left right = some (p', events)) :
    (∃ e, assign known rule scope ⟨p.env, .none⟩ left right = some (⟨p'.env, e⟩, events)) ∧
      p'.effects.replacements = p.effects.replacements := by
  refine ⟨?_, by rw [effects_assign h]⟩
  unfold assign at h ⊢
  split at h
  · cases h
    exact ⟨_, rfl⟩
  · split at h
    · cases h
      exact ⟨_, rfl⟩
    · cases h
    · cases h
      exact ⟨_, rfl⟩

lemma assert_frame (h : p.assert known rule literal = some (p', events)) :
    (∃ e, assert known rule ⟨p.env, .none⟩ literal = some (⟨p'.env, e⟩, events)) ∧
      p'.effects.replacements = p.effects.replacements := by
  unfold assert at h ⊢
  split at h
  · cases h
    exact ⟨⟨_, rfl⟩, rfl⟩
  · cases h
  · cases h
    exact ⟨⟨_, rfl⟩, rfl⟩
  · cases h
    exact ⟨⟨_, rfl⟩, rfl⟩
  · cases h
    exact ⟨⟨_, rfl⟩, rfl⟩

lemma perform_frame (other : ((p.env.substitute literal).rename scope).equation? = none)
    (h : p.perform known rule scope literal = some (p', events)) :
    (∃ e, perform known rule scope ⟨p.env, .none⟩ literal = some (⟨p'.env, e⟩, events)) ∧
      p'.effects.replacements = p.effects.replacements := by
  unfold perform at h ⊢
  dsimp only at h ⊢
  split at h
  · exact assign_frame h
  · rw [Term.isBinaryOperator_of_equation?_eq_none other, if_neg Bool.false_ne_true] at h ⊢
    exact assert_frame h

lemma replacements_addEquation (known : Oracle) {e₁ e₂ : Effects}
    (same : e₁.replacements = e₂.replacements) (left right : Term) :
    (e₁.addEquation known left right).map Effects.replacements =
      (e₂.addEquation known left right).map Effects.replacements := by
  have apply_eq (t : Term) : e₁.apply t = e₂.apply t := by rw [Effects.apply, same, Effects.apply]
  unfold Effects.addEquation
  rw [apply_eq, apply_eq]
  dsimp only
  split
  · split
    · exact congrArg some same
    · rfl
  · split
    · exact congrArg some same
    · exact congrArg (fun replacements => some (replacements ++ _)) same

lemma equate_equations {body : List Term} {e : Effects} {result : Effects}
    (start : e.replacements = p.effects.replacements)
    (h : (performAll known rule scope body p).1 = some result) :
    ∃ e', e.equate known (equations known rule scope body p.env) = some e' ∧
      e'.replacements = result.replacements := by
  induction body generalizing p e with
  | nil =>
    cases h
    exact ⟨e, rfl, start⟩
  | cons literal rest ih =>
    rw [performAll] at h
    rw [equations]
    cases read : ((p.env.substitute literal).rename scope).equation? with
    | some q =>
      rw [perform_of_equation read] at h
      have taken := replacements_addEquation known start q.1 q.2
      cases added : p.effects.addEquation known q.1 q.2 with
      | none => simp [added] at h
      | some e₁ =>
        rw [added] at h taken
        obtain ⟨e₂, added', same⟩ := Option.map_eq_some_iff.mp taken
        obtain ⟨e', run, final⟩ := ih (p := ⟨p.env, e₁⟩) same h
        exact ⟨e', by rwa [Effects.equate_cons, added'], final⟩
    | none =>
      cases performed : p.perform known rule scope literal with
      | none => simp [performed] at h
      | some next =>
        obtain ⟨p', events⟩ := next
        rw [performed] at h
        obtain ⟨⟨e₁, framed⟩, kept⟩ := perform_frame read performed
        rw [framed]
        exact ih (p := p') (start.trans kept.symm) h

end Progress

namespace Rule
open Relation Effects
variable {r : Rule} {m : Match} {scope : Nat} {s : Store}

/-- The equations that the body makes when the rule fires. -/
def equations (r : Rule) (m : Match) (scope : Nat) (s : Store) : List (Term × Term) :=
  Progress.equations (r.consumed m s).holds r scope r.body m.env

/-- The terms are in one class under the equations that the body makes. -/
def Joins (r : Rule) (m : Match) (scope : Nat) (s : Store) : Term → Term → Prop :=
  EqvGen (Equates (r.consumed m s).holds (r.equations m scope s))

def Refuses (r : Rule) (m : Match) (scope : Nat) (s : Store) : Prop :=
  Effects.none.equate (r.consumed m s).holds (r.equations m scope s) = .none

lemma fire_of_refuses (refused : r.Refuses m scope s) :
    ∃ events, r.fire m scope s = (r.consumed m s, events ++ [.bodyFailed r]) := by
  cases performed : r.performs m scope s with
  | mk result events =>
    cases result with
    | none => exact ⟨events, fire_of_fails performed⟩
    | some e =>
      obtain ⟨e', run, -⟩ := Progress.equate_equations (e := .none) rfl (congrArg Prod.fst performed)
      rw [Refuses, equations, run] at refused
      cases refused

/-- One of the equations is refused, and the firing is aborted, just when the sides of one of them
stand for different values that the equations before it leave visible. There are then different
values in one class; and different values in one class that all the equations together leave visible
are enough. -/
theorem refuses_iff (flat : AreFlat (r.consumed m s).holds (r.equations m scope s)) :
    (r.Refuses m scope s ↔ ∃ first q rest, r.equations m scope s = first ++ q :: rest ∧
      Clashes (r.consumed m s).holds first q) ∧
    (r.Refuses m scope s →
      ∃ v w, IsScalar v ∧ IsScalar w ∧ v ≠ w ∧ r.Joins m scope s v w) ∧
    ((∃ v w, IsScalar v ∧ IsScalar w ∧ v ≠ w ∧ r.Joins m scope s v w ∧
        ¬IsHidden (Equates (r.consumed m s).holds (r.equations m scope s)) v ∧
        ¬IsHidden (Equates (r.consumed m s).holds (r.equations m scope s)) w) →
      r.Refuses m scope s) ∧
    (r.Refuses m scope s →
      ∃ events, r.fire m scope s = (r.consumed m s, events ++ [.bodyFailed r])) := by
  have begins : Effects.none.Represents (Equates (r.consumed m s).holds []) := represents_start rfl
  have exactly := equate_eq_none_iff begins flat
  rw [← Refuses] at exactly
  refine ⟨exactly, fun refused => ?_, ?_, fire_of_refuses⟩
  · obtain ⟨first, q, rest, split, v, w, hv, hw, differ, left, right, -, -⟩ := exactly.mp refused
    have sub : first ⊆ r.equations m scope s := by
      rw [split]
      exact List.subset_append_left ..
    have sides : r.Joins m scope s (evaluate (r.consumed m s).holds q.1 .empty)
        (evaluate (r.consumed m s).holds q.2 .empty) :=
      .rel _ _ ⟨q, by simp [split], rfl, rfl⟩
    have left := EqvGen.mono (equates_mono sub) _ _ left
    have right := EqvGen.mono (equates_mono sub) _ _ right
    exact ⟨v, w, hv, hw, differ, left.symm.trans _ _ _ (sides.trans _ _ _ right)⟩
  · rintro ⟨v, w, ⟨pv, vv⟩, ⟨pw, vw⟩, differ, joined, visiblev, visiblew⟩
    by_contra accepted
    obtain ⟨e', run⟩ := Option.ne_none_iff_exists'.mp accepted
    have represents := represents_equate begins flat run
    apply differ
    rw [← represents.eq_of_not_isHidden pv vv visiblev, represents.same joined,
      represents.eq_of_not_isHidden pw vw visiblew]

def goStore : Store :=
  (Store.empty.addAll [.atom "go"]).1

/-- A variable is equated with a number and another one with a string, and then the two of them. -/
theorem refuses_iff_clash :
    let x := Term.var ⟨"X", 0⟩
    let y := Term.var ⟨"Y", 0⟩
    let r := onGo [.equation x (.int 1), .ordinary "p" [x], .equation (.str "s") y, .equation x y]
    AreFlat (r.consumed ⟨[0], .empty⟩ goStore).holds (r.equations ⟨[0], .empty⟩ 1 goStore) ∧
      (∃ v w, IsScalar v ∧ IsScalar w ∧ v ≠ w ∧ r.Joins ⟨[0], .empty⟩ 1 goStore v w) ∧
      ∃ events, r.fire ⟨[0], .empty⟩ 1 goStore =
        (r.consumed ⟨[0], .empty⟩ goStore, events ++ [.bodyFailed r]) := by
  intro x y r
  have flat : AreFlat (r.consumed ⟨[0], .empty⟩ goStore).holds
      (r.equations ⟨[0], .empty⟩ 1 goStore) := by
    unfold AreFlat
    decide
  have refused : r.Refuses ⟨[0], .empty⟩ 1 goStore := by rfl
  obtain ⟨-, joins, -, aborts⟩ := refuses_iff flat
  exact ⟨flat, joins refused, aborts refused⟩

/-- Two numbers are equated with the same atom: the first one is replaced by the atom and not
compared with the second one. -/
theorem accepts_hidden_contradiction :
    let r := onGo [.equation (.int 1) (.atom "a"), .equation (.int 2) (.atom "a")]
    AreFlat (r.consumed ⟨[0], .empty⟩ goStore).holds (r.equations ⟨[0], .empty⟩ 1 goStore) ∧
      (IsScalar (.int 1) ∧ IsScalar (.int 2) ∧ Term.int 1 ≠ .int 2 ∧
        r.Joins ⟨[0], .empty⟩ 1 goStore (.int 1) (.int 2)) ∧
      ¬r.Refuses ⟨[0], .empty⟩ 1 goStore ∧
      (r.fire ⟨[0], .empty⟩ 1 goStore).1.liveTerms .builtin =
        [.equation (.int 1) (.atom "a"), .equation (.int 2) (.atom "a")] := by
  intro r
  have read : r.equations ⟨[0], .empty⟩ 1 goStore =
      [(.int 1, .atom "a"), (.int 2, .atom "a")] := by rfl
  have first : r.Joins ⟨[0], .empty⟩ 1 goStore (.int 1) (.atom "a") :=
    .rel _ _ ⟨(.int 1, .atom "a"), by simp [read], rfl, rfl⟩
  have second : r.Joins ⟨[0], .empty⟩ 1 goStore (.int 2) (.atom "a") :=
    .rel _ _ ⟨(.int 2, .atom "a"), by simp [read], rfl, rfl⟩
  refine ⟨?_, ⟨⟨rfl, rfl⟩, ⟨rfl, rfl⟩, by simp, first.trans _ _ _ second.symm⟩, ?_, ?_⟩
  · unfold AreFlat
    decide
  · intro refused
    cases refused
  · rfl

end Rule
end ConstraintHandling
