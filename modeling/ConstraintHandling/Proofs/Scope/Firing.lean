import ConstraintHandling.Proofs.Firing
import ConstraintHandling.Proofs.Scope.Variables
import ConstraintHandling.Proofs.Store.Live

/-! The variables that firing a rule brings into the store. A body is performed on variables of the
rule, which have the scope of source text, and variables of matched constraints; whatever it asserts
has been moved to the scope of the firing before, so that its variables have that scope or were there
already. -/
namespace ConstraintHandling

def Variable.HasScopeOr (scope : Nat) (P : Variable → Prop) (v : Variable) : Prop :=
  v.scope = scope ∨ P v

section Body
variable {P Q : Variable → Prop} {scope : Nat} {known : Oracle}

lemma Term.Within.rename (scope : Nat) {t : Term} (h : t.Within (Variable.HasScopeOr 0 P)) :
    (t.rename scope).Within (Variable.HasScopeOr scope P) := by
  refine h.mapVariables fun v hv => Term.within_var.mpr ?_
  unfold Variable.inScope
  split
  · exact .inl rfl
  · next positive => exact .inr (hv.resolve_left positive)

lemma Term.Within.args {t : Term} (h : t.Within P) : ∀ u ∈ t.args, u.Within P := by
  cases t with
  | compound f args p => exact Term.within_compound.mp h
  | _ => exact fun u hu => nomatch hu

structure Effects.Within (P : Variable → Prop) (e : Effects) : Prop where
  asserted : ∀ t ∈ e.asserted, t.Within P
  replacements : ∀ r ∈ e.replacements, r.old.Within P ∧ r.new.Within P

lemma Effects.within_none : Effects.none.Within P where
  asserted t ht := by cases ht
  replacements r hr := by cases hr

lemma Effects.Within.apply {e : Effects} (h : e.Within P) {t : Term} (ht : t.Within P) :
    (e.apply t).Within P := by
  refine List.foldlRecOn e.replacements _ (motive := Term.Within P) ht ?_
  exact fun u hu r hr => hu.replace (h.replacements r hr).2

lemma Effects.Within.addEquation {e e' : Effects} {left right : Term} (h : e.Within P)
    (hleft : left.Within P) (hright : right.Within P)
    (heq : e.addEquation known left right = some e') : e'.Within P := by
  have hleft := h.apply (Environment.within_empty.evaluate known hleft)
  have hright := h.apply (Environment.within_empty.evaluate known hright)
  unfold Effects.addEquation at heq
  dsimp only at heq
  split at heq
  · split at heq
    · cases heq
      exact h
    · cases heq
  · split at heq
    · cases heq
      exact h
    · cases heq
      refine ⟨h.asserted, fun r hr => ?_⟩
      obtain hr | hr := List.mem_append.mp hr
      · exact h.replacements r hr
      · obtain rfl := List.mem_singleton.mp hr
        unfold orient
        split
        · exact ⟨hright, hleft⟩
        · exact ⟨hleft, hright⟩

/-- Bindings are made of variables of the rule and of matched constraints, and what has been collected
is in the scope of the firing. -/
structure Progress.Within (P : Variable → Prop) (scope : Nat) (p : Progress) : Prop where
  env : p.env.Within (Variable.HasScopeOr 0 P)
  effects : p.effects.Within (Variable.HasScopeOr scope P)

variable {p p' : Progress} {rule : Rule} {events : List Event}

lemma Progress.Within.assign {left right : Term} (h : p.Within P scope)
    (hright : right.Within (Variable.HasScopeOr 0 P))
    (heq : p.assign known rule scope left right = some (p', events)) : p'.Within P scope := by
  unfold Progress.assign at heq
  split at heq
  · next v hv =>
    cases heq
    obtain ⟨-, source⟩ := Option.filter_eq_some_iff.mp hv
    exact ⟨h.env.bind (.inl (by simpa using source)) (Environment.within_empty.evaluate known hright),
      h.effects⟩
  · split at heq
    · cases heq
      exact h
    · cases heq
    · cases heq
      exact h

lemma Progress.Within.assert {literal : Term} (h : p.Within P scope)
    (hliteral : literal.Within (Variable.HasScopeOr scope P))
    (heq : p.assert known rule literal = some (p', events)) : p'.Within P scope := by
  have value : (evaluate known literal .empty).Within (Variable.HasScopeOr scope P) :=
    Environment.within_empty.evaluate known hliteral
  have collect : ∀ t : Term, t.Within (Variable.HasScopeOr scope P) →
      (⟨p.env, ⟨p.effects.asserted ++ [t], p.effects.replacements⟩⟩ : Progress).Within P scope := by
    intro t ht
    refine ⟨h.env, ⟨fun u hu => ?_, h.effects.replacements⟩⟩
    obtain hu | hu := List.mem_append.mp hu
    · exact h.effects.asserted u hu
    · obtain rfl := List.mem_singleton.mp hu
      exact ht
  unfold Progress.assert at heq
  split at heq
  · cases heq
    exact h
  · cases heq
  · next hvalue =>
    cases heq
    exact collect _ (hvalue ▸ value)
  · next hvalue =>
    cases heq
    exact collect _ (hvalue ▸ value)
  · cases heq
    exact h

lemma Progress.Within.perform {literal : Term} (h : p.Within P scope)
    (hliteral : literal.Within (Variable.HasScopeOr 0 P))
    (heq : p.perform known rule scope literal = some (p', events)) : p'.Within P scope := by
  have hliteral := h.env.substitute hliteral
  unfold Progress.perform at heq
  dsimp only at heq
  split at heq
  · next hassign => exact h.assign (hliteral.assignment? hassign).2 heq
  · have renamed := hliteral.rename scope
    split at heq
    · split at heq
      · next left right hargs =>
        obtain ⟨effects, hadd, heq⟩ := Option.map_eq_some_iff.mp heq
        cases heq
        have sides : ∀ t ∈ [left, right], t.Within (Variable.HasScopeOr scope P) := by
          rw [← hargs]
          exact renamed.args
        exact ⟨h.env, h.effects.addEquation (sides left (by simp)) (sides right (by simp)) hadd⟩
      · cases heq
    · exact h.assert renamed heq

lemma Progress.Within.performAll {body : List Term} {effects : Effects} (h : p.Within P scope)
    (hbody : ∀ t ∈ body, t.Within (Variable.HasScopeOr 0 P))
    (heq : (performAll known rule scope body p).1 = some effects) :
    effects.Within (Variable.HasScopeOr scope P) := by
  induction body generalizing p with
  | nil =>
    cases heq
    exact h.effects
  | cons literal rest ih =>
    obtain ⟨hliteral, hrest⟩ := List.forall_mem_cons.mp hbody
    rw [Progress.performAll] at heq
    split at heq
    · cases heq
    · next p' events hperform => exact ih (h.perform hliteral hperform) hrest heq

end Body

namespace Store
variable {P : Variable → Prop} {s : Store}

lemma Within.mono {Q : Variable → Prop} (h : s.Within P) (imp : ∀ v, P v → Q v) : s.Within Q :=
  fun c t ht => (h c t ht).mono imp

lemma Within.insert {f : String} {t : Term} (h : s.Within P) (ht : t.Within P) :
    (s.insert f t).Within P := by
  intro c u hu
  rw [get?_insert] at hu
  split at hu
  · cases hu
    exact ht
  · exact h c u hu

lemma Within.consume (h : s.Within P) (id : ConstraintId) : (s.consume id).Within P := by
  intro c t ht
  rw [get?_consume] at ht
  exact h c t ht

lemma Within.addOrReport {t : Term} (h : s.Within P) (ht : t.Within P) :
    (s.addOrReport t).1.Within P := by
  unfold Store.addOrReport
  cases hadd : s.add t with
  | error refusal => exact h
  | ok added =>
    obtain ⟨s', id⟩ := added
    obtain ⟨f, -, rfl, rfl⟩ := add_eq_ok_iff.mp hadd
    exact h.insert ht

lemma Within.addAll {ts : List Term} (h : s.Within P) (hts : ∀ t ∈ ts, t.Within P) :
    (s.addAll ts).1.Within P := by
  induction ts generalizing s with
  | nil => exact h
  | cons t ts ih =>
    obtain ⟨ht, hts⟩ := List.forall_mem_cons.mp hts
    exact ih (h.addOrReport ht) hts

lemma Within.supersede {changes : List (ConstraintId × Term)} (h : s.Within P)
    (hchanges : ∀ change ∈ changes, change.2.Within P) : (s.supersede changes).1.Within P := by
  induction changes generalizing s with
  | nil => exact h
  | cons change changes ih =>
    obtain ⟨hchange, hchanges⟩ := List.forall_mem_cons.mp hchanges
    exact ih ((h.consume change.1).addOrReport hchange) hchanges

lemma Within.consumeAll (h : s.Within P) (ids : List ConstraintId) :
    (s.consumeAll ids).Within P :=
  List.foldlRecOn ids Store.consume (motive := Store.Within P) h fun _ hs id _ => hs.consume id

lemma Within.live (h : s.Within P) {partition : Partition} {id : ConstraintId} {t : Term}
    (ht : (id, t) ∈ s.live partition) : t.Within P :=
  h id t (get?_of_mem_live ht)

lemma Within.changedBy {e : Effects} (h : s.Within P) (he : e.Within P) :
    ∀ change ∈ s.changedBy e, change.2.Within P := by
  intro change hchange
  obtain ⟨⟨id, t⟩, hlive, heq⟩ := List.mem_filterMap.mp hchange
  have ht : t.Within P := (List.mem_append.mp hlive).elim h.live h.live
  dsimp only at heq
  split at heq
  · cases heq
  · cases heq
    exact he.apply ht

lemma Within.commit {e : Effects} (h : s.Within P) (he : e.Within P) :
    (s.commit e).1.Within P := by
  have asserted := h.addAll he.asserted
  unfold Store.commit
  dsimp only
  split
  · exact asserted
  · refine (asserted.supersede (asserted.changedBy he)).addAll ?_
    rw [List.forall_mem_map]
    exact fun r hr => Term.within_equation.mpr (he.replacements r hr)

end Store

theorem Rule.within_fire {P : Variable → Prop} {r : Rule} {m : Match} {scope : Nat} {s : Store}
    (stored : s.Within P) (henv : m.env.Within (Variable.HasScopeOr 0 P))
    (hbody : ∀ t ∈ r.body, t.Within (Variable.HasScopeOr 0 P)) :
    (r.fire m scope s).1.Within (Variable.HasScopeOr scope P) := by
  have stored : s.Within (Variable.HasScopeOr scope P) := stored.mono fun _ => .inr
  have consumed := stored.consumeAll (m.constraints.take r.deleteHeads.length)
  unfold Rule.fire
  dsimp only
  split
  · next effects events heq =>
    have start : (⟨m.env, .none⟩ : Progress).Within P scope := ⟨henv, Effects.within_none⟩
    exact consumed.commit (start.performAll hbody (congrArg Prod.fst heq))
  · exact consumed

end ConstraintHandling
