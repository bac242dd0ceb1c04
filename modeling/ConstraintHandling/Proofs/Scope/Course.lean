import ConstraintHandling.Proofs.Scope.Firing
import ConstraintHandling.Proofs.Session.Firings
import ConstraintHandling.Proofs.Session.Invariant

/-! Scopes keep firings apart. In the course of a session every conjunction of goals and every firing
opens a scope that no stored constraint mentions yet, and all variables that it brings into the store
have that scope; so variables of different firings are different, and none is a variable of a rule. -/
namespace ConstraintHandling

def Term.IsSource (t : Term) : Prop :=
  t.Within fun v => v.scope = 0

/-- A stored constraint, consumed or not, holds the variable. -/
def Store.Mentions (s : Store) (v : Variable) : Prop :=
  ∃ c t, s.get? c = some t ∧ v ∈ t.occurrences

lemma Store.within_iff {P : Variable → Prop} {s : Store} :
    s.Within P ↔ ∀ v, s.Mentions v → P v :=
  ⟨fun h v ⟨c, t, ht, hv⟩ => h c t ht v hv, fun h c t ht v hv => h v ⟨c, t, ht, hv⟩⟩

lemma Store.within_mentions (s : Store) : s.Within s.Mentions :=
  within_iff.mpr fun _ => id

/-- The scope given to a conjunction of goals or to a firing, and the stores before and after it. -/
structure Opening where
  scope : Nat
  before : Store
  after : Store

/-- The step between two sessions, which has opened the latest scope. -/
def Opening.between (s s' : Session) : Opening :=
  ⟨s'.lastScope, s.store, s'.store⟩

def Opening.Introduces (o : Opening) (v : Variable) : Prop :=
  o.after.Mentions v ∧ ¬ o.before.Mentions v

/-- The course of a session: goals are added, the limit of passes is changed, and rules are tried, each
of which may fire. The scopes opened on the way are kept in order. -/
inductive Course (base : RuleBase) : Session → List Opening → Prop
  | start : Course base (.start base) []
  | goals {s : Session} {os : List Opening} {ts : List Term} (h : Course base s os)
    (source : ∀ t ∈ ts, t.IsSource) :
    Course base (s.addGoals ts).2 (os ++ [.between s (s.addGoals ts).2])
  | limit {s : Session} {os : List Opening} (passes : Nat) (h : Course base s os) :
    Course base { s with maxPasses := passes } os
  | search {s : Session} {os : List Opening} {r : Rule} {id : RuleId} (h : Course base s os)
    (registered : base.get? id = some r) (unfired : (s.tryRule r id).fired = false) :
    Course base (s.tryRule r id).session os
  | fire {s : Session} {os : List Opening} {r : Rule} {id : RuleId} (h : Course base s os)
    (registered : base.get? id = some r) (fired : (s.tryRule r id).fired = true) :
    Course base (s.tryRule r id).session (os ++ [.between s (s.tryRule r id).session])

section Commands
variable {base : RuleBase} {s : Session} {os : List Opening}

lemma Course.keeps {P : Session → Prop} (inv : Session.IsInvariant base (fun _ => True) P)
    (h : Course base s os) : P s := by
  induction h with
  | start => exact inv.start
  | goals _ _ ih => exact inv.goals ih trivial
  | limit passes _ ih => exact inv.limit ih passes
  | search _ registered _ ih | fire _ registered _ ih => exact inv.tryRule ih registered

lemma Course.consistent (hheads : base.HasHeads) (h : Course base s os) :
    ∃ chronicle, Consistent base s chronicle :=
  h.keeps (isInvariant_consistent hheads)

lemma isInvariant_course (base : RuleBase) :
    Session.IsInvariant base (fun ts => ∀ t ∈ ts, t.IsSource) fun s => ∃ os, Course base s os where
  start := ⟨[], .start⟩
  goals := fun ⟨_, h⟩ source => ⟨_, h.goals source⟩
  limit := fun ⟨os, h⟩ passes => ⟨os, h.limit passes⟩
  tryRule {s r id} := fun ⟨os, h⟩ registered => by
    cases fired : (s.tryRule r id).fired with
    | true => exact ⟨_, h.fire registered fired⟩
    | false => exact ⟨os, h.search registered fired⟩

/-- Whatever a user does with goals of source text is a course. -/
theorem course_obeyAll {commands : List Command}
    (source : ∀ ts, .goals ts ∈ commands → ∀ t ∈ ts, t.IsSource) :
    ∃ os, Course base ((Journal.begin base).obeyAll commands).session os :=
  (isInvariant_course base).obeyAll source

end Commands

def Variable.IsOpened (last : Nat) (v : Variable) : Prop :=
  1 ≤ v.scope ∧ v.scope ≤ last

/-- What holds of the scopes throughout the course of a session. -/
structure Apart (s : Session) (os : List Opening) : Prop where
  stored : s.store.Within (Variable.IsOpened s.lastScope)
  below : ∀ o ∈ os, o.scope ≤ s.lastScope
  fresh : ∀ o ∈ os, ∀ v, o.before.Mentions v → v.scope ≠ o.scope
  introduced : ∀ o ∈ os, ∀ v, o.Introduces v → v.scope = o.scope
  ordered : os.Pairwise fun o o' => o.scope < o'.scope

section Scopes
variable {base : RuleBase} {s s' : Session} {os : List Opening}

lemma Apart.extend (h : Apart s os) (next : s'.lastScope = s.lastScope + 1)
    (within : s'.store.Within (Variable.HasScopeOr s'.lastScope s.store.Mentions)) :
    Apart s' (os ++ [.between s s']) where
  stored := by
    have old := Store.within_iff.mp h.stored
    refine within.mono fun v hv => ?_
    obtain hscope | hmentions := hv
    · exact ⟨by omega, hscope.le⟩
    · exact ⟨(old v hmentions).1, (old v hmentions).2.trans (by omega)⟩
  below o ho := by
    obtain ho | ho := List.mem_append.mp ho
    · exact (h.below o ho).trans (by omega)
    · obtain rfl := List.mem_singleton.mp ho
      exact le_refl _
  fresh o ho v hv := by
    obtain ho | ho := List.mem_append.mp ho
    · exact h.fresh o ho v hv
    · obtain rfl := List.mem_singleton.mp ho
      have old := (Store.within_iff.mp h.stored v hv).2
      change v.scope ≠ s'.lastScope
      omega
  introduced o ho v hv := by
    obtain ho | ho := List.mem_append.mp ho
    · exact h.introduced o ho v hv
    · obtain rfl := List.mem_singleton.mp ho
      exact (Store.within_iff.mp within v hv.1).resolve_right hv.2
  ordered := by
    refine List.pairwise_append.mpr ⟨h.ordered, List.pairwise_singleton .., ?_⟩
    intro o ho o' ho'
    obtain rfl := List.mem_singleton.mp ho'
    change o.scope < s'.lastScope
    have := h.below o ho
    omega

lemma within_assertGoals {P : Variable → Prop} {store : Store} (h : store.Within P)
    {ts : List Term} (hts : ∀ t ∈ ts, t.Within P) : (Session.assertGoals store ts).2.Within P := by
  induction ts generalizing store with
  | nil => exact h
  | cons t ts ih =>
    obtain ⟨ht, hts⟩ := List.forall_mem_cons.mp hts
    rw [Session.assertGoals]
    cases hadd : store.add t with
    | error cause => exact h
    | ok added =>
      obtain ⟨store', id⟩ := added
      obtain ⟨f, -, rfl, rfl⟩ := Store.add_eq_ok_iff.mp hadd
      exact ih (h.insert ht) hts

lemma Apart.goals (h : Apart s os) {ts : List Term} (source : ∀ t ∈ ts, t.IsSource) :
    Apart (s.addGoals ts).2 (os ++ [.between s (s.addGoals ts).2]) := by
  refine h.extend rfl (within_assertGoals (s.store.within_mentions.mono fun _ => .inr) ?_)
  intro t ht
  obtain ⟨goal, hgoal, rfl⟩ := List.mem_map.mp (List.mem_of_mem_filter ht)
  have hsource : goal.Within (Variable.HasScopeOr 0 s.store.Mentions) :=
    (source goal hgoal).mono fun _ => .inl
  exact Environment.within_empty.evaluate .nothing (hsource.rename _)

lemma Rule.mem_terms_of_mem_heads (r : Rule) {t : Term} (h : t ∈ r.heads) : t ∈ r.terms := by
  obtain h | h := List.mem_append.mp h
  · simp [Rule.terms, h]
  · simp [Rule.terms, h]

lemma Apart.fire (h : Apart s os) {chronicle : Chronicle} (consistent : Consistent base s chronicle)
    {r : Rule} {id : RuleId} (registered : base.get? id = some r) (hheads : r.heads ≠ [])
    (source : ∀ t ∈ r.terms, t.IsSource) (fired : (s.tryRule r id).fired = true) :
    Apart (s.tryRule r id).session (os ++ [.between s (s.tryRule r id).session]) := by
  obtain ⟨m, hm⟩ : ∃ m, (r.nextMatch id s.store s.memo).1 = some m := by
    cases hm : (r.nextMatch id s.store s.memo).1 with
    | some m => exact ⟨m, rfl⟩
    | none =>
      rw [(tryRule_of_none hm).1] at fired
      cases fired
  obtain ⟨env, hmatch⟩ := consistent.matches registered hheads hm
  have hsource : ∀ t ∈ r.terms, t.Within (Variable.HasScopeOr 0 s.store.Mentions) :=
    fun t ht => (source t ht).mono fun _ => .inl
  have unified : env.Within (Variable.HasScopeOr 0 s.store.Mentions) :=
    Search.within_of_unifyAll (s.store.within_mentions.mono fun _ => .inr) hmatch.combines.unified
      (fun t ht => hsource t (r.mem_terms_of_mem_heads ht)) Environment.within_empty
  have guarded : m.env.Within (Variable.HasScopeOr 0 s.store.Mentions) :=
    Search.within_of_checkGuards hmatch.guards (fun t ht => hsource t (by simp [Rule.terms, ht]))
      unified
  have next : (s.tryRule r id).session.lastScope = s.lastScope + 1 := by rw [(tryRule_of_some hm).2]
  refine h.extend next ?_
  rw [(tryRule_of_some hm).2]
  exact Rule.within_fire s.store.within_mentions guarded
    fun t ht => hsource t (by simp [Rule.terms, ht])

theorem Course.apart (hheads : base.HasHeads) (source : ∀ r ∈ base.rules, ∀ t ∈ r.terms, t.IsSource)
    (h : Course base s os) : Apart s os := by
  induction h with
  | start =>
    have empty : Store.empty.Within (Variable.IsOpened 0) := fun c t ht => nomatch ht
    exact ⟨empty, by simp, by simp, by simp, .nil⟩
  | goals _ source ih => exact ih.goals source
  | limit passes _ ih => exact ⟨ih.stored, ih.below, ih.fresh, ih.introduced, ih.ordered⟩
  | search _ registered unfired ih =>
    rw [(tryRule_of_none (none_of_unfired unfired)).2]
    exact ⟨ih.stored, ih.below, ih.fresh, ih.introduced, ih.ordered⟩
  | fire h registered fired ih =>
    obtain ⟨chronicle, consistent⟩ := h.consistent hheads
    have member := List.mem_of_getElem? registered
    exact ih.fire consistent registered (hheads _ member) (source _ member) fired

end Scopes

lemma RuleBase.mem_of_ofRules {rs : List Rule} {r : Rule} (h : r ∈ (RuleBase.ofRules rs).1.rules) :
    r ∈ rs := by
  have kept : ∀ r ∈ (RuleBase.ofRules rs).1.rules, r ∈ rs := by
    unfold RuleBase.ofRules
    refine List.foldlRecOn rs _
      (motive := fun acc : RuleBase × List Headless => ∀ r ∈ acc.1.rules, r ∈ rs)
      (fun r hr => nomatch hr) ?_
    rintro ⟨base, refused⟩ h r hr
    dsimp only
    cases hadd : base.add r with
    | error e => exact h
    | ok added =>
      unfold RuleBase.add at hadd
      split at hadd
      · cases hadd
      · cases hadd
        intro r' hr'
        obtain hr' | hr' := List.mem_append.mp hr'
        · exact h r' hr'
        · obtain rfl := List.mem_singleton.mp hr'
          exact hr
  exact kept r h

/-- Scopes keep firings apart. Whatever a user does with rules and goals of source text, and at every
point on the way, the variables of stored constraints, consumed ones included, have scopes that have
been opened, so that no variable of a rule is among them; every conjunction of goals and every firing
has opened a scope that no constraint mentioned and introduced variables of this scope only; and
what different ones have introduced is different. -/
theorem scopes_apart (rs : List Rule) (source : ∀ r ∈ rs, ∀ t ∈ r.terms, t.IsSource) :
    let base := (RuleBase.ofRules rs).1
    (∀ commands : List Command, (∀ ts, .goals ts ∈ commands → ∀ t ∈ ts, t.IsSource) →
      ∃ os, Course base ((Journal.begin base).obeyAll commands).session os) ∧
    ∀ s os, Course base s os →
      (∀ v, s.store.Mentions v → 1 ≤ v.scope ∧ v.scope ≤ s.lastScope) ∧
      (∀ r ∈ base.rules, ∀ t ∈ r.terms, ∀ v ∈ t.occurrences, ¬ s.store.Mentions v) ∧
      (∀ o ∈ os, (∀ v, o.before.Mentions v → v.scope ≠ o.scope) ∧
        ∀ v, o.Introduces v → v.scope = o.scope) ∧
      os.Pairwise fun o o' => o.scope ≠ o'.scope ∧ ∀ v, o.Introduces v → ¬ o'.Introduces v := by
  intro base
  have hheads : base.HasHeads := RuleBase.hasHeads_ofRules rs
  have hsource : ∀ r ∈ base.rules, ∀ t ∈ r.terms, t.IsSource := fun r hr =>
    source r (RuleBase.mem_of_ofRules hr)
  refine ⟨fun commands hgoals => course_obeyAll hgoals, fun s os course => ?_⟩
  have apart := course.apart hheads hsource
  have stored := Store.within_iff.mp apart.stored
  refine ⟨stored, fun r hr t ht v hv hmentions => ?_,
    fun o ho => ⟨apart.fresh o ho, apart.introduced o ho⟩, ?_⟩
  · have positive := (stored v hmentions).1
    rw [hsource r hr t ht v hv] at positive
    omega
  · refine apart.ordered.imp_of_mem fun {o o'} ho ho' hlt => ⟨hlt.ne, fun v hv hv' => ?_⟩
    rw [← apart.introduced o ho v hv, ← apart.introduced o' ho' v hv'] at hlt
    exact lt_irrefl _ hlt

def renewal : Rule where
  name := "renewal"
  keepHeads := [.compound "p" [.var ⟨"X", 0⟩] 0]
  deleteHeads := []
  guards := []
  body := [.compound "q" [.var ⟨"X", 0⟩, .var ⟨"Y", 0⟩] 0]

/-- Two goals and two firings have scopes of their own. -/
theorem scopes_apart_renewal :
    let base := (RuleBase.ofRules [renewal]).1
    let goal : Term := .compound "p" [.var ⟨"X", 0⟩] 0
    let s := ((Journal.begin base).obeyAll [.goals [goal], .goals [goal], .solve]).session
    s.store.terms.toList.map Term.occurrences =
        [[⟨"X", 1⟩], [⟨"X", 2⟩], [⟨"X", 1⟩, ⟨"Y", 3⟩], [⟨"X", 2⟩, ⟨"Y", 4⟩]] ∧
      (∀ v, s.store.Mentions v → 1 ≤ v.scope ∧ v.scope ≤ s.lastScope) ∧
      ∃ os, Course base s os ∧
        os.Pairwise fun o o' => o.scope ≠ o'.scope ∧ ∀ v, o.Introduces v → ¬ o'.Introduces v := by
  intro base goal s
  have goalSource : goal.IsSource := by
    intro v hv
    obtain rfl : v = ⟨"X", 0⟩ := by simpa [goal, Term.occurrences] using hv
    rfl
  have source : ∀ r ∈ [renewal], ∀ t ∈ r.terms, t.IsSource := by
    simp [renewal, Rule.terms, Term.IsSource]
  have gate := scopes_apart [renewal] source
  obtain ⟨os, course⟩ := gate.1 [.goals [goal], .goals [goal], .solve] (by simpa using goalSource)
  have apart := gate.2 s os course
  exact ⟨by decide +kernel, apart.1, os, course, apart.2.2.2⟩

end ConstraintHandling
