import ConstraintHandling.Proofs.Firing
import ConstraintHandling.Proofs.Search.Memoised
import ConstraintHandling.Proofs.Session.Chronicle

/-! The chronicle of a session is right. Whatever a session does, no combination is tried twice, a
rule has fired on exactly those whose trial has passed, and once no rule fires every combination in
the store has been tried. -/
namespace ConstraintHandling

/-- A trial made in the past of a store: the combination matched then, the outcome was that of the
guards, and where it passed, the constraints to delete are gone. -/
structure Trial.Made (t : Trial) (base : RuleBase) (store : Store) : Prop where
  indexed : t.store.Indexed
  reaches : t.store.Reaches store
  outcome : ∃ r env, base.get? t.rule = some r ∧
    Search.Combines t.store t.store.canMatch r.heads t.constraints env ∧
    t.passed = (Search.checkGuards t.store.holds r.guards env).isSome
  deleted : t.passed = true → ∀ r, base.get? t.rule = some r →
    ∀ c ∈ t.constraints.take r.deleteHeads.length, store.isLive c = false

/-- What holds of a session and its chronicle throughout. -/
structure Consistent (base : RuleBase) (s : Session) (chronicle : Chronicle) : Prop where
  rules : s.rules = base
  coherent : ∃ g : Search.History, g.memo = s.memo ∧ g.trials = chronicle.trials ∧
    Search.Coherent base s.store g
  once : (chronicle.trials.map Trial.combination).Nodup
  made : ∀ t ∈ chronicle.trials, t.Made base s.store
  firings : chronicle.firings = (chronicle.trials.filter Trial.passed).map Trial.combination

/-- Every combination that matches in the store of a session has been tried. -/
def HasTriedAll (base : RuleBase) (s : Session) (chronicle : Chronicle) : Prop :=
  ∀ {id r cs env}, base.get? id = some r →
    Search.Combines s.store s.store.canMatch r.heads cs env →
    ⟨id, cs⟩ ∈ chronicle.trials.map Trial.combination

section Past
variable {base : RuleBase} {store store' : Store} {t : Trial}

lemma Trial.Made.lt_size (h : t.Made base store) {c : ConstraintId} (hc : c ∈ t.constraints) :
    c < store.size := by
  obtain ⟨r, env, -, combines, -⟩ := h.outcome
  exact (combines.lt_size hc).trans_le (h.reaches.extends h.indexed).size_le

lemma Trial.Made.reach (h : t.Made base store) (indexed : store.Indexed)
    (reaches : store.Reaches store') : t.Made base store' where
  indexed := h.indexed
  reaches := h.reaches.trans reaches
  outcome := h.outcome
  deleted passed r hr c hc := by
    have gone := h.deleted passed r hr c hc
    by_contra alive
    have known := h.lt_size (List.mem_of_mem_take hc)
    have alive := (reaches.extends indexed).live c known (by simpa using alive)
    rw [gone] at alive
    cases alive

end Past

section Steps
variable {base : RuleBase} {s s' : Session} {chronicle : Chronicle}

lemma Consistent.reach (h : Consistent base s chronicle) (rules : s'.rules = s.rules)
    (memo : s'.memo = s.memo) (reaches : s.store.Reaches s'.store) :
    Consistent base s' chronicle := by
  obtain ⟨g, hmemo, htrials, coherent⟩ := h.coherent
  exact ⟨rules.trans h.rules, ⟨g, hmemo.trans memo.symm, htrials, coherent.reaches reaches⟩, h.once,
    fun t ht => (h.made t ht).reach coherent.indexed reaches, h.firings⟩

lemma tryRule_of_none {r : Rule} {id : RuleId} (h : (r.nextMatch id s.store s.memo).1 = none) :
    (s.tryRule r id).fired = false ∧
      (s.tryRule r id).session = { s with memo := (r.nextMatch id s.store s.memo).2 } := by
  obtain ⟨rules, store, memo, lastScope, maxPasses⟩ := s
  simp only [Session.tryRule]
  split
  · next hmatch => simp [hmatch]
  · next hmatch => simp [hmatch] at h

lemma tryRule_of_some {r : Rule} {id : RuleId} {m : Match}
    (h : (r.nextMatch id s.store s.memo).1 = some m) :
    (s.tryRule r id).fired = true ∧
      (s.tryRule r id).session =
        { s with
          store := (r.fire m (s.lastScope + 1) s.store).1
          memo := (r.nextMatch id s.store s.memo).2
          lastScope := s.lastScope + 1 } := by
  obtain ⟨rules, store, memo, lastScope, maxPasses⟩ := s
  simp only [Session.tryRule]
  split
  · next hmatch => simp [hmatch] at h
  · next hmatch =>
    simp only [hmatch, Option.some.injEq] at h
    subst h
    simp [hmatch]

lemma none_of_unfired {r : Rule} {id : RuleId} (h : (s.tryRule r id).fired = false) :
    (r.nextMatch id s.store s.memo).1 = none := by
  cases hm : (r.nextMatch id s.store s.memo).1 with
  | none => rfl
  | some m =>
    rw [(tryRule_of_some hm).1] at h
    cases h

lemma tryRule_keeps (s : Session) (r : Rule) (id : RuleId) :
    (s.tryRule r id).session.rules = s.rules ∧
      (s.tryRule r id).session.memo = (r.nextMatch id s.store s.memo).2 := by
  cases h : (r.nextMatch id s.store s.memo).1 with
  | none =>
    rw [(tryRule_of_none h).2]
    exact ⟨rfl, rfl⟩
  | some m =>
    rw [(tryRule_of_some h).2]
    exact ⟨rfl, rfl⟩

lemma reaches_tryRule (s : Session) (r : Rule) (id : RuleId) :
    s.store.Reaches (s.tryRule r id).session.store := by
  cases h : (r.nextMatch id s.store s.memo).1 with
  | none =>
    rw [(tryRule_of_none h).2]
    exact .refl _
  | some m =>
    rw [(tryRule_of_some h).2]
    exact r.reaches_fire m _ _

end Steps

section Search
variable {base : RuleBase} {s : Session} {chronicle : Chronicle} {r : Rule} {id : RuleId}

lemma map_combination {ts : List Trial} (h : ∀ t ∈ ts, t.rule = id) :
    ts.map Trial.combination = (ts.map Trial.constraints).map (Combination.mk id) := by
  rw [List.map_map]
  apply List.map_congr_left
  intro t ht
  rw [Function.comp_apply, ← h t ht]
  rfl

lemma mem_triedBy_iff {cs : List ConstraintId} {ts : List Trial} :
    cs ∈ Search.triedBy id ts ↔ ⟨id, cs⟩ ∈ ts.map Trial.combination := by
  rw [Search.mem_triedBy]
  simp [Trial.combination]

/-- What looking for the next match of a rule does in a consistent session. -/
structure Looks (base : RuleBase) (s : Session) (chronicle : Chronicle) (r : Rule) (id : RuleId) :
    Prop where
  coherent : ∃ g : Search.History, g.memo = (r.nextMatch id s.store s.memo).2 ∧
    g.trials = chronicle.trials ++ (s.ruleChronicle r id).trials ∧ Search.Coherent base s.store g
  attempted : Search.attempt r id s.store (Search.combinations s.store s.store.canMatch r.heads)
      (Search.triedBy id chronicle.trials) =
    ((r.nextMatch id s.store s.memo).1, (s.ruleChronicle r id).trials)

lemma Consistent.looks (h : Consistent base s chronicle) (hr : base.get? id = some r)
    (hheads : r.heads ≠ []) : Looks base s chronicle r id := by
  obtain ⟨g, hmemo, htrials, coherent⟩ := h.coherent
  obtain ⟨g', hmemo', htrials', coherent', hattempt⟩ :=
    Search.explores_tracedMatch coherent hr hheads
  rw [hmemo] at hmemo' htrials' hattempt
  rw [htrials] at htrials' hattempt
  have untraced := r.untraced_tracedMatch id s.store s.memo
  refine ⟨⟨g', ?_, htrials', coherent'⟩, ?_⟩
  · rw [hmemo', ← untraced]
    rfl
  · rw [hattempt, ← untraced]
    rfl

lemma Looks.trial (h : Looks base s chronicle r id) {t : Trial}
    (ht : t ∈ (s.ruleChronicle r id).trials) :
    t.rule = id ∧ t.store = s.store ∧
      ∃ env, Search.Combines s.store s.store.canMatch r.heads t.constraints env ∧
        t.passed = (Search.checkGuards s.store.holds r.guards env).isSome := by
  have htrials := congrArg Prod.snd h.attempted
  dsimp only at htrials
  rw [← htrials] at ht
  obtain ⟨m, hm, rfl⟩ := Search.trial_of_attempt ht
  exact ⟨rfl, rfl, m.env, Search.mem_combinations.mp hm, rfl⟩

lemma Looks.once (h : Looks base s chronicle r id)
    (once : (chronicle.trials.map Trial.combination).Nodup) :
    ((chronicle ++ s.ruleChronicle r id).trials.map Trial.combination).Nodup := by
  obtain ⟨nodup, unknown⟩ := Search.new_of_attempt r id s.store
    (Search.combinations s.store s.store.canMatch r.heads) (Search.triedBy id chronicle.trials)
  rw [h.attempted] at nodup unknown
  rw [Chronicle.trials_append, List.map_append, map_combination fun t ht => (h.trial ht).1]
  refine List.nodup_append.mpr ⟨once, nodup.map fun _ _ hcs => (Combination.mk.inj hcs).2, ?_⟩
  rintro combination hold _ hnew rfl
  obtain ⟨cs, hcs, rfl⟩ := List.mem_map.mp hnew
  exact unknown cs hcs (mem_triedBy_iff.mpr hold)

lemma Looks.firings (h : Looks base s chronicle r id) :
    (s.ruleChronicle r id).firings =
      ((s.ruleChronicle r id).trials.filter Trial.passed).map Trial.combination := by
  have passed := Search.passed_of_attempt r id s.store
    (Search.combinations s.store s.store.canMatch r.heads) (Search.triedBy id chronicle.trials)
  rw [h.attempted] at passed
  rw [map_combination fun t ht => (h.trial (List.mem_of_mem_filter ht)).1, passed]
  unfold Session.ruleChronicle
  cases (r.nextMatch id s.store s.memo).1 with
  | none => rfl
  | some m => rfl

lemma Looks.tried (h : Looks base s chronicle r id)
    (none : (r.nextMatch id s.store s.memo).1 = none) {cs : List ConstraintId} {env : Environment}
    (combines : Search.Combines s.store s.store.canMatch r.heads cs env) :
    ⟨id, cs⟩ ∈ (chronicle ++ s.ruleChronicle r id).trials.map Trial.combination := by
  have hfound := congrArg Prod.fst h.attempted
  have htrials := congrArg Prod.snd h.attempted
  dsimp only at hfound htrials
  have tried := Search.tried_of_found_none (hfound.trans none) (Search.mem_combinations.mpr combines)
  rw [htrials] at tried
  rw [Chronicle.trials_append, List.map_append, List.mem_append]
  obtain hold | hnew := List.mem_append.mp tried
  · exact .inl (mem_triedBy_iff.mp hold)
  · obtain ⟨t, ht, hcs⟩ := List.mem_map.mp hnew
    refine .inr (List.mem_map.mpr ⟨t, ht, ?_⟩)
    rw [Trial.combination, (h.trial ht).1, hcs]

lemma Looks.found (h : Looks base s chronicle r id) {t : Trial}
    (ht : t ∈ (s.ruleChronicle r id).trials) (passed : t.passed = true) :
    ∃ m, (r.nextMatch id s.store s.memo).1 = some m ∧ m.constraints = t.constraints := by
  have hmem : t.combination ∈ (s.ruleChronicle r id).firings := by
    rw [h.firings]
    exact List.mem_map_of_mem (List.mem_filter.mpr ⟨ht, passed⟩)
  obtain ⟨m, hm, heq⟩ := Option.map_eq_some_iff.mp (Option.mem_toList.mp hmem)
  exact ⟨m, hm, (Combination.mk.inj heq).2⟩

lemma Looks.made (h : Looks base s chronicle r id) (indexed : s.store.Indexed)
    (hr : base.get? id = some r) {t : Trial} (ht : t ∈ (s.ruleChronicle r id).trials) :
    t.Made base (s.tryRule r id).session.store := by
  obtain ⟨hrule, hstore, env, combines, outcome⟩ := h.trial ht
  refine ⟨hstore ▸ indexed, hstore ▸ reaches_tryRule s r id,
    ⟨r, env, hrule ▸ hr, hstore ▸ combines, hstore ▸ outcome⟩, ?_⟩
  intro passed r' hr' c hc
  obtain rfl : r = r' := by simpa [hrule, hr] using hr'
  obtain ⟨m, hm, hcs⟩ := h.found ht passed
  have known := combines.lt_size (List.mem_of_mem_take hc)
  rw [(tryRule_of_some hm).2]
  exact Rule.isLive_fire indexed (hcs ▸ hc) known

theorem Consistent.tryRule (h : Consistent base s chronicle) (hr : base.get? id = some r)
    (hheads : r.heads ≠ []) :
    Consistent base (s.tryRule r id).session (chronicle ++ s.ruleChronicle r id) := by
  have looks := h.looks hr hheads
  obtain ⟨g, hmemo, htrials, coherent⟩ := looks.coherent
  have reaches := reaches_tryRule s r id
  obtain ⟨rules, memo⟩ := tryRule_keeps s r id
  refine ⟨rules.trans h.rules, ⟨g, hmemo.trans memo.symm, htrials, coherent.reaches reaches⟩,
    looks.once h.once, ?_, ?_⟩
  · intro t ht
    obtain hold | hnew := List.mem_append.mp ht
    · exact (h.made t hold).reach coherent.indexed reaches
    · exact looks.made coherent.indexed hr hnew
  · rw [Chronicle.firings_append, Chronicle.trials_append, List.filter_append, List.map_append,
      h.firings, looks.firings]

end Search

section Passes
variable {base : RuleBase} {s : Session} {chronicle : Chronicle}

lemma tryRules_cons (s : Session) (r : Rule) (id : RuleId) (rules : List (Rule × RuleId)) :
    ((s.tryRules ((r, id) :: rules)).fired, (s.tryRules ((r, id) :: rules)).session) =
      if (s.tryRule r id).fired then (true, (s.tryRule r id).session)
      else (((s.tryRule r id).session.tryRules rules).fired,
        ((s.tryRule r id).session.tryRules rules).session) := by
  rw [Session.tryRules]
  obtain ⟨_ | _, s', events⟩ := s.tryRule r id
  · rfl
  · rfl

/-- Trying rules keeps a session consistent. Where none fires, the store is as before, and each of
them has been tried on every combination that matches. -/
theorem Consistent.tryRules (h : Consistent base s chronicle) (hheads : base.HasHeads)
    {rules : List (Rule × RuleId)} (hrules : ∀ pair ∈ rules, base.get? pair.2 = some pair.1) :
    Consistent base (s.tryRules rules).session (chronicle ++ s.rulesChronicle rules) ∧
      ((s.tryRules rules).fired = false → (s.tryRules rules).session.store = s.store ∧
        ∀ pair ∈ rules, ∀ cs env,
          Search.Combines s.store s.store.canMatch pair.1.heads cs env →
          ⟨pair.2, cs⟩ ∈ (chronicle ++ s.rulesChronicle rules).trials.map Trial.combination) := by
  induction rules generalizing s chronicle with
  | nil =>
    refine ⟨?_, fun _ => ⟨rfl, by simp⟩⟩
    rw [Session.rulesChronicle, Chronicle.append_empty]
    exact h
  | cons pair rules ih =>
    obtain ⟨r, id⟩ := pair
    obtain ⟨hr, hrules⟩ := List.forall_mem_cons.mp hrules
    have heads : r.heads ≠ [] := hheads r (List.mem_of_getElem? hr)
    have tried := h.tryRule hr heads
    have hcons := tryRules_cons s r id rules
    cases hfired : (s.tryRule r id).fired with
    | true =>
      rw [hfired, if_pos rfl] at hcons
      obtain ⟨hf, hsession⟩ := Prod.mk.inj hcons
      rw [hf, hsession, Session.rulesChronicle, if_pos hfired]
      exact ⟨tried, fun hfalse => Bool.noConfusion hfalse⟩
    | false =>
      rw [hfired, if_neg Bool.false_ne_true] at hcons
      obtain ⟨hf, hsession⟩ := Prod.mk.inj hcons
      have unfired : ¬(s.tryRule r id).fired = true := by simp [hfired]
      rw [hf, hsession, Session.rulesChronicle, if_neg unfired, ← Chronicle.append_assoc]
      obtain ⟨consistent, rest⟩ := ih tried hrules
      refine ⟨consistent, fun hnone => ?_⟩
      -- No rule has fired, so the store is the same for all of them.
      have hnomatch := none_of_unfired hfired
      have hsame : (s.tryRule r id).session.store = s.store := by rw [(tryRule_of_none hnomatch).2]
      obtain ⟨hstore, hrest⟩ := rest hnone
      rw [hsame] at hstore hrest
      refine ⟨hstore, List.forall_mem_cons.mpr ⟨?_, hrest⟩⟩
      intro cs env combines
      have first := (h.looks hr heads).tried hnomatch combines
      rw [Chronicle.trials_append, List.map_append]
      exact List.mem_append_left _ first

lemma mem_numbered {r : Rule} {id : RuleId} (base : RuleBase) :
    (r, id) ∈ base.numbered ↔ base.get? id = some r := by
  rw [RuleBase.numbered, List.mem_zipIdx_iff_getElem?]
  rfl

theorem Consistent.step (h : Consistent base s chronicle) (hheads : base.HasHeads) :
    Consistent base s.step.session (chronicle ++ s.stepChronicle) ∧
      (s.step.fired = false → HasTriedAll base s.step.session (chronicle ++ s.stepChronicle)) := by
  have hrules : s.rules.numbered = base.numbered := by rw [h.rules]
  obtain ⟨consistent, tried⟩ := h.tryRules hheads
    fun pair hpair => (mem_numbered base).mp hpair
  unfold Session.step Session.stepChronicle
  rw [hrules]
  refine ⟨consistent, fun hnone id r cs env hr combines => ?_⟩
  obtain ⟨hstore, hall⟩ := tried hnone
  rw [hstore] at combines
  exact hall (r, id) ((mem_numbered base).mpr hr) cs env combines

theorem Consistent.run (h : Consistent base s chronicle) (hheads : base.HasHeads) (passes : Nat)
    (events : Array Event) (allowed : Nat) :
    Consistent base (s.run passes events allowed).session (chronicle ++ s.runChronicle allowed) ∧
      ((s.run passes events allowed).verdict = .fixpoint →
        HasTriedAll base (s.run passes events allowed).session
          (chronicle ++ s.runChronicle allowed)) := by
  induction allowed generalizing s chronicle passes events with
  | zero =>
    obtain ⟨consistent, tried⟩ := h.step hheads
    rw [Session.run, Session.runChronicle]
    generalize s.step = attempt at consistent tried ⊢
    obtain ⟨_ | _, s', new⟩ := attempt
    · exact ⟨consistent, fun _ => tried rfl⟩
    · exact ⟨consistent, fun hverdict => by cases hverdict⟩
  | succ allowed ih =>
    obtain ⟨consistent, tried⟩ := h.step hheads
    rw [Session.run, Session.runChronicle]
    generalize s.step = attempt at consistent tried ⊢
    obtain ⟨_ | _, s', new⟩ := attempt
    · exact ⟨consistent, fun _ => tried rfl⟩
    · have rest := ih consistent (passes + 1) (events ++ new)
      rw [Chronicle.append_assoc] at rest
      exact rest

theorem Consistent.solve (h : Consistent base s chronicle) (hheads : base.HasHeads) :
    Consistent base s.solve.session (chronicle ++ s.solveChronicle) ∧
      (s.solve.verdict = .fixpoint →
        HasTriedAll base s.solve.session (chronicle ++ s.solveChronicle)) :=
  h.run hheads 0 #[] s.maxPasses

lemma reaches_assertGoals (store : Store) (ts : List Term) :
    store.Reaches (Session.assertGoals store ts).2 := by
  induction ts generalizing store with
  | nil => exact .refl store
  | cons t ts ih =>
    rw [Session.assertGoals]
    cases hadd : store.add t with
    | ok added => exact (Store.reaches_add hadd).trans (ih added.1)
    | error cause => exact .refl store

lemma consistent_start (base : RuleBase) : Consistent base (.start base) .empty where
  rules := rfl
  coherent := ⟨.initial, rfl, rfl, Search.coherent_initial base⟩
  once := List.nodup_nil
  made t ht := by cases ht
  firings := rfl

lemma Consistent.obey {base : RuleBase} {j : Journal} (h : Consistent base j.session j.chronicle)
    (hheads : base.HasHeads) (command : Command) :
    Consistent base (j.obey command).session (j.obey command).chronicle := by
  cases command with
  | goals ts => exact h.reach rfl rfl (reaches_assertGoals ..)
  | limit passes => exact h.reach rfl rfl (.refl _)
  | solve => exact (h.solve hheads).1

/-- Whatever the user does, the session and its chronicle stay consistent. -/
theorem consistent_obeyAll {base : RuleBase} (hheads : base.HasHeads) (commands : List Command) :
    Consistent base ((Journal.begin base).obeyAll commands).session
      ((Journal.begin base).obeyAll commands).chronicle := by
  refine List.foldlRecOn commands Journal.obey
    (motive := fun j : Journal => Consistent base j.session j.chronicle) (consistent_start base) ?_
  intro j h command _
  exact h.obey hheads command

end Passes

end ConstraintHandling
