import ConstraintHandling.Proofs.Session.Fixpoint

/-! Reasoning about runs, firing by firing. A rule fires on a combination that has not been tried before
and whose guards succeed, when the rules before it have nothing left to try. What every such firing
keeps holds to the end of a run, and where a measure bounds the number of firings, the run ends in a
fixpoint. -/
namespace ConstraintHandling

lemma Search.found_of_attempt {r : Rule} {id : RuleId} {store : Store} {ms : List Match}
    {tried : List (List ConstraintId)} {m : Match}
    (h : (attempt r id store ms tried).1 = some m) :
    ∃ env, ⟨m.constraints, env⟩ ∈ ms ∧ m.constraints ∉ tried ∧
      checkGuards store.holds r.guards env = some m.env := by
  induction ms generalizing tried with
  | nil => cases h
  | cons m' ms ih =>
    rw [attempt] at h
    split at h
    · obtain ⟨env, hmem, rest⟩ := ih h
      exact ⟨env, List.mem_cons_of_mem _ hmem, rest⟩
    · next new =>
      split at h
      · next env hguards =>
        cases h
        exact ⟨m'.env, List.mem_cons_self, new, hguards⟩
      · obtain ⟨env, hmem, untried, hguards⟩ := ih h
        refine ⟨env, List.mem_cons_of_mem _ hmem, fun known => untried ?_, hguards⟩
        exact List.mem_append_left _ known

structure Matches (s : Session) (chronicle : Chronicle) (r : Rule) (id : RuleId) (m : Match)
    (env : Environment) : Prop where
  combines : Search.Combines s.store s.store.canMatch r.heads m.constraints env
  guards : Search.checkGuards s.store.holds r.guards env = some m.env
  untried : ⟨id, m.constraints⟩ ∉ chronicle.trials.map Trial.combination

/-- Every match of the rule of a number has been tried. -/
def IsSettled (base : RuleBase) (s : Session) (chronicle : Chronicle) (id : RuleId) : Prop :=
  ∀ r, base.get? id = some r → ∀ cs env,
    Search.Combines s.store s.store.canMatch r.heads cs env →
    ⟨id, cs⟩ ∈ chronicle.trials.map Trial.combination

lemma HasTriedAll.isSettled {base : RuleBase} {s : Session} {chronicle : Chronicle}
    (h : HasTriedAll base s chronicle) (id : RuleId) : IsSettled base s chronicle id :=
  fun _ hr _ _ combines => h hr combines

/-- A rule is about to fire: it has found a match, and all rules before it are settled. -/
structure Fires (base : RuleBase) (s : Session) (chronicle : Chronicle) (r : Rule) (id : RuleId)
    (m : Match) : Prop where
  consistent : Consistent base s chronicle
  registered : base.get? id = some r
  found : (r.nextMatch id s.store s.memo).1 = some m
  settled : ∀ earlier < id, IsSettled base s chronicle earlier

section Step
variable {base : RuleBase} {s : Session} {chronicle : Chronicle} {r : Rule} {id : RuleId} {m : Match}

theorem Consistent.matches (h : Consistent base s chronicle) (hr : base.get? id = some r)
    (hheads : r.heads ≠ []) (found : (r.nextMatch id s.store s.memo).1 = some m) :
    ∃ env, Matches s chronicle r id m env := by
  have attempted := congrArg Prod.fst (h.looks hr hheads).attempted
  obtain ⟨env, hmem, untried, guards⟩ := Search.found_of_attempt (attempted.trans found)
  exact ⟨env, Search.mem_combinations.mp hmem, guards, fun tried => untried (mem_triedBy_iff.mpr tried)⟩

lemma Consistent.guards_fail (h : Consistent base s chronicle) (hr : base.get? id = some r)
    (settled : IsSettled base s chronicle id) (deletes : r.deleteHeads ≠ [])
    {cs : List ConstraintId} {env : Environment}
    (combines : Search.Combines s.store s.store.canMatch r.heads cs env) :
    ∃ known, Search.checkGuards known r.guards env = none := by
  obtain ⟨t, ht⟩ := h.triedOnce hr combines (settled r hr cs env combines)
  have failed := ht.outcome.symm.trans (h.unpassed hr combines ht deletes)
  exact ⟨t.store.holds, by simpa using failed⟩

lemma Consistent.tried_of_fired (h : Consistent base s chronicle) {combination : Combination}
    (fired : combination ∈ chronicle.firings) :
    combination ∈ chronicle.trials.map Trial.combination := by
  rw [h.firings] at fired
  obtain ⟨t, ht, rfl⟩ := List.mem_map.mp fired
  exact List.mem_map_of_mem (List.mem_of_mem_filter ht)

lemma firings_ruleChronicle_of_none (h : (r.nextMatch id s.store s.memo).1 = none) :
    (s.ruleChronicle r id).firings = [] := by
  rw [Session.ruleChronicle, h]
  rfl

lemma firings_ruleChronicle_of_some (h : (r.nextMatch id s.store s.memo).1 = some m) :
    (s.ruleChronicle r id).firings = [⟨id, m.constraints⟩] := by
  rw [Session.ruleChronicle, h]
  rfl

lemma IsSettled.append (h : IsSettled base s chronicle id) (memo : Memo) (later : Chronicle) :
    IsSettled base { s with memo := memo } (chronicle ++ later) id := by
  intro r hr cs env combines
  rw [Chronicle.trials_append, List.map_append]
  exact List.mem_append_left _ (h r hr cs env combines)

lemma Consistent.isSettled (h : Consistent base s chronicle) (hr : base.get? id = some r)
    (hheads : r.heads ≠ []) (none : (r.nextMatch id s.store s.memo).1 = none) :
    IsSettled base { s with memo := (r.nextMatch id s.store s.memo).2 }
      (chronicle ++ s.ruleChronicle r id) id := by
  intro r' hr' cs env combines
  obtain rfl : r = r' := Option.some.inj (hr.symm.trans hr')
  exact (h.looks hr hheads).tried none combines

lemma Consistent.fires_of_tryRules (h : Consistent base s chronicle) (hheads : base.HasHeads)
    (before : List Rule) {rules : List Rule} (hrules : base.rules = before ++ rules)
    (settled : ∀ earlier < before.length, IsSettled base s chronicle earlier)
    (fired : (s.tryRules (rules.zipIdx before.length)).fired = true) :
    ∃ memo chronicle' r id m,
      Fires base { s with memo := memo } chronicle' r id m ∧
        chronicle'.firings = chronicle.firings ∧
        (s.tryRules (rules.zipIdx before.length)).session =
          (Session.tryRule { s with memo := memo } r id).session ∧
        chronicle ++ s.rulesChronicle (rules.zipIdx before.length) =
          chronicle' ++ Session.ruleChronicle { s with memo := memo } r id := by
  induction rules generalizing before s chronicle with
  | nil => cases fired
  | cons r rules ih =>
    have hr : base.get? before.length = some r := by
      rw [RuleBase.get?, hrules]
      simp
    have heads : r.heads ≠ [] := hheads r (List.mem_of_getElem? hr)
    rw [List.zipIdx_cons] at fired ⊢
    have hcons := tryRules_cons s r before.length (rules.zipIdx (before.length + 1))
    cases hm : (r.nextMatch before.length s.store s.memo).1 with
    | some m =>
      have hfired := (tryRule_of_some hm).1
      rw [hfired, if_pos rfl] at hcons
      rw [(Prod.mk.inj hcons).2, Session.rulesChronicle, if_pos hfired]
      exact ⟨s.memo, chronicle, r, before.length, m, ⟨h, hr, hm, settled⟩, rfl, rfl, rfl⟩
    | none =>
      obtain ⟨hfired, hsession⟩ := tryRule_of_none hm
      rw [hfired, if_neg Bool.false_ne_true] at hcons
      obtain ⟨hf, hs⟩ := Prod.mk.inj hcons
      have tried := h.tryRule hr heads
      rw [hf] at fired
      rw [hs, Session.rulesChronicle, if_neg (by simp [hfired]), ← Chronicle.append_assoc]
      rw [hsession] at tried fired ⊢
      -- The rule is settled from now on.
      have settled' : ∀ earlier < (before ++ [r]).length,
          IsSettled base { s with memo := (r.nextMatch before.length s.store s.memo).2 }
            (chronicle ++ s.ruleChronicle r before.length) earlier := by
        intro earlier hearlier
        rw [List.length_append, List.length_singleton, Nat.lt_succ_iff_lt_or_eq] at hearlier
        obtain hlt | rfl := hearlier
        · exact (settled earlier hlt).append _ _
        · exact h.isSettled hr heads hm
      have length : before.length + 1 = (before ++ [r]).length := by simp
      rw [length] at fired ⊢
      obtain ⟨memo, chronicle', r', id, m, fires, hfirings, hsession', hchronicle⟩ :=
        ih tried (before ++ [r]) (by simp [hrules]) settled' fired
      refine ⟨memo, chronicle', r', id, m, fires, ?_, hsession', hchronicle⟩
      rw [hfirings, Chronicle.firings_append, firings_ruleChronicle_of_none hm, List.append_nil]

lemma firings_rulesChronicle_of_unfired {rules : List (Rule × RuleId)}
    (unfired : (s.tryRules rules).fired = false) : (s.rulesChronicle rules).firings = [] := by
  induction rules generalizing s with
  | nil => rfl
  | cons pair rules ih =>
    obtain ⟨r, id⟩ := pair
    have hcons := tryRules_cons s r id rules
    cases hfired : (s.tryRule r id).fired with
    | true =>
      rw [hfired, if_pos rfl, unfired] at hcons
      cases (Prod.mk.inj hcons).1
    | false =>
      rw [hfired, if_neg Bool.false_ne_true] at hcons
      have later := ih ((Prod.mk.inj hcons).1.symm.trans unfired)
      rw [Session.rulesChronicle, if_neg (by simp [hfired]), Chronicle.firings_append, later,
        firings_ruleChronicle_of_none (none_of_unfired hfired)]
      rfl

lemma Fires.matches (h : Fires base s chronicle r id m) (hheads : base.HasHeads) :
    ∃ env, Matches s chronicle r id m env :=
  h.consistent.matches h.registered (hheads r (List.mem_of_getElem? h.registered)) h.found

end Step

/-- Every firing keeps a property of the store and of the combinations on which rules have fired, and
decreases a measure of them. -/
def Progresses (base : RuleBase) (I : Store → List Combination → Prop)
    (measure : Store → List Combination → Nat) : Prop :=
  ∀ s chronicle r id m, Fires base s chronicle r id m → I s.store chronicle.firings →
    I (r.fire m (s.lastScope + 1) s.store).1 (chronicle.firings ++ [⟨id, m.constraints⟩]) ∧
      measure (r.fire m (s.lastScope + 1) s.store).1 (chronicle.firings ++ [⟨id, m.constraints⟩]) <
        measure s.store chronicle.firings

section Run
variable {base : RuleBase} {I : Store → List Combination → Prop}
  {measure : Store → List Combination → Nat} {s : Session} {chronicle : Chronicle}

lemma Consistent.step_progresses (h : Consistent base s chronicle) (hheads : base.HasHeads)
    (progresses : Progresses base I measure) (holds : I s.store chronicle.firings) :
    I s.step.session.store (chronicle ++ s.stepChronicle).firings ∧
      (s.step.fired = true →
        measure s.step.session.store (chronicle ++ s.stepChronicle).firings <
          measure s.store chronicle.firings) := by
  have hnumbered : s.rules.numbered = base.rules.zipIdx 0 := by rw [h.rules]; rfl
  unfold Session.step Session.stepChronicle
  rw [hnumbered]
  dsimp only
  cases hfired : (s.tryRules (base.rules.zipIdx 0)).fired with
  | true =>
    obtain ⟨memo, chronicle', r, id, m, fires, hfirings, hsession, hchronicle⟩ :=
      h.fires_of_tryRules hheads [] rfl (fun _ hlt => absurd hlt (Nat.not_lt_zero _))
        hfired
    have progress := progresses _ _ _ _ _ fires (hfirings ▸ holds)
    rw [List.length_nil] at hsession hchronicle
    rw [hsession, (tryRule_of_some fires.found).2, hchronicle, Chronicle.firings_append,
      firings_ruleChronicle_of_some fires.found, ← hfirings]
    exact ⟨progress.1, fun _ => progress.2⟩
  | false =>
    have registered : ∀ pair ∈ base.rules.zipIdx 0, base.get? pair.2 = some pair.1 :=
      fun pair hpair => (mem_numbered base).mp hpair
    have keeps := (h.tryRules hheads registered).2 hfired
    rw [keeps.1, Chronicle.firings_append, firings_rulesChronicle_of_unfired hfired, List.append_nil]
    exact ⟨holds, fun hfalse => Bool.noConfusion hfalse⟩

lemma Consistent.run_progresses (h : Consistent base s chronicle) (hheads : base.HasHeads)
    (progresses : Progresses base I measure) (holds : I s.store chronicle.firings) (passes : Nat)
    (events : Array Event) {allowed : Nat} (bound : measure s.store chronicle.firings ≤ allowed) :
    (s.run passes events allowed).verdict = .fixpoint ∧
      I (s.run passes events allowed).session.store (chronicle ++ s.runChronicle allowed).firings := by
  induction allowed generalizing s chronicle passes events with
  | zero =>
    obtain ⟨keeps, decreases⟩ := h.step_progresses hheads progresses holds
    rw [Session.run, Session.runChronicle]
    generalize s.step = attempt at keeps decreases ⊢
    obtain ⟨_ | _, s', new⟩ := attempt
    · exact ⟨rfl, keeps⟩
    · exact absurd (decreases rfl) (by omega)
  | succ allowed ih =>
    obtain ⟨keeps, decreases⟩ := h.step_progresses hheads progresses holds
    have consistent := (h.step hheads).1
    rw [Session.run, Session.runChronicle]
    generalize s.step = attempt at keeps decreases consistent ⊢
    obtain ⟨_ | _, s', new⟩ := attempt
    · exact ⟨rfl, keeps⟩
    · have rest := ih consistent keeps (passes + 1) (events ++ new)
        (Nat.le_of_lt_succ ((decreases rfl).trans_le bound))
      rwa [Chronicle.append_assoc] at rest

/-- Solving reaches a fixpoint when the passes suffice for the measure, and what every firing keeps
still holds there. -/
theorem Consistent.solve_progresses (h : Consistent base s chronicle) (hheads : base.HasHeads)
    (progresses : Progresses base I measure) (holds : I s.store chronicle.firings)
    (bound : measure s.store chronicle.firings ≤ s.maxPasses) :
    s.solve.verdict = .fixpoint ∧ ∃ final, Consistent base s.solve.session final ∧
      HasTriedAll base s.solve.session final ∧ I s.solve.session.store final.firings := by
  obtain ⟨verdict, keeps⟩ := h.run_progresses hheads progresses holds 0 #[] bound
  obtain ⟨consistent, tried⟩ := h.solve hheads
  exact ⟨verdict, _, consistent, tried verdict, keeps⟩

end Run

end ConstraintHandling
