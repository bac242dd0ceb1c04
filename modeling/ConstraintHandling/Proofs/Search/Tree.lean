import ConstraintHandling.Proofs.Search.Coherence

/-! The tree of environments in a memo. A match on record is an edge from the environment of its stage
to a new one, and its candidate is the constraint taken; so every environment hangs on one path from
the empty environment, and no constraint is taken twice on it. -/
namespace ConstraintHandling

def RuleBase.headAt (base : RuleBase) (stage : Stage) : Option Term :=
  (base.get? stage.rule).bind fun r => r.heads[stage.head]?

namespace Memo

/-- The outcome at a position of a stage is a match that led to an environment. -/
def Matches (memo : Memo) (stage : Stage) (k : Nat) (id : EnvironmentId) : Prop :=
  (memo.outcomes stage)[k]? = some (.matched id)

/-- Candidates for the heads of a rule lead from the empty environment to another one. Each further
candidate is one that matched at the environment to which those before it lead; the latest comes
first. -/
inductive Leads (base : RuleBase) (store : Store) (memo : Memo) (rule : RuleId) :
    List ConstraintId → EnvironmentId → Prop
  | start : Leads base store memo rule [] start
  | further {cs : List ConstraintId} {e id : EnvironmentId} {c : ConstraintId} {head : Term}
    {env : Environment} {k : Nat} (before : Leads base store memo rule cs e)
    (next : base.headAt ⟨e, rule, cs.length⟩ = some head) (kept : memo.environment? e = some env)
    (candidate : (store.candidates head env)[k]? = some c)
    (matched : memo.Matches ⟨e, rule, cs.length⟩ k id) : Leads base store memo rule (c :: cs) id

/-- The outcomes at a stage are those of the first candidates for its head, under the environment to
which the heads before it have led. -/
structure RecordsAt (base : RuleBase) (store : Store) (memo : Memo) (stage : Stage) (head : Term)
    (env : Environment) : Prop where
  next : base.headAt stage = some head
  kept : memo.environment? stage.parent = some env
  size_le : (memo.outcomes stage).size ≤ (store.candidates head env).size
  matched : ∀ {k id}, memo.Matches stage k id → ∃ c t env', (store.candidates head env)[k]? = some c ∧
    store.get? c = some t ∧ unify head t env = some env' ∧ memo.environment? id = some env'

/-- What is on record belongs to the candidates in a store, and the matches on record make a tree. -/
structure WellFormed (base : RuleBase) (store : Store) (memo : Memo) : Prop where
  start : memo.environment? start = some .empty
  recorded : ∀ {stage}, memo.outcomes stage ≠ #[] → ∃ head env, RecordsAt base store memo stage head env
  unique : ∀ {stage stage' k k' id}, memo.Matches stage k id → memo.Matches stage' k' id →
    stage = stage' ∧ k = k'
  ne_start : ∀ {stage k id}, memo.Matches stage k id → id ≠ Memo.start
  reached : ∀ {stage k id}, memo.Matches stage k id → ∃! cs, Leads base store memo stage.rule cs id
  distinct : ∀ {rule cs id}, Leads base store memo rule cs id → cs.Nodup

lemma outcomes_ne_empty {memo : Memo} {stage : Stage} {k : Nat} {id : EnvironmentId}
    (h : memo.Matches stage k id) : memo.outcomes stage ≠ #[] := by
  intro empty
  simp [Matches, empty] at h

section AddEnvironment
variable {base : RuleBase} {store : Store} {memo : Memo}

lemma WellFormed.leads_addEnvironment (h : WellFormed base store memo) (new : Environment)
    {rule : RuleId} {cs : List ConstraintId} {id : EnvironmentId} :
    Leads base store (memo.addEnvironment new) rule cs id ↔ Leads base store memo rule cs id := by
  constructor
  · intro leads
    induction leads with
    | start => exact .start
    | @further cs e id c head env k before next kept candidate matched ih =>
      obtain ⟨_, env', records⟩ := h.recorded (outcomes_ne_empty matched)
      have same := environment?_keeps new records.kept
      obtain rfl : env = env' := Option.some.inj (kept.symm.trans same)
      exact .further ih next records.kept candidate matched
  · intro leads
    induction leads with
    | start => exact .start
    | further before next kept candidate matched ih =>
      exact .further ih next (environment?_keeps new kept) candidate matched

theorem WellFormed.addEnvironment (h : WellFormed base store memo) (new : Environment) :
    WellFormed base store (memo.addEnvironment new) where
  start := environment?_keeps new h.start
  recorded occupied := by
    obtain ⟨head, env, records⟩ := h.recorded occupied
    refine ⟨head, env, records.next, environment?_keeps new records.kept, records.size_le, ?_⟩
    intro k id matched
    obtain ⟨c, t, env', candidate, stored, unified, kept⟩ := records.matched matched
    exact ⟨c, t, env', candidate, stored, unified, environment?_keeps new kept⟩
  unique := h.unique
  ne_start := h.ne_start
  reached matched := by
    simp only [h.leads_addEnvironment]
    exact h.reached matched
  distinct leads := h.distinct ((h.leads_addEnvironment new).mp leads)

end AddEnvironment

end Memo

namespace Search

/-- A coherent history in which outcomes are on record at sites only, and in which no path takes a
constraint twice. -/
structure Sound (base : RuleBase) (store : Store) (g : History) : Prop
    extends Coherent base store g where
  placed : ∀ {stage}, g.memo.outcomes stage ≠ #[] → ∃ s : Site base g, s.stage = stage
  distinct : ∀ path ∈ g.paths, (path.latest :: path.earlier).Nodup

section Sound
variable {base : RuleBase} {store store' : Store} {g g' : History} {rule rule' : RuleId}
  {c c' : ConstraintId} {cs cs' : List ConstraintId} {id : EnvironmentId} {k : Nat}

lemma sound_initial (base : RuleBase) : Sound base .empty .initial where
  toCoherent := coherent_initial base
  placed occupied := absurd rfl occupied
  distinct _ mem := nomatch mem

lemma Sound.nodup_of_node (h : Sound base store g) (node : IsNode g.paths rule cs id) : cs.Nodup := by
  cases node with
  | start => exact List.nodup_nil
  | taken taken => exact h.distinct _ (List.mem_of_getElem? taken)

lemma Sound.placed_record (h : Sound base store g) (s : Site base g) (grows : g.Grows g') {slot : Slot}
    (houtcomes : ∀ stage, g'.memo.outcomes stage =
      if s.stage = stage then (g.memo.outcomes stage).push slot else g.memo.outcomes stage)
    {stage : Stage} (occupied : g'.memo.outcomes stage ≠ #[]) :
    ∃ t : Site base g', t.stage = stage := by
  by_cases here : s.stage = stage
  · exact ⟨s.later grows, here⟩
  · rw [houtcomes, if_neg here] at occupied
    obtain ⟨t, ht⟩ := h.placed occupied
    exact ⟨t.later grows, ht⟩

theorem Sound.reject (h : Sound base store g) (s : Site base g) {rest : List ConstraintId}
    (hfresh : fresh store s.head s.env s.stage g.memo = c :: rest)
    (clash : unifyAvailable store s.claimed s.head s.env c = none) :
    Sound base store (g.reject s.stage) where
  toCoherent := h.toCoherent.reject s hfresh clash
  placed := h.placed_record s (grows_reject ..) fun _ => outcomes_reject ..
  distinct := h.distinct

theorem Sound.accept (h : Sound base store g) (s : Site base g) {rest : List ConstraintId}
    (hfresh : fresh store s.head s.env s.stage g.memo = c :: rest) {env' : Environment}
    (unified : unifyAvailable store s.claimed s.head s.env c = some env') {trials : List Trial}
    (htrials : (trials.map fun t => (t.rule, t.constraints)) =
      if s.rule.heads.length = s.claimed.length + 1 then [(s.id, (c :: s.claimed).reverse)] else []) :
    Sound base store (g.accept s.stage ⟨s.id, c, s.claimed⟩ env' trials) where
  toCoherent := h.toCoherent.accept s hfresh unified htrials
  placed := h.placed_record s (grows_accept ..) fun _ => outcomes_accept ..
  distinct path mem := by
    obtain old | new := List.mem_append.mp mem
    · exact h.distinct path old
    · obtain rfl := List.mem_singleton.mp new
      have available := isAvailable_of_unifyAvailable unified
      exact List.nodup_cons.mpr ⟨(isAvailable_iff.mp available).2, h.nodup_of_node s.node⟩

theorem Sound.reaches (h : Sound base store g) (reaches : store.Reaches store') :
    Sound base store' g where
  toCoherent := h.toCoherent.reaches reaches
  placed := h.placed
  distinct := h.distinct

lemma IsNode.path_eq {paths : List Path} (h : IsNode paths rule (c :: cs) id)
    (h' : IsNode paths rule' (c' :: cs') id) : rule = rule' ∧ c = c' ∧ cs = cs' := by
  cases h with
  | taken h =>
    cases h' with
    | taken h' =>
      rw [h] at h'
      cases h'
      exact ⟨rfl, rfl, rfl⟩

lemma Site.headAt_eq (s : Site base g) : base.headAt s.stage = some s.head := by
  change (base.get? s.id).bind _ = _
  rw [s.registered]
  exact s.next

lemma Coherent.explains (h : Coherent base store g) (s : Site base g) {slot : Slot}
    (recorded : (g.memo.outcomes s.stage)[k]? = some slot) :
    ∃ c, (store.candidates s.head s.env)[k]? = some c ∧
      Explains store g s.id s.claimed s.head s.env c slot := by
  obtain ⟨met, later, hmet, houtcomes⟩ := h.explained s
  have hmet : (store.candidates s.head s.env).toList = met ++ later := hmet
  rw [← Array.getElem?_toList] at recorded ⊢
  obtain ⟨hk, rfl⟩ := List.getElem?_eq_some_iff.mp recorded
  have hk' : k < met.length := houtcomes.length_eq ▸ hk
  refine ⟨met[k], ?_, houtcomes.get hk' hk⟩
  rw [hmet, List.getElem?_append_left hk', List.getElem?_eq_getElem hk']

lemma Coherent.node_of_matches (h : Coherent base store g) (s : Site base g)
    (matched : g.memo.Matches s.stage k id) :
    ∃ c, (store.candidates s.head s.env)[k]? = some c ∧ IsNode g.paths s.id (c :: s.claimed) id := by
  obtain ⟨c, candidate, explains⟩ := h.explains s matched
  cases explains with
  | matched _ _ _ node => exact ⟨c, candidate, node⟩

/-- The candidates that lead to an environment are those of its path. -/
theorem Sound.leads_iff (h : Sound base store g) :
    Memo.Leads base store g.memo rule cs id ↔ IsNode g.paths rule cs id := by
  constructor
  · intro leads
    induction leads with
    | start => exact .start
    | @further cs e id c head env k before next kept candidate matched ih =>
      obtain ⟨r, registered, next⟩ := Option.bind_eq_some_iff.mp next
      obtain ⟨c', candidate', node⟩ := h.toCoherent.node_of_matches
        ⟨rule, r, cs, e, env, head, registered, ih, kept, next⟩ matched
      obtain rfl : c = c' := Option.some.inj (candidate.symm.trans candidate')
      exact node
  · intro node
    induction cs generalizing id with
    | nil =>
      cases node
      exact .start
    | cons c cs ih =>
      cases node with
      | @taken _ _ e hpath =>
        obtain ⟨parent, before, recorded⟩ := h.origin hpath
        obtain ⟨k, matched⟩ := Array.getElem?_of_mem recorded
        obtain ⟨s, hstage⟩ := h.placed (Memo.outcomes_ne_empty matched)
        rw [← hstage] at matched
        obtain ⟨c', candidate, node⟩ := h.toCoherent.node_of_matches s matched
        obtain ⟨-, rfl, -⟩ := node.path_eq (.taken hpath)
        have hparent : s.parent = parent := congrArg Stage.parent hstage
        have kept : g.memo.environment? parent = some s.env := hparent ▸ s.kept
        rw [hstage] at matched
        exact .further (ih before) (hstage ▸ s.headAt_eq) kept candidate matched

theorem Sound.wellFormed (h : Sound base store g) : g.memo.WellFormed base store where
  start := h.start
  recorded {stage} occupied := by
    obtain ⟨s, rfl⟩ := h.placed occupied
    refine ⟨s.head, s.env, s.headAt_eq, s.kept, ?_, fun {k id} matched => ?_⟩
    · obtain ⟨met, later, hmet, houtcomes⟩ := h.explained s
      have hmet : (store.candidates s.head s.env).toList = met ++ later := hmet
      rw [← Array.length_toList, ← houtcomes.length_eq, ← Array.length_toList, hmet, List.length_append]
      exact Nat.le_add_right ..
    · obtain ⟨c, candidate, explains⟩ := h.toCoherent.explains s matched
      cases explains with
      | matched _ unified kept _ =>
        obtain ⟨t, stored, unified⟩ := Option.bind_eq_some_iff.mp unified
        exact ⟨c, t, _, candidate, stored, unified, kept⟩
  unique {stage stage' k k' id} matched matched' := by
    obtain ⟨s, rfl⟩ := h.placed (Memo.outcomes_ne_empty matched)
    obtain ⟨s', rfl⟩ := h.placed (Memo.outcomes_ne_empty matched')
    obtain ⟨c, candidate, node⟩ := h.toCoherent.node_of_matches s matched
    obtain ⟨c', candidate', node'⟩ := h.toCoherent.node_of_matches s' matched'
    obtain ⟨hrule, rfl, hclaimed⟩ := node.path_eq node'
    have hparent : s.parent = s'.parent := s.node.id_eq h.nodup (hclaimed ▸ hrule ▸ s'.node)
    have same : s.stage = s'.stage := by simp only [Site.stage, hrule, hclaimed, hparent]
    obtain rfl := s.eq_of_stage_eq same
    refine ⟨rfl, ?_⟩
    have nodup : (store.candidates s.head s.env).toList.Nodup :=
      (Store.pairwise_candidates h.indexed s.head s.env).imp Nat.ne_of_lt
    rw [← Array.getElem?_toList] at candidate candidate'
    obtain ⟨hk, -⟩ := List.getElem?_eq_some_iff.mp candidate
    exact (List.getElem?_inj hk nodup).mp (candidate.trans candidate'.symm)
  ne_start {stage k id} matched := by
    obtain ⟨s, rfl⟩ := h.placed (Memo.outcomes_ne_empty matched)
    obtain ⟨c, -, node⟩ := h.toCoherent.node_of_matches s matched
    cases node
    exact Nat.succ_ne_zero _
  reached {stage k id} matched := by
    obtain ⟨s, rfl⟩ := h.placed (Memo.outcomes_ne_empty matched)
    obtain ⟨c, -, node⟩ := h.toCoherent.node_of_matches s matched
    exact ⟨c :: s.claimed, h.leads_iff.mpr node, fun cs leads => (h.leads_iff.mp leads).claimed_eq node⟩
  distinct leads := h.nodup_of_node (h.leads_iff.mp leads)

end Sound

end Search
end ConstraintHandling
