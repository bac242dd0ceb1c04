import ConstraintHandling.Proofs.Search.Trace
import ConstraintHandling.Proofs.Store.Candidate
import ConstraintHandling.Proofs.Store.Growth

/-! Coherent memos. Every environment of a memo but the empty one comes from a path, the constraints
that heads have taken; every outcome on record belongs to the candidate at its position, and it is
still right after the store has grown. A fresh candidate therefore leads to a new path. -/
namespace ConstraintHandling
namespace Search

/-- The constraints that the heads of a rule took on the way to an environment: the last one, and
those before it, the latest first. -/
structure Path where
  rule : RuleId
  latest : ConstraintId
  earlier : List ConstraintId

/-- An environment of the given number is the one to which the claimed constraints of a rule lead. -/
inductive IsNode (paths : List Path) (rule : RuleId) : List ConstraintId → EnvironmentId → Prop
  | start : IsNode paths rule [] Memo.start
  | taken {c : ConstraintId} {cs : List ConstraintId} {e : Nat} (h : paths[e]? = some ⟨rule, c, cs⟩) :
    IsNode paths rule (c :: cs) (e + 1)

/-- The combinations on which a rule has been tried. -/
def triedBy (rule : RuleId) (trials : List Trial) : List (List ConstraintId) :=
  (trials.filter fun t => t.rule == rule).map Trial.constraints

lemma mem_triedBy {rule : RuleId} {trials : List Trial} {cs : List ConstraintId} :
    cs ∈ triedBy rule trials ↔ (rule, cs) ∈ trials.map fun t => (t.rule, t.constraints) := by
  simp only [triedBy, List.mem_map, List.mem_filter, beq_iff_eq, Prod.mk.injEq]
  constructor
  · rintro ⟨t, ⟨ht, hrule⟩, hcs⟩
    exact ⟨t, ht, hrule, hcs⟩
  · rintro ⟨t, ht, hrule, hcs⟩
    exact ⟨t, ⟨ht, hrule⟩, hcs⟩

/-- A memo with the paths of its environments and with all trials made so far. -/
structure History where
  memo : Memo
  paths : List Path
  trials : List Trial

namespace History

def reject (g : History) (stage : Stage) : History :=
  ⟨g.memo.record stage .noMatch, g.paths, g.trials⟩

def accept (g : History) (stage : Stage) (path : Path) (env : Environment) (trials : List Trial) :
    History :=
  ⟨g.memo.recordMatch stage env, g.paths ++ [path], g.trials ++ trials⟩

end History

/-- The outcome on record for a candidate of a head, under an environment and behind claimed
constraints. -/
inductive Explains (store : Store) (g : History) (rule : RuleId) (claimed : List ConstraintId)
    (head : Term) (env : Environment) : ConstraintId → Slot → Prop
  | noMatch {c : ConstraintId} (old : c < store.size)
      (h : unifyAvailable store claimed head env c = none) :
    Explains store g rule claimed head env c .noMatch
  | matched {c : ConstraintId} {id : EnvironmentId} {env' : Environment} (old : c < store.size)
      (unified : ((store.get? c).bind fun t => unify head t env) = some env')
      (kept : g.memo.environment? id = some env') (node : IsNode g.paths rule (c :: claimed) id) :
    Explains store g rule claimed head env c (.matched id)

/-- The place of a head in the search: its rule, the claimed constraints, the environment they lead
to, and the head itself. -/
structure Site (base : RuleBase) (g : History) where
  id : RuleId
  rule : Rule
  claimed : List ConstraintId
  parent : EnvironmentId
  env : Environment
  head : Term
  registered : base.get? id = some rule
  node : IsNode g.paths id claimed parent
  kept : g.memo.environment? parent = some env
  next : rule.heads[claimed.length]? = some head

def Site.stage {base : RuleBase} {g : History} (s : Site base g) : Stage :=
  ⟨s.parent, s.id, s.claimed.length⟩

def Site.candidates {base : RuleBase} {g : History} (s : Site base g) (store : Store) :
    List ConstraintId :=
  (store.candidates s.head s.env).toList

/-- The outcomes at a site are on record for the first candidates. -/
def Site.Explained {base : RuleBase} {g : History} (s : Site base g) (store : Store) : Prop :=
  ∃ met later, s.candidates store = met ++ later ∧
    List.Forall₂ (Explains store g s.id s.claimed s.head s.env) met (g.memo.outcomes s.stage).toList

/-- What holds of the memo, its paths and the trials throughout. -/
structure Coherent (base : RuleBase) (store : Store) (g : History) : Prop where
  indexed : store.Indexed
  size : g.memo.size = g.paths.length + 1
  start : g.memo.environment? Memo.start = some .empty
  unused : ∀ stage, g.memo.size ≤ stage.parent → g.memo.outcomes stage = #[]
  nodup : g.paths.Nodup
  origin : ∀ {e rule c cs}, g.paths[e]? = some ⟨rule, c, cs⟩ →
    ∃ id, IsNode g.paths rule cs id ∧ .matched (e + 1) ∈ g.memo.outcomes ⟨id, rule, cs.length⟩
  explained : ∀ s : Site base g, s.Explained store
  tried : ∀ {rule c cs}, (c :: cs).reverse ∈ triedBy rule g.trials ↔
    ⟨rule, c, cs⟩ ∈ g.paths ∧ ∃ r, base.get? rule = some r ∧ r.heads.length = cs.length + 1

section Nodes
variable {paths paths' : List Path} {rule rule' : RuleId} {cs cs' : List ConstraintId}
  {id id' : EnvironmentId}

lemma IsNode.mono (h : IsNode paths rule cs id) (grows : paths <+: paths') :
    IsNode paths' rule cs id := by
  obtain ⟨later, rfl⟩ := grows
  cases h with
  | start => exact .start
  | taken h => exact .taken (by rw [List.getElem?_append_left (List.getElem?_eq_some_iff.mp h).1, h])

lemma IsNode.le_length (h : IsNode paths rule cs id) : id ≤ paths.length := by
  cases h with
  | start => exact Nat.zero_le _
  | taken h => exact (List.getElem?_eq_some_iff.mp h).1

lemma IsNode.claimed_eq (h : IsNode paths rule cs id) (h' : IsNode paths rule cs' id) : cs = cs' := by
  cases h with
  | start => cases h'; rfl
  | taken h =>
    cases h' with
    | taken h' =>
      rw [h] at h'
      cases h'
      rfl

lemma IsNode.id_eq (nodup : paths.Nodup) (h : IsNode paths rule cs id)
    (h' : IsNode paths rule cs id') : id = id' := by
  cases h with
  | start => cases h'; rfl
  | taken h =>
    cases h' with
    | taken h' =>
      obtain ⟨he, h⟩ := List.getElem?_eq_some_iff.mp h
      obtain ⟨he', h'⟩ := List.getElem?_eq_some_iff.mp h'
      rw [(nodup.getElem_inj_iff).mp (h.trans h'.symm)]

lemma IsNode.mem {c : ConstraintId} (h : IsNode paths rule (c :: cs) id) :
    ⟨rule, c, cs⟩ ∈ paths := by
  cases h with
  | taken h => exact List.mem_of_getElem? h

end Nodes

/-- The second history keeps the paths and the environments of the first one. -/
structure History.Grows (g g' : History) : Prop where
  paths : g.paths <+: g'.paths
  keeps : ∀ {id env}, g.memo.environment? id = some env → g'.memo.environment? id = some env

lemma History.Grows.refl (g : History) : g.Grows g :=
  ⟨List.prefix_refl _, fun h => h⟩

lemma History.Grows.trans {g₁ g₂ g₃ : History} (h : g₁.Grows g₂) (h' : g₂.Grows g₃) : g₁.Grows g₃ :=
  ⟨h.paths.trans h'.paths, fun hid => h'.keeps (h.keeps hid)⟩

def Site.later {base : RuleBase} {g g' : History} (s : Site base g) (h : g.Grows g') : Site base g' :=
  { s with node := s.node.mono h.paths, kept := h.keeps s.kept }

lemma Site.eq_of_stage_eq {base : RuleBase} {g : History} (s : Site base g) {t : Site base g}
    (same : s.stage = t.stage) : s = t := by
  -- The environment determines the claimed constraints.
  obtain ⟨id, rule, claimed, parent, env, head, registered, node, kept, next⟩ := s
  obtain ⟨id', rule', claimed', parent', env', head', registered', node', kept', next'⟩ := t
  simp only [Site.stage, Stage.mk.injEq] at same
  obtain ⟨rfl, rfl, -⟩ := same
  obtain rfl := node.claimed_eq node'
  obtain rfl : rule = rule' := by simpa [registered] using registered'
  obtain rfl : head = head' := by simpa [next] using next'
  obtain rfl : env = env' := by simpa [kept] using kept'
  rfl

section Explained
variable {base : RuleBase} {store : Store} {g g' : History}

lemma Explains.later {rule : RuleId} {claimed : List ConstraintId} {head : Term} {env : Environment}
    {c : ConstraintId} {slot : Slot} (h : Explains store g rule claimed head env c slot)
    (grows : g.Grows g') : Explains store g' rule claimed head env c slot := by
  cases h with
  | noMatch old h => exact .noMatch old h
  | matched old unified kept node =>
    exact .matched old unified (grows.keeps kept) (node.mono grows.paths)

lemma Site.Explained.split {s : Site base g} (h : s.Explained store) :
    ∃ met, s.candidates store = met ++ fresh store s.head s.env s.stage g.memo ∧
      List.Forall₂ (Explains store g s.id s.claimed s.head s.env) met
        (g.memo.outcomes s.stage).toList := by
  obtain ⟨met, later, heq, hmet⟩ := h
  have hlater : fresh store s.head s.env s.stage g.memo = later := by
    have length : met.length = (g.memo.outcomes s.stage).size := by simpa using hmet.length_eq
    have heq : (store.candidates s.head s.env).toList = met ++ later := heq
    rw [fresh, heq, ← length, List.drop_left]
  exact ⟨met, hlater ▸ heq, hmet⟩

lemma zip_append_of_length {α β : Type} {as : List α} {bs : List β} (length : as.length = bs.length)
    (later : List α) : (as ++ later).zip bs = as.zip bs := by
  have both : (as ++ later).zip (bs ++ []) = as.zip bs ++ later.zip [] := List.zip_append length
  simpa using both

lemma Coherent.lt_size_of_fresh (h : Coherent base store g) (s : Site base g) {c : ConstraintId}
    (hc : c ∈ fresh store s.head s.env s.stage g.memo) : c < store.size := by
  have hmem : c ∈ (store.candidates s.head s.env).toList := List.mem_of_mem_drop hc
  rw [Store.toList_candidates h.indexed, Store.mem_idsWhere] at hmem
  obtain ⟨t, ht, -⟩ := hmem
  exact Store.lt_size_of_get? ht

/-- A fresh candidate leads to a new path. -/
theorem Coherent.fresh_notMem (h : Coherent base store g) (s : Site base g) {c : ConstraintId}
    (hc : c ∈ fresh store s.head s.env s.stage g.memo) : ⟨s.id, c, s.claimed⟩ ∉ g.paths := by
  -- A path that exists was recorded at the site, hence for a candidate that has its outcome.
  intro hpath
  obtain ⟨e, he⟩ := List.getElem?_of_mem hpath
  obtain ⟨id, hnode, hslot⟩ := h.origin he
  obtain ⟨met, hmet, houtcomes⟩ := (h.explained s).split
  obtain rfl := hnode.id_eq h.nodup s.node
  obtain ⟨d, hd, hexplains⟩ : ∃ d ∈ met,
      Explains store g s.id s.claimed s.head s.env d (.matched (e + 1)) := by
    obtain ⟨i, hi, hget⟩ := List.getElem_of_mem (Array.mem_toList_iff.mpr hslot)
    have hi' : i < met.length := houtcomes.length_eq ▸ hi
    refine ⟨met[i], List.getElem_mem hi', ?_⟩
    rw [← hget]
    exact houtcomes.get hi' hi
  cases hexplains with
  | matched _ _ _ hnode =>
    cases hnode with
    | taken hd' =>
      rw [he] at hd'
      cases hd'
      have nodup : (met ++ fresh store s.head s.env s.stage g.memo).Nodup :=
        hmet ▸ (Store.pairwise_candidates h.indexed s.head s.env).imp Nat.ne_of_lt
      exact (List.nodup_append.mp nodup).2.2 c hd c hc rfl

lemma Coherent.explained_record (h : Coherent base store g) (s : Site base g) {c : ConstraintId}
    {rest : List ConstraintId} (hfresh : fresh store s.head s.env s.stage g.memo = c :: rest)
    (grows : g.Grows g') {slot : Slot}
    (houtcomes : ∀ stage, g'.memo.outcomes stage =
      if s.stage = stage then (g.memo.outcomes stage).push slot else g.memo.outcomes stage)
    (hslot : Explains store g' s.id s.claimed s.head s.env c slot) (t : Site base g) :
    (t.later grows).Explained store := by
  have later {met : List ConstraintId} {slots : List Slot}
      (hmet : List.Forall₂ (Explains store g t.id t.claimed t.head t.env) met slots) :
      List.Forall₂ (Explains store g' t.id t.claimed t.head t.env) met slots :=
    hmet.imp fun _ _ hc => hc.later grows
  have hstage : (t.later grows).stage = t.stage := rfl
  rw [Site.Explained, hstage, houtcomes]
  split
  · next same =>
    obtain rfl := s.eq_of_stage_eq same
    obtain ⟨met, hmet, houtcomes⟩ := (h.explained s).split
    refine ⟨met ++ [c], rest, ?_, ?_⟩
    · rw [hfresh] at hmet
      exact hmet.trans (List.append_cons ..)
    · rw [Array.toList_push]
      exact List.rel_append (later houtcomes) (.cons hslot .nil)
  · obtain ⟨met, fresh, hmet, houtcomes⟩ := h.explained t
    exact ⟨met, fresh, hmet, later houtcomes⟩

end Explained

section Record
variable {base : RuleBase} {store : Store} {g : History}

lemma Coherent.lt_size (h : Coherent base store g) {rule : RuleId} {cs : List ConstraintId}
    {id : EnvironmentId} (node : IsNode g.paths rule cs id) : id < g.memo.size :=
  h.size ▸ Nat.lt_succ_of_le node.le_length

lemma Coherent.node_append (h : Coherent base store g) (rule : RuleId) (c : ConstraintId)
    (cs : List ConstraintId) : IsNode (g.paths ++ [⟨rule, c, cs⟩]) rule (c :: cs) g.memo.size :=
  h.size ▸ .taken List.getElem?_concat_length

lemma isAvailable_iff {claimed : List ConstraintId} {c : ConstraintId} :
    isAvailable store claimed c = true ↔ store.isLive c = true ∧ c ∉ claimed := by
  simp [isAvailable]

lemma isAvailable_of_unifyAvailable {claimed : List ConstraintId} {head : Term}
    {env env' : Environment} {c : ConstraintId}
    (h : unifyAvailable store claimed head env c = some env') :
    isAvailable store claimed c = true := by
  unfold unifyAvailable at h
  split at h
  · assumption
  · cases h

lemma unify_of_unifyAvailable {claimed : List ConstraintId} {head : Term} {env env' : Environment}
    {c : ConstraintId} (h : unifyAvailable store claimed head env c = some env') :
    ((store.get? c).bind fun t => unify head t env) = some env' := by
  unfold unifyAvailable at h
  split at h
  · cases hc : store.get? c with
    | none => simp [hc] at h
    | some t => simpa [hc] using h
  · cases h

lemma grows_reject (g : History) (stage : Stage) : g.Grows (g.reject stage) :=
  ⟨List.prefix_refl _, fun h => h⟩

lemma outcomes_reject (g : History) (stage other : Stage) :
    (g.reject stage).memo.outcomes other =
      if stage = other then (g.memo.outcomes other).push .noMatch else g.memo.outcomes other :=
  Memo.outcomes_record ..

lemma environment?_accept (g : History) (stage : Stage) (path : Path) (env : Environment)
    (trials : List Trial) (id : EnvironmentId) :
    (g.accept stage path env trials).memo.environment? id =
      if id = g.memo.size then some env else g.memo.environment? id :=
  Memo.environment?_recordMatch ..

lemma outcomes_accept (g : History) (stage : Stage) (path : Path) (env : Environment)
    (trials : List Trial) (other : Stage) :
    (g.accept stage path env trials).memo.outcomes other =
      if stage = other then (g.memo.outcomes other).push (.matched g.memo.size)
      else g.memo.outcomes other :=
  Memo.outcomes_recordMatch ..

lemma Site.stage_ne (s : Site base g) {stage : Stage} (new : g.memo.size ≤ stage.parent) :
    s.stage ≠ stage := by
  rintro rfl
  exact absurd (Memo.lt_size_of_environment? s.kept) (Nat.not_lt.mpr new)

lemma mem_ite_push {p : Prop} [Decidable p] {old : Array Slot} {slot : Slot} (new : Slot)
    (h : slot ∈ old) : slot ∈ if p then old.push new else old := by
  split
  · exact Array.mem_push_of_mem _ h
  · exact h

lemma grows_accept (g : History) (stage : Stage) (path : Path) (env : Environment)
    (trials : List Trial) : g.Grows (g.accept stage path env trials) where
  paths := List.prefix_append ..
  keeps h := Memo.environment?_keeps env h

lemma IsNode.of_append {paths : List Path} {path : Path} {rule : RuleId} {cs : List ConstraintId}
    {id : EnvironmentId} (h : IsNode (paths ++ [path]) rule cs id) :
    IsNode paths rule cs id ∨
      id = paths.length + 1 ∧ path.rule = rule ∧ path.latest :: path.earlier = cs := by
  cases h with
  | start => exact .inl .start
  | @taken c cs e h =>
    obtain hlt | hge := Nat.lt_or_ge e paths.length
    · rw [List.getElem?_append_left hlt] at h
      exact .inl (.taken h)
    · rw [List.getElem?_append_right hge, List.getElem?_singleton] at h
      split at h
      · next last =>
        obtain rfl : path = ⟨rule, c, cs⟩ := by simpa using h
        have he : e = paths.length := by omega
        exact .inr ⟨by rw [he], rfl, rfl⟩
      · cases h

theorem Coherent.reject (h : Coherent base store g) (s : Site base g) {c : ConstraintId}
    {rest : List ConstraintId} (hfresh : fresh store s.head s.env s.stage g.memo = c :: rest)
    (clash : unifyAvailable store s.claimed s.head s.env c = none) :
    Coherent base store (g.reject s.stage) where
  indexed := h.indexed
  size := h.size
  start := h.start
  unused stage hstage := by
    rw [outcomes_reject, if_neg (s.stage_ne hstage)]
    exact h.unused stage hstage
  nodup := h.nodup
  origin he := by
    obtain ⟨id, node, hslot⟩ := h.origin he
    refine ⟨id, node, ?_⟩
    rw [outcomes_reject]
    exact mem_ite_push _ hslot
  explained t := by
    have old : c < store.size := h.lt_size_of_fresh s (hfresh ▸ List.mem_cons_self)
    exact h.explained_record s hfresh (grows_reject g s.stage)
      (outcomes_reject g s.stage) (.noMatch old clash)
      ⟨t.id, t.rule, t.claimed, t.parent, t.env, t.head, t.registered, t.node, t.kept, t.next⟩
  tried := h.tried

lemma Coherent.unused_accept (h : Coherent base store g) (s : Site base g) (path : Path)
    (env' : Environment) (trials : List Trial) {stage : Stage}
    (hstage : (g.accept s.stage path env' trials).memo.size ≤ stage.parent) :
    (g.accept s.stage path env' trials).memo.outcomes stage = #[] := by
  have new : g.memo.size ≤ stage.parent := by
    change (g.memo.recordMatch s.stage env').size ≤ _ at hstage
    rw [Memo.size_recordMatch] at hstage
    exact Nat.le_of_succ_le hstage
  rw [outcomes_accept, if_neg (s.stage_ne new)]
  exact h.unused stage new

lemma Coherent.nodup_append (h : Coherent base store g) (s : Site base g) {c : ConstraintId}
    (hc : c ∈ fresh store s.head s.env s.stage g.memo) :
    (g.paths ++ [(⟨s.id, c, s.claimed⟩ : Path)]).Nodup := by
  refine List.nodup_append.mpr ⟨h.nodup, List.nodup_singleton _, ?_⟩
  rintro path hpath _ hnew rfl
  rw [List.mem_singleton.mp hnew] at hpath
  exact h.fresh_notMem s hc hpath

lemma Coherent.origin_accept (h : Coherent base store g) (s : Site base g) {c : ConstraintId}
    (env' : Environment) (trials : List Trial) {e : Nat} {rule : RuleId} {d : ConstraintId}
    {ds : List ConstraintId}
    (he : (g.accept s.stage ⟨s.id, c, s.claimed⟩ env' trials).paths[e]? = some ⟨rule, d, ds⟩) :
    ∃ id, IsNode (g.accept s.stage ⟨s.id, c, s.claimed⟩ env' trials).paths rule ds id ∧
      .matched (e + 1) ∈
        (g.accept s.stage ⟨s.id, c, s.claimed⟩ env' trials).memo.outcomes ⟨id, rule, ds.length⟩ := by
  -- The new path was recorded at the site; the others were recorded before.
  have grows := grows_accept g s.stage ⟨s.id, c, s.claimed⟩ env' trials
  obtain hold | ⟨hid, hrule, hcs⟩ := (IsNode.taken he).of_append
  · cases hold with
    | taken hold =>
      obtain ⟨id, node, hslot⟩ := h.origin hold
      refine ⟨id, node.mono grows.paths, ?_⟩
      rw [outcomes_accept]
      exact mem_ite_push _ hslot
  · cases hrule
    cases hcs
    refine ⟨s.parent, s.node.mono grows.paths, ?_⟩
    have hstage : s.stage = ⟨s.parent, s.id, s.claimed.length⟩ := rfl
    rw [outcomes_accept, if_pos hstage, hid, ← h.size]
    exact Array.mem_push_self

lemma Coherent.explained_accept (h : Coherent base store g) (s : Site base g) {c : ConstraintId}
    {rest : List ConstraintId} (hfresh : fresh store s.head s.env s.stage g.memo = c :: rest)
    {env' : Environment} (unified : unifyAvailable store s.claimed s.head s.env c = some env')
    (trials : List Trial) (t : Site base (g.accept s.stage ⟨s.id, c, s.claimed⟩ env' trials)) :
    t.Explained store := by
  -- A site is one of before, or its environment is the new one, where nothing is on record yet.
  have old : c < store.size := h.lt_size_of_fresh s (hfresh ▸ List.mem_cons_self)
  have grows := grows_accept g s.stage ⟨s.id, c, s.claimed⟩ env' trials
  obtain hold | ⟨hid, hrule, hcs⟩ := t.node.of_append
  · have kept : g.memo.environment? t.parent = some t.env := by
      have hkept := t.kept
      rwa [environment?_accept, if_neg (h.lt_size hold).ne] at hkept
    have hslot : Explains store (g.accept s.stage ⟨s.id, c, s.claimed⟩ env' trials) s.id s.claimed
        s.head s.env c (.matched g.memo.size) := by
      refine .matched old (unify_of_unifyAvailable unified) ?_ (h.node_append ..)
      rw [environment?_accept, if_pos rfl]
    exact h.explained_record s hfresh grows (fun _ => outcomes_accept ..) hslot
      ⟨t.id, t.rule, t.claimed, t.parent, t.env, t.head, t.registered, hold, kept, t.next⟩
  · have new : g.memo.size ≤ t.stage.parent := (hid.trans h.size.symm).ge
    refine ⟨[], t.candidates store, rfl, ?_⟩
    rw [outcomes_accept, if_neg (s.stage_ne new), h.unused _ new]
    exact .nil

lemma Coherent.tried_append (h : Coherent base store g) (s : Site base g) {c : ConstraintId}
    {trials : List Trial}
    (htrials : (trials.map fun t => (t.rule, t.constraints)) =
      if s.rule.heads.length = s.claimed.length + 1 then [(s.id, (c :: s.claimed).reverse)] else [])
    {rule : RuleId} {d : ConstraintId} {ds : List ConstraintId} :
    (d :: ds).reverse ∈ triedBy rule (g.trials ++ trials) ↔
      ⟨rule, d, ds⟩ ∈ g.paths ++ [⟨s.id, c, s.claimed⟩] ∧
        ∃ r, base.get? rule = some r ∧ r.heads.length = ds.length + 1 := by
  have hpath : (⟨rule, d, ds⟩ : Path) ∈ g.paths ++ [⟨s.id, c, s.claimed⟩] ↔
      ⟨rule, d, ds⟩ ∈ g.paths ∨ rule = s.id ∧ d :: ds = c :: s.claimed := by
    simp
  rw [hpath, mem_triedBy, List.map_append, List.mem_append, ← mem_triedBy, h.tried, htrials]
  constructor
  · rintro (⟨hold, hlast⟩ | hnew)
    · exact ⟨.inl hold, hlast⟩
    · split at hnew
      · next last =>
        obtain ⟨hrule, hcs⟩ := Prod.mk.injEq .. ▸ List.mem_singleton.mp hnew
        have hcs : d :: ds = c :: s.claimed := List.reverse_injective hcs
        have hlength : ds.length = s.claimed.length := by cases hcs; rfl
        exact ⟨.inr ⟨hrule, hcs⟩, s.rule, hrule ▸ s.registered, hlength ▸ last⟩
      · cases hnew
  · rintro ⟨hold | ⟨rfl, hcs⟩, r, hr, hlast⟩
    · exact .inl ⟨hold, r, hr, hlast⟩
    · obtain rfl : s.rule = r := by simpa [s.registered] using hr
      cases hcs
      rw [if_pos hlast]
      exact .inr (List.mem_singleton_self _)

/-- Recording that a candidate matched keeps the memo coherent, provided that the trial is recorded
where the head is the last one. -/
theorem Coherent.accept (h : Coherent base store g) (s : Site base g) {c : ConstraintId}
    {rest : List ConstraintId} (hfresh : fresh store s.head s.env s.stage g.memo = c :: rest)
    {env' : Environment} (unified : unifyAvailable store s.claimed s.head s.env c = some env')
    {trials : List Trial}
    (htrials : (trials.map fun t => (t.rule, t.constraints)) =
      if s.rule.heads.length = s.claimed.length + 1 then [(s.id, (c :: s.claimed).reverse)] else []) :
    Coherent base store (g.accept s.stage ⟨s.id, c, s.claimed⟩ env' trials) where
  indexed := h.indexed
  size := by
    change (g.memo.recordMatch s.stage env').size = _
    rw [Memo.size_recordMatch, h.size]
    simp [History.accept]
  start := (grows_accept ..).keeps h.start
  unused _ := h.unused_accept s _ env' trials
  nodup := h.nodup_append s (hfresh ▸ List.mem_cons_self)
  origin := h.origin_accept s env' trials
  explained := h.explained_accept s hfresh unified trials
  tried := h.tried_append s htrials

end Record

section Growth
variable {base : RuleBase} {store store' : Store} {g : History}

lemma Explains.extend {rule : RuleId} {claimed : List ConstraintId} {head : Term} {env : Environment}
    {c : ConstraintId} {slot : Slot} (h : Explains store g rule claimed head env c slot)
    (grows : store.Extends store') : Explains store' g rule claimed head env c slot := by
  cases h with
  | noMatch old h =>
    refine .noMatch (old.trans_le grows.size_le) ?_
    unfold unifyAvailable isAvailable at h ⊢
    rw [grows.get c old]
    cases hlive : store'.isLive c with
    | false => rfl
    | true => rwa [grows.live c old hlive] at h
  | matched old unified kept node =>
    exact .matched (old.trans_le grows.size_le) (by rw [grows.get c old, unified]) kept node

theorem Coherent.reaches (h : Coherent base store g) (reaches : store.Reaches store') :
    Coherent base store' g where
  indexed := reaches.indexed h.indexed
  size := h.size
  start := h.start
  unused := h.unused
  nodup := h.nodup
  origin := h.origin
  explained s := by
    have grows := reaches.extends h.indexed
    obtain ⟨met, later, hmet, houtcomes⟩ := h.explained s
    obtain ⟨added, hadded, -⟩ :=
      grows.candidates_prefix h.indexed (reaches.indexed h.indexed) s.head s.env
    refine ⟨met, later ++ added, ?_, houtcomes.imp fun _ _ hc => hc.extend grows⟩
    have hmet : (store.candidates s.head s.env).toList = met ++ later := hmet
    rw [Site.candidates, hadded, hmet, List.append_assoc]
  tried := h.tried

def History.initial : History := ⟨.initial, [], []⟩

theorem coherent_initial (base : RuleBase) : Coherent base .empty .initial where
  indexed := Store.indexed_empty
  size := rfl
  start := rfl
  unused _ _ := rfl
  nodup := List.nodup_nil
  origin he := by cases he
  explained s := ⟨[], _, rfl, .nil⟩
  tried := by simp [History.initial, triedBy]

end Growth

end Search
end ConstraintHandling
