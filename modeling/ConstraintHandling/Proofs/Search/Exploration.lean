import ConstraintHandling.Proofs.Search.Coherence

/-! The memoised search against the plain one. From a coherent memo, the search behind any claimed
constraints makes the trials and finds the match of a run through all combinations that begin with
them, leaving out those that have been tried before. -/
namespace ConstraintHandling
namespace Search

def behind (claimed : List ConstraintId) (m : Match) : Match :=
  ⟨claimed.reverse ++ m.constraints, m.env⟩

def branch (store : Store) (head : Term) (heads : List Term) (claimed : List ConstraintId)
    (env : Environment) (c : ConstraintId) : List Match :=
  match unifyAvailable store claimed head env c with
  | some env' => completions store store.canMatch heads (c :: claimed) env'
  | none => []

section Branches
variable {store : Store} {head : Term} {heads : List Term} {claimed : List ConstraintId}
  {env env' : Environment} {c : ConstraintId}

lemma branch_of_some (h : unifyAvailable store claimed head env c = some env') :
    branch store head heads claimed env c =
      completions store store.canMatch heads (c :: claimed) env' := by
  rw [branch, h]

lemma branch_of_none (h : unifyAvailable store claimed head env c = none) :
    branch store head heads claimed env c = [] := by
  rw [branch, h]

lemma canMatch_of_isOffered {t : Term} (ht : store.get? c = some t)
    (h : Store.isOffered head env t = true) : store.canMatch head c = true := by
  unfold Store.isOffered at h
  split at h
  · next f hf =>
    simp only [Bool.and_eq_true, Store.hasFunctor] at h
    simp [Store.canMatch, Store.sharesPartition, hf, ht, h.1.2]
  · cases h

lemma take_eq_none (indexed : store.Indexed)
    (h : (store.get? c).any (Store.isOffered head env) = false) :
    take store store.canMatch claimed head env c = none := by
  unfold take
  split
  · next fits =>
    simp only [Store.canMatch, Store.sharesPartition, Bool.and_eq_true] at fits
    by_contra hne
    obtain ⟨env', henv'⟩ := Option.ne_none_iff_exists'.mp hne
    obtain ⟨t, ht, hunify⟩ := Option.bind_eq_some_iff.mp (unify_of_unifyAvailable henv')
    rw [ht] at h fits
    have partition : Partition.of t = Partition.of head := by simpa using fits.2
    have offered := Store.isOffered_of_unify fits.1 (indexed.functor c t ht) partition hunify
    exact absurd offered (by simpa using h)
  · rfl

lemma flatMap_eq_flatMap_filter {α β : Type} {p : α → Bool} {f g : α → List β}
    (hkeep : ∀ a, p a = true → f a = g a) (hskip : ∀ a, p a = false → f a = []) (as : List α) :
    as.flatMap f = (as.filter p).flatMap g := by
  induction as with
  | nil => rfl
  | cons a as ih =>
    cases hp : p a with
    | false => simp [hp, hskip a hp, ih]
    | true => simp [hp, hkeep a hp, ih]

theorem completions_eq_flatMap (indexed : store.Indexed) :
    completions store store.canMatch (head :: heads) claimed env =
      (store.candidates head env).toList.flatMap (branch store head heads claimed env) := by
  rw [Store.toList_candidates indexed, Store.idsWhere, completions]
  apply flatMap_eq_flatMap_filter
  · intro c hc
    obtain ⟨t, ht, offered⟩ := (Option.any_eq_true _ _).mp hc
    have taken : take store store.canMatch claimed head env c =
        unifyAvailable store claimed head env c := if_pos (canMatch_of_isOffered ht offered)
    cases h : unifyAvailable store claimed head env c with
    | none => rw [taken, h, branch_of_none h]
    | some env' => rw [taken, h, branch_of_some h]
  · intro c hc
    rw [take_eq_none indexed hc]

end Branches

/-- A part of the search as a run through combinations that begin with the claimed constraints. The
stages of the heads before the given place are left alone. -/
structure Explores (base : RuleBase) (store : Store) (r : Rule) (rule : RuleId)
    (claimed : List ConstraintId) (place : Nat) (g : History) (ms : List Match) (result : Searched)
    (g' : History) : Prop where
  memo : result.memo = g'.memo
  trials : g'.trials = g.trials ++ result.trials
  coherent : Coherent base store g'
  grows : g.Grows g'
  frame : ∀ stage, stage.head < place → g'.memo.outcomes stage = g.memo.outcomes stage
  attempted : attempt r rule store ms (triedBy rule g.trials) =
    (result.found.map (behind claimed), result.trials)

/-- Going on behind any further constraint explores the combinations that begin with it. -/
def Continues (base : RuleBase) (store : Store) (r : Rule) (rule : RuleId)
    (claimed : List ConstraintId) (place : Nat) (heads : List Term) (next : TracedContinuation) :
    Prop :=
  ∀ {g c id env}, Coherent base store g → IsNode g.paths rule (c :: claimed) id →
    g.memo.environment? id = some env →
    ∃ g', Explores base store r rule (c :: claimed) place g
      (completions store store.canMatch heads (c :: claimed) env) (next c id env g.memo) g'

section Explores
variable {base : RuleBase} {store : Store} {r : Rule} {rule : RuleId} {claimed : List ConstraintId}
  {place : Nat} {g g₁ g' : History} {ms ms' : List Match} {result : Searched}

lemma triedBy_append (rule : RuleId) (ts ts' : List Trial) :
    triedBy rule (ts ++ ts') = triedBy rule ts ++ triedBy rule ts' := by
  simp [triedBy]

lemma triedBy_attempt (r : Rule) (rule : RuleId) (store : Store) (ms : List Match)
    (tried : List (List ConstraintId)) :
    triedBy rule (attempt r rule store ms tried).2 =
      (attempt r rule store ms tried).2.map Trial.constraints := by
  rw [triedBy, List.filter_eq_self.mpr]
  intro t ht
  obtain ⟨m, -, rfl⟩ := trial_of_attempt ht
  exact beq_self_eq_true rule

lemma Explores.triedBy_eq (h : Explores base store r rule claimed place g ms result g') :
    triedBy rule g'.trials = triedBy rule g.trials ++ result.trials.map Trial.constraints := by
  have hattempt := triedBy_attempt r rule store ms (triedBy rule g.trials)
  rw [h.attempted] at hattempt
  rw [h.trials, triedBy_append, hattempt]

lemma explores_tried (h : Coherent base store g)
    (htried : ∀ m ∈ ms, m.constraints ∈ triedBy rule g.trials) :
    Explores base store r rule claimed place g ms ⟨none, g.memo, []⟩ g where
  memo := rfl
  trials := (List.append_nil _).symm
  coherent := h
  grows := .refl g
  frame _ _ := rfl
  attempted := attempt_of_tried htried

lemma explores_nil (h : Coherent base store g) :
    Explores base store r rule claimed place g [] ⟨none, g.memo, []⟩ g :=
  explores_tried h (by simp)

lemma Explores.mono {place' : Nat} (hplace : place' ≤ place)
    (h : Explores base store r rule claimed place g ms result g') :
    Explores base store r rule claimed place' g ms result g' :=
  { h with frame := fun stage hstage => h.frame stage (hstage.trans_le hplace) }

lemma Explores.after {c : ConstraintId}
    (h : Explores base store r rule (c :: claimed) place g ms result g') :
    Explores base store r rule claimed place g ms (result.after c) g' where
  memo := h.memo
  trials := h.trials
  coherent := h.coherent
  grows := h.grows
  frame := h.frame
  attempted := by
    have hbehind : behind claimed ∘ Search.after c = behind (c :: claimed) := by
      funext m
      simp [behind, Search.after]
    rw [h.attempted, Searched.after, Option.map_map, hbehind]

lemma Explores.orElse (h : Explores base store r rule claimed place g ms result g₁)
    (later : Memo → Searched)
    (h' : ∃ g', Explores base store r rule claimed place g₁ ms' (later g₁.memo) g') :
    ∃ g', Explores base store r rule claimed place g (ms ++ ms') (result.orElse later) g' := by
  have hattempted := h.attempted
  have htried := h.triedBy_eq
  have hmemo := h.memo
  obtain ⟨_ | m, memo, trials⟩ := result
  · obtain ⟨g', h'⟩ := h'
    obtain rfl : memo = g₁.memo := hmemo
    refine ⟨g', h'.memo, ?_, h'.coherent, h.grows.trans h'.grows, ?_, ?_⟩
    · rw [h'.trials, h.trials, List.append_assoc]
      rfl
    · intro stage hstage
      rw [h'.frame stage hstage, h.frame stage hstage]
    · have hlater := h'.attempted
      rw [htried] at hlater
      rw [attempt_append, hattempted]
      simp only [Option.map_none, hlater]
      rfl
  · refine ⟨g₁, h.memo, h.trials, h.coherent, h.grows, h.frame, ?_⟩
    rw [attempt_append, hattempted]
    rfl

lemma unifyAvailable_of_isAvailable {head : Term} {env env' : Environment} {c : ConstraintId}
    (available : isAvailable store claimed c = true)
    (unified : ((store.get? c).bind fun t => unify head t env) = some env') :
    unifyAvailable store claimed head env c = some env' := by
  rw [unifyAvailable, if_pos available, ← unified]
  cases store.get? c <;> rfl

lemma fresh_of_size {head : Term} {env : Environment} {stage : Stage} {memo memo' : Memo}
    {c : ConstraintId} {rest : List ConstraintId}
    (hsize : (memo'.outcomes stage).size = (memo.outcomes stage).size + 1)
    (hfresh : fresh store head env stage memo = c :: rest) :
    fresh store head env stage memo' = rest := by
  rw [fresh, hsize, ← List.drop_drop]
  unfold fresh at hfresh
  rw [hfresh, List.drop_one, List.tail_cons]

lemma Explores.of_record {stage : Stage} {slot : Slot} (htrials : g₁.trials = g.trials)
    (grows : g.Grows g₁)
    (houtcomes : ∀ other, g₁.memo.outcomes other =
      if stage = other then (g.memo.outcomes other).push slot else g.memo.outcomes other)
    (hstage : place ≤ stage.head)
    (h : Explores base store r rule claimed place g₁ ms result g') :
    Explores base store r rule claimed place g ms result g' where
  memo := h.memo
  trials := by rw [h.trials, htrials]
  coherent := h.coherent
  grows := grows.trans h.grows
  frame other hother := by
    have hne : stage ≠ other := by
      rintro rfl
      omega
    rw [h.frame other hother, houtcomes, if_neg hne]
  attempted := by rw [← htrials, h.attempted]

lemma explores_revisit {head : Term} {heads : List Term} {env : Environment}
    {next : TracedContinuation} (hnext : Continues base store r rule claimed place heads next)
    (h : Coherent base store g) {met : List ConstraintId} {slots : List Slot}
    (hmet : List.Forall₂ (Explains store g rule claimed head env) met slots) :
    ∃ g', Explores base store r rule claimed place g
      (met.flatMap (branch store head heads claimed env))
      (tracedRevisit store claimed next (met.zip slots) g.memo) g' := by
  induction met generalizing g slots with
  | nil =>
    cases hmet
    exact ⟨g, explores_nil h⟩
  | cons c met ih =>
    obtain _ | ⟨hslot, hmet⟩ := hmet
    rw [List.flatMap_cons]
    cases hslot with
    | noMatch old clash =>
      rw [branch_of_none clash, List.nil_append]
      exact ih h hmet
    | matched old unified kept node =>
      rw [List.zip_cons_cons, tracedRevisit]
      split
      · next available =>
        rw [branch_of_some (unifyAvailable_of_isAvailable available unified), kept, Option.getD_some]
        obtain ⟨g₁, h₁⟩ := hnext h node kept
        refine h₁.after.orElse _ (ih h₁.coherent ?_)
        exact hmet.imp fun _ _ hc => hc.later h₁.grows
      · next gone =>
        rw [branch_of_none (by rw [unifyAvailable, if_neg gone]), List.nil_append]
        exact ih h hmet

lemma explores_scan (s : Site base g) (heads : List Term) (next : TracedContinuation)
    (hvisit : ∀ {g₁ c rest env'}, g.Grows g₁ → Coherent base store g₁ →
      fresh store s.head s.env s.stage g₁.memo = c :: rest →
      unifyAvailable store s.claimed s.head s.env c = some env' →
      ∃ g', Explores base store s.rule s.id (c :: s.claimed) s.claimed.length g₁
          (completions store store.canMatch heads (c :: s.claimed) env')
          (next c g₁.memo.size env' (g₁.memo.recordMatch s.stage env')) g' ∧
        (g'.memo.outcomes s.stage).size = (g₁.memo.outcomes s.stage).size + 1)
    {g₁ : History} (grows : g.Grows g₁) (h : Coherent base store g₁) {cs : List ConstraintId}
    (hfresh : fresh store s.head s.env s.stage g₁.memo = cs) :
    ∃ g', Explores base store s.rule s.id s.claimed s.claimed.length g₁
      (cs.flatMap (branch store s.head heads s.claimed s.env))
      (tracedScan store s.claimed s.head s.env s.stage next cs g₁.memo) g' := by
  induction cs generalizing g₁ with
  | nil => exact ⟨g₁, explores_nil h⟩
  | cons c rest ih =>
    rw [tracedScan, List.flatMap_cons]
    cases hunify : unifyAvailable store s.claimed s.head s.env c with
    | none =>
      have hsize : ((g₁.reject s.stage).memo.outcomes s.stage).size =
          (g₁.memo.outcomes s.stage).size + 1 := Memo.size_outcomes_record ..
      rw [branch_of_none hunify, List.nil_append]
      obtain ⟨g', h'⟩ := ih (grows.trans (grows_reject g₁ s.stage))
        (h.reject (s.later grows) hfresh hunify) (fresh_of_size hsize hfresh)
      refine ⟨g', h'.of_record ?_ (grows_reject ..) (outcomes_reject g₁ s.stage) (Nat.le_refl _)⟩
      rfl
    | some env' =>
      rw [branch_of_some hunify]
      obtain ⟨g₂, h₂, hsize⟩ := hvisit grows h hfresh hunify
      exact h₂.after.orElse _
        (ih (grows.trans h₂.grows) h₂.coherent (fresh_of_size hsize hfresh))

end Explores

section Heads
variable {base : RuleBase} {store : Store} {g : History}

lemma explores_tryLast (h : Coherent base store g) (s : Site base g) {c : ConstraintId}
    {rest : List ConstraintId} (hfresh : fresh store s.head s.env s.stage g.memo = c :: rest)
    {env' : Environment} (unified : unifyAvailable store s.claimed s.head s.env c = some env')
    (last : s.rule.heads.length = s.claimed.length + 1) :
    ∃ g', Explores base store s.rule s.id (c :: s.claimed) s.claimed.length g
        (completions store store.canMatch [] (c :: s.claimed) env')
        (tryLast store s.id s.rule.guards s.claimed c g.memo.size env'
          (g.memo.recordMatch s.stage env')) g' ∧
      (g'.memo.outcomes s.stage).size = (g.memo.outcomes s.stage).size + 1 := by
  let trial : Trial :=
    ⟨s.id, (c :: s.claimed).reverse, store, (checkGuards store.holds s.rule.guards env').isSome⟩
  have new : (c :: s.claimed).reverse ∉ triedBy s.id g.trials := fun hmem =>
    h.fresh_notMem s (hfresh ▸ List.mem_cons_self) (h.tried.mp hmem).1
  have coherent : Coherent base store (g.accept s.stage ⟨s.id, c, s.claimed⟩ env' [trial]) :=
    h.accept s hfresh unified (by rw [if_pos last]; rfl)
  refine ⟨_, ⟨rfl, rfl, coherent, grows_accept .., ?_, ?_⟩, Memo.size_outcomes_record ..⟩
  · exact fun stage hstage => Memo.outcomes_record_of_head_lt hstage ..
  · rw [completions, attempt, if_neg new]
    cases hguards : checkGuards store.holds s.rule.guards env' with
    | none => simp [tryLast, hguards, attempt]
    | some env'' => simp [tryLast, hguards, behind]

lemma explores_accept (h : Coherent base store g) (s : Site base g) {c : ConstraintId}
    {rest : List ConstraintId} (hfresh : fresh store s.head s.env s.stage g.memo = c :: rest)
    {env' : Environment} (unified : unifyAvailable store s.claimed s.head s.env c = some env')
    (inner : s.rule.heads.length ≠ s.claimed.length + 1) {heads : List Term}
    {next : TracedContinuation}
    (hnext : Continues base store s.rule s.id s.claimed (s.claimed.length + 1) heads next) :
    ∃ g', Explores base store s.rule s.id (c :: s.claimed) s.claimed.length g
        (completions store store.canMatch heads (c :: s.claimed) env')
        (next c g.memo.size env' (g.memo.recordMatch s.stage env')) g' ∧
      (g'.memo.outcomes s.stage).size = (g.memo.outcomes s.stage).size + 1 := by
  have coherent : Coherent base store (g.accept s.stage ⟨s.id, c, s.claimed⟩ env' []) :=
    h.accept s hfresh unified (if_neg inner).symm
  have kept : (g.accept s.stage ⟨s.id, c, s.claimed⟩ env' []).memo.environment? g.memo.size =
      some env' := by
    rw [environment?_accept, if_pos rfl]
  obtain ⟨g', h'⟩ := hnext coherent (h.node_append ..) kept
  refine ⟨g', (h'.mono (Nat.le_succ _)).of_record (List.append_nil _) (grows_accept ..)
    (fun _ => outcomes_accept ..) (Nat.le_refl _), ?_⟩
  rw [h'.frame s.stage (Nat.lt_succ_self _)]
  exact Memo.size_outcomes_record ..

lemma tried_of_explains (h : Coherent base store g) (s : Site base g)
    (last : s.rule.heads.length = s.claimed.length + 1) {met : List ConstraintId} {slots : List Slot}
    (hmet : List.Forall₂ (Explains store g s.id s.claimed s.head s.env) met slots) {m : Match}
    (hm : m ∈ met.flatMap (branch store s.head [] s.claimed s.env)) :
    m.constraints ∈ triedBy s.id g.trials := by
  induction hmet with
  | nil => cases hm
  | @cons c slot met slots hslot hmet ih =>
    obtain hm | hm := List.mem_append.mp (List.flatMap_cons ▸ hm)
    · unfold branch at hm
      split at hm
      · next env' unified =>
        obtain rfl := List.mem_singleton.mp hm
        cases hslot with
        | noMatch old clash => rw [clash] at unified; cases unified
        | matched _ _ _ node => exact h.tried.mpr ⟨node.mem, s.rule, s.registered, last⟩
      · cases hm
    · exact ih hm

lemma getElem?_of_drop {α : Type} {as bs : List α} {n : Nat} {a : α} (h : as.drop n = a :: bs) :
    as[n]? = some a ∧ as.drop (n + 1) = bs := by
  constructor
  · have hget : (as.drop n)[0]? = as[n]? := by simp
    rw [← hget, h]
    rfl
  · rw [← List.tail_drop, h, List.tail_cons]

theorem explores_matchHeads (h : Coherent base store g) (s : Site base g) {heads : List Term}
    (hheads : s.rule.heads.drop s.claimed.length = heads) :
    ∃ g', Explores base store s.rule s.id s.claimed s.claimed.length g
      (completions store store.canMatch heads s.claimed s.env)
      (tracedMatchHeads store s.id s.rule.guards heads s.claimed.length s.claimed s.parent s.env
        g.memo) g' := by
  -- The candidates are those on record and the fresh ones behind them. Before the last head both
  -- parts are gone through; at the last head every combination of the first part has been tried.
  induction heads generalizing g with
  | nil =>
    have hlt := (List.getElem?_eq_some_iff.mp s.next).1
    exact absurd (List.drop_eq_nil_iff.mp hheads) (Nat.not_le.mpr hlt)
  | cons head heads ih =>
    obtain ⟨hhead, hrest⟩ := getElem?_of_drop hheads
    obtain rfl : s.head = head := by simpa [s.next] using hhead
    obtain ⟨met, hmet, houtcomes⟩ := (h.explained s).split
    have hcandidates : (store.candidates s.head s.env).toList =
        met ++ fresh store s.head s.env s.stage g.memo := hmet
    rw [completions_eq_flatMap h.indexed, hcandidates, List.flatMap_append]
    cases heads with
    | nil =>
      have last : s.rule.heads.length = s.claimed.length + 1 := by
        have := (List.getElem?_eq_some_iff.mp s.next).1
        have := List.drop_eq_nil_iff.mp hrest
        omega
      have hscan := explores_scan s [] (tryLast store s.id s.rule.guards s.claimed)
        (fun grows h₁ hfresh unified => explores_tryLast h₁ (s.later grows) hfresh unified last)
        (.refl g) h rfl
      exact (explores_tried h fun m => tried_of_explains h s last houtcomes).orElse
        (tracedScan store s.claimed s.head s.env s.stage
          (tryLast store s.id s.rule.guards s.claimed)
          (fresh store s.head s.env s.stage g.memo)) hscan
    | cons following heads =>
      obtain ⟨hfollowing, -⟩ := getElem?_of_drop hrest
      let next : TracedContinuation := fun c id env memo =>
        tracedMatchHeads store s.id s.rule.guards (following :: heads) (s.claimed.length + 1)
          (c :: s.claimed) id env memo
      have hnext : Continues base store s.rule s.id s.claimed (s.claimed.length + 1)
          (following :: heads) next := fun {_ c id env'} h₁ node kept =>
        ih h₁ ⟨s.id, s.rule, c :: s.claimed, id, env', following, s.registered, node, kept,
          hfollowing⟩ hrest
      obtain ⟨g₁, h₁⟩ := explores_revisit hnext h houtcomes
      have hfresh : fresh store s.head s.env s.stage g₁.memo =
          fresh store s.head s.env s.stage g.memo := by
        rw [fresh, h₁.frame s.stage (Nat.lt_succ_self _), fresh]
      have hscan := explores_scan s (following :: heads) next ?_ h₁.grows h₁.coherent hfresh
      · rw [tracedMatchHeads, hcandidates]
        change ∃ g', Explores _ _ _ _ _ _ _ _ ((tracedRevisit store s.claimed next
          ((met ++ fresh store s.head s.env s.stage g.memo).zip (g.memo.outcomes s.stage).toList)
          g.memo).orElse (tracedScan store s.claimed s.head s.env s.stage next
            (fresh store s.head s.env s.stage g.memo))) g'
        rw [zip_append_of_length houtcomes.length_eq]
        exact (h₁.mono (Nat.le_succ _)).orElse _ hscan
      · intro g₂ c rest env' grows h₂ hfresh unified
        have inner : s.rule.heads.length ≠ s.claimed.length + 1 := by
          have := (List.getElem?_eq_some_iff.mp hfollowing).1
          omega
        exact explores_accept h₂ (s.later grows) hfresh unified inner hnext

/-- The search for the next match of a rule, from a coherent memo on: it makes the trials of the plain
search, finds what that search finds, and leaves the memo coherent. -/
theorem explores_tracedMatch (h : Coherent base store g) {r : Rule} {rule : RuleId}
    (hr : base.get? rule = some r) (hheads : r.heads ≠ []) :
    ∃ g', g'.memo = (r.tracedMatch rule store g.memo).memo ∧
      g'.trials = g.trials ++ (r.tracedMatch rule store g.memo).trials ∧ Coherent base store g' ∧
      attempt r rule store (combinations store store.canMatch r.heads) (triedBy rule g.trials) =
        ((r.tracedMatch rule store g.memo).found, (r.tracedMatch rule store g.memo).trials) := by
  obtain ⟨head, heads, hcons⟩ := List.exists_cons_of_ne_nil hheads
  have next : r.heads[0]? = some head := by rw [hcons]; rfl
  obtain ⟨g', h'⟩ := explores_matchHeads h
    ⟨rule, r, [], Memo.start, .empty, head, hr, .start, h.start, next⟩ (List.drop_zero ..)
  refine ⟨g', h'.memo.symm, h'.trials, h'.coherent, ?_⟩
  have hbehind : behind [] = fun m => m := rfl
  rw [combinations_eq_completions]
  exact h'.attempted.trans (by rw [hbehind, Option.map_id']; rfl)

end Heads

end Search
end ConstraintHandling
