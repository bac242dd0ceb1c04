import ConstraintHandling.Proofs.Search.Exploration
import ConstraintHandling.Proofs.Search.Tree

/-! The search with its look-ups checked. Here everything is looked up by its number at the moment when it
is needed, and a test of the memo stands behind every write; the search breaks off where nothing has
the number, or where the test fails. From a sound memo on, with a test that well-formed memos pass, it
never breaks off, and it is the search itself. -/
namespace ConstraintHandling
namespace Search

abbrev Checked := Option (Option Match × Memo)

abbrev CheckedContinuation := ConstraintId → EnvironmentId → Memo → Checked

/-- Whether a constraint can be taken for a head; there has to be one of the number. -/
def isAvailable? (store : Store) (claimed : List ConstraintId) (c : ConstraintId) : Option Bool :=
  store.consumed[c]?.map fun consumed => !consumed && !claimed.contains c

/-- Unifies a head with a constraint that is available. -/
def unifyAvailable? (store : Store) (claimed : List ConstraintId) (head : Term) (env : Environment)
    (c : ConstraintId) : Option (Option Environment) := do
  if ← isAvailable? store claimed c then
    let t ← store.get? c
    return unify head t env
  else return none

/-- `revisit` with its look-ups checked. Candidates come with the position of the first one. -/
def checkedRevisit (store : Store) (claimed : List ConstraintId) (stage : Stage)
    (next : CheckedContinuation) : List ConstraintId → Nat → Memo → Checked
  | [], _, memo => some (none, memo)
  | c :: rest, k, memo => do
    match ← (memo.outcomes stage)[k]? with
    | .noMatch => checkedRevisit store claimed stage next rest (k + 1) memo
    | .matched id =>
      if ← isAvailable? store claimed c then
        match ← next c id memo with
        | (some found, memo) => return (some (after c found), memo)
        | (none, memo) => checkedRevisit store claimed stage next rest (k + 1) memo
      else checkedRevisit store claimed stage next rest (k + 1) memo

/-- `scan` with its look-ups checked and with tests of the memo. -/
def checkedScan (test : Memo → Bool) (store : Store) (claimed : List ConstraintId) (head : Term)
    (env : Environment) (stage : Stage) (next : CheckedContinuation) :
    List ConstraintId → Memo → Checked
  | [], memo => some (none, memo)
  | c :: rest, memo => do
    match ← unifyAvailable? store claimed head env c with
    | none =>
      let memo ← Option.guard test (memo.record stage .noMatch)
      checkedScan test store claimed head env stage next rest memo
    | some env' =>
      let id := memo.size
      let memo ← Option.guard test (memo.addEnvironment env')
      let memo ← Option.guard test (memo.record stage (.matched id))
      match ← next c id memo with
      | (some found, memo) => return (some (after c found), memo)
      | (none, memo) => checkedScan test store claimed head env stage next rest memo

/-- `matchHeads` with its look-ups checked and with tests of the memo. -/
def checkedMatchHeads (test : Memo → Bool) (store : Store) (rule : RuleId) (guards : List Term) :
    List Term → Nat → List ConstraintId → EnvironmentId → Memo → Checked
  | [], _, _, _, memo => some (none, memo)
  | [head], place, claimed, parent, memo => do
    let stage : Stage := ⟨parent, rule, place⟩
    let env ← memo.environment? parent
    let last : CheckedContinuation := fun _ id memo => do
      let env ← memo.environment? id
      return ((checkGuards store.holds guards env).map fun env => ⟨[], env⟩, memo)
    checkedScan test store claimed head env stage last (fresh store head env stage memo) memo
  | head :: following :: heads, place, claimed, parent, memo => do
    let stage : Stage := ⟨parent, rule, place⟩
    let env ← memo.environment? parent
    let next : CheckedContinuation := fun c id memo =>
      checkedMatchHeads test store rule guards (following :: heads) (place + 1) (c :: claimed) id memo
    let known := (store.candidates head env).toList.take (memo.outcomes stage).size
    match ← checkedRevisit store claimed stage next known 0 memo with
    | (some found, memo) => return (some found, memo)
    | (none, memo) =>
      checkedScan test store claimed head env stage next (fresh store head env stage memo) memo

/-- A part of the search, checked and unchecked. It does not break off, leaves the stages of the heads
before the given place alone, and its end is sound. -/
structure Passes (base : RuleBase) (store : Store) (place : Nat) (g : History) (checked : Checked)
    (result : Option Match × Memo) (g' : History) : Prop where
  checked : checked = some result
  memo : result.2 = g'.memo
  sound : Sound base store g'
  grows : g.Grows g'
  frame : ∀ stage, stage.head < place → g'.memo.outcomes stage = g.memo.outcomes stage

/-- Going on behind any further constraint passes the checks. -/
def PassesOn (base : RuleBase) (store : Store) (rule : RuleId) (claimed : List ConstraintId)
    (place : Nat) (checked : CheckedContinuation) (next : Continuation) : Prop :=
  ∀ {g c id env}, Sound base store g → IsNode g.paths rule (c :: claimed) id →
    g.memo.environment? id = some env →
    ∃ g', Passes base store place g (checked c id g.memo) (next c id env g.memo) g'

section Lookups
variable {store : Store} {claimed : List ConstraintId} {c : ConstraintId}

lemma isAvailable?_eq (inStep : store.InStep) (known : c < store.size)
    (claimed : List ConstraintId) :
    isAvailable? store claimed c = some (isAvailable store claimed c) := by
  rw [← inStep.flags] at known
  have flag : store.consumed[c]? = some store.consumed[c] := Array.getElem?_eq_getElem known
  simp [isAvailable?, isAvailable, Store.isLive, flag]

lemma unifyAvailable?_eq (inStep : store.InStep) (known : c < store.size) (head : Term)
    (env : Environment) :
    unifyAvailable? store claimed head env c = some (unifyAvailable store claimed head env c) := by
  have stored : store.get? c = some store.terms[c] := Array.getElem?_eq_getElem known
  rw [unifyAvailable?, isAvailable?_eq inStep known claimed, unifyAvailable, stored]
  cases isAvailable store claimed c <;> rfl

end Lookups

section Passes
variable {base : RuleBase} {store : Store} {rule : RuleId} {claimed : List ConstraintId} {place : Nat}
  {g g₁ g' : History} {checked : Checked} {result : Option Match × Memo}

lemma passes_nil (h : Sound base store g) :
    Passes base store place g (some (none, g.memo)) (none, g.memo) g :=
  ⟨rfl, rfl, h, .refl g, fun _ _ => rfl⟩

lemma Passes.behind {place' : Nat} (h : Passes base store place' g₁ checked result g')
    (grows : g.Grows g₁) (hplace : place ≤ place')
    (frame : ∀ stage, stage.head < place → g₁.memo.outcomes stage = g.memo.outcomes stage) :
    Passes base store place g checked result g' where
  checked := h.checked
  memo := h.memo
  sound := h.sound
  grows := grows.trans h.grows
  frame stage hstage := (h.frame stage (hstage.trans_le hplace)).trans (frame stage hstage)

lemma Passes.mono {place' : Nat} (h : Passes base store place' g checked result g')
    (hplace : place ≤ place') : Passes base store place g checked result g' :=
  h.behind (.refl g) hplace fun _ _ => rfl

lemma Passes.orElse (h : Passes base store place g checked result g₁) (f : Match → Match)
    {checkedLater : Memo → Checked} {later : Memo → Option Match × Memo}
    (hlater : ∃ g', Passes base store place g₁ (checkedLater g₁.memo) (later g₁.memo) g') :
    ∃ g', Passes base store place g
      (checked.bind fun
        | (some found, memo) => some (some (f found), memo)
        | (none, memo) => checkedLater memo)
      (match result with
        | (some found, memo) => (some (f found), memo)
        | (none, memo) => later memo) g' := by
  obtain ⟨_ | found, memo⟩ := result
  · obtain rfl : memo = g₁.memo := h.memo
    obtain ⟨g', h'⟩ := hlater
    rw [h.checked]
    exact ⟨g', h'.behind h.grows (Nat.le_refl _) h.frame⟩
  · rw [h.checked]
    exact ⟨g₁, rfl, h.memo, h.sound, h.grows, h.frame⟩

lemma passes_revisit {checked : CheckedContinuation} {next : Continuation}
    (hnext : PassesOn base store rule claimed place checked next) (h : Sound base store g)
    {stage : Stage} (hstage : stage.head < place) {head : Term} {env : Environment}
    {met : List ConstraintId} {slots : List Slot}
    (hmet : List.Forall₂ (Explains store g rule claimed head env) met slots) {k : Nat}
    (hslots : (g.memo.outcomes stage).toList.drop k = slots) :
    ∃ g', Passes base store place g (checkedRevisit store claimed stage checked met k g.memo)
      (revisit store claimed next (met.zip slots) g.memo) g' := by
  induction met generalizing g slots k with
  | nil =>
    cases hmet
    exact ⟨g, passes_nil h⟩
  | cons c met ih =>
    obtain _ | ⟨hslot, hmet⟩ := hmet
    obtain ⟨here, behind⟩ := getElem?_of_drop hslots
    rw [Array.getElem?_toList] at here
    rw [List.zip_cons_cons, checkedRevisit, here]
    cases hslot with
    | noMatch old clash => exact ih h hmet behind
    | @matched id _ old _ kept node =>
      have check := isAvailable?_eq h.indexed.toInStep old claimed
      cases available : isAvailable store claimed c with
      | false =>
        rw [revisit, if_neg (by simp [available])]
        simp only [check, available]
        exact ih h hmet behind
      | true =>
        rw [revisit, if_pos available, kept]
        simp only [check, available]
        obtain ⟨g₁, h₁⟩ := hnext h node kept
        refine h₁.orElse (after c) (ih h₁.sound ?_ ?_)
        · exact hmet.imp fun _ _ hc => hc.later h₁.grows
        · rw [h₁.frame stage hstage, behind]

variable {test : Memo → Bool} {checkedNext : CheckedContinuation} {next : Continuation}

lemma guard_eq_some (htest : ∀ memo, Memo.WellFormed base store memo → test memo = true) {memo : Memo}
    (h : memo.WellFormed base store) : Option.guard test memo = some memo := by
  simp [Option.guard, htest memo h]

lemma passes_scan (htest : ∀ memo, Memo.WellFormed base store memo → test memo = true)
    (s : Site base g) (h : Sound base store g)
    (hnext : PassesOn base store s.id s.claimed (s.claimed.length + 1) checkedNext next)
    {cs : List ConstraintId} (hfresh : fresh store s.head s.env s.stage g.memo = cs) :
    ∃ g', Passes base store s.claimed.length g
      (checkedScan test store s.claimed s.head s.env s.stage checkedNext cs g.memo)
      (scan store s.claimed s.head s.env s.stage next cs g.memo) g' := by
  induction cs generalizing g with
  | nil => exact ⟨g, passes_nil h⟩
  | cons c rest ih =>
    have known : c < store.size := h.lt_size_of_fresh s (hfresh ▸ List.mem_cons_self)
    rw [checkedScan, unifyAvailable?_eq h.indexed.toInStep known, scan]
    cases unified : unifyAvailable store s.claimed s.head s.env c with
    | none =>
      have rejected := h.reject s hfresh unified
      have hsize : ((g.reject s.stage).memo.outcomes s.stage).size =
          (g.memo.outcomes s.stage).size + 1 := Memo.size_outcomes_record ..
      obtain ⟨g', h'⟩ := ih (s.later (grows_reject g s.stage)) rejected hnext
        (fresh_of_size hsize hfresh)
      have tested : Option.guard test (g.memo.record s.stage .noMatch) = _ :=
        guard_eq_some htest rejected.wellFormed
      simp only [Option.bind_eq_bind, Option.bind_some, tested]
      exact ⟨g', h'.behind (grows_reject g s.stage) (Nat.le_refl _) fun stage hstage =>
        Memo.outcomes_record_of_head_lt hstage ..⟩
    | some env' =>
      -- The trial is that of the combination at hand; its result plays no part here.
      let trials : List Trial := if s.rule.heads.length = s.claimed.length + 1 then
        [⟨s.id, (c :: s.claimed).reverse, store, true⟩] else []
      have accepted : Sound base store (g.accept s.stage ⟨s.id, c, s.claimed⟩ env' trials) := by
        refine h.accept s hfresh unified ?_
        unfold trials
        split <;> rfl
      have grows := grows_accept g s.stage ⟨s.id, c, s.claimed⟩ env' trials
      obtain ⟨g₁, h₁⟩ :=
        hnext accepted (h.node_append ..) ((environment?_accept ..).trans (if_pos rfl))
      have hsize : (g₁.memo.outcomes s.stage).size = (g.memo.outcomes s.stage).size + 1 := by
        rw [h₁.frame s.stage (Nat.lt_succ_self _)]
        exact Memo.size_outcomes_record ..
      have added := guard_eq_some htest (h.wellFormed.addEnvironment env')
      have recorded : Option.guard test ((g.memo.addEnvironment env').record s.stage _) = _ :=
        guard_eq_some htest accepted.wellFormed
      simp only [Option.bind_eq_bind, Option.bind_some, added, recorded]
      have visited := (h₁.mono (Nat.le_succ _)).behind grows (Nat.le_refl _)
        fun stage hstage => Memo.outcomes_record_of_head_lt hstage ..
      exact visited.orElse (after c)
        (ih (s.later (grows.trans h₁.grows)) h₁.sound hnext (fresh_of_size hsize hfresh))

end Passes

theorem passes_matchHeads {base : RuleBase} {store : Store} {g : History} {test : Memo → Bool}
    (htest : ∀ memo, Memo.WellFormed base store memo → test memo = true) (h : Sound base store g)
    (s : Site base g) {heads : List Term} (hheads : s.rule.heads.drop s.claimed.length = heads) :
    ∃ g', Passes base store s.claimed.length g
      (checkedMatchHeads test store s.id s.rule.guards heads s.claimed.length s.claimed s.parent g.memo)
      (matchHeads store s.id s.rule.guards heads s.claimed.length s.claimed s.parent s.env g.memo)
      g' := by
  induction heads generalizing g with
  | nil =>
    rw [checkedMatchHeads, matchHeads]
    exact ⟨g, passes_nil h⟩
  | cons head heads ih =>
    obtain ⟨hhead, hrest⟩ := getElem?_of_drop hheads
    obtain rfl : s.head = head := by simpa [s.next] using hhead
    cases heads with
    | nil =>
      rw [checkedMatchHeads, s.kept, matchHeads, extract_eq_fresh]
      refine passes_scan htest s h (fun {g₁ c id env} h₁ node kept => ?_) rfl
      rw [kept]
      exact ⟨g₁, rfl, rfl, h₁, .refl g₁, fun _ _ => rfl⟩
    | cons following heads =>
      obtain ⟨hfollowing, -⟩ := getElem?_of_drop hrest
      let checkedNext : CheckedContinuation := fun c id memo =>
        checkedMatchHeads test store s.id s.rule.guards (following :: heads) (s.claimed.length + 1)
          (c :: s.claimed) id memo
      let next : Continuation := fun c id env memo =>
        matchHeads store s.id s.rule.guards (following :: heads) (s.claimed.length + 1)
          (c :: s.claimed) id env memo
      have hnext : PassesOn base store s.id s.claimed (s.claimed.length + 1) checkedNext next :=
        fun {_ c id env} h₁ node kept => ih h₁
          ⟨s.id, s.rule, c :: s.claimed, id, env, following, s.registered, node, kept, hfollowing⟩ hrest
      obtain ⟨met, hmet, houtcomes⟩ := (h.explained s).split
      have hcandidates : (store.candidates s.head s.env).toList =
          met ++ fresh store s.head s.env s.stage g.memo := hmet
      have hlength : met.length = (g.memo.outcomes s.stage).size := by simpa using houtcomes.length_eq
      have hstage : s.stage.head < s.claimed.length + 1 := Nat.lt_succ_self _
      obtain ⟨g₁, h₁⟩ := passes_revisit hnext h hstage houtcomes List.drop_zero
      have hfresh : fresh store s.head s.env s.stage g₁.memo =
          fresh store s.head s.env s.stage g.memo := by
        rw [fresh, h₁.frame s.stage hstage, fresh]
      have scanned := passes_scan htest (s.later h₁.grows) h₁.sound hnext hfresh
      rw [checkedMatchHeads, s.kept, matchHeads, Array.length_toList, extract_eq_fresh]
      change ∃ g', Passes base store s.claimed.length g
        ((checkedRevisit store s.claimed s.stage checkedNext ((store.candidates s.head s.env).toList.take
            (g.memo.outcomes s.stage).size) 0 g.memo).bind fun
          | (some found, memo) => some (some found, memo)
          | (none, memo) => checkedScan test store s.claimed s.head s.env s.stage checkedNext
              (fresh store s.head s.env s.stage memo) memo)
        (match revisit store s.claimed next ((store.candidates s.head s.env).toList.zip
            (g.memo.outcomes s.stage).toList) g.memo with
          | (some found, memo) => (some found, memo)
          | (none, memo) => scan store s.claimed s.head s.env s.stage next
              (fresh store s.head s.env s.stage g.memo) memo) g'
      rw [hcandidates, zip_append_of_length houtcomes.length_eq, ← hlength, List.take_left]
      refine (h₁.mono (Nat.le_succ _)).orElse (fun m => m) ?_
      rw [hfresh]
      exact scanned

end Search

/-- The search for the next match of a rule with its look-ups checked and with tests of the memo. -/
def Rule.checkedMatch (r : Rule) (id : RuleId) (test : Memo → Bool) (store : Store) (memo : Memo) :
    Search.Checked :=
  Search.checkedMatchHeads test store id r.guards r.heads 0 [] Memo.start memo

theorem Search.passes_checkedMatch {base : RuleBase} {store : Store} {g : History} {r : Rule}
    {id : RuleId} {test : Memo → Bool}
    (htest : ∀ memo, Memo.WellFormed base store memo → test memo = true) (h : Sound base store g)
    (registered : base.get? id = some r) :
    ∃ g', Passes base store 0 g (r.checkedMatch id test store g.memo) (r.nextMatch id store g.memo)
      g' := by
  rw [Rule.checkedMatch, Rule.nextMatch]
  cases hheads : r.heads with
  | nil =>
    rw [checkedMatchHeads, matchHeads]
    exact ⟨g, passes_nil h⟩
  | cons head heads =>
    have next : r.heads[0]? = some head := by rw [hheads]; rfl
    rw [← hheads]
    exact passes_matchHeads htest h
      ⟨id, r, [], Memo.start, .empty, head, registered, .start, h.start, next⟩ (List.drop_zero ..)

end ConstraintHandling
