import ConstraintHandling.Proofs.Search.Return
import ConstraintHandling.Proofs.Search.Trace

/-! Exhausted searches. A search that finds no match leaves every stage that it comes to with an outcome
for each candidate, and searches only add to a memo. So the same search, made again on the same store,
has nothing left to try and leaves the memo as it is. -/
namespace ConstraintHandling

namespace Memo

/-- The environments to which outcomes on record have led are in the memo. -/
def IsClosed (m : Memo) : Prop :=
  ∀ stage id, .matched id ∈ (m.outcomes stage).toList → id < m.size

/-- The second memo keeps the environments of the first one and adds outcomes behind its own, but none
for the heads before the given place. -/
structure Grows (place : Nat) (m m' : Memo) : Prop where
  keeps : ∀ {id env}, m.environment? id = some env → m'.environment? id = some env
  outcomes : ∀ stage, (m.outcomes stage).toList <+: (m'.outcomes stage).toList
  frame : ∀ stage, stage.head < place → m'.outcomes stage = m.outcomes stage

section Grows
variable {place place' : Nat} {m m₁ m' : Memo} {stage : Stage} {env : Environment}

lemma Grows.refl (place : Nat) (m : Memo) : Grows place m m :=
  ⟨fun h => h, fun _ => List.prefix_refl _, fun _ _ => rfl⟩

lemma Grows.trans (h : Grows place m m₁) (h' : Grows place m₁ m') : Grows place m m' :=
  ⟨fun hid => h'.keeps (h.keeps hid), fun stage => (h.outcomes stage).trans (h'.outcomes stage),
    fun stage hstage => (h'.frame stage hstage).trans (h.frame stage hstage)⟩

lemma Grows.mono (h : Grows place m m') (hplace : place' ≤ place) : Grows place' m m' :=
  { h with frame := fun stage hstage => h.frame stage (hstage.trans_le hplace) }

lemma toList_outcomes_record (m : Memo) (stage other : Stage) (slot : Slot) :
    ((m.record stage slot).outcomes other).toList =
      (m.outcomes other).toList ++ if stage = other then [slot] else [] := by
  rw [outcomes_record]
  split <;> simp

lemma toList_outcomes_recordMatch (m : Memo) (stage other : Stage) (env : Environment) :
    ((m.recordMatch stage env).outcomes other).toList =
      (m.outcomes other).toList ++ if stage = other then [.matched m.size] else [] :=
  toList_outcomes_record (m.addEnvironment env) stage other (.matched m.size)

lemma IsClosed.environment? (h : m.IsClosed) {id : EnvironmentId}
    (hid : .matched id ∈ (m.outcomes stage).toList) : ∃ env, m.environment? id = some env :=
  ⟨_, Array.getElem?_eq_getElem (h stage id hid)⟩

lemma grows_record (m : Memo) (stage : Stage) (slot : Slot) :
    Grows stage.head m (m.record stage slot) where
  keeps h := h
  outcomes other := by
    rw [toList_outcomes_record]
    exact List.prefix_append ..
  frame other hother := outcomes_record_of_head_lt hother m slot

lemma grows_recordMatch (m : Memo) (stage : Stage) (env : Environment) :
    Grows stage.head m (m.recordMatch stage env) where
  keeps := environment?_keeps env
  outcomes other := by
    rw [toList_outcomes_recordMatch]
    exact List.prefix_append ..
  frame := (grows_record (m.addEnvironment env) stage (.matched m.size)).frame

lemma isClosed_initial : initial.IsClosed := by
  intro stage id h
  simp [initial, Memo.outcomes] at h

lemma IsClosed.record (h : m.IsClosed) (stage : Stage) : (m.record stage .noMatch).IsClosed := by
  intro other id hid
  rw [toList_outcomes_record, List.mem_append] at hid
  obtain hid | hid := hid
  · exact h other id hid
  · split at hid <;> simp at hid

lemma IsClosed.recordMatch (h : m.IsClosed) (stage : Stage) (env : Environment) :
    (m.recordMatch stage env).IsClosed := by
  intro other id hid
  rw [size_recordMatch]
  rw [toList_outcomes_recordMatch, List.mem_append] at hid
  obtain hid | hid := hid
  · exact Nat.lt_succ_of_lt (h other id hid)
  · split at hid
    · cases List.mem_singleton.mp hid
      exact Nat.lt_succ_self _
    · cases hid

end Grows

end Memo

namespace Search

/-- For the remaining heads of a rule, all candidates have their outcome: those of the first head, and
behind each of them that matched and is available those of the heads that follow. -/
def Exhausted (store : Store) (rule : RuleId) (memo : Memo) :
    List Term → Nat → List ConstraintId → EnvironmentId → Environment → Prop
  | [], _, _, _, _ => True
  | head :: heads, place, claimed, parent, env =>
    let candidates := (store.candidates head env).toList
    let outcomes := (memo.outcomes ⟨parent, rule, place⟩).toList
    candidates.length ≤ outcomes.length ∧
      ∀ c id, (c, .matched id) ∈ candidates.zip outcomes → isAvailable store claimed c = true →
        ∃ env', memo.environment? id = some env' ∧
          Exhausted store rule memo heads (place + 1) (c :: claimed) id env'

/-- Behind the known candidates that matched and are available, the heads that follow are exhausted. -/
def FollowedUp (store : Store) (rule : RuleId) (claimed : List ConstraintId) (heads : List Term)
    (place : Nat) (known : List (ConstraintId × Slot)) (memo : Memo) : Prop :=
  ∀ c id, (c, .matched id) ∈ known → isAvailable store claimed c = true →
    ∃ env, memo.environment? id = some env ∧
      Exhausted store rule memo heads place (c :: claimed) id env

section Exhausted
variable {store : Store} {rule : RuleId} {guards : List Term} {memo memo' : Memo} {head : Term}
  {heads : List Term} {place : Nat} {claimed : List ConstraintId} {parent : EnvironmentId}
  {env : Environment} {known : List (ConstraintId × Slot)}

lemma exhausted_cons : Exhausted store rule memo (head :: heads) place claimed parent env ↔
    (store.candidates head env).size ≤ (memo.outcomes ⟨parent, rule, place⟩).size ∧
      FollowedUp store rule claimed heads (place + 1)
        ((store.candidates head env).toList.zip (memo.outcomes ⟨parent, rule, place⟩).toList) memo :=
  Iff.rfl

lemma zip_append_right {α β : Type} (as : List α) (bs bs' : List β) :
    as.zip (bs ++ bs') = as.zip bs ++ (as.drop bs.length).zip bs' := by
  induction as generalizing bs with
  | nil => simp
  | cons a as ih => cases bs <;> simp [ih]

lemma Exhausted.grows (h : Exhausted store rule memo heads place claimed parent env)
    (grows : Memo.Grows 0 memo memo') :
    Exhausted store rule memo' heads place claimed parent env := by
  induction heads generalizing place claimed parent env with
  | nil => trivial
  | cons head heads ih =>
    obtain ⟨complete, behind⟩ := exhausted_cons.mp h
    obtain ⟨later, houtcomes⟩ := grows.outcomes ⟨parent, rule, place⟩
    -- Outcomes behind those of all candidates belong to no candidate.
    have none : (store.candidates head env).toList.drop
        (memo.outcomes ⟨parent, rule, place⟩).toList.length = [] := List.drop_eq_nil_of_le complete
    refine exhausted_cons.mpr ⟨complete.trans (grows.outcomes _).length_le, ?_⟩
    rw [← houtcomes, zip_append_right, none, List.zip_nil_left, List.append_nil]
    intro c id hc available
    obtain ⟨env', kept, exhausted⟩ := behind c id hc available
    exact ⟨env', grows.keeps kept, ih exhausted⟩

lemma FollowedUp.grows (h : FollowedUp store rule claimed heads place known memo)
    (grows : Memo.Grows 0 memo memo') : FollowedUp store rule claimed heads place known memo' := by
  intro c id hc available
  obtain ⟨env, kept, exhausted⟩ := h c id hc available
  exact ⟨env, grows.keeps kept, exhausted.grows grows⟩

lemma fresh_eq_nil {stage : Stage}
    (h : (store.candidates head env).size ≤ (memo.outcomes stage).size) :
    fresh store head env stage memo = [] :=
  List.drop_eq_nil_of_le h

lemma revisit?_eq_none {next : PartialContinuation}
    (h : ∀ c id, (c, .matched id) ∈ known → isAvailable store claimed c = true →
      ∃ env', memo.environment? id = some env' ∧ next c id env' memo = some (none, memo)) :
    revisit? store claimed next known memo = some (none, memo) := by
  induction known with
  | nil => rfl
  | cons pair known ih =>
    have later := ih fun c id hc => h c id (List.mem_cons_of_mem _ hc)
    obtain ⟨c, _ | id⟩ := pair
    · exact later
    · rw [revisit?]
      split
      · next available =>
        obtain ⟨env', kept, unmatched⟩ := h c id List.mem_cons_self available
        rw [kept, Option.getD_some]
        dsimp only
        rw [unmatched]
        exact later
      · exact later

/-- A search behind exhausted heads unifies nothing, finds nothing and leaves the memo as it is. -/
theorem matchHeads?_of_exhausted (h : Exhausted store rule memo heads place claimed parent env) :
    matchHeads? store rule guards heads place claimed parent env memo = some (none, memo) := by
  induction heads generalizing place claimed parent env with
  | nil => rfl
  | cons head heads ih =>
    obtain ⟨complete, behind⟩ := exhausted_cons.mp h
    cases heads with
    | nil =>
      rw [matchHeads?, extract_eq_fresh, fresh_eq_nil complete]
      rfl
    | cons following heads =>
      let next : PartialContinuation := fun c id env memo =>
        matchHeads? store rule guards (following :: heads) (place + 1) (c :: claimed) id env memo
      have unmatched : revisit? store claimed next ((store.candidates head env).toList.zip
          (memo.outcomes ⟨parent, rule, place⟩).toList) memo = some (none, memo) := by
        apply revisit?_eq_none
        intro c id hc available
        obtain ⟨env', kept, exhausted⟩ := behind c id hc available
        exact ⟨env', kept, ih exhausted⟩
      rw [matchHeads?, Array.length_toList, extract_eq_fresh, fresh_eq_nil complete, unmatched]
      rfl

end Exhausted

/-- A part of the search that begins at the given place: it grows the memo, which stays closed, and
leaves a property behind where it finds nothing. -/
structure Leaves (place : Nat) (memo : Memo) (Left : Memo → Prop) (result : Option Match × Memo) :
    Prop where
  grows : Memo.Grows place memo result.2
  closed : result.2.IsClosed
  left : result.1 = none → Left result.2

/-- Going on behind any further constraint leaves the remaining heads exhausted. -/
def Exhausts (store : Store) (rule : RuleId) (claimed : List ConstraintId) (heads : List Term)
    (place : Nat) (next : Continuation) : Prop :=
  ∀ {c id env memo}, memo.IsClosed →
    Leaves place memo (Exhausted store rule · heads place (c :: claimed) id env) (next c id env memo)

section Leaves
variable {store : Store} {rule : RuleId} {guards : List Term} {claimed : List ConstraintId}
  {head : Term} {heads : List Term} {place : Nat} {next : Continuation} {env : Environment}
  {memo memo' : Memo} {Left Left' : Memo → Prop} {result : Option Match × Memo}

lemma Leaves.still (closed : memo.IsClosed) (left : Left memo) (found : Option Match) :
    Leaves place memo Left (found, memo) :=
  ⟨.refl place memo, closed, fun _ => left⟩

lemma Leaves.mono {place' : Nat} (h : Leaves place memo Left result) (hplace : place' ≤ place)
    (imp : ∀ m, Left m → Left' m) : Leaves place' memo Left' result :=
  ⟨h.grows.mono hplace, h.closed, fun unmatched => imp _ (h.left unmatched)⟩

lemma Leaves.after_growth (grows : Memo.Grows place memo memo')
    (h : Leaves place memo' Left result) : Leaves place memo Left result :=
  ⟨grows.trans h.grows, h.closed, h.left⟩

lemma Leaves.found {found : Match} (grows : Memo.Grows place memo memo') (closed : memo'.IsClosed) :
    Leaves place memo Left (some found, memo') :=
  ⟨grows, closed, fun unmatched => by cases unmatched⟩

lemma leaves_revisit (hnext : Exhausts store rule claimed heads place next)
    {known : List (ConstraintId × Slot)} (closed : memo.IsClosed)
    (kept : ∀ c id, (c, .matched id) ∈ known → ∃ env, memo.environment? id = some env) :
    Leaves place memo (FollowedUp store rule claimed heads place known)
      (revisit store claimed next known memo) := by
  induction known generalizing memo with
  | nil => exact .still closed (fun c id hc => by cases hc) none
  | cons pair known ih =>
    have later := fun c id hc => kept c id (List.mem_cons_of_mem _ hc)
    obtain ⟨c, _ | id⟩ := pair
    · refine (ih closed later).mono (Nat.le_refl _) fun m followed d id hd => ?_
      exact followed d id (List.mem_of_ne_of_mem (by simp) hd)
    · rw [revisit]
      split
      · next available =>
        obtain ⟨env, henv⟩ := kept c id List.mem_cons_self
        rw [henv, Option.getD_some]
        have visit := @hnext c id env memo closed
        dsimp only
        generalize next c id env memo = result at visit ⊢
        obtain ⟨_ | found, m⟩ := result
        · have rest := ih visit.closed fun d id hd =>
            (later d id hd).imp fun _ henv => visit.grows.keeps henv
          refine ⟨visit.grows.trans rest.grows, rest.closed, fun unmatched d id' hd => ?_⟩
          obtain heq | hd := List.mem_cons.mp hd
          · cases heq
            have grows := rest.grows.mono (Nat.zero_le _)
            exact fun _ => ⟨env, grows.keeps (visit.grows.keeps henv), (visit.left rfl).grows grows⟩
          · exact rest.left unmatched d id' hd
        · exact .found visit.grows visit.closed
      · next gone =>
        refine (ih closed later).mono (Nat.le_refl _) fun m followed d id' hd available => ?_
        obtain heq | hd := List.mem_cons.mp hd
        · cases heq
          exact absurd available gone
        · exact followed d id' hd available

lemma leaves_scan (head : Term) (env : Environment) (stage : Stage)
    (hnext : Exhausts store rule claimed heads (stage.head + 1) next) (cs : List ConstraintId)
    (closed : memo.IsClosed) :
    Leaves stage.head memo
      (fun m => ∃ slots, slots.length = cs.length ∧
        (m.outcomes stage).toList = (memo.outcomes stage).toList ++ slots ∧
        FollowedUp store rule claimed heads (stage.head + 1) (cs.zip slots) m)
      (scan store claimed head env stage next cs memo) := by
  induction cs generalizing memo with
  | nil =>
    refine .still closed ⟨[], rfl, (List.append_nil _).symm, fun c id hc => ?_⟩ none
    cases hc
  | cons c cs ih =>
    rw [scan]
    cases hunify : unifyAvailable store claimed head env c with
    | none =>
      refine ((ih (closed.record stage)).after_growth (Memo.grows_record ..)).mono (Nat.le_refl _) ?_
      rintro m ⟨slots, length, houtcomes, followed⟩
      refine ⟨.noMatch :: slots, congrArg _ length, ?_, fun d id hd => ?_⟩
      · rw [houtcomes, Memo.toList_outcomes_record, if_pos rfl, List.append_assoc]
        rfl
      · exact followed d id (List.mem_of_ne_of_mem (by simp) hd)
    | some env' =>
      have recorded := Memo.grows_recordMatch memo stage env'
      have kept := Memo.environment?_recordMatch memo stage env' memo.size
      have visit := @hnext c memo.size env' _ (closed.recordMatch stage env')
      dsimp only
      generalize next c memo.size env' (memo.recordMatch stage env') = result at visit ⊢
      obtain ⟨_ | found, m⟩ := result
      · have visited := visit.grows.mono (Nat.le_succ _)
        have rest := ih visit.closed
        refine ⟨(recorded.trans visited).trans rest.grows, rest.closed, fun unmatched => ?_⟩
        obtain ⟨slots, length, houtcomes, followed⟩ := rest.left unmatched
        refine ⟨.matched memo.size :: slots, congrArg _ length, ?_, fun d id hd => ?_⟩
        · rw [houtcomes, visit.grows.frame stage (Nat.lt_succ_self _),
            Memo.toList_outcomes_recordMatch, if_pos rfl, List.append_assoc]
          rfl
        · obtain heq | hd := List.mem_cons.mp hd
          · cases heq
            have grows := rest.grows.mono (Nat.zero_le _)
            have kept := rest.grows.keeps (visited.keeps (kept.trans (if_pos rfl)))
            exact fun _ => ⟨env', kept, (visit.left rfl).grows grows⟩
          · exact followed d id hd
      · exact .found (recorded.trans (visit.grows.mono (Nat.le_succ _))) visit.closed

lemma leaves_fresh {parent : EnvironmentId}
    (hnext : Exhausts store rule claimed heads (place + 1) next) (closed : memo.IsClosed)
    (old : FollowedUp store rule claimed heads (place + 1)
      ((store.candidates head env).toList.zip (memo.outcomes ⟨parent, rule, place⟩).toList) memo) :
    Leaves place memo (Exhausted store rule · (head :: heads) place claimed parent env)
      (scan store claimed head env ⟨parent, rule, place⟩ next
        (fresh store head env ⟨parent, rule, place⟩ memo) memo) := by
  have scanned := leaves_scan head env ⟨parent, rule, place⟩ hnext
    (fresh store head env ⟨parent, rule, place⟩ memo) closed
  refine ⟨scanned.grows, scanned.closed, fun unmatched => ?_⟩
  obtain ⟨slots, length, houtcomes, new⟩ := scanned.left unmatched
  refine exhausted_cons.mpr ⟨?_, ?_⟩
  · rw [← Array.length_toList, ← Array.length_toList, houtcomes, List.length_append, length, fresh,
      List.length_drop, Array.length_toList, Array.length_toList]
    omega
  · rw [houtcomes, zip_append_right]
    intro c id hc available
    obtain hc | hc := List.mem_append.mp hc
    · exact (old.grows (scanned.grows.mono (Nat.zero_le _))) c id hc available
    · exact new c id hc available

/-- A search that finds no match leaves the remaining heads exhausted. -/
theorem leaves_matchHeads (closed : memo.IsClosed) (parent : EnvironmentId) :
    Leaves place memo (Exhausted store rule · heads place claimed parent env)
      (matchHeads store rule guards heads place claimed parent env memo) := by
  induction heads generalizing place claimed parent env memo with
  | nil => exact .still closed trivial none
  | cons head heads ih =>
    have kept : ∀ c id, (c, .matched id) ∈ (store.candidates head env).toList.zip
        (memo.outcomes ⟨parent, rule, place⟩).toList → ∃ env, memo.environment? id = some env :=
      fun c id hc => closed.environment? (List.of_mem_zip hc).2
    cases heads with
    | nil =>
      rw [matchHeads, extract_eq_fresh]
      refine leaves_fresh (fun closed => .still closed trivial _) closed fun c id hc _ => ?_
      obtain ⟨env', kept⟩ := kept c id hc
      exact ⟨env', kept, trivial⟩
    | cons following heads =>
      have hnext : Exhausts store rule claimed (following :: heads) (place + 1)
          fun c id env memo =>
            matchHeads store rule guards (following :: heads) (place + 1) (c :: claimed) id env memo :=
        fun {c id env memo} closed => ih closed id
      have visit := leaves_revisit hnext closed kept
      rw [matchHeads, Array.length_toList, extract_eq_fresh]
      generalize revisit store claimed _ _ memo = result at visit ⊢
      obtain ⟨_ | found, m⟩ := result
      · have same := visit.grows.frame ⟨parent, rule, place⟩ (Nat.lt_succ_self _)
        have followed := visit.left rfl
        have rest := leaves_fresh hnext visit.closed (same ▸ followed)
        have hfresh : fresh store head env ⟨parent, rule, place⟩ m =
            fresh store head env ⟨parent, rule, place⟩ memo := by rw [fresh, same, fresh]
        rw [hfresh] at rest
        exact ⟨(visit.grows.mono (Nat.le_succ _)).trans rest.grows, rest.closed, rest.left⟩
      · exact .found (visit.grows.mono (Nat.le_succ _)) visit.closed

end Leaves

end Search
end ConstraintHandling
