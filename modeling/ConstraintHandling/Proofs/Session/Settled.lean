import ConstraintHandling.Proofs.Search.Exhaustion
import ConstraintHandling.Proofs.Session.Invariant
import ConstraintHandling.Proofs.Session.Passes

/-! Solving at a fixpoint. The pass that ends in a fixpoint leaves the search for every rule exhausted;
from then on a pass tries every rule in vain and changes nothing, not even the memo. -/
namespace ConstraintHandling
namespace Session

def IsExhausted (s : Session) (rules : List (Rule × RuleId)) : Prop :=
  ∀ pair ∈ rules, Search.Exhausted s.store pair.2 s.memo pair.1.heads 0 [] Memo.start .empty

/-- What is reported of rules that are tried in vain. -/
def vainEvents (rules : List (Rule × RuleId)) : List Event :=
  rules.flatMap fun (r, _) => [.attempted r, .notFired r]

section Rules
variable {s : Session} {rules : List (Rule × RuleId)} {r : Rule} {id : RuleId}

lemma leaves_nextMatch (closed : s.memo.IsClosed) (r : Rule) (id : RuleId) :
    Search.Leaves 0 s.memo
      (Search.Exhausted s.store id · r.heads 0 [] Memo.start .empty)
      (r.nextMatch id s.store s.memo) :=
  Search.leaves_matchHeads closed Memo.start

lemma isClosed_tryRule (closed : s.memo.IsClosed) (r : Rule) (id : RuleId) :
    (s.tryRule r id).session.memo.IsClosed := by
  rw [(tryRule_keeps s r id).2]
  exact (leaves_nextMatch closed r id).closed

lemma tryRules_exhausts (closed : s.memo.IsClosed) (rules : List (Rule × RuleId)) :
    (s.tryRules rules).session.memo.IsClosed ∧
      ((s.tryRules rules).fired = false →
        (s.tryRules rules).session.rules = s.rules ∧ (s.tryRules rules).session.store = s.store ∧
        Memo.Grows 0 s.memo (s.tryRules rules).session.memo ∧
        (s.tryRules rules).session.IsExhausted rules) := by
  induction rules generalizing s with
  | nil => exact ⟨closed, fun _ => ⟨rfl, rfl, .refl 0 _, by simp [IsExhausted]⟩⟩
  | cons pair rules ih =>
    obtain ⟨r, id⟩ := pair
    have closed' := isClosed_tryRule closed r id
    have hcons := tryRules_cons s r id rules
    cases hfired : (s.tryRule r id).fired with
    | true =>
      rw [hfired, if_pos rfl] at hcons
      obtain ⟨fired, session⟩ := Prod.mk.inj hcons
      rw [fired, session]
      exact ⟨closed', fun unfired => by cases unfired⟩
    | false =>
      rw [hfired, if_neg Bool.false_ne_true] at hcons
      obtain ⟨fired, session⟩ := Prod.mk.inj hcons
      rw [fired, session]
      refine ⟨(ih closed').1, fun unfired => ?_⟩
      obtain ⟨sameRules, sameStore, grows, exhausted⟩ := (ih closed').2 unfired
      have unmatched := none_of_unfired hfired
      have left := leaves_nextMatch closed r id
      have tried := (tryRule_of_none unmatched).2
      rw [tried] at sameRules sameStore grows exhausted ⊢
      refine ⟨sameRules, sameStore, left.grows.trans grows, List.forall_mem_cons.mpr ⟨?_, exhausted⟩⟩
      rw [sameStore]
      exact (left.left unmatched).grows grows

lemma tryRules?_of_isExhausted (h : s.IsExhausted rules) :
    s.tryRules? rules = some ⟨false, s, vainEvents rules⟩ := by
  induction rules with
  | nil => rfl
  | cons pair rules ih =>
    obtain ⟨r, id⟩ := pair
    obtain ⟨hr, hrules⟩ := List.forall_mem_cons.mp h
    have unmatched : r.nextMatch? id s.store s.memo = some (none, s.memo) :=
      Search.matchHeads?_of_exhausted hr
    have tried : s.tryRule? r id = some ⟨false, s, [.attempted r, .notFired r]⟩ := by
      have found := (r.returnsOnly_nextMatch? id s.store s.memo).eq_of_returned unmatched
      obtain ⟨base, store, memo, lastScope, maxPasses⟩ := s
      dsimp only at found unmatched
      rw [tryRule?, unmatched, tryRule, found]
      rfl
    rw [tryRules?, tried]
    simp [ih hrules, vainEvents]

end Rules

section Solve
variable {s : Session}

lemma step_exhausts (closed : s.memo.IsClosed) :
    s.step.session.memo.IsClosed ∧
      (s.step.fired = false → s.step.session.IsExhausted s.step.session.rules.numbered) := by
  obtain ⟨closed', exhausts⟩ := tryRules_exhausts closed s.rules.numbered
  refine ⟨closed', fun unfired => ?_⟩
  obtain ⟨sameRules, -, -, exhausted⟩ := exhausts unfired
  rw [step, sameRules]
  exact exhausted

lemma run_exhausts (closed : s.memo.IsClosed) (passes : Nat) (events : Array Event) {allowed : Nat}
    (fixpoint : (s.run passes events allowed).verdict = .fixpoint) :
    (s.run passes events allowed).session.IsExhausted
      (s.run passes events allowed).session.rules.numbered := by
  induction allowed generalizing s passes events with
  | zero =>
    obtain ⟨-, exhausted⟩ := step_exhausts closed
    rw [run] at fixpoint ⊢
    generalize s.step = attempt at exhausted fixpoint ⊢
    obtain ⟨_ | _, s', new⟩ := attempt
    · exact exhausted rfl
    · cases fixpoint
  | succ allowed ih =>
    obtain ⟨closed', exhausted⟩ := step_exhausts closed
    rw [run] at fixpoint ⊢
    generalize s.step = attempt at closed' exhausted fixpoint ⊢
    obtain ⟨_ | _, s', new⟩ := attempt
    · exact exhausted rfl
    · exact ih closed' (passes + 1) (events ++ new) fixpoint

lemma step?_of_isExhausted (h : s.IsExhausted s.rules.numbered) :
    s.step? = some ⟨false, s, vainEvents s.rules.numbered⟩ :=
  tryRules?_of_isExhausted h

lemma solve_of_isExhausted (h : s.IsExhausted s.rules.numbered) :
    s.solve = ⟨.fixpoint, 1, s,
      (vainEvents s.rules.numbered).toArray.push (.ended .fixpoint 1)⟩ := by
  have pass : s.step = ⟨false, s, vainEvents s.rules.numbered⟩ :=
    s.returnsOnly_step?.eq_of_returned (step?_of_isExhausted h)
  have whole : s.run 0 #[] s.maxPasses =
      ⟨.fixpoint, 1, s, (vainEvents s.rules.numbered).toArray⟩ := by
    cases s.maxPasses <;> simp [run, pass]
  rw [solve, whole]

end Solve

lemma isInvariant_isClosed (base : RuleBase) :
    IsInvariant base (fun _ => True) fun s => s.memo.IsClosed where
  start := Memo.isClosed_initial
  goals closed _ := closed
  limit closed _ := closed
  tryRule closed _ := isClosed_tryRule closed _ _

/-- Solving again at a fixpoint, with any limit of passes, ends in a fixpoint after one pass that tries
every rule in vain; the session, with its store, its scopes and its memo, stays exactly as it was. -/
theorem solve_settled (rs : List Rule) (commands : List Command) (passes : Nat) :
    let s := ((Journal.begin (RuleBase.ofRules rs).1).obeyAll commands).session
    let settled := s.solve.session.withLimit passes
    s.solve.verdict = .fixpoint →
      settled.IsAtRest ∧ settled.solve.verdict = .fixpoint ∧ settled.solve.passes = 1 ∧
        settled.solve.session = settled ∧
        settled.solve.events.toList = vainEvents settled.rules.numbered ++ [.ended .fixpoint 1] := by
  intro s settled fixpoint
  have closed : s.memo.IsClosed := (isInvariant_isClosed _).obeyAll fun _ _ => trivial
  have exhausted : settled.IsExhausted settled.rules.numbered := run_exhausts closed 0 #[] fixpoint
  have rest : settled.IsAtRest := by
    rw [IsAtRest, step?_of_isExhausted exhausted]
    rfl
  rw [solve_of_isExhausted exhausted]
  exact ⟨rest, rfl, rfl, rfl, by simp⟩

def pairing : Rule where
  name := "pair"
  keepHeads := [.ordinary "p" [.var ⟨"X", 0⟩], .ordinary "p" [.var ⟨"Y", 0⟩]]
  deleteHeads := []
  guards := []
  body := [.ordinary "q" [.var ⟨"X", 0⟩, .var ⟨"Y", 0⟩]]

/-- Once both orders of two constraints have been taken, nothing happens any more. -/
theorem solve_settled_pairing :
    let s := ((Journal.begin (RuleBase.ofRules [pairing]).1).obeyAll
      [.goals [.ordinary "p" [.int 1], .ordinary "p" [.int 2]]]).session
    s.solve.verdict = .fixpoint ∧ s.solve.passes = 3 ∧ s.solve.session.memo.size = 5 ∧
      (s.solve.session.withLimit 0).solve.passes = 1 ∧
      (s.solve.session.withLimit 0).solve.session = s.solve.session.withLimit 0 := by
  intro s
  have fixpoint : s.solve.verdict = .fixpoint := by decide +kernel
  obtain ⟨-, -, passes, same, -⟩ := solve_settled [pairing]
    [.goals [.ordinary "p" [.int 1], .ordinary "p" [.int 2]]] 0 fixpoint
  exact ⟨fixpoint, by decide +kernel, by decide +kernel, passes, same⟩

end Session
end ConstraintHandling
