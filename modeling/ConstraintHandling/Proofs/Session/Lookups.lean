import ConstraintHandling.Proofs.Search.Checked
import ConstraintHandling.Proofs.Session.Effect
import ConstraintHandling.Proofs.Session.Settled

/-! The memo in the course of sessions. All searches of a session share one memo, while the store changes
between them. Whatever they are for, the memo is well formed throughout, and no number of an
environment, of an outcome or of a constraint is ever looked up in vain. -/
namespace ConstraintHandling

/-- Searches for matches of rules lead to the memo, while constraints are added and consumed between
them. -/
inductive Memo.Arises (base : RuleBase) : Store → Memo → Prop
  | start : Arises base .empty .initial
  | change {store : Store} {memo : Memo} (c : Change) (h : Arises base store memo) :
    Arises base (store.change c) memo
  | search {store : Store} {memo : Memo} {r : Rule} {id : RuleId} (h : Arises base store memo)
    (registered : base.get? id = some r) : Arises base store (r.nextMatch id store memo).2

/-- `tryRule` with its look-ups checked and with tests of the memo. The constraints of a match are all
looked up, and one of them is demanded for every head to delete, before any is consumed. -/
def Session.checkedTryRule (test : Memo → Bool) (s : Session) (r : Rule) (id : RuleId) :
    Option Attempt := do
  let ⟨rules, store, memo, lastScope, maxPasses⟩ := s
  match ← r.checkedMatch id test store memo with
  | (none, memo) => return ⟨false, ⟨rules, store, memo, lastScope, maxPasses⟩, [.attempted r, .notFired r]⟩
  | (some m, memo) =>
    let matched ← m.constraints.mapM store.get?
    if m.constraints.length < r.deleteHeads.length then none
    let scope := lastScope + 1
    let (store, events) := r.fire m scope store
    return ⟨true, ⟨rules, store, memo, scope, maxPasses⟩,
      .attempted r :: .fired r matched :: .environment r m.env :: events⟩

namespace Memo.Arises
variable {base : RuleBase} {store store' : Store} {memo : Memo} {s : Session} {r : Rule} {id : RuleId}

lemma reaches (h : Arises base store memo) (reaches : store.Reaches store') :
    Arises base store' memo := by
  obtain ⟨changes, rfl⟩ := reaches
  induction changes generalizing store with
  | nil => exact h
  | cons c changes ih => exact ih (h.change c)

lemma exists_sound (h : Arises base store memo) :
    ∃ g : Search.History, g.memo = memo ∧ Search.Sound base store g := by
  induction h with
  | start => exact ⟨.initial, rfl, Search.sound_initial base⟩
  | change c _ ih =>
    obtain ⟨g, hmemo, sound⟩ := ih
    exact ⟨g, hmemo, sound.reaches (Store.reaches_changeAll _ [c])⟩
  | @search store _ _ _ _ registered ih =>
    obtain ⟨g, rfl, sound⟩ := ih
    have untested (memo : Memo) (_ : memo.WellFormed base store) : (fun _ => true) memo = true := rfl
    obtain ⟨g', passes⟩ := Search.passes_checkedMatch untested sound registered
    exact ⟨g', passes.memo.symm, passes.sound⟩

lemma tryRule (h : Arises base s.store s.memo) (registered : base.get? id = some r) :
    Arises base (s.tryRule r id).session.store (s.tryRule r id).session.memo := by
  rw [(tryRule_keeps s r id).2]
  exact (h.search registered).reaches (reaches_tryRule s r id)

end Memo.Arises

lemma isInvariant_arises (base : RuleBase) :
    Session.IsInvariant base (fun _ => True) fun s => Memo.Arises base s.store s.memo where
  start := .start
  goals h _ := h.reaches (reaches_assertGoals ..)
  limit h _ := h
  tryRule h registered := h.tryRule registered

lemma mapM_get? {store : Store} {cs : List ConstraintId} (known : ∀ c ∈ cs, c < store.size) :
    cs.mapM store.get? = some (cs.filterMap store.get?) := by
  induction cs with
  | nil => rfl
  | cons c cs ih =>
    obtain ⟨hc, hcs⟩ := List.forall_mem_cons.mp known
    obtain ⟨t, stored⟩ : ∃ t, store.get? c = some t :=
      Option.ne_none_iff_exists'.mp fun none => Nat.not_le.mpr hc (Store.get?_eq_none_iff.mp none)
    simp [List.mapM_cons, stored, ih hcs]

lemma checkedTryRule_eq {s : Session} {r : Rule} {id : RuleId} {test : Memo → Bool}
    (inStep : s.store.InStep)
    (checked : r.checkedMatch id test s.store s.memo = some (r.nextMatch id s.store s.memo)) :
    s.checkedTryRule test r id = some (s.tryRule r id) := by
  obtain ⟨rules, store, memo, lastScope, maxPasses⟩ := s
  dsimp only at checked
  rw [Session.checkedTryRule, Session.tryRule, checked]
  cases step : r.nextMatch id store memo with
  | mk found memo' =>
    cases found with
    | none => rfl
    | some m =>
      have takes := Search.takes_matchHeads (congrArg Prod.fst step)
      have known (c : ConstraintId) (hc : c ∈ m.constraints) : c < store.size :=
        inStep.lt_size_of_isLive (takes.live c hc)
      have enough : ¬m.constraints.length < r.deleteHeads.length := by
        rw [takes.length, Rule.heads, List.length_append]
        omega
      simp [mapM_get? known, enough]

/-- The memo is well formed at every step of a session, and nothing is looked up in vain. Whatever a user
does with a session, its memo arises from searches for matches, between which constraints are added and
consumed. A memo that arises in this way is well formed, and the indexes of the store hold numbers of
constraints only. From there on an attempt of any rule leads to such a memo again, and it is the same
with all its look-ups checked and with any test behind every write that well-formed memos pass. -/
theorem memo_wellFormed (base : RuleBase) :
    (∀ commands : List Command,
      let s := ((Journal.begin base).obeyAll commands).session
      Memo.Arises base s.store s.memo) ∧
    ∀ s : Session, Memo.Arises base s.store s.memo →
      s.memo.WellFormed base s.store ∧
      (∀ partition functor first, ∀ c ∈ s.store.bucket partition functor first, c < s.store.size) ∧
      ∀ r id, base.get? id = some r →
        Memo.Arises base (s.tryRule r id).session.store (s.tryRule r id).session.memo ∧
        ∀ test : Memo → Bool, (∀ memo : Memo, memo.WellFormed base s.store → test memo = true) →
          s.checkedTryRule test r id = some (s.tryRule r id) := by
  refine ⟨fun commands => (isInvariant_arises base).obeyAll fun _ _ => trivial, fun s arises => ?_⟩
  obtain ⟨g, hmemo, sound⟩ := arises.exists_sound
  refine ⟨hmemo ▸ sound.wellFormed, fun partition functor first c hc => ?_, fun r id registered => ?_⟩
  · rw [← Array.mem_toList_iff, sound.indexed.bucket, Store.mem_idsWhere] at hc
    obtain ⟨t, stored, -⟩ := hc
    exact Store.lt_size_of_get? stored
  · refine ⟨arises.tryRule registered, fun test htest => checkedTryRule_eq sound.indexed.toInStep ?_⟩
    obtain ⟨g', passes⟩ := Search.passes_checkedMatch htest sound registered
    rw [← hmemo, passes.checked]

/-- Both orders of two constraints have been taken when a third one comes. The environment of the second
order hangs on the path of these two, and the attempt takes the new constraint. -/
theorem memo_wellFormed_pairing :
    let base := (RuleBase.ofRules [Session.pairing]).1
    let s := ((Journal.begin base).obeyAll
      [.goals [.ordinary "p" [.int 1], .ordinary "p" [.int 2]], .solve,
        .goals [.ordinary "p" [.int 3]]]).session
    let test (memo : Memo) := !(memo.outcomes ⟨Memo.start, 0, 0⟩).contains (.matched Memo.start)
    Memo.Arises base s.store s.memo ∧ s.memo.Matches ⟨3, 0, 1⟩ 0 4 ∧
      (∃! cs, Memo.Leads base s.store s.memo 0 cs 4) ∧
      4 ∈ s.store.bucket .ordinary "p" (.int 3) ∧ 4 < s.store.size ∧
      s.checkedTryRule test Session.pairing 0 = some (s.tryRule Session.pairing 0) ∧
      (s.tryRule Session.pairing 0).fired = true := by
  intro base s test
  have matched : s.memo.Matches ⟨3, 0, 1⟩ 0 4 := by
    unfold Memo.Matches
    decide +kernel
  have new : 4 ∈ s.store.bucket .ordinary "p" (.int 3) := by decide +kernel
  obtain ⟨arises, all⟩ := memo_wellFormed base
  obtain ⟨wellFormed, indexed, attempts⟩ := all s (arises _)
  refine ⟨arises _, matched, wellFormed.reached matched, new, indexed _ _ _ 4 new, ?_, by decide +kernel⟩
  refine (attempts Session.pairing 0 rfl).2 test fun memo h => ?_
  rw [Bool.not_eq_true', ← Bool.not_eq_true, Array.contains_iff_mem]
  intro mem
  obtain ⟨k, first⟩ := Array.getElem?_of_mem mem
  exact h.ne_start first rfl

end ConstraintHandling
