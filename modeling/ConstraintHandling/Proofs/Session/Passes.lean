import ConstraintHandling.Proofs.Session.Consistency
import ConstraintHandling.Proofs.Session.Return

/-! What the limit of passes means. A step lets the first rule that finds a match fire; solving repeats
steps and is cut off exactly when one step more than the limit has fired. What it is cut off from can
be taken up again, as if the limit had been higher from the beginning. A step can also be stuck in
unification that does not end, and then solving is. -/
namespace ConstraintHandling
namespace Session

/-- Trying rules in order ends with one of them firing: those before it find no match. -/
inductive FiresOneOf : Session → List (Rule × RuleId) → Session → Prop
  | first {s : Session} {r : Rule} {id : RuleId} {rules : List (Rule × RuleId)} {m : Match}
    {memo : Memo} (found : r.nextMatch? id s.store s.memo = some (some m, memo)) :
    FiresOneOf s ((r, id) :: rules)
      { s with
        store := (r.fire m (s.lastScope + 1) s.store).1
        memo := memo
        lastScope := s.lastScope + 1 }
  | later {s s' : Session} {r : Rule} {id : RuleId} {rules : List (Rule × RuleId)} {memo : Memo}
    (none : r.nextMatch? id s.store s.memo = some (none, memo))
    (fires : FiresOneOf { s with memo := memo } rules s') : FiresOneOf s ((r, id) :: rules) s'

/-- A step: the rules are tried in the order of the base, and the first that matches fires. -/
def FiresTo (s s' : Session) : Prop :=
  FiresOneOf s s.rules.numbered s'

/-- All rules are tried, and none finds a match. -/
def IsAtRest (s : Session) : Prop :=
  s.step?.map Attempt.fired = some false

/-- So many steps in a row fire. -/
inductive FiresFor : Nat → Session → Session → Prop
  | none (s : Session) : FiresFor 0 s s
  | more {n : Nat} {s s' s'' : Session} (first : s.FiresTo s') (later : FiresFor n s' s'') :
    FiresFor (n + 1) s s''

section Rules
variable {s s' : Session} {rules : List (Rule × RuleId)} {r : Rule} {id : RuleId} {memo : Memo}
  {events : List Event}

lemma tryRules?_of_endless (rules : List (Rule × RuleId))
    (h : r.nextMatch? id s.store s.memo = none) :
    s.tryRules? ((r, id) :: rules) = none := by
  rw [tryRules?, tryRule?, h]
  rfl

lemma tryRules?_of_none (rules : List (Rule × RuleId))
    (h : r.nextMatch? id s.store s.memo = some (none, memo)) :
    ∃ events, s.tryRules? ((r, id) :: rules) =
      (tryRules? { s with memo := memo } rules).map fun a =>
        { a with events := events ++ a.events } := by
  have found := (r.returnsOnly_nextMatch? id s.store s.memo).eq_of_returned h
  obtain ⟨fired, session⟩ := tryRule_of_none (congrArg Prod.fst found)
  rw [found] at session
  refine ⟨(s.tryRule r id).events, ?_⟩
  have tried : s.tryRule? r id =
      some ⟨false, { s with memo := memo }, (s.tryRule r id).events⟩ := by
    rw [tryRule?, h, ← fired, ← session]
    rfl
  rw [tryRules?, tried]
  cases behind : tryRules? { s with memo := memo } rules <;> simp [behind]

lemma tryRules?_of_some (rules : List (Rule × RuleId)) {m : Match}
    (h : r.nextMatch? id s.store s.memo = some (some m, memo)) :
    ∃ events, s.tryRules? ((r, id) :: rules) = some ⟨true,
      { s with
        store := (r.fire m (s.lastScope + 1) s.store).1
        memo := memo
        lastScope := s.lastScope + 1 }, events⟩ := by
  have found := (r.returnsOnly_nextMatch? id s.store s.memo).eq_of_returned h
  obtain ⟨fired, session⟩ := tryRule_of_some (congrArg Prod.fst found)
  rw [found] at session
  refine ⟨(s.tryRule r id).events, ?_⟩
  rw [tryRules?, tryRule?, h, ← session]
  generalize s.tryRule r id = attempt at fired
  obtain ⟨_, s', events⟩ := attempt
  obtain rfl : _ = true := fired
  rfl

lemma firesOneOf_iff :
    FiresOneOf s rules s' ↔ ∃ events, s.tryRules? rules = some ⟨true, s', events⟩ := by
  constructor
  · intro h
    induction h with
    | first found => exact tryRules?_of_some _ found
    | later none _ ih =>
      obtain ⟨later, ih⟩ := ih
      obtain ⟨events, tried⟩ := tryRules?_of_none _ none
      exact ⟨events ++ later, by rw [tried, ih]; rfl⟩
  · rintro ⟨events, h⟩
    induction rules generalizing s events with
    | nil => cases h
    | cons pair rules ih =>
      obtain ⟨r, id⟩ := pair
      rcases hm : r.nextMatch? id s.store s.memo with _ | ⟨_ | m, memo⟩
      · rw [tryRules?_of_endless rules hm] at h
        cases h
      · obtain ⟨events', tried⟩ := tryRules?_of_none rules hm
        rw [tried] at h
        obtain ⟨⟨_, _, later⟩, behind, h⟩ := Option.map_eq_some_iff.mp h
        cases h
        exact .later hm (ih later behind)
      · obtain ⟨events', tried⟩ := tryRules?_of_some rules hm
        rw [tried] at h
        cases h
        exact .first hm

end Rules

section Steps
variable {s s' s'' : Session} {m n : Nat}

lemma firesTo_iff : s.FiresTo s' ↔ ∃ events, s.step? = some ⟨true, s', events⟩ :=
  firesOneOf_iff

lemma FiresFor.append (h : FiresFor m s s') (h' : FiresFor n s' s'') : FiresFor (m + n) s s'' := by
  induction h with
  | none s => rwa [Nat.zero_add]
  | more first _ ih =>
    rw [Nat.succ_add]
    exact .more first (ih h')

end Steps

section Run
variable {s s' s'' : Session} {n : Nat}

end Run

def withLimit (s : Session) (passes : Nat) : Session :=
  { s with maxPasses := passes }

section Limit
variable {s s' : Session} {n : Nat}

lemma tryRule?_withLimit (s : Session) (r : Rule) (id : RuleId) (passes : Nat) :
    (s.withLimit passes).tryRule? r id =
      (s.tryRule? r id).map fun a => { a with session := a.session.withLimit passes } := by
  have same : (s.withLimit passes).tryRule r id =
      { s.tryRule r id with session := (s.tryRule r id).session.withLimit passes } := by
    obtain ⟨rules, store, memo, lastScope, maxPasses⟩ := s
    simp only [withLimit, tryRule]
    split <;> rfl
  rw [tryRule?, tryRule?, same, withLimit]
  cases r.nextMatch? id s.store s.memo <;> rfl

lemma tryRules?_withLimit (s : Session) (rules : List (Rule × RuleId)) (passes : Nat) :
    (s.withLimit passes).tryRules? rules =
      (s.tryRules? rules).map fun a => { a with session := a.session.withLimit passes } := by
  induction rules generalizing s with
  | nil => rfl
  | cons pair rules ih =>
    obtain ⟨r, id⟩ := pair
    rw [tryRules?, tryRules?, tryRule?_withLimit]
    rcases s.tryRule? r id with _ | ⟨_ | _, s', events⟩
    · rfl
    · simp only [Option.map_some, Option.bind_eq_bind, Option.bind_some, ih]
      cases s'.tryRules? rules <;> rfl
    · rfl

lemma step?_withLimit (s : Session) (passes : Nat) :
    (s.withLimit passes).step? =
      s.step?.map fun a => { a with session := a.session.withLimit passes } :=
  s.tryRules?_withLimit s.rules.numbered passes

lemma FiresTo.withLimit (h : s.FiresTo s') (passes : Nat) :
    (s.withLimit passes).FiresTo (s'.withLimit passes) := by
  obtain ⟨events, pass⟩ := firesTo_iff.mp h
  exact firesTo_iff.mpr ⟨events, by rw [step?_withLimit, pass]; rfl⟩

lemma FiresFor.withLimit (h : FiresFor n s s') (passes : Nat) :
    FiresFor n (s.withLimit passes) (s'.withLimit passes) := by
  induction h with
  | none s => exact .none _
  | more first _ ih => exact .more (first.withLimit passes) ih

end Limit

section Verdict
variable {s : Session}

end Verdict

end Session
end ConstraintHandling
