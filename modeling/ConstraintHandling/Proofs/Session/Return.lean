import ConstraintHandling.Proofs.Search.Return
import ConstraintHandling.Session

/-! Sessions that wait for unification. A rule whose search makes an endless call is never done with, and
neither is the pass that tries it nor the run of that pass. Firing a rule unifies nothing and always
comes to an end. -/
namespace ConstraintHandling
namespace Session

/-- `tryRule` when the search need not return. -/
def tryRule? (s : Session) (r : Rule) (id : RuleId) : Option Attempt := do
  let _ ← r.nextMatch? id s.store s.memo
  return s.tryRule r id

def tryRules? (s : Session) : List (Rule × RuleId) → Option Attempt
  | [] => some ⟨false, s, []⟩
  | (r, id) :: rules => do
    match ← s.tryRule? r id with
    | ⟨true, s, events⟩ => return ⟨true, s, events⟩
    | ⟨false, s, events⟩ =>
      let ⟨fired, s, later⟩ ← s.tryRules? rules
      return ⟨fired, s, events ++ later⟩

def step? (s : Session) : Option Attempt :=
  s.tryRules? s.rules.numbered

lemma returnsOnly_tryRule? (s : Session) (r : Rule) (id : RuleId) :
    ReturnsOnly (s.tryRule? r id) (s.tryRule r id) :=
  (r.returnsOnly_nextMatch? id s.store s.memo).bind (.returned _)

lemma returnsOnly_tryRules? (s : Session) (rules : List (Rule × RuleId)) :
    ReturnsOnly (s.tryRules? rules) (s.tryRules rules) := by
  induction rules generalizing s with
  | nil => exact .returned _
  | cons pair rules ih =>
    obtain ⟨r, id⟩ := pair
    rw [tryRules?, tryRules]
    refine (s.returnsOnly_tryRule? r id).bind ?_
    obtain ⟨_ | _, s', events⟩ := s.tryRule r id
    · exact (ih s').bind (.returned _)
    · exact .returned _

lemma returnsOnly_step? (s : Session) : ReturnsOnly s.step? s.step :=
  s.returnsOnly_tryRules? s.rules.numbered

end Session
end ConstraintHandling
