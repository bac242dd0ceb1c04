import ConstraintHandling.Session
import ConstraintHandling.Proofs.Search.Trace

/-! What the rules have done during a session. Beside the session stands a chronicle of all trials
and of all combinations on which a rule has fired, from the first command of the user to the
last. -/
namespace ConstraintHandling

structure Combination where
  rule : RuleId
  constraints : List ConstraintId
  deriving DecidableEq

def Trial.combination (t : Trial) : Combination :=
  ⟨t.rule, t.constraints⟩

/-- All trials of rules, and the combinations on which rules have fired. -/
@[ext]
structure Chronicle where
  trials : List Trial
  firings : List Combination

namespace Chronicle

def empty : Chronicle := ⟨[], []⟩

instance : Append Chronicle := ⟨fun a b => ⟨a.trials ++ b.trials, a.firings ++ b.firings⟩⟩

@[simp] lemma trials_append (a b : Chronicle) : (a ++ b).trials = a.trials ++ b.trials := rfl

@[simp] lemma firings_append (a b : Chronicle) : (a ++ b).firings = a.firings ++ b.firings := rfl

lemma append_assoc (a b c : Chronicle) : a ++ b ++ c = a ++ (b ++ c) :=
  Chronicle.ext (List.append_assoc ..) (List.append_assoc ..)

lemma append_empty (a : Chronicle) : a ++ empty = a :=
  Chronicle.ext (List.append_nil _) (List.append_nil _)

end Chronicle

namespace Session

/-- What looking for the next match of a rule adds to the chronicle. The rule fires on the match. -/
def ruleChronicle (s : Session) (r : Rule) (id : RuleId) : Chronicle :=
  ⟨(r.tracedMatch id s.store s.memo).trials,
    ((r.nextMatch id s.store s.memo).1.map fun m => ⟨id, m.constraints⟩).toList⟩

def rulesChronicle (s : Session) : List (Rule × RuleId) → Chronicle
  | [] => .empty
  | (r, id) :: rules =>
    if (s.tryRule r id).fired then s.ruleChronicle r id
    else s.ruleChronicle r id ++ (s.tryRule r id).session.rulesChronicle rules

def stepChronicle (s : Session) : Chronicle :=
  s.rulesChronicle s.rules.numbered

def runChronicle (s : Session) : Nat → Chronicle
  | 0 => s.stepChronicle
  | allowed + 1 =>
    if s.step.fired then s.stepChronicle ++ s.step.session.runChronicle allowed else s.stepChronicle

def solveChronicle (s : Session) : Chronicle :=
  s.runChronicle s.maxPasses

end Session

inductive Command where
  | goals (ts : List Term)
  | limit (passes : Nat)
  | solve

/-- A session with the chronicle of what its rules have done. -/
structure Journal where
  session : Session
  chronicle : Chronicle

namespace Journal

def begin (base : RuleBase) : Journal :=
  ⟨.start base, .empty⟩

def obey (j : Journal) : Command → Journal
  | .goals ts => ⟨(j.session.addGoals ts).2, j.chronicle⟩
  | .limit passes => ⟨{ j.session with maxPasses := passes }, j.chronicle⟩
  | .solve => ⟨j.session.solve.session, j.chronicle ++ j.session.solveChronicle⟩

def obeyAll (j : Journal) (commands : List Command) : Journal :=
  commands.foldl obey j

end Journal

def Session.posed (rs : List Rule) (goals : List Term) : Session :=
  ((Journal.begin (RuleBase.ofRules rs).1).obeyAll [.goals goals]).session

end ConstraintHandling
