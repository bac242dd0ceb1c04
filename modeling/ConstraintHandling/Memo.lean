import ConstraintHandling.Buckets
import ConstraintHandling.Environment
import ConstraintHandling.Rule

/-! The memo of the search for matches. For every rule, head and environment from which the head was
tried, it keeps one outcome for each candidate met so far, in the order of the candidates. -/
namespace ConstraintHandling

abbrev EnvironmentId := Nat

/-- What became of a candidate: it did not match, or it matched and led to an environment. -/
inductive Slot where
  | noMatch
  | matched (id : EnvironmentId)
  deriving DecidableEq, Repr

/-- A head of a rule, given by its place, under the environment of the heads before it. -/
structure Stage where
  parent : EnvironmentId
  rule : RuleId
  head : Nat
  deriving DecidableEq, Repr

def Stage.compare : Stage → Stage → Ordering :=
  compareLex (compareOn Stage.parent) (compareLex (compareOn Stage.rule) (compareOn Stage.head))

instance : Std.TransCmp Stage.compare :=
  inferInstanceAs (Std.TransCmp (compareLex _ _))

instance : Std.LawfulEqCmp Stage.compare where
  eq_of_compare {s t} h := by
    simp only [Stage.compare, compareLex, compareOn, Ordering.then_eq_eq,
      Std.compare_eq_iff_eq] at h
    cases s; cases t
    simp_all

/-- Environments by their numbers, and the outcomes of candidates. -/
structure Memo where
  environments : Array Environment
  slots : Buckets Stage Slot Stage.compare

namespace Memo

/-- The number of the empty environment, from which every search starts. -/
def start : EnvironmentId := 0

def initial : Memo := ⟨#[.empty], .empty⟩

instance : Inhabited Memo := ⟨initial⟩

/-- The number of environments, which is the number the next one gets. -/
def size (m : Memo) : Nat :=
  m.environments.size

def environment? (m : Memo) (id : EnvironmentId) : Option Environment :=
  m.environments[id]?

def addEnvironment (m : Memo) (env : Environment) : Memo :=
  let ⟨environments, slots⟩ := m
  ⟨environments.push env, slots⟩

/-- The outcomes at a stage, in the order of the candidates. -/
def outcomes (m : Memo) (stage : Stage) : Array Slot :=
  m.slots.get stage

def record (m : Memo) (stage : Stage) (slot : Slot) : Memo :=
  let ⟨environments, slots⟩ := m
  ⟨environments, slots.push stage slot⟩

def recordMatch (m : Memo) (stage : Stage) (env : Environment) : Memo :=
  let id := m.size
  (m.addEnvironment env).record stage (.matched id)

@[simp] theorem size_initial : initial.size = 1 := rfl

@[simp] theorem size_addEnvironment (m : Memo) (env : Environment) :
    (m.addEnvironment env).size = m.size + 1 := by
  simp [addEnvironment, size]

@[simp] theorem size_record (m : Memo) (stage : Stage) (slot : Slot) :
    (m.record stage slot).size = m.size := rfl

@[simp] theorem size_recordMatch (m : Memo) (stage : Stage) (env : Environment) :
    (m.recordMatch stage env).size = m.size + 1 := by
  simp [recordMatch]

theorem outcomes_record (m : Memo) (stage other : Stage) (slot : Slot) :
    (m.record stage slot).outcomes other =
      if stage = other then (m.outcomes other).push slot else m.outcomes other :=
  Buckets.get_push m.slots stage other slot

@[simp] theorem outcomes_addEnvironment (m : Memo) (env : Environment) (stage : Stage) :
    (m.addEnvironment env).outcomes stage = m.outcomes stage := rfl

theorem outcomes_recordMatch (m : Memo) (stage other : Stage) (env : Environment) :
    (m.recordMatch stage env).outcomes other =
      if stage = other then (m.outcomes other).push (.matched m.size) else m.outcomes other :=
  outcomes_record (m.addEnvironment env) stage other (.matched m.size)

theorem size_outcomes_record (m : Memo) (stage : Stage) (slot : Slot) :
    ((m.record stage slot).outcomes stage).size = (m.outcomes stage).size + 1 := by
  rw [outcomes_record, if_pos rfl, Array.size_push]

theorem outcomes_record_of_head_lt {stage other : Stage} (h : other.head < stage.head) (m : Memo)
    (slot : Slot) : (m.record stage slot).outcomes other = m.outcomes other := by
  rw [outcomes_record, if_neg]
  rintro rfl
  exact Nat.lt_irrefl _ h

theorem environment?_addEnvironment (m : Memo) (env : Environment) (id : EnvironmentId) :
    (m.addEnvironment env).environment? id =
      if id = m.size then some env else m.environment? id := by
  change (m.environments.push env)[id]? = _
  rw [Array.getElem?_push]
  rfl

theorem environment?_recordMatch (m : Memo) (stage : Stage) (env : Environment)
    (id : EnvironmentId) :
    (m.recordMatch stage env).environment? id =
      if id = m.size then some env else m.environment? id :=
  environment?_addEnvironment m env id

theorem lt_size_of_environment? {m : Memo} {id : EnvironmentId} {env : Environment}
    (h : m.environment? id = some env) : id < m.size :=
  (Array.getElem?_eq_some_iff.mp h).1

theorem environment?_keeps {m : Memo} {id : EnvironmentId} {env : Environment} (new : Environment)
    (h : m.environment? id = some env) : (m.addEnvironment new).environment? id = some env := by
  rw [environment?_addEnvironment, if_neg (Nat.ne_of_lt (lt_size_of_environment? h)), h]

end Memo
end ConstraintHandling
