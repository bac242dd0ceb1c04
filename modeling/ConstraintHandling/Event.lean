import ConstraintHandling.Rule
import ConstraintHandling.Store.Basic

/-! What happens while a session runs, and the log records that report it. -/
namespace ConstraintHandling

/-- How solving ends: no rule can fire any more, or a rule still fired when the passes were used
up. -/
inductive Verdict where
  | fixpoint | nonTermination
  deriving DecidableEq, Repr

def Verdict.text : Verdict → String
  | .fixpoint => "fixpoint"
  | .nonTermination => "non-termination"

inductive Level where
  | trace | debug | info | warn | error
  deriving DecidableEq, Repr

def Level.name : Level → String
  | .trace => "TRACE"
  | .debug => "DEBUG"
  | .info => "INFO"
  | .warn => "WARN"
  | .error => "ERROR"

def Level.rank : Level → Nat
  | .trace => 0
  | .debug => 1
  | .info => 2
  | .warn => 3
  | .error => 4

structure Record where
  level : Level
  message : String
  deriving DecidableEq, Repr

/-- How much of the search is reported; every amount includes the ones before it. -/
inductive Tracing where
  | off | firings | attempts | environments
  deriving DecidableEq, Repr

namespace Tracing

def rank : Tracing → Nat
  | off => 0
  | firings => 1
  | attempts => 2
  | environments => 3

def name : Tracing → String
  | off => "off"
  | firings => "firings"
  | attempts => "attempts"
  | environments => "environments"

def all : List Tracing := [off, firings, attempts, environments]

def ofName? (name : String) : Option Tracing :=
  all.find? fun t => t.name == name

def compare (s t : Tracing) : Ordering :=
  Ord.compare s.rank t.rank

/-- `t` reports at least what `s` reports. -/
def includes (t s : Tracing) : Bool :=
  s.rank ≤ t.rank

theorem ofName?_name (t : Tracing) : ofName? t.name = some t := by
  cases t <;> decide

end Tracing

inductive Event where
  | attempted (rule : Rule)
  | fired (rule : Rule) (matched : List Term)
  | environment (rule : Rule) (env : Environment)
  | notFired (rule : Rule)
  | bodyFailed (rule : Rule)
  | ignoredAssignment (rule : Rule) (value : Term)
  | ignoredLiteral (rule : Rule) (value : Term)
  | refused (refusal : Refusal)
  | ended (verdict : Verdict) (passes : Nat)

namespace Event

/-- The record of what only a listener reports. -/
def listenedRecord? (tracing : Tracing) : Event → Option Record
  | attempted r =>
    if tracing.includes .attempts then some ⟨.trace, "trying rule " ++ r.name⟩ else none
  | fired r matched =>
    if tracing.includes .firings then
      some ⟨.debug, "rule " ++ r.name ++ " fired on " ++ Rule.conjunctionText matched⟩
    else none
  | environment r env =>
    if tracing.includes .environments then
      some ⟨.trace, "environment of rule " ++ r.name ++ ": " ++ env.text⟩
    else none
  | notFired r =>
    if tracing.includes .attempts then some ⟨.trace, "rule " ++ r.name ++ " did not fire"⟩ else none
  | ended verdict passes =>
    some ⟨.info, "CHR solver ended with result " ++ verdict.text ++ " after " ++ Nat.repr passes ++
      " pass(es)"⟩
  | _ => none

/-- The record of an event. Firing reports its trouble by itself; the rest is reported to a
listener, if there is one. -/
def record? (listener : Option Tracing) : Event → Option Record
  | bodyFailed r => some ⟨.debug, "the body of rule " ++ r.name ++ " failed"⟩
  | ignoredAssignment r t =>
    some ⟨.debug, "ignoring body assignment " ++ t.text ++ " of rule " ++ r.name⟩
  | ignoredLiteral r t =>
    some ⟨.debug, "ignoring body literal " ++ t.text ++ " of rule " ++ r.name⟩
  | refused refusal => some ⟨.warn, refusal.message⟩
  | event => listener.bind fun tracing => event.listenedRecord? tracing

end Event

def logOf (listener : Option Tracing) (events : Array Event) : List Record :=
  events.toList.filterMap (Event.record? listener)

end ConstraintHandling
