import ConstraintHandling.Report
import ConstraintHandling.Session

/-! Solutions: how solving ended and the constraints that are left. A solution is written line by
line, either as two lists or as clauses that can be read back. -/
namespace ConstraintHandling

/-- The end of solving and the live constraints, in order of assertion. -/
structure Solution where
  verdict : Verdict
  ordinary : List Term
  builtin : List Term

def Session.solution (s : Session) (verdict : Verdict) : Solution :=
  ⟨verdict, s.store.liveTerms .ordinary, s.store.liveTerms .builtin⟩

inductive Style where
  | list | clauses
  deriving DecidableEq, Repr

def Style.name : Style → String
  | list => "list"
  | clauses => "clauses"

def Style.all : List Style := [.list, .clauses]

def Style.ofName? (name : String) : Option Style :=
  all.find? fun s => s.name == name

inductive Purpose where
  | verdict | list | solution
  deriving DecidableEq, Repr

/-- What was going on when writing a line failed. -/
def Purpose.activity : Purpose → String
  | verdict => "while writing the solving result"
  | list => "while writing a list of constraints"
  | solution => "while writing the solution"

/-- A line of a written solution, without its line feed. -/
structure Line where
  purpose : Purpose
  text : String
  deriving DecidableEq, Repr

/-- Something that takes a limited number of bytes, and that may refuse to be flushed. -/
structure Sink where
  capacity : Nat
  flushes : Bool

inductive WriteError where
  | full (purpose : Purpose)
  | flushRefused
  deriving DecidableEq, Repr

def WriteError.report : WriteError → Report
  | full purpose => .within purpose.activity (.plain "limit reached")
  | flushRefused => .within "while flushing the solution" (.plain "flush refused")

namespace Solution

/-- The pairs of arguments of the ordinary constraints of a functor that have two. -/
def findPairs (s : Solution) (functor : String) : List (Term × Term) :=
  s.ordinary.filterMap fun t =>
    match t.functor? == some functor, t.args with
    | true, [left, right] => some (left, right)
    | _, _ => none

/-- A solution that is no fixpoint is announced on a line of its own. -/
def verdictLines (s : Solution) : List Line :=
  match s.verdict with
  | .fixpoint => []
  | .nonTermination => [⟨.verdict, "NON-TERMINATION"⟩]

def listLine (ts : List Term) : Line :=
  ⟨.list, "[" ++ Rule.conjunctionText ts ++ "]"⟩

def clauseLine (t : Term) : Line :=
  ⟨.solution, t.text ++ "."⟩

/-- The lines of a solution. Among clauses a comment separates the built-in constraints from the
ordinary ones, if there are any. -/
def lines (s : Solution) : Style → List Line
  | .list => s.verdictLines ++ [listLine s.ordinary, listLine s.builtin]
  | .clauses =>
    s.verdictLines ++ s.ordinary.map clauseLine ++
      (if s.builtin.isEmpty then [] else ⟨.solution, "% built-in"⟩ :: s.builtin.map clauseLine)

def text (s : Solution) (style : Style) : String :=
  String.join ((s.lines style).map fun l => l.text ++ "\n")

/-- Writes lines as long as there is room for them. -/
def writeLines : Nat → List Line → Except WriteError Unit
  | _, [] => .ok ()
  | room, l :: ls =>
    let bytes := l.text.utf8ByteSize + 1
    if room < bytes then .error (.full l.purpose) else writeLines (room - bytes) ls

def writeTo (s : Solution) (style : Style) (sink : Sink) : Except WriteError Unit :=
  match writeLines sink.capacity (s.lines style) with
  | .error e => .error e
  | .ok () => if sink.flushes then .ok () else .error .flushRefused

end Solution
end ConstraintHandling
