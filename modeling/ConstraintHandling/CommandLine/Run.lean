import ConstraintHandling.CommandLine.Arguments
import ConstraintHandling.Program.Basic

/-! What the commands do, as a function of the arguments and of the input file: the lines that are
printed, log records among them, and whether the run succeeds. -/
namespace ConstraintHandling.CommandLine

def banner : String := "chrust 0.1.0"

/-- The line that names the authors, whom the build lists with colons between them. -/
def credits (authors : String) : String :=
  String.intercalate ", " (authors.splitOn ":")

inductive Output where
  | log (record : Record)
  | text (line : String)
  deriving DecidableEq, Repr

/-- Why an input file has no content: it cannot be found, or it cannot be read. -/
inductive FileError where
  | notFound (cause : String)
  | notReadable (cause : String)

/-- Outputs in order, followed by what a computation came to. -/
structure Printing (α : Type) where
  outputs : List Output
  result : Except Report α

namespace Printing

def done {α : Type} (outputs : List Output) (a : α) : Printing α :=
  ⟨outputs, .ok a⟩

def failed {α : Type} (outputs : List Output) (e : Report) : Printing α :=
  ⟨outputs, .error e⟩

/-- Goes on with a result, if there is one. -/
def andThen {α β : Type} (p : Printing α) (next : α → Printing β) : Printing β :=
  match p.result with
  | .ok a => ⟨p.outputs ++ (next a).outputs, (next a).result⟩
  | .error e => ⟨p.outputs, .error e⟩

end Printing

def info (message : String) : Output :=
  .log ⟨.info, message⟩

def warning (message : String) : Output :=
  .log ⟨.warn, message⟩

/-- Reads the program in a file and registers its rules. -/
def readProgram (file : String) (content : Except FileError ByteArray) :
    Printing (Program × RuleBase) :=
  match content with
  | .error (.notFound cause) =>
    .failed [] (.within ("while opening file \"" ++ file ++ "\"") (.plain cause))
  | .error (.notReadable cause) =>
    .failed [info "reading input file"]
      (.within ("while reading file \"" ++ file ++ "\"")
        (.within "while reading the CHR program" (.plain cause)))
  | .ok bytes =>
    let reading := Program.readBytes bytes
    let warnings := reading.warnings.map fun w =>
      warning ("at line " ++ Nat.repr w.line ++ ": " ++ w.message)
    let opening := info "reading input file" :: warnings
    match reading.result with
    | .error e => .failed opening (.within ("while reading file \"" ++ file ++ "\"") e.report)
    | .ok program =>
      let (rules, refused) := program.ruleBase
      let ignored := refused.map fun e => warning ("ignoring a rule: " ++ e.message)
      let summary := "the program has " ++ Nat.repr program.rules.length ++ " rule(s) (" ++
        Nat.repr rules.size ++ " registered) and " ++ Nat.repr program.goalCount ++ " goal(s)"
      .done (opening ++ ignored ++ [info summary]) (program, rules)

/-- Adds the conjunctions of goals one after the other, up to the first that is refused. -/
def addAllGoals (s : Session) : List (List Term) → Except GoalRefusal Session
  | [] => .ok s
  | goals :: rest =>
    match s.addGoals goals with
    | (.ok (), s) => addAllGoals s rest
    | (.error e, _) => .error e

def refusalReport (e : GoalRefusal) : Report :=
  .within ("while adding goal " ++ e.goal.text) (.plain e.cause.message)

def solveProgram (options : SolveOptions) (maxPasses : Nat) (program : Program)
    (rules : RuleBase) : Printing Unit :=
  match addAllGoals { Session.start rules with maxPasses := maxPasses } program.goals with
  | .error e => .failed [] (refusalReport e)
  | .ok session =>
    let outcome := session.solve
    let log := (logOf (some options.tracing) outcome.events).map Output.log
    let exhausted := match outcome.verdict with
      | .fixpoint => []
      | .nonTermination =>
        [warning "the maximal number of passes was reached before a fixpoint"]
    let solution := outcome.session.solution outcome.verdict
    .done (info ("solving with at most " ++ Nat.repr maxPasses ++ " pass(es)") :: log ++ exhausted ++
      (solution.lines options.style).map fun l => .text l.text) ()

def passesOf (options : SolveOptions) : Except Report Nat :=
  match options.maxPasses with
  | none => .ok defaultMaxPasses
  | some text =>
    match Numeral.readNatural text.toList with
    | .ok n => .ok n
    | .error e =>
      .error (.within ("invalid number of iterations \"" ++ text ++ "\"") (.plain e.message))

def Command.execute (authors : String) (content : Except FileError ByteArray) :
    Command → Printing Unit
  | .authors => .done [.text banner, .text (credits authors)] ()
  | .check file => (readProgram file content).andThen fun _ => .done [] ()
  | .solve options =>
    match passesOf options with
    | .error e => .failed [] e
    | .ok maxPasses =>
      (readProgram options.file content).andThen fun (program, rules) =>
        solveProgram options maxPasses program rules

def Command.file? : Command → Option String
  | .authors => none
  | .check file => some file
  | .solve options => some options.file

structure Transcript where
  outputs : List Output
  status : Nat

def errorOutputs (e : Report) : List Output :=
  .log ⟨.error, "an error occurred: " ++ e.message⟩ ::
    e.causes.map fun cause => .log ⟨.error, "caused by: " ++ cause⟩

/-- A filter leaves text alone. -/
def LogFilter.admits (filter : LogFilter) : Output → Bool
  | .log record => LogFilter.shows filter record.level
  | .text _ => true

def Invocation.run (i : Invocation) (authors : String) (content : Except FileError ByteArray) :
    Transcript :=
  let printing := i.command.execute authors content
  let (ending, status) := match printing.result with
    | .ok () => ([info "exiting successfully"], 0)
    | .error e => (errorOutputs e, 1)
  ⟨(info banner :: printing.outputs ++ ending).filter (LogFilter.admits i.filter), status⟩

def usage : List String := [
  "authors [--logging-level LEVEL]",
  "check -f FILE [--logging-level LEVEL]",
  "solve -f FILE [--max-iterations N] [--trace EVENTS] [--writer FORMAT] [--logging-level LEVEL]",
  "help [COMMAND]"]

/-- The transcript when no command is run. -/
def Stop.transcript : Stop → Transcript
  | .help => ⟨usage.map info ++ [info "exiting successfully"], 0⟩
  | .misuse => ⟨info banner :: errorOutputs ⟨"invalid arguments", usage⟩, 1⟩

end ConstraintHandling.CommandLine
