import ConstraintHandling.Program.Parser

/-! Programs: rules and conjunctions of goals, read clause by clause, with warnings about variables
that occur once and about names given to several rules. -/
namespace ConstraintHandling

/-- A program. The goals of one clause are a conjunction. -/
structure Program where
  rules : List Rule
  goals : List (List Term)

inductive Warning where
  | singleton (line : Nat) (name : String) (rule : String)
  | repeatedName (line : Nat) (rule : String) (first : Nat)
  deriving DecidableEq, Repr

namespace Warning

def line : Warning → Nat
  | singleton line _ _ => line
  | repeatedName line _ _ => line

def message : Warning → String
  | singleton _ name rule => "singleton variable " ++ name ++ " in rule \"" ++ rule ++ "\""
  | repeatedName _ rule first =>
    "rule name \"" ++ rule ++ "\" was already used at line " ++ Nat.repr first

end Warning

inductive ReadError where
  | notText
  | lexical (cause : LexicalError)
  | clause (line : Nat) (cause : ClauseError)

def ReadError.report : ReadError → Report
  | notText => .within "while reading the CHR program" (.plain "stream did not contain valid UTF-8")
  | lexical cause => cause.report
  | clause line cause =>
    .within ("while reading the clause beginning at line " ++ Nat.repr line) (.plain cause.message)

/-- The warnings raised while reading, and the program or the error that ended it. -/
structure Reading where
  warnings : List Warning
  result : Except ReadError Program

/-- The variables that occur once in a rule, in order; a name that begins with an underscore tells
that this is intended. -/
def Rule.singletons (r : Rule) : List Variable :=
  let occurrences := r.terms.flatMap Term.occurrences
  occurrences.filter fun v => occurrences.count v == 1 && v.name.toList.head? != some '_'

namespace Program

def goalCount (p : Program) : Nat :=
  p.goals.flatten.length

/-- The rules read so far with the lines on which they begin, and the goals read so far. -/
structure Draft where
  rules : List (Rule × Nat)
  goals : List (List Term)

namespace Draft

def empty : Draft := ⟨[], []⟩

/-- The line of the first rule of the given name. -/
def firstLine? (d : Draft) (name : String) : Option Nat :=
  (d.rules.find? fun r => r.1.name == name).map (·.2)

/-- What is suspect about a rule that comes next. -/
def warnings (d : Draft) (r : Rule) (line : Nat) : List Warning :=
  r.singletons.map (fun v => .singleton line v.name r.name) ++
    ((d.firstLine? r.name).map fun first => .repeatedName line r.name first).toList

def add (d : Draft) (line : Nat) : Clause → Draft × List Warning
  | .rule r => (⟨d.rules ++ [(r, line)], d.goals⟩, d.warnings r line)
  | .goals goals => (⟨d.rules, d.goals ++ [goals]⟩, [])

def program (d : Draft) : Program :=
  ⟨d.rules.map (·.1), d.goals⟩

end Draft

/-- Reads at most the given number of clauses. -/
def readClauses : Nat → Draft → Cursor → Reading
  | 0, d, _ => ⟨[], .ok d.program⟩
  | clauses + 1, d, c =>
    match c.tokens with
    | [] => ⟨[], .ok d.program⟩
    | t :: _ =>
      match Clause.parse (d.rules.length + 1) c with
      | .error e => ⟨[], .error (.clause t.line e)⟩
      | .ok (clause, c) =>
        let (d, warnings) := d.add t.line clause
        let later := readClauses clauses d c
        ⟨warnings ++ later.warnings, later.result⟩

/-- Reads a program. Every clause has a token, so that there are at most as many clauses as
tokens. -/
def read (text : List Char) : Reading :=
  match Token.scan text with
  | .error e => ⟨[], .error (.lexical e)⟩
  | .ok tokens => readClauses tokens.length .empty ⟨tokens, 0⟩

def readBytes (bytes : ByteArray) : Reading :=
  match String.fromUTF8? bytes with
  | some text => read text.toList
  | none => ⟨[], .error .notText⟩

def ruleBase (p : Program) : RuleBase × List Headless :=
  RuleBase.ofRules p.rules

end Program
end ConstraintHandling
