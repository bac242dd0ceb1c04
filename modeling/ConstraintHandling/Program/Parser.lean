import ConstraintHandling.Program.Token
import ConstraintHandling.Rule
import ConstraintHandling.Term.Operation

/-! Parsing of tokens into terms and clauses. Operators between terms are taken as long as their
priority and the one of their left argument allow it. Parsing is bounded by a fuel; between two
steps that use up a token only a few others are possible, so that a multiple of the number of tokens
is enough. -/
namespace ConstraintHandling

/-- Tokens not yet read, and the number of anonymous variables met so far. -/
structure Cursor where
  tokens : List Located
  anonymous : Nat

inductive ClauseError where
  | endOfInput
  | expected (symbol : String) (line : Nat) (found : Token)
  | unexpectedSymbol (symbol : String) (line : Nat)
  | unexpectedToken (token : Token) (line : Nat)
  | missingArrow (rule : String)

namespace ClauseError

def message : ClauseError → String
  | endOfInput => "unexpected end of input"
  | expected symbol line found =>
    "expected \"" ++ symbol ++ "\" at line " ++ Nat.repr line ++ ", found " ++ found.text
  | unexpectedSymbol symbol line => "unexpected \"" ++ symbol ++ "\" at line " ++ Nat.repr line
  | unexpectedToken token line => "unexpected " ++ token.text ++ " at line " ++ Nat.repr line
  | missingArrow rule => "rule \"" ++ rule ++ "\" has no arrow"

end ClauseError

/-- The result of parsing something from a cursor, and the cursor behind it. -/
abbrev Parsed (α : Type) := Except ClauseError (α × Cursor)

namespace Cursor

def peek? (c : Cursor) : Option Token :=
  c.tokens.head?.map (·.token)

def isAt (c : Cursor) (symbol : String) : Bool :=
  match c.tokens with
  | t :: _ => t.token.isSymbol symbol
  | [] => false

def advance (c : Cursor) : Cursor :=
  ⟨c.tokens.tail, c.anonymous⟩

def expect (c : Cursor) (symbol : String) : Except ClauseError Cursor :=
  match c.tokens with
  | [] => .error .endOfInput
  | t :: rest =>
    if t.token.isSymbol symbol then .ok ⟨rest, c.anonymous⟩
    else .error (.expected symbol t.line t.token)

/-- The operator that the next token can be between two terms. -/
def operator? (c : Cursor) : Option Operator :=
  (c.peek?.bind Token.operatorName?).bind Operator.binary?

/-- The largest priority of a term anywhere. -/
def termMaximum : Nat := 1200

def anonymousName (n : Nat) : String :=
  "_" ++ Nat.repr n

mutual
def term : Nat → Nat → Cursor → Parsed Term
  | 0, _, _ => .error .endOfInput
  | fuel + 1, maximum, c =>
    match primary fuel maximum c with
    | .error e => .error e
    | .ok ((left, priority), c) => operators fuel maximum left priority c
/-- Goes on behind a term of the given priority with operators and their right arguments. -/
def operators : Nat → Nat → Term → Nat → Cursor → Parsed Term
  | 0, _, _, _, _ => .error .endOfInput
  | fuel + 1, maximum, left, priority, c =>
    match c.operator? with
    | none => .ok (left, c)
    | some op =>
      if maximum < op.priority ∨ op.argumentMaxima.1 < priority then .ok (left, c)
      else
        match term fuel op.argumentMaxima.2 c.advance with
        | .error e => .error e
        | .ok (right, c) =>
          operators fuel maximum (.compound op.name [left, right] op.priority) op.priority c
/-- Parses a term that does not begin with an argument of an operator between terms, with its
priority. -/
def primary : Nat → Nat → Cursor → Parsed (Term × Nat)
  | 0, _, _ => .error .endOfInput
  | fuel + 1, maximum, c =>
    match c.tokens with
    | [] => .error .endOfInput
    | ⟨token, line⟩ :: rest =>
      let c : Cursor := ⟨rest, c.anonymous⟩
      match token with
      | .int i => .ok ((.int i, 0), c)
      | .float x => .ok ((.float x, 0), c)
      | .str s => .ok ((.str s, 0), c)
      | .var name =>
        if name = "_" then
          let n := c.anonymous + 1
          .ok ((.var ⟨anonymousName n, 0⟩, 0), ⟨c.tokens, n⟩)
        else .ok ((.var ⟨name, 0⟩, 0), c)
      | .symbol "(" =>
        match term fuel termMaximum c with
        | .error e => .error e
        | .ok (t, c) =>
          match c.expect ")" with
          | .error e => .error e
          | .ok c => .ok ((t, 0), c)
      | .symbol "[" =>
        match sequence fuel "]" c with
        | .error e => .error e
        | .ok (items, c) => .ok ((.list items, 0), c)
      | .symbol s =>
        match s, c.peek? with
        | "-", some (.int i) => .ok ((.int (-i), 0), c.advance)
        | "-", some (.float x) => .ok ((.float x.negate, 0), c.advance)
        | _, _ =>
          match Operator.unary? s with
          | none => .error (.unexpectedSymbol s line)
          | some op =>
            if maximum < op.priority then .error (.unexpectedSymbol s line)
            else
              match term fuel op.argumentMaxima.2 c with
              | .error e => .error e
              | .ok (arg, c) => .ok ((.compound op.name [arg] op.priority, op.priority), c)
      | .name "true" => .ok ((.bool true, 0), c)
      | .name "false" => .ok ((.bool false, 0), c)
      | .name n => application fuel n c
      | .quoted n => application fuel n c
/-- Goes on behind the name of an atom or, if a parenthesis follows, of a compound term. -/
def application : Nat → String → Cursor → Parsed (Term × Nat)
  | 0, _, _ => .error .endOfInput
  | fuel + 1, name, c =>
    if c.isAt "(" then
      match sequence fuel ")" c.advance with
      | .error e => .error e
      | .ok (args, c) => .ok ((.compound name args 0, 0), c)
    else .ok ((.atom name, 0), c)
/-- Parses terms separated by commas, if any, up to a closing symbol. -/
def sequence : Nat → String → Cursor → Parsed (List Term)
  | 0, _, _ => .error .endOfInput
  | fuel + 1, closing, c =>
    if c.isAt closing then .ok ([], c.advance)
    else
      match terms fuel c with
      | .error e => .error e
      | .ok (items, c) =>
        match c.expect closing with
        | .error e => .error e
        | .ok c => .ok (items, c)
def terms : Nat → Cursor → Parsed (List Term)
  | 0, _ => .error .endOfInput
  | fuel + 1, c =>
    match term fuel termMaximum c with
    | .error e => .error e
    | .ok (t, c) =>
      if c.isAt "," then
        match terms fuel c.advance with
        | .error e => .error e
        | .ok (ts, c) => .ok (t :: ts, c)
      else .ok ([t], c)
end

/-- A fuel that parsing from here does not use up. -/
def fuel (c : Cursor) : Nat :=
  6 * c.tokens.length + 6

def parseTerm (c : Cursor) (maximum : Nat) : Parsed Term :=
  term c.fuel maximum c

def parseTerms (c : Cursor) : Parsed (List Term) :=
  terms c.fuel c

end Cursor

inductive Clause where
  | rule (r : Rule)
  | goals (goals : List Term)

namespace Clause

/-- The name in front of a rule, if there is one. -/
def ruleName? (c : Cursor) : Option (String × Cursor) :=
  match c.tokens with
  | ⟨.name n, _⟩ :: t :: rest
  | ⟨.var n, _⟩ :: t :: rest
  | ⟨.quoted n, _⟩ :: t :: rest =>
    if t.token.isSymbol "@" then some (n, ⟨rest, c.anonymous⟩) else none
  | _ => none

def withoutTrue (body : List Term) : List Term :=
  body.filter fun t => !(t == .bool true)

/-- Parses terms and the dot that ends a clause. -/
def parseEnd (c : Cursor) : Parsed (List Term) :=
  match c.parseTerms with
  | .error e => .error e
  | .ok (ts, c) =>
    match c.expect "." with
    | .error e => .error e
    | .ok c => .ok (ts, c)

/-- Parses the rest of a rule whose heads are read: guards, if any, and the body. -/
def parseRule (name : String) (keep delete : List Term) (c : Cursor) : Parsed Clause :=
  match c.parseTerms with
  | .error e => .error e
  | .ok (ts, c) =>
    if c.isAt "|" then
      match parseEnd c.advance with
      | .error e => .error e
      | .ok (body, c) => .ok (.rule ⟨name, keep, delete, ts, withoutTrue body⟩, c)
    else
      match c.expect "." with
      | .error e => .error e
      | .ok c => .ok (.rule ⟨name, keep, delete, [], withoutTrue ts⟩, c)

/-- Parses the rest of a rule behind the heads to keep. -/
def parseDeleting (name : String) (keep : List Term) (c : Cursor) : Parsed Clause :=
  match c.parseTerms with
  | .error e => .error e
  | .ok (delete, c) =>
    match c.expect "<=>" with
    | .error e => .error e
    | .ok c => parseRule name keep delete c

/-- The name of a rule that has none of its own. -/
def defaultName (place : Nat) : String :=
  "rule_" ++ Nat.repr place

/-- Parses a clause behind the name that may have been given to it. -/
def parseNamed (place : Nat) (given : Option String) (c : Cursor) : Parsed Clause :=
  let name := given.getD (defaultName place)
  match c.parseTerms with
  | .error e => .error e
  | .ok (heads, c) =>
    match c.tokens with
    | [] => .error .endOfInput
    | ⟨token, line⟩ :: rest =>
      let c : Cursor := ⟨rest, c.anonymous⟩
      match token with
      | .symbol "." =>
        match given with
        | some name => .error (.missingArrow name)
        | none => .ok (.goals heads, c)
      | .symbol "\\" => parseDeleting name heads c
      | .symbol "<=>" => parseRule name [] heads c
      | .symbol "==>" => parseRule name heads [] c
      | token => .error (.unexpectedToken token line)

/-- Parses a clause; an unnamed rule is named after the place it gets. -/
def parse (place : Nat) (c : Cursor) : Parsed Clause :=
  match ruleName? c with
  | some (name, c) => parseNamed place (some name) c
  | none => parseNamed place none c

end Clause
end ConstraintHandling
