import ConstraintHandling.Decimal.Layout
import ConstraintHandling.Decimal.Numeral
import ConstraintHandling.Report
import ConstraintHandling.Text.Blank
import ConstraintHandling.Text.Digit
import ConstraintHandling.Text.Quoted

/-! Tokens of program text. A text is cut into lexemes, each the longest of its class that the rest
of the text begins with; blanks and comments are dropped and the others become tokens. -/
namespace ConstraintHandling

inductive Token where
  | int (value : Int64)
  | float (value : Binary64)
  | str (text : String)
  | var (name : String)
  | name (name : String)
  | quoted (name : String)
  | symbol (text : String)

namespace Token

/-- The text of a token in messages: its class and what it holds. -/
def text : Token → String
  | int i => "Int(" ++ Int.repr i.toInt ++ ")"
  | float x => "Float(" ++ x.tokenText ++ ")"
  | str s => "Str(" ++ Text.quoteString s ++ ")"
  | var v => "Var(" ++ Text.quoteString v ++ ")"
  | name n => "Name(" ++ Text.quoteString n ++ ")"
  | quoted q => "Quoted(" ++ Text.quoteString q ++ ")"
  | symbol s => "Symbol(" ++ Text.quoteString s ++ ")"

def isSymbol (s : String) : Token → Bool
  | symbol t => t == s
  | _ => false

/-- The name under which a token can be an operator between two terms. -/
def operatorName? : Token → Option String
  | symbol s => some s
  | name n => some n
  | _ => none

end Token

/-- A token and the line on which it begins. -/
structure Located where
  token : Token
  line : Nat

inductive LexemeClass where
  | blank
  | comment
  | float (parts : Numeral.FloatParts)
  | int
  | var
  | name
  | quoted
  | str
  | symbol

/-- A piece of text together with its class. -/
structure Lexeme where
  kind : LexemeClass
  text : List Char

namespace Lexeme

/-- A letter, a digit or an underscore, all of them ASCII. -/
def isNameChar (c : Char) : Bool :=
  c.isAlphanum || c == '_'

/-- The symbols, of which longer ones come before those that they begin with. -/
def symbols : List String := [
  "<=>", "==>", ":=", "==", "!=", "<=", ">=", "&&", "||", "**",
  "<", ">", "=", "+", "-", "*", "/", "!", "|", "\\", "@", ".", ",", "(", ")", "[", "]", "^"]

/-- The inside of a quoted text up to the closing quote, and that quote. A backslash takes the next
character with it, which must not be a line feed. -/
def quotedBody (quote : Char) : List Char → Option (List Char)
  | [] => none
  | '\\' :: c :: cs => if c = '\n' then none else (quotedBody quote cs).map ('\\' :: c :: ·)
  | c :: cs =>
    if c = quote then some [c]
    else if c = '\\' then none
    else (quotedBody quote cs).map (c :: ·)

/-- The exponent of a float numeral: its mark with the sign, whether it is negative, its digits. -/
def exponent? : List Char → Option (List Char × Bool × List Char)
  | e :: cs =>
    if e = 'e' || e = 'E' then
      let sign := cs.takeWhile fun c => c == '+' || c == '-'
      let digits := (cs.drop sign.length).takeWhile Text.isDecimalDigit
      if sign.length ≤ 1 && !digits.isEmpty then some (e :: sign, sign == ['-'], digits) else none
    else none
  | [] => none

/-- A numeral: digits, which are a float if a point and more digits follow. -/
def numeral (cs : List Char) : Lexeme :=
  let whole := cs.takeWhile Text.isDecimalDigit
  match cs.drop whole.length with
  | '.' :: rest =>
    let fraction := rest.takeWhile Text.isDecimalDigit
    if fraction.isEmpty then ⟨.int, whole⟩
    else
      match exponent? (rest.drop fraction.length) with
      | some (mark, negative, digits) =>
        ⟨.float ⟨whole, fraction, negative, digits⟩, whole ++ '.' :: fraction ++ mark ++ digits⟩
      | none => ⟨.float ⟨whole, fraction, false, []⟩, whole ++ '.' :: fraction⟩
  | _ => ⟨.int, whole⟩

/-- The lexeme at the beginning of a text. -/
def first? (cs : List Char) : Option Lexeme :=
  match cs with
  | [] => none
  | c :: rest =>
    if Text.isBlank c then some ⟨.blank, cs.takeWhile Text.isBlank⟩
    else if c = '%' then some ⟨.comment, cs.takeWhile (· != '\n')⟩
    else if Text.isDecimalDigit c then some (numeral cs)
    else if c.isUpper || c = '_' then some ⟨.var, cs.takeWhile isNameChar⟩
    else if c.isLower then some ⟨.name, cs.takeWhile isNameChar⟩
    else if c = '\'' then (quotedBody c rest).map fun body => ⟨.quoted, c :: body⟩
    else if c = '"' then (quotedBody c rest).map fun body => ⟨.str, c :: body⟩
    else (symbols.find? fun s => s.toList.isPrefixOf cs).map fun s => ⟨.symbol, s.toList⟩

def inside (l : Lexeme) : List Char :=
  (l.text.drop 1).dropLast

def lineFeeds (l : Lexeme) : Nat :=
  l.text.count '\n'

end Lexeme

inductive LexicalError where
  | unexpectedCharacter (line : Nat)
  | invalidInteger (text : String) (line : Nat) (cause : NumeralError)
  | invalidFloat (text : String) (line : Nat) (cause : NumeralError)
  deriving DecidableEq, Repr

def LexicalError.report : LexicalError → Report
  | unexpectedCharacter line => .plain ("unexpected character at line " ++ Nat.repr line)
  | invalidInteger text line cause =>
    .within ("invalid integer " ++ text ++ " at line " ++ Nat.repr line) (.plain cause.message)
  | invalidFloat text line cause =>
    .within ("invalid float " ++ text ++ " at line " ++ Nat.repr line) (.plain cause.message)

/-- The token of a lexeme; blanks and comments have none. -/
def Lexeme.token? (l : Lexeme) (line : Nat) : Except LexicalError (Option Token) :=
  let text := String.ofList l.text
  match l.kind with
  | .blank | .comment => .ok none
  | .float parts =>
    match Numeral.readFloat parts with
    | .ok x => .ok (some (.float x))
    | .error e => .error (.invalidFloat text line e)
  | .int =>
    match Numeral.readInteger l.text with
    | .ok i => .ok (some (.int i))
    | .error e => .error (.invalidInteger text line e)
  | .var => .ok (some (.var text))
  | .name => .ok (some (.name text))
  | .quoted => .ok (some (.quoted (String.ofList (Text.unescape l.inside))))
  | .str => .ok (some (.str (String.ofList (Text.unescape l.inside))))
  | .symbol => .ok (some (.symbol text))

namespace Token

/-- Cuts at most `lexemes` lexemes off a text that begins on the given line. -/
def scanWithin : Nat → Nat → List Char → Except LexicalError (List Located)
  | _, _, [] => .ok []
  | 0, _, _ => .ok []
  | lexemes + 1, line, cs =>
    match Lexeme.first? cs with
    | none => .error (.unexpectedCharacter line)
    | some l =>
      match l.token? line with
      | .error e => .error e
      | .ok token =>
        match scanWithin lexemes (line + l.lineFeeds) (cs.drop l.text.length) with
        | .error e => .error e
        | .ok later => .ok (token.toList.map (⟨·, line⟩) ++ later)

/-- The tokens of a text. No lexeme is empty, so that there are at most as many as characters. -/
def scan (cs : List Char) : Except LexicalError (List Located) :=
  scanWithin cs.length 1 cs

end Token
end ConstraintHandling
