import ConstraintHandling.Text.Visible

/-! Quoted text. Strings escape the double quote, the backslash and whatever is not visible; atoms
escape the quote alone. Both are read back by the same rule, in which a backslash stands for the
character after it. -/
namespace ConstraintHandling.Text

def hexCode (c : Char) : List Char :=
  Nat.toDigits 16 c.toNat

/-- The written form of one character of a string. -/
def escapeChar (c : Char) : List Char :=
  match c with
  | '"' => ['\\', '"']
  | '\\' => ['\\', '\\']
  | '\n' => ['\\', 'n']
  | '\r' => ['\\', 'r']
  | '\t' => ['\\', 't']
  | '\x00' => ['\\', '0']
  | c => if isVisible c then [c] else '\\' :: 'u' :: '\x7b' :: hexCode c ++ ['\x7d']

def quoteString (s : String) : String :=
  String.ofList ('"' :: s.toList.flatMap escapeChar ++ ['"'])

def quoteAtom (s : String) : String :=
  String.ofList ('\'' :: s.toList.flatMap (fun c => if c = '\'' then ['\\', '\''] else [c]) ++ ['\''])

/-- The characters that the inside of a quoted text stands for: a backslash is dropped and the
character after it stays, except that `n` and `t` then mean a line feed and a tab. -/
def unescape : List Char → List Char
  | '\\' :: 'n' :: cs => '\n' :: unescape cs
  | '\\' :: 't' :: cs => '\t' :: unescape cs
  | '\\' :: c :: cs => c :: unescape cs
  | ['\\'] => []
  | c :: cs => c :: unescape cs
  | [] => []

/-- Names that are written without quotes: a lower case letter, then letters, digits and
underscores, all of them ASCII. -/
def isPlainName (s : String) : Bool :=
  match s.toList with
  | [] => false
  | c :: cs => c.isLower && cs.all fun d => d.isAlphanum || d == '_'

def atomText (s : String) : String :=
  if isPlainName s then s else quoteAtom s

end ConstraintHandling.Text
