import ConstraintHandling.Term.Printer

/-! Rules and the base they are registered in. A rule keeps the constraints matched by some of its
heads and deletes the others; its guards restrict the matches and its body is what it does. -/
namespace ConstraintHandling

structure Rule where
  name : String
  keepHeads : List Term
  deleteHeads : List Term
  guards : List Term
  body : List Term

namespace Rule

/-- The heads in the order in which they are matched: those to delete come first. -/
def heads (r : Rule) : List Term :=
  r.deleteHeads ++ r.keepHeads

def isPropagation (r : Rule) : Bool :=
  r.deleteHeads.isEmpty

def terms (r : Rule) : List Term :=
  r.keepHeads ++ r.deleteHeads ++ r.guards ++ r.body

def conjunctionText (ts : List Term) : String :=
  String.intercalate ", " (ts.map Term.text)

def headText (r : Rule) : String :=
  if r.isPropagation then conjunctionText r.keepHeads ++ " ==> "
  else
    (if r.keepHeads.isEmpty then "" else conjunctionText r.keepHeads ++ " \\ ") ++
      conjunctionText r.deleteHeads ++ " <=> "

/-- The rule as it is written in a program. An empty body is written as `true`. -/
def text (r : Rule) : String :=
  r.name ++ " @ " ++ r.headText ++
    (if r.guards.isEmpty then "" else conjunctionText r.guards ++ " | ") ++
    (if r.body.isEmpty then "true" else conjunctionText r.body) ++ "."

end Rule

structure Headless where
  name : String
  deriving DecidableEq, Repr

def Headless.message (h : Headless) : String :=
  "rule \"" ++ h.name ++ "\" has no head"

/-- The place of a rule in the base. -/
abbrev RuleId := Nat

/-- Rules in the order in which they are tried. -/
structure RuleBase where
  rules : List Rule

namespace RuleBase

def empty : RuleBase := ⟨[]⟩

instance : Inhabited RuleBase := ⟨empty⟩

def size (base : RuleBase) : Nat :=
  base.rules.length

/-- Registers a rule at the end and returns its place; a rule without heads is refused. -/
def add (base : RuleBase) (r : Rule) : Except Headless (RuleBase × RuleId) :=
  if r.heads.isEmpty then .error ⟨r.name⟩ else .ok (⟨base.rules ++ [r]⟩, base.size)

/-- Registers the rules one after the other, leaving out those that are refused. -/
def ofRules (rs : List Rule) : RuleBase × List Headless :=
  rs.foldl (fun (base, refused) r =>
    match base.add r with
    | .ok (base', _) => (base', refused)
    | .error e => (base, refused ++ [e])) (empty, [])

def get? (base : RuleBase) (id : RuleId) : Option Rule :=
  base.rules[id]?

def numbered (base : RuleBase) : List (Rule × RuleId) :=
  base.rules.zipIdx

def find? (base : RuleBase) (name : String) : Option (Rule × RuleId) :=
  base.numbered.find? fun r => r.1.name == name

end RuleBase
end ConstraintHandling
