/-! Errors as they are reported: what failed, and the chain of causes behind it. -/
namespace ConstraintHandling

/-- The text of an error, followed by those of its causes, the most immediate one first. -/
structure Report where
  message : String
  causes : List String
  deriving DecidableEq, Repr

def Report.plain (message : String) : Report :=
  ⟨message, []⟩

def Report.within (message : String) (cause : Report) : Report :=
  ⟨message, cause.message :: cause.causes⟩

end ConstraintHandling
