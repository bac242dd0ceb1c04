import ConstraintHandling.Environment

/-! One-way matching: only the variables of the pattern are bound, and those of the subject are
constants. -/
namespace ConstraintHandling

mutual
/-- Extends an environment so that the pattern becomes the subject. A pattern variable that is
already bound has to be bound to a term equal to the one it meets. -/
def matchTerm : Term → Term → Environment → Option Environment
  | .var v, subject, env =>
    match env.lookup v with
    | some bound => if bound == subject then some env else none
    | none => some (env.bind v subject)
  | .compound f ps _, .compound g ss _, env =>
    if f = g ∧ ps.length = ss.length then matchAll ps ss env else none
  | .list ps, .list ss, env => if ps.length = ss.length then matchAll ps ss env else none
  | p, s, env => if p == s then some env else none
/-- Matches two lists place by place, up to the end of the shorter one. -/
def matchAll : List Term → List Term → Environment → Option Environment
  | p :: ps, s :: ss, env =>
    match matchTerm p s env with
    | some env' => matchAll ps ss env'
    | none => none
  | _, _, env => some env
end

end ConstraintHandling
