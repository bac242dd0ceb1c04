import ConstraintHandling.Program.Parser
import Mathlib.Tactic.Common

/-! The grammar of terms: which tokens derive which term with which priority. An operator takes
arguments up to the priorities that the table allows; parentheses, brackets and argument lists take
terms of any priority up to the largest one. -/
namespace ConstraintHandling

namespace Token

/-- The term that a token is by itself: a literal, a named variable or a boolean. -/
def literal? : Token → Option Term
  | .int i => some (.int i)
  | .float x => some (.float x)
  | .str s => some (.str s)
  | .var v => if v = "_" then none else some (.var ⟨v, 0⟩)
  | .name n =>
    if n = "true" then some (.bool true) else if n = "false" then some (.bool false) else none
  | _ => none

/-- The number that a numeral stands for behind a minus sign. -/
def negated? : Token → Option Term
  | .int i => some (.int (-i))
  | .float x => some (.float x.negate)
  | _ => none

/-- The name of an atom or of a compound term: any but the booleans, or a quoted one. -/
def functor? : Token → Option String
  | .name n => if n = "true" ∨ n = "false" then none else some n
  | .quoted n => some n
  | _ => none

def operator? (t : Token) : Option Operator :=
  t.operatorName?.bind Operator.binary?

/-- The token can stand in a term: it is no anonymous variable, and of the symbols it is an operator, a
bracket or a comma. -/
def standsInTerm : Token → Bool
  | .var v => v != "_"
  | .symbol s => (Operator.binary? s).isSome || (Operator.unary? s).isSome ||
    ["(", ")", "[", "]", ","].contains s
  | _ => true

lemma standsInTerm_of_literal? {a : Token} {t : Term} (h : a.literal? = some t) :
    a.standsInTerm = true := by
  cases a with
  | var v =>
    simp only [literal?] at h
    split at h
    · cases h
    · next named => simp [standsInTerm, named]
  | symbol s => cases h
  | _ => rfl

lemma standsInTerm_of_negated? {a : Token} {t : Term} (h : a.negated? = some t) :
    a.standsInTerm = true := by
  cases a with
  | int | float => rfl
  | _ => cases h

lemma standsInTerm_of_functor? {a : Token} {f : String} (h : a.functor? = some f) :
    a.standsInTerm = true := by
  cases a with
  | name | quoted => rfl
  | _ => cases h

lemma standsInTerm_of_operator? {a : Token} {op : Operator} (h : a.operator? = some op) :
    a.standsInTerm = true := by
  cases a with
  | symbol s =>
    have known : Operator.binary? s = some op := h
    simp [standsInTerm, known]
  | name => rfl
  | _ => cases h

end Token

/-- What tokens can derive: a term of some priority, one or more terms separated by commas, or any
number of them. -/
inductive Phrase where
  | term (t : Term) (priority : Nat)
  | terms (ts : List Term)
  | sequence (ts : List Term)

@[simp] def Phrase.items : Phrase → List Term
  | .term t _ => [t]
  | .terms ts => ts
  | .sequence ts => ts

/-- The tokens derive the phrase. -/
inductive Derives : List Token → Phrase → Prop
  | literal {a t} (h : a.literal? = some t) : Derives [a] (.term t 0)
  | negative {a t} (h : a.negated? = some t) : Derives [.symbol "-", a] (.term t 0)
  | atom {a f} (h : a.functor? = some f) : Derives [a] (.term (.atom f) 0)
  | compound {a f ts args} (h : a.functor? = some f) (below : Derives ts (.sequence args)) :
    Derives (a :: .symbol "(" :: (ts ++ [.symbol ")"])) (.term (.compound f args 0) 0)
  | list {ts items} (below : Derives ts (.sequence items)) :
    Derives (.symbol "[" :: (ts ++ [.symbol "]"])) (.term (.list items) 0)
  | parentheses {ts t p} (below : Derives ts (.term t p)) (hp : p ≤ Cursor.termMaximum) :
    Derives (.symbol "(" :: (ts ++ [.symbol ")"])) (.term t 0)
  | unary {s op ts t p} (hop : Operator.unary? s = some op)
    (unsigned : s = "-" → ts.head?.bind Token.negated? = none) (below : Derives ts (.term t p))
    (hp : p ≤ op.argumentMaxima.2) :
    Derives (.symbol s :: ts) (.term (.compound op.name [t] op.priority) op.priority)
  | binary {a op ts t p us u q} (hop : a.operator? = some op) (left : Derives ts (.term t p))
    (hp : p ≤ op.argumentMaxima.1) (right : Derives us (.term u q)) (hq : q ≤ op.argumentMaxima.2) :
    Derives (ts ++ a :: us) (.term (.compound op.name [t, u] op.priority) op.priority)
  | last {ts t p} (below : Derives ts (.term t p)) (hp : p ≤ Cursor.termMaximum) :
    Derives ts (.terms [t])
  | more {ts t p us rest} (below : Derives ts (.term t p)) (hp : p ≤ Cursor.termMaximum)
    (later : Derives us (.terms rest)) : Derives (ts ++ .symbol "," :: us) (.terms (t :: rest))
  | none : Derives [] (.sequence [])
  | some {ts items} (below : Derives ts (.terms items)) : Derives ts (.sequence items)

lemma Derives.standsInTerm {ts : List Token} {phrase : Phrase} (h : Derives ts phrase) :
    ∀ a ∈ ts, a.standsInTerm = true := by
  induction h with
  | literal h => simpa using Token.standsInTerm_of_literal? h
  | negative h => simpa using ⟨by decide, Token.standsInTerm_of_negated? h⟩
  | atom h => simpa using Token.standsInTerm_of_functor? h
  | compound h _ ih =>
    simp only [List.forall_mem_cons, List.forall_mem_append]
    exact ⟨Token.standsInTerm_of_functor? h, by decide, ih, by decide, by simp⟩
  | list _ ih =>
    simp only [List.forall_mem_cons, List.forall_mem_append]
    exact ⟨by decide, ih, by decide, by simp⟩
  | parentheses _ _ ih =>
    simp only [List.forall_mem_cons, List.forall_mem_append]
    exact ⟨by decide, ih, by decide, by simp⟩
  | unary hop _ _ _ ih => exact List.forall_mem_cons.mpr ⟨by simp [Token.standsInTerm, hop], ih⟩
  | binary hop _ _ _ _ left right =>
    rw [List.forall_mem_append, List.forall_mem_cons]
    exact ⟨left, Token.standsInTerm_of_operator? hop, right⟩
  | last _ _ ih => exact ih
  | more _ _ _ ih later =>
    rw [List.forall_mem_append, List.forall_mem_cons]
    exact ⟨ih, by decide, later⟩
  | none => simp
  | some _ ih => exact ih

namespace Operator

lemma maxima_le_of_binary? {name : String} {op : Operator} (h : binary? name = some op) :
    op.argumentMaxima.1 ≤ op.priority ∧ op.argumentMaxima.2 ≤ op.priority ∧ 0 < op.priority := by
  have all : ∀ op ∈ binaryTable, op.argumentMaxima.1 ≤ op.priority ∧
      op.argumentMaxima.2 ≤ op.priority ∧ 0 < op.priority := by decide
  exact all op (mem_binaryTable_of_binary? h).1

lemma maximum_le_of_unary? {name : String} {op : Operator} (h : unary? name = some op) :
    op.argumentMaxima.2 ≤ op.priority := by
  have all : ∀ op ∈ unaryTable, op.argumentMaxima.2 ≤ op.priority := by decide
  exact all op (mem_unaryTable_of_unary? h).1

lemma maximum_lt_of_le {op next : Operator} (h : op ∈ binaryTable ++ unaryTable)
    (hnext : next ∈ binaryTable) (hle : op.priority ≤ next.argumentMaxima.1) :
    op.argumentMaxima.2 < next.priority := by
  have all : ∀ op ∈ binaryTable ++ unaryTable, ∀ next ∈ binaryTable,
      op.priority ≤ next.argumentMaxima.1 → op.argumentMaxima.2 < next.priority := by decide
  exact all op h next hnext hle

end Operator

namespace Cursor
variable {fuel maximum n line : Nat} {a : Token} {rest : List Located}

lemma operator?_cons (l : Located) : (⟨l :: rest, n⟩ : Cursor).operator? = l.token.operator? := rfl

lemma peek?_eq : rest.head?.map Located.token = (⟨rest, n⟩ : Cursor).peek? := rfl

lemma primary_literal {t : Term} (h : a.literal? = some t) :
    primary (fuel + 1) maximum ⟨⟨a, line⟩ :: rest, n⟩ = .ok ((t, 0), ⟨rest, n⟩) := by
  rw [primary]
  cases a with
  | int i => cases h; rfl
  | float x => cases h; rfl
  | str s => cases h; rfl
  | quoted q => cases h
  | symbol s => cases h
  | var v =>
    simp only [Token.literal?] at h
    split at h
    · cases h
    · next named =>
      cases h
      simp [named]
  | name m =>
    simp only [Token.literal?] at h
    split at h
    · next hm => cases h; cases hm; rfl
    · split at h
      · next hm => cases h; cases hm; rfl
      · cases h

lemma primary_functor {f : String} (h : a.functor? = some f) :
    primary (fuel + 1) maximum ⟨⟨a, line⟩ :: rest, n⟩ = application fuel f ⟨rest, n⟩ := by
  rw [primary]
  cases a with
  | quoted q => cases h; rfl
  | name m =>
    simp only [Token.functor?] at h
    split at h
    · cases h
    · next hm =>
      cases h
      simp only [not_or] at hm
      dsimp only
      split
      case h_10 heq =>
        cases heq
        rfl
      all_goals simp_all
  | _ => cases h

lemma primary_negative {t : Term} {line' : Nat} (h : a.negated? = some t) :
    primary (fuel + 1) maximum ⟨⟨.symbol "-", line⟩ :: ⟨a, line'⟩ :: rest, n⟩ =
      .ok ((t, 0), ⟨rest, n⟩) := by
  rw [primary]
  cases a with
  | int i => cases h; rfl
  | float x => cases h; rfl
  | _ => cases h

lemma primary_parenthesis :
    primary (fuel + 1) maximum ⟨⟨.symbol "(", line⟩ :: rest, n⟩ =
      match term fuel termMaximum ⟨rest, n⟩ with
      | .error e => .error e
      | .ok (t, c) =>
        match c.expect ")" with
        | .error e => .error e
        | .ok c => .ok ((t, 0), c) := by
  rw [primary]
  rfl

lemma primary_bracket :
    primary (fuel + 1) maximum ⟨⟨.symbol "[", line⟩ :: rest, n⟩ =
      match sequence fuel "]" ⟨rest, n⟩ with
      | .error e => .error e
      | .ok (items, c) => .ok ((.list items, 0), c) := by
  rw [primary]
  rfl

lemma primary_symbol {s : String} (parenthesis : s ≠ "(") (bracket : s ≠ "[")
    (unsigned : s = "-" → (rest.head?.map Located.token).bind Token.negated? = none) :
    primary (fuel + 1) maximum ⟨⟨.symbol s, line⟩ :: rest, n⟩ =
      match Operator.unary? s with
      | none => .error (.unexpectedSymbol s line)
      | some op =>
        if maximum < op.priority then .error (.unexpectedSymbol s line)
        else
          match term fuel op.argumentMaxima.2 ⟨rest, n⟩ with
          | .error e => .error e
          | .ok (arg, c) => .ok ((.compound op.name [arg] op.priority, op.priority), c) := by
  rw [primary]
  dsimp only
  split
  case h_7 heq =>
    cases heq
    split
    · next hpeek _ _ =>
      have none := unsigned rfl
      rw [peek?_eq, hpeek] at none
      cases none
    · next hpeek _ _ =>
      have none := unsigned rfl
      rw [peek?_eq, hpeek] at none
      cases none
    · rfl
  all_goals simp_all

end Cursor
end ConstraintHandling
