import ConstraintHandling.Proofs.Program.Soundness

/-! What the grammar derives is parsed. A term is read up to tokens that do not continue it: an
operator behind it either takes it as its left argument or is beyond the largest priority at which
any part of it is parsed. -/
namespace ConstraintHandling

def Token.closes : Token → Bool
  | .symbol s => s == ")" || s == "]"
  | _ => false

lemma Token.closes_of_literal? {a : Token} {t : Term} (h : a.literal? = some t) :
    a.closes = false := by
  cases a with
  | symbol s => cases h
  | _ => rfl

lemma Token.closes_of_functor? {a : Token} {f : String} (h : a.functor? = some f) :
    a.closes = false := by
  cases a with
  | symbol s => cases h
  | _ => rfl

lemma Operator.closes_of_unary? {s : String} {op : Operator} (h : unary? s = some op) :
    (Token.symbol s).closes = false := by
  rw [Token.closes, Bool.or_eq_false_iff, beq_eq_false_iff_ne, beq_eq_false_iff_ne]
  constructor
  · rintro rfl
    cases h
  · rintro rfl
    cases h

lemma Derives.begins {ts : List Token} {phrase : Phrase} (h : Derives ts phrase) :
    (∃ items, phrase = .sequence items) ∨ ∃ a us, ts = a :: us ∧ a.closes = false := by
  induction h with
  | literal h => exact .inr ⟨_, _, rfl, Token.closes_of_literal? h⟩
  | negative _ => exact .inr ⟨_, _, rfl, by decide⟩
  | atom h => exact .inr ⟨_, _, rfl, Token.closes_of_functor? h⟩
  | compound h _ _ => exact .inr ⟨_, _, rfl, Token.closes_of_functor? h⟩
  | list _ _ => exact .inr ⟨_, _, rfl, by decide⟩
  | parentheses _ _ _ => exact .inr ⟨_, _, rfl, by decide⟩
  | unary hop _ _ _ _ => exact .inr ⟨_, _, rfl, Operator.closes_of_unary? hop⟩
  | binary _ _ _ _ _ ih _ =>
    obtain ⟨items, heq⟩ | ⟨a, us, rfl, ha⟩ := ih
    · cases heq
    · exact .inr ⟨a, _, rfl, ha⟩
  | last _ _ ih =>
    obtain ⟨items, heq⟩ | ih := ih
    · cases heq
    · exact .inr ih
  | more _ _ _ ih _ =>
    obtain ⟨items, heq⟩ | ⟨a, us, rfl, ha⟩ := ih
    · cases heq
    · exact .inr ⟨a, _, rfl, ha⟩
  | none => exact .inl ⟨_, rfl⟩
  | some _ _ => exact .inl ⟨_, rfl⟩

namespace Cursor

/-- The next token does not continue a term of the given priority, unless as an operator that takes it
as its left argument. -/
structure Follows (c : Cursor) (priority : Nat) : Prop where
  closed : c.isAt "(" = false
  operator : ∀ op, c.operator? = some op →
    priority < op.priority ∨ priority ≤ op.argumentMaxima.1

section Follows
variable {c : Cursor} {op : Operator}

lemma Follows.stops (h : c.Follows op.priority)
    (hop : op ∈ Operator.binaryTable ++ Operator.unaryTable)
    (hle : op.argumentMaxima.2 ≤ op.priority) {next : Operator} (hnext : c.operator? = some next) :
    op.argumentMaxima.2 < next.priority := by
  obtain hlt | hleft := h.operator next hnext
  · exact Nat.lt_of_le_of_lt hle hlt
  · obtain ⟨name, -, hbinary⟩ := Option.bind_eq_some_iff.mp hnext
    exact Operator.maximum_lt_of_le hop (Operator.mem_binaryTable_of_binary? hbinary).1 hleft

lemma Follows.argument (h : c.Follows op.priority)
    (hop : op ∈ Operator.binaryTable ++ Operator.unaryTable)
    (hle : op.argumentMaxima.2 ≤ op.priority) {q : Nat} (hq : q ≤ op.argumentMaxima.2) :
    c.Follows q where
  closed := h.closed
  operator _ hnext := .inl (Nat.lt_of_le_of_lt hq (h.stops hop hle hnext))

/-- Symbols that are neither operators nor open an argument list. -/
def separators : List String := [")", "]", ",", ".", "|", "\\", "<=>", "==>"]

lemma operator?_separator {s : String} (hs : s ∈ separators) {l : Located} (hl : l.token = .symbol s)
    (rest : List Located) (n : Nat) : (⟨l :: rest, n⟩ : Cursor).operator? = none := by
  have all : ∀ s ∈ separators, Operator.binary? s = none := by decide
  rw [operator?_cons, hl]
  exact all s hs

lemma follows_separator {s : String} (hs : s ∈ separators) {l : Located} (hl : l.token = .symbol s)
    (rest : List Located) (n p : Nat) : (⟨l :: rest, n⟩ : Cursor).Follows p where
  closed := by
    have all : ∀ s ∈ separators, (s == "(") = false := by decide
    change l.token.isSymbol "(" = false
    rw [hl]
    exact all s hs
  operator op hop := by
    rw [operator?_separator hs hl] at hop
    cases hop

lemma follows_operator {a : Token} {p : Nat} (hop : a.operator? = some op)
    (hp : p ≤ op.argumentMaxima.1) (line : Nat) (rest : List Located) (n : Nat) :
    (⟨⟨a, line⟩ :: rest, n⟩ : Cursor).Follows p where
  closed := by
    cases opening : a.isSymbol "(" with
    | false => exact opening
    | true =>
      rw [eq_symbol_of_isSymbol opening] at hop
      cases hop
  operator next hnext := by
    rw [operator?_cons, hop] at hnext
    cases hnext
    exact .inr hp

lemma operators_stop {fuel maximum p : Nat} {t : Term}
    (h : ∀ op, c.operator? = some op → maximum < op.priority) :
    operators (fuel + 1) maximum t p c = .ok (t, c) := by
  rw [operators]
  cases hop : c.operator? with
  | none => rfl
  | some op =>
    dsimp only
    rw [if_pos (.inl (h op hop))]

end Follows

/-- The parser reads the phrase from the tokens, given fuel for six steps a token. Behind a term it
goes on with the operators that follow. -/
def Completes (ts : List Token) : Phrase → Prop
  | .term t p => ∀ {ls rest : List Located} {n maximum fuel : Nat}, ls.map Located.token = ts →
    p ≤ maximum → (⟨rest, n⟩ : Cursor).Follows p → 6 * ts.length ≤ fuel →
    ∃ left, fuel ≤ left + ts.length ∧
      term fuel maximum ⟨ls ++ rest, n⟩ = operators left maximum t p ⟨rest, n⟩
  | .terms items => ∀ {ls rest : List Located} {close : Located} {s : String} {n fuel : Nat},
    ls.map Located.token = ts → close.token = .symbol s → s ∈ separators → s ≠ "," →
    6 * ts.length + 2 ≤ fuel →
    terms fuel ⟨ls ++ close :: rest, n⟩ = .ok (items, ⟨close :: rest, n⟩)
  | .sequence items => ∀ {ls rest : List Located} {close : Located} {s : String} {n fuel : Nat},
    ls.map Located.token = ts → close.token = .symbol s → close.token.closes = true →
    6 * ts.length + 3 ≤ fuel →
    sequence fuel s ⟨ls ++ close :: rest, n⟩ = .ok (items, ⟨rest, n⟩)

lemma term_of_primary {fuel maximum p : Nat} {t : Term} {c c' : Cursor}
    (h : primary fuel maximum c = .ok ((t, p), c')) :
    term (fuel + 1) maximum c = operators fuel maximum t p c' := by
  rw [term, h]

lemma advance_cons (l : Located) (rest : List Located) (n : Nat) :
    (⟨l :: rest, n⟩ : Cursor).advance = ⟨rest, n⟩ := rfl

lemma isAt_cons {s : String} {l : Located} (h : l.token = .symbol s) (rest : List Located)
    (n : Nat) : (⟨l :: rest, n⟩ : Cursor).isAt s = true := by
  change l.token.isSymbol s = true
  rw [h]
  exact beq_self_eq_true s

lemma expect_cons {s : String} {l : Located} (h : l.token = .symbol s) (rest : List Located)
    (n : Nat) : (⟨l :: rest, n⟩ : Cursor).expect s = .ok ⟨rest, n⟩ :=
  if_pos (isAt_cons h rest n)

section Cases
variable {ts us : List Token} {t u : Term} {p q : Nat} {a : Token} {op : Operator}

lemma completed (h : Completes ts (.term t p)) {s : String} (hs : s ∈ separators) {l : Located}
    (hl : l.token = .symbol s) {ls rest : List Located} {n maximum fuel : Nat}
    (hls : ls.map Located.token = ts) (hp : p ≤ maximum) (hfuel : 6 * ts.length < fuel) :
    term fuel maximum ⟨ls ++ l :: rest, n⟩ = .ok (t, ⟨l :: rest, n⟩) := by
  obtain ⟨left, hleft, hterm⟩ :=
    h (n := n) hls hp (follows_separator hs hl rest n p) (Nat.le_of_lt hfuel)
  obtain ⟨g, rfl⟩ : ∃ g, left = g + 1 := ⟨left - 1, by omega⟩
  rw [hterm]
  refine operators_stop fun op hop => ?_
  rw [operator?_separator hs hl] at hop
  cases hop

lemma map_eq_singleton {ls : List Located} (h : ls.map Located.token = [a]) :
    ∃ line, ls = [⟨a, line⟩] := by
  obtain ⟨⟨a', line⟩, ls, rfl, rfl, hls⟩ := List.map_eq_cons_iff.mp h
  rw [List.map_eq_nil_iff.mp hls]
  exact ⟨line, rfl⟩

lemma map_eq_cons {ls : List Located} (h : ls.map Located.token = a :: ts) :
    ∃ line ks, ls = ⟨a, line⟩ :: ks ∧ ks.map Located.token = ts := by
  obtain ⟨⟨a', line⟩, ks, rfl, rfl, hks⟩ := List.map_eq_cons_iff.mp h
  exact ⟨line, ks, rfl, hks⟩

lemma map_eq_append_singleton {ls : List Located} (h : ls.map Located.token = ts ++ [a]) :
    ∃ ks line, ls = ks ++ [⟨a, line⟩] ∧ ks.map Located.token = ts := by
  obtain ⟨ks, last, rfl, hks, hlast⟩ := List.map_eq_append_iff.mp h
  obtain ⟨line, rfl⟩ := map_eq_singleton hlast
  exact ⟨ks, line, rfl, hks⟩

lemma completes_literal (h : a.literal? = some t) : Completes [a] (.term t 0) := by
  intro ls rest n maximum fuel hls hp follows hfuel
  obtain ⟨line, rfl⟩ := map_eq_singleton hls
  rw [List.length_singleton] at hfuel ⊢
  obtain ⟨f, rfl⟩ : ∃ f, fuel = f + 2 := ⟨fuel - 2, by omega⟩
  exact ⟨f + 1, by omega, term_of_primary (primary_literal h)⟩

lemma completes_negative (h : a.negated? = some t) :
    Completes [.symbol "-", a] (.term t 0) := by
  intro ls rest n maximum fuel hls hp follows hfuel
  obtain ⟨line, ks, rfl, hks⟩ := map_eq_cons hls
  obtain ⟨line', rfl⟩ := map_eq_singleton hks
  rw [List.length_cons, List.length_singleton] at hfuel ⊢
  obtain ⟨f, rfl⟩ : ∃ f, fuel = f + 2 := ⟨fuel - 2, by omega⟩
  exact ⟨f + 1, by omega, term_of_primary (primary_negative h)⟩

lemma completes_atom {f : String} (h : a.functor? = some f) :
    Completes [a] (.term (.atom f) 0) := by
  intro ls rest n maximum fuel hls hp follows hfuel
  obtain ⟨line, rfl⟩ := map_eq_singleton hls
  rw [List.length_singleton] at hfuel ⊢
  obtain ⟨g, rfl⟩ : ∃ g, fuel = g + 3 := ⟨fuel - 3, by omega⟩
  have bare : application (g + 1) f ⟨rest, n⟩ = .ok ((.atom f, 0), ⟨rest, n⟩) := by
    rw [application, follows.closed]
    rfl
  exact ⟨g + 2, by omega, term_of_primary ((primary_functor h).trans bare)⟩

lemma completes_compound {f : String} {args : List Term} (h : a.functor? = some f)
    (ih : Completes ts (.sequence args)) :
    Completes (a :: .symbol "(" :: (ts ++ [.symbol ")"])) (.term (.compound f args 0) 0) := by
  intro ls rest n maximum fuel hls hp follows hfuel
  obtain ⟨line, ks, rfl, hks⟩ := map_eq_cons hls
  obtain ⟨line', ms, rfl, hms⟩ := map_eq_cons hks
  obtain ⟨inside, line'', rfl, hinside⟩ := map_eq_append_singleton hms
  simp only [List.length_cons, List.length_append, List.length_nil] at hfuel ⊢
  obtain ⟨g, rfl⟩ : ∃ g, fuel = g + 3 := ⟨fuel - 3, by omega⟩
  have hargs : sequence g ")" ⟨inside ++ ⟨.symbol ")", line''⟩ :: rest, n⟩ =
      .ok (args, ⟨rest, n⟩) := ih hinside rfl rfl (by omega)
  have applied : application (g + 1) f
      ⟨⟨.symbol "(", line'⟩ :: (inside ++ ⟨.symbol ")", line''⟩ :: rest), n⟩ =
        .ok ((.compound f args 0, 0), ⟨rest, n⟩) := by
    rw [application, if_pos (isAt_cons rfl _ n), advance_cons, hargs]
  simp only [List.cons_append, List.append_assoc, List.nil_append]
  exact ⟨g + 2, by omega, term_of_primary ((primary_functor h).trans applied)⟩

lemma completes_list {items : List Term} (ih : Completes ts (.sequence items)) :
    Completes (.symbol "[" :: (ts ++ [.symbol "]"])) (.term (.list items) 0) := by
  intro ls rest n maximum fuel hls hp follows hfuel
  obtain ⟨line, ks, rfl, hks⟩ := map_eq_cons hls
  obtain ⟨inside, line', rfl, hinside⟩ := map_eq_append_singleton hks
  simp only [List.length_cons, List.length_append, List.length_nil] at hfuel ⊢
  obtain ⟨g, rfl⟩ : ∃ g, fuel = g + 2 := ⟨fuel - 2, by omega⟩
  have hitems : sequence g "]" ⟨inside ++ ⟨.symbol "]", line'⟩ :: rest, n⟩ =
      .ok (items, ⟨rest, n⟩) := ih hinside rfl rfl (by omega)
  simp only [List.cons_append, List.append_assoc, List.nil_append]
  exact ⟨g + 1, by omega, term_of_primary (by rw [primary_bracket, hitems])⟩

lemma completes_parentheses (ih : Completes ts (.term t p)) (hp : p ≤ termMaximum) :
    Completes (.symbol "(" :: (ts ++ [.symbol ")"])) (.term t 0) := by
  intro ls rest n maximum fuel hls _ follows hfuel
  obtain ⟨line, ks, rfl, hks⟩ := map_eq_cons hls
  obtain ⟨inside, line', rfl, hinside⟩ := map_eq_append_singleton hks
  simp only [List.length_cons, List.length_append, List.length_nil] at hfuel ⊢
  obtain ⟨g, rfl⟩ : ∃ g, fuel = g + 2 := ⟨fuel - 2, by omega⟩
  have hterm : term g termMaximum ⟨inside ++ ⟨.symbol ")", line'⟩ :: rest, n⟩ =
      .ok (t, ⟨⟨.symbol ")", line'⟩ :: rest, n⟩) :=
    completed ih (by decide) rfl hinside hp (by omega)
  simp only [List.cons_append, List.append_assoc, List.nil_append]
  refine ⟨g + 1, by omega, term_of_primary ?_⟩
  rw [primary_parenthesis, hterm]
  dsimp only
  rw [expect_cons rfl]

lemma completed_argument (h : Completes ts (.term t p)) (hp : p ≤ op.argumentMaxima.2)
    (hop : op ∈ Operator.binaryTable ++ Operator.unaryTable)
    (hle : op.argumentMaxima.2 ≤ op.priority) {ls rest : List Located} {n fuel : Nat}
    (follows : (⟨rest, n⟩ : Cursor).Follows op.priority) (hls : ls.map Located.token = ts)
    (hfuel : 6 * ts.length < fuel) :
    term fuel op.argumentMaxima.2 ⟨ls ++ rest, n⟩ = .ok (t, ⟨rest, n⟩) := by
  obtain ⟨left, hleft, hterm⟩ := h hls hp (follows.argument hop hle hp) (Nat.le_of_lt hfuel)
  obtain ⟨g, rfl⟩ : ∃ g, left = g + 1 := ⟨left - 1, by omega⟩
  rw [hterm]
  exact operators_stop fun next hnext => follows.stops hop hle hnext

lemma completes_unary {s : String} (hop : Operator.unary? s = some op)
    (unsigned : s = "-" → ts.head?.bind Token.negated? = none) (nonempty : ts ≠ [])
    (ih : Completes ts (.term t p)) (hp : p ≤ op.argumentMaxima.2) :
    Completes (.symbol s :: ts) (.term (.compound op.name [t] op.priority) op.priority) := by
  intro ls rest n maximum fuel hls hle follows hfuel
  obtain ⟨line, ks, rfl, hks⟩ := map_eq_cons hls
  rw [List.length_cons] at hfuel ⊢
  obtain ⟨g, rfl⟩ : ∃ g, fuel = g + 2 := ⟨fuel - 2, by omega⟩
  have parenthesis : s ≠ "(" := by
    rintro rfl
    cases hop
  have bracket : s ≠ "[" := by
    rintro rfl
    cases hop
  have unsigned' : s = "-" →
      ((ks ++ rest).head?.map Located.token).bind Token.negated? = none := by
    intro hs
    obtain _ | ⟨k, ks⟩ := ks
    · exact absurd hks.symm nonempty
    · rw [← unsigned hs, ← hks]
      rfl
  have hmem := List.mem_append_right Operator.binaryTable (Operator.mem_unaryTable_of_unary? hop).1
  have hterm := completed_argument ih hp hmem (Operator.maximum_le_of_unary? hop) follows hks
    (show 6 * ts.length < g by omega)
  refine ⟨g + 1, by omega, term_of_primary ?_⟩
  rw [List.cons_append, primary_symbol parenthesis bracket unsigned', hop]
  dsimp only
  rw [if_neg (Nat.not_lt.mpr hle), hterm]

lemma completes_binary (hop : a.operator? = some op) (left : Completes ts (.term t p))
    (hp : p ≤ op.argumentMaxima.1) (right : Completes us (.term u q))
    (hq : q ≤ op.argumentMaxima.2) :
    Completes (ts ++ a :: us) (.term (.compound op.name [t, u] op.priority) op.priority) := by
  intro ls rest n maximum fuel hls hle follows hfuel
  obtain ⟨front, back, rfl, hfront, hback⟩ := List.map_eq_append_iff.mp hls
  obtain ⟨line, ks, rfl, hks⟩ := map_eq_cons hback
  simp only [List.length_append, List.length_cons] at hfuel ⊢
  obtain ⟨name, -, hbinary⟩ := Option.bind_eq_some_iff.mp hop
  obtain ⟨hfirst, hsecond, -⟩ := Operator.maxima_le_of_binary? hbinary
  have taken : (⟨⟨a, line⟩ :: (ks ++ rest), n⟩ : Cursor).Follows p :=
    follows_operator hop hp _ _ _
  -- The operator takes the left argument, and the loop behind that argument takes the operator; the
  -- right argument ends where the whole term does.
  obtain ⟨left₁, hleft₁, hterm₁⟩ := left hfront
    (Nat.le_trans hp (Nat.le_trans hfirst hle)) taken (show 6 * ts.length ≤ fuel by omega)
  obtain ⟨g, rfl⟩ : ∃ g, left₁ = g + 1 := ⟨left₁ - 1, by omega⟩
  have hmem := List.mem_append_left Operator.unaryTable
    (Operator.mem_binaryTable_of_binary? hbinary).1
  have hterm₂ := completed_argument right hq hmem hsecond follows hks
    (show 6 * us.length < g by omega)
  refine ⟨g, by omega, ?_⟩
  have allowed : ¬(maximum < op.priority ∨ op.argumentMaxima.1 < p) := by omega
  rw [List.append_assoc, List.cons_append, hterm₁, operators, operator?_cons, hop]
  dsimp only
  rw [if_neg allowed, advance_cons, hterm₂]

lemma isAt_eq_false {l : Located} {r s : String} (hl : l.token = .symbol r) (hne : r ≠ s)
    (rest : List Located) (n : Nat) : (⟨l :: rest, n⟩ : Cursor).isAt s = false := by
  change l.token.isSymbol s = false
  rw [hl]
  exact beq_eq_false_iff_ne.mpr hne

lemma completes_last (ih : Completes ts (.term t p)) (hp : p ≤ termMaximum) :
    Completes ts (.terms [t]) := by
  intro ls rest close s n fuel hls hclose separator comma hfuel
  obtain ⟨g, rfl⟩ : ∃ g, fuel = g + 1 := ⟨fuel - 1, by omega⟩
  have hterm : term g termMaximum ⟨ls ++ close :: rest, n⟩ = .ok (t, ⟨close :: rest, n⟩) :=
    completed ih separator hclose hls hp (by omega)
  rw [terms, hterm]
  dsimp only
  rw [isAt_eq_false hclose comma]
  rfl

lemma completes_more (ih : Completes ts (.term t p)) (hp : p ≤ termMaximum)
    {items : List Term} (later : Completes us (.terms items)) :
    Completes (ts ++ .symbol "," :: us) (.terms (t :: items)) := by
  intro ls rest close s n fuel hls hclose separator comma hfuel
  obtain ⟨front, back, rfl, hfront, hback⟩ := List.map_eq_append_iff.mp hls
  obtain ⟨line, ks, rfl, hks⟩ := map_eq_cons hback
  simp only [List.length_append, List.length_cons] at hfuel
  obtain ⟨g, rfl⟩ : ∃ g, fuel = g + 1 := ⟨fuel - 1, by omega⟩
  have hterm : term g termMaximum ⟨front ++ ⟨.symbol ",", line⟩ :: (ks ++ close :: rest), n⟩ =
      .ok (t, ⟨⟨.symbol ",", line⟩ :: (ks ++ close :: rest), n⟩) :=
    completed ih (by decide) rfl hfront hp (by omega)
  have hlater : terms g ⟨ks ++ close :: rest, n⟩ = .ok (items, ⟨close :: rest, n⟩) :=
    later hks hclose separator comma (by omega)
  rw [List.append_assoc, List.cons_append, terms, hterm]
  dsimp only
  rw [if_pos (isAt_cons rfl _ n), advance_cons, hlater]

lemma separator_of_closes {s : String} (h : (Token.symbol s).closes = true) :
    s ∈ separators ∧ s ≠ "," := by
  simp only [Token.closes, Bool.or_eq_true, beq_iff_eq] at h
  obtain rfl | rfl := h
  · decide
  · decide

lemma completes_none : Completes [] (.sequence []) := by
  intro ls rest close s n fuel hls hclose closes hfuel
  obtain rfl := List.map_eq_nil_iff.mp hls
  obtain ⟨g, rfl⟩ : ∃ g, fuel = g + 1 := ⟨fuel - 1, by omega⟩
  rw [List.nil_append, sequence, if_pos (isAt_cons hclose rest n), advance_cons]

lemma completes_some {items : List Term} (begins : ∃ a us, ts = a :: us ∧ a.closes = false)
    (ih : Completes ts (.terms items)) : Completes ts (.sequence items) := by
  intro ls rest close s n fuel hls hclose closes hfuel
  obtain ⟨g, rfl⟩ : ∃ g, fuel = g + 1 := ⟨fuel - 1, by omega⟩
  have opened : (⟨ls ++ close :: rest, n⟩ : Cursor).isAt s = false := by
    obtain ⟨a, us, rfl, begins⟩ := begins
    obtain ⟨line, ks, rfl, -⟩ := map_eq_cons hls
    change a.isSymbol s = false
    by_contra closed
    have same : a = .symbol s := eq_symbol_of_isSymbol (by simpa using closed)
    rw [same, ← hclose, closes] at begins
    cases begins
  obtain ⟨separator, comma⟩ := separator_of_closes (hclose ▸ closes)
  have hterms : terms g ⟨ls ++ close :: rest, n⟩ = .ok (items, ⟨close :: rest, n⟩) :=
    ih hls hclose separator comma (by omega)
  rw [sequence, opened, hterms]
  dsimp only
  rw [expect_cons hclose]
  rfl

end Cases

theorem completes {ts : List Token} {phrase : Phrase} (h : Derives ts phrase) :
    Completes ts phrase := by
  induction h with
  | literal h => exact completes_literal h
  | negative h => exact completes_negative h
  | atom h => exact completes_atom h
  | compound h _ ih => exact completes_compound h ih
  | list _ ih => exact completes_list ih
  | parentheses _ hp ih => exact completes_parentheses ih hp
  | unary hop unsigned below hp ih =>
    obtain ⟨items, heq⟩ | ⟨a, us, rfl, -⟩ := below.begins
    · cases heq
    · exact completes_unary hop unsigned (List.cons_ne_nil a us) ih hp
  | binary hop _ hp _ hq left right => exact completes_binary hop left hp right hq
  | last _ hp ih => exact completes_last ih hp
  | more _ hp _ ih later => exact completes_more ih hp later
  | none => exact completes_none
  | some below ih =>
    obtain ⟨items, heq⟩ | begins := below.begins
    · cases heq
    · exact completes_some begins ih

lemma parseTerms_of_derives {ls rest : List Located} {close : Located} {s : String} {n : Nat}
    {items : List Term} (derives : Derives (ls.map Located.token) (.terms items))
    (hclose : close.token = .symbol s) (separator : s ∈ separators) (comma : s ≠ ",") :
    (⟨ls ++ close :: rest, n⟩ : Cursor).parseTerms = .ok (items, ⟨close :: rest, n⟩) := by
  refine completes derives rfl hclose separator comma ?_
  simp only [fuel, List.length_map, List.length_append, List.length_cons]
  omega

/-- The parser accepts exactly the grammar: on tokens without anonymous variables, followed by a dot,
it returns a term and stops before the dot if and only if they derive that term with at most the given
priority. -/
theorem parseTerm_iff {ls rest : List Located} {dot : Located} {n maximum : Nat} {t : Term}
    (hdot : dot.token = .symbol ".") (named : .var "_" ∉ ls.map Located.token) :
    (∃ c : Cursor, (⟨ls ++ dot :: rest, n⟩ : Cursor).parseTerm maximum = .ok (t, c) ∧
        c.tokens = dot :: rest) ↔
      ∃ p ≤ maximum, Derives (ls.map Located.token) (.term t p) := by
  constructor
  · rintro ⟨c, hparse, hc⟩
    obtain ⟨us, hus, hP⟩ := reads_parseTerm hparse
    rw [hc] at hus
    obtain rfl : ls = us := List.append_cancel_right hus
    exact (hP named).2
  · rintro ⟨p, hp, derives⟩
    have enough : 6 * (ls.map Located.token).length <
        (⟨ls ++ dot :: rest, n⟩ : Cursor).fuel := by
      simp only [fuel, List.length_map, List.length_append, List.length_cons]
      omega
    exact ⟨_, completed (completes derives) (by decide) hdot rfl hp enough, rfl⟩

/-- In `a - 2 - -3` a minus sign is an operator twice and a part of the last number. -/
theorem parseTerm_iff_minus :
    let read : List Located := [⟨.name "a", 1⟩, ⟨.symbol "-", 1⟩, ⟨.int 2, 1⟩, ⟨.symbol "-", 1⟩,
      ⟨.symbol "-", 1⟩, ⟨.int 3, 1⟩]
    let dot : Located := ⟨.symbol ".", 1⟩
    ∃ c : Cursor, (⟨read ++ [dot], 0⟩ : Cursor).parseTerm termMaximum =
        .ok (.compound "-" [.compound "-" [.atom "a", .int 2] 500, .int (-3)] 500, c) ∧
      c.tokens = [dot] := by
  intro read dot
  have minus : (Token.symbol "-").operator? = some ⟨"-", 500, .yfx⟩ := rfl
  have left : Derives [.name "a", .symbol "-", .int 2]
      (.term (.compound "-" [.atom "a", .int 2] 500) 500) :=
    .binary minus (.atom rfl) (by decide) (.literal rfl) (by decide)
  have whole : Derives (read.map Located.token)
      (.term (.compound "-" [.compound "-" [.atom "a", .int 2] 500, .int (-3)] 500) 500) :=
    .binary minus left (by decide) (.negative rfl) (by decide)
  exact (parseTerm_iff rfl (by simp [read])).mpr ⟨500, by decide, whole⟩

end Cursor
end ConstraintHandling
