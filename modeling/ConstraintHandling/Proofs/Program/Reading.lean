import ConstraintHandling.Program.Basic
import ConstraintHandling.Proofs.Program.ClauseGrammar

/-! What a program is read as. The clauses of a program are derived one after the other by the tokens of
its text; so what the grammar says of a clause holds of whole programs, whatever the text. -/
namespace ConstraintHandling

namespace Clause

def rule? : Clause → Option Rule
  | .rule r => some r
  | .goals _ => none

def goals? : Clause → Option (List Term)
  | .rule _ => none
  | .goals ts => some ts

def terms : Clause → List Term
  | .rule r => r.terms
  | .goals ts => ts

section Body
variable {body : List Term}

lemma beq_true_iff {t : Term} : (t == .bool true) = true ↔ t = .bool true := by
  cases t <;> simp [BEq.beq, Term.beq]

lemma withoutTrue_eq_self (h : .bool true ∉ body) : withoutTrue body = body := by
  refine List.filter_eq_self.mpr fun t ht => ?_
  rw [Bool.not_eq_true', Bool.eq_false_iff, Ne, beq_true_iff]
  rintro rfl
  exact h ht

lemma mem_withoutTrue {t : Term} : t ∈ withoutTrue body ↔ t ∈ body ∧ t ≠ .bool true := by
  rw [withoutTrue, List.mem_filter, Bool.not_eq_true', Bool.eq_false_iff, Ne, beq_true_iff]

end Body
end Clause

namespace Program

def ofClauses (clauses : List Clause) : Program :=
  ⟨clauses.filterMap Clause.rule?, clauses.filterMap Clause.goals?⟩

/-- The tokens derive the clauses one after the other, so many rules and anonymous variables having
come before. -/
inductive IsDerived : Nat → Nat → List Token → List Clause → Prop
  | nil {rules anonymous} : IsDerived rules anonymous [] []
  | cons {rules anonymous front given ts clause later clauses} (named : IsNamed front given)
    (first : Clause.IsDerived (rules + 1) given (Token.numbered anonymous ts) clause)
    (rest : IsDerived (rules + clause.rule?.toList.length) (anonymous + ts.countP Token.isAnonymous)
      later clauses) : IsDerived rules anonymous (front ++ (ts ++ later)) (clause :: clauses)

section Derivation
variable {clauses : Nat} {d : Draft} {c : Cursor} {p : Program}

lemma length_add (d : Draft) (line : Nat) (clause : Clause) :
    (d.add line clause).1.rules.length = d.rules.length + clause.rule?.toList.length := by
  cases clause with
  | rule r => exact List.length_append
  | goals goals => rfl

lemma program_add (d : Draft) (line : Nat) (clause : Clause) :
    (d.add line clause).1.program =
      ⟨d.program.rules ++ clause.rule?.toList, d.program.goals ++ clause.goals?.toList⟩ := by
  cases clause <;> simp [Draft.add, Draft.program, Clause.rule?, Clause.goals?]

lemma ofClauses_cons (clause : Clause) (later : List Clause) :
    ofClauses (clause :: later) = ⟨clause.rule?.toList ++ (ofClauses later).rules,
      clause.goals?.toList ++ (ofClauses later).goals⟩ := by
  cases clause <;> rfl

lemma derived_of_readClauses (h : (readClauses clauses d c).result = .ok p)
    (enough : c.tokens.length ≤ clauses) :
    ∃ later, IsDerived d.rules.length c.anonymous (c.tokens.map Located.token) later ∧
      p = ⟨d.program.rules ++ (ofClauses later).rules, d.program.goals ++ (ofClauses later).goals⟩ := by
  induction clauses generalizing d c with
  | zero =>
    obtain ⟨tokens, n⟩ := c
    obtain rfl := List.eq_nil_of_length_eq_zero (Nat.le_zero.mp enough)
    cases h
    exact ⟨[], .nil, by simp [ofClauses]⟩
  | succ clauses ih =>
    rw [readClauses] at h
    split at h
    · next htokens =>
      cases h
      rw [htokens]
      exact ⟨[], .nil, by simp [ofClauses]⟩
    · next t more htokens =>
      split at h
      · cases h
      · next clause c' hparse =>
        obtain ⟨front, given, c₁, tokens, hn, named, ts, tokens', hn', first⟩ :=
          Clause.derived_of_parse hparse
        -- A clause uses up a token, so the others have enough fuel.
        have fewer : c'.tokens.length ≤ clauses := by
          obtain ⟨a, b, us, hus, -⟩ := first.unnamed
          have nonempty : ts ≠ [] := by
            rintro rfl
            cases hus
          have := List.length_pos_iff.mpr nonempty
          rw [tokens, tokens', List.length_append, List.length_append] at enough
          omega
        have others : (readClauses clauses (d.add t.line clause).1 c').result = .ok p := h
        obtain ⟨later, derived, rfl⟩ := ih others fewer
        rw [length_add, hn', hn] at derived
        refine ⟨clause :: later, ?_, ?_⟩
        · rw [tokens, tokens', List.map_append, List.map_append]
          rw [hn] at first
          exact .cons named first derived
        · rw [program_add, ofClauses_cons]
          simp

theorem derived_of_read {cs : List Char} (h : (read cs).result = .ok p) :
    ∃ ls clauses, Token.scan cs = .ok ls ∧ IsDerived 0 0 (ls.map Located.token) clauses ∧
      p = ofClauses clauses := by
  rw [read] at h
  split at h
  · cases h
  · next ls hscan =>
    obtain ⟨clauses, derived, rfl⟩ := derived_of_readClauses h (Nat.le_refl _)
    exact ⟨ls, clauses, hscan, derived, by simp [Draft.empty, Draft.program]⟩

lemma readBytes_toUTF8 (s : String) : readBytes s.toUTF8 = read s.toList := by
  have valid : String.fromUTF8? s.toUTF8 = some s := dif_pos s.isValidUTF8
  rw [readBytes, valid]

lemma read_of_readBytes {bytes : ByteArray} (h : (readBytes bytes).result = .ok p) :
    ∃ text, String.fromUTF8? bytes = some text ∧ (read text.toList).result = .ok p := by
  rw [readBytes] at h
  split at h
  · next text htext => exact ⟨text, htext, h⟩
  · cases h

end Derivation
end Program
end ConstraintHandling
