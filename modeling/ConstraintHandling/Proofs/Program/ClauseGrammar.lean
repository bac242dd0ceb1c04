import ConstraintHandling.Proofs.Program.Completeness

/-! The grammar of clauses. A clause may have a name in front; then come goals or the heads of a rule,
and behind the arrow of a rule its guards, if any, and its body. What the parser reads is derived in
this way, and what is derived is parsed. -/
namespace ConstraintHandling

def Token.ruleName? : Token → Option String
  | .name n => some n
  | .var n => some n
  | .quoted n => some n
  | _ => none

/-- The tokens in front of a clause give it the name, or there are none. -/
inductive IsNamed : List Token → Option String → Prop
  | unnamed : IsNamed [] none
  | named {a : Token} {name : String} (h : a.ruleName? = some name) :
    IsNamed [a, .symbol "@"] (some name)

/-- The tokens derive the heads to keep and those to delete, with the arrow behind them. -/
inductive DeriveHeads : List Token → List Term → List Term → Prop
  | simplification {ts delete} (below : Derives ts (.terms delete)) :
    DeriveHeads (ts ++ [.symbol "<=>"]) [] delete
  | propagation {ts keep} (below : Derives ts (.terms keep)) :
    DeriveHeads (ts ++ [.symbol "==>"]) keep []
  | simpagation {ts us keep delete} (first : Derives ts (.terms keep))
    (second : Derives us (.terms delete)) :
    DeriveHeads (ts ++ .symbol "\\" :: (us ++ [.symbol "<=>"])) keep delete

/-- The tokens behind an arrow derive the guards and the body. -/
inductive DeriveBody : List Token → List Term → List Term → Prop
  | unguarded {ts body} (below : Derives ts (.terms body)) : DeriveBody (ts ++ [.symbol "."]) [] body
  | guarded {ts us guards body} (first : Derives ts (.terms guards))
    (second : Derives us (.terms body)) :
    DeriveBody (ts ++ .symbol "|" :: (us ++ [.symbol "."])) guards body

namespace Clause

/-- The tokens behind the name that is given to a clause, if any, derive the clause in the given
place. -/
inductive IsDerived (place : Nat) : Option String → List Token → Clause → Prop
  | goals {ts goals} (below : Derives ts (.terms goals)) :
    IsDerived place none (ts ++ [.symbol "."]) (.goals goals)
  | rule {given hs bs keep delete guards body} (heads : DeriveHeads hs keep delete)
    (behind : DeriveBody bs guards body) :
    IsDerived place given (hs ++ bs)
      (.rule ⟨given.getD (defaultName place), keep, delete, guards, withoutTrue body⟩)

section Soundness
variable {c c' : Cursor} {name : String} {keep delete body : List Term} {clause : Clause}

lemma reads_parseEnd (h : parseEnd c = .ok (body, c')) :
    c.Reads (fun ts => ∃ us, ts = us ++ [.symbol "."] ∧ Derives us (.terms body)) c' := by
  rw [parseEnd] at h
  split at h
  · cases h
  · next items c₁ hterms =>
    split at h
    · cases h
    · next c₂ hexpect =>
      cases h
      refine (Cursor.reads_parseTerms hterms).trans (Cursor.reads_expect hexpect) ?_
      rintro us _ derives rfl
      exact ⟨us, rfl, derives⟩

lemma reads_parseRule (h : parseRule name keep delete c = .ok (clause, c')) :
    c.Reads (fun ts => ∃ guards body, DeriveBody ts guards body ∧
      clause = .rule ⟨name, keep, delete, guards, withoutTrue body⟩) c' := by
  rw [parseRule] at h
  split at h
  · cases h
  · next items c₁ hterms =>
    split at h
    · next bar =>
      split at h
      · cases h
      · next body c₂ hend =>
        cases h
        have behind : c₁.Reads (fun ts => ∃ us, ts = .symbol "|" :: (us ++ [.symbol "."]) ∧
            Derives us (.terms body)) c' := by
          refine (Cursor.reads_advance bar).trans (reads_parseEnd hend) ?_
          rintro _ _ rfl ⟨us, rfl, derives⟩
          exact ⟨us, rfl, derives⟩
        refine (Cursor.reads_parseTerms hterms).trans behind ?_
        rintro ts _ derives ⟨us, rfl, derives'⟩
        exact ⟨items, body, .guarded derives derives', rfl⟩
    · split at h
      · cases h
      · next c₂ hexpect =>
        cases h
        refine (Cursor.reads_parseTerms hterms).trans (Cursor.reads_expect hexpect) ?_
        rintro ts _ derives rfl
        exact ⟨[], items, .unguarded derives, rfl⟩

lemma reads_parseDeleting (h : parseDeleting name keep c = .ok (clause, c')) :
    c.Reads (fun ts => ∃ us bs delete guards body, ts = us ++ .symbol "<=>" :: bs ∧
      Derives us (.terms delete) ∧ DeriveBody bs guards body ∧
      clause = .rule ⟨name, keep, delete, guards, withoutTrue body⟩) c' := by
  rw [parseDeleting] at h
  split at h
  · cases h
  · next delete c₁ hterms =>
    split at h
    · cases h
    · next c₂ hexpect =>
      have behind : c₁.Reads (fun ts => ∃ bs guards body, ts = .symbol "<=>" :: bs ∧
          DeriveBody bs guards body ∧
          clause = .rule ⟨name, keep, delete, guards, withoutTrue body⟩) c' := by
        refine (Cursor.reads_expect hexpect).trans (reads_parseRule h) ?_
        rintro _ bs rfl ⟨guards, body, derives, rfl⟩
        exact ⟨bs, guards, body, rfl, derives, rfl⟩
      refine (Cursor.reads_parseTerms hterms).trans behind ?_
      rintro us _ derives ⟨bs, guards, body, rfl, derives', rfl⟩
      exact ⟨us, bs, delete, guards, body, rfl, derives, derives', rfl⟩

lemma reads_marked {s : String} {line n : Nat} {rest : List Located} {P : List Token → Prop}
    (h : (⟨rest, n⟩ : Cursor).Reads P c') :
    (⟨⟨.symbol s, line⟩ :: rest, n⟩ : Cursor).Reads (fun ts => ∃ us, ts = .symbol s :: us ∧ P us)
      c' := by
  refine (Cursor.reads_cons (by simp) rest n).trans h ?_
  rintro _ us rfl hus
  exact ⟨us, rfl, hus⟩

lemma reads_parseNamed {place : Nat} {given : Option String}
    (h : parseNamed place given c = .ok (clause, c')) :
    c.Reads (fun ts => IsDerived place given ts clause) c' := by
  rw [parseNamed] at h
  dsimp only at h
  split at h
  · cases h
  · next heads c₁ hterms =>
    have first := Cursor.reads_parseTerms hterms
    obtain ⟨_ | ⟨⟨token, line⟩, rest⟩, n⟩ := c₁
    · cases h
    · dsimp only at h
      split at h
      · split at h
        · cases h
        · cases h
          refine first.trans (Cursor.reads_cons (by simp) rest n) ?_
          rintro ts _ derives rfl
          exact .goals derives
      · refine first.trans (reads_marked (reads_parseDeleting h)) ?_
        rintro ts _ keep ⟨_, rfl, us, bs, delete, guards, body, rfl, delete', behind, rfl⟩
        have heads := DeriveHeads.simpagation keep delete'
        simpa using IsDerived.rule heads behind
      · refine first.trans (reads_marked (reads_parseRule h)) ?_
        rintro ts _ delete ⟨bs, rfl, guards, body, behind, rfl⟩
        simpa using IsDerived.rule (.simplification delete) behind
      · refine first.trans (reads_marked (reads_parseRule h)) ?_
        rintro ts _ keep ⟨bs, rfl, guards, body, behind, rfl⟩
        simpa using IsDerived.rule (.propagation keep) behind
      · cases h

lemma isNamed_of_ruleName? (h : ruleName? c = some (name, c')) :
    ∃ front : List Located, c.tokens = front ++ c'.tokens ∧ c'.anonymous = c.anonymous ∧
      IsNamed (front.map Located.token) (some name) := by
  have marked : ∀ {a : Token} {line : Nat} {t : Located} {rest : List Located},
      c.tokens = ⟨a, line⟩ :: t :: rest → a.ruleName? = some name → t.token.isSymbol "@" = true →
      c' = ⟨rest, c.anonymous⟩ → ∃ front : List Located, c.tokens = front ++ c'.tokens ∧
        c'.anonymous = c.anonymous ∧ IsNamed (front.map Located.token) (some name) := by
    rintro a line t rest htokens hname hmark rfl
    refine ⟨[⟨a, line⟩, t], htokens, rfl, ?_⟩
    rw [List.map_cons, List.map_singleton, Cursor.eq_symbol_of_isSymbol hmark]
    exact .named hname
  unfold ruleName? at h
  split at h
  · next htokens =>
    split at h
    · next hmark => cases h; exact marked htokens rfl hmark rfl
    · cases h
  · next htokens =>
    split at h
    · next hmark => cases h; exact marked htokens rfl hmark rfl
    · cases h
  · next htokens =>
    split at h
    · next hmark => cases h; exact marked htokens rfl hmark rfl
    · cases h
  · cases h

theorem derived_of_parse {place : Nat} (h : parse place c = .ok (clause, c')) :
    ∃ (front : List Located) (given : Option String) (c₁ : Cursor), c.tokens = front ++ c₁.tokens ∧
      c₁.anonymous = c.anonymous ∧ IsNamed (front.map Located.token) given ∧
      c₁.Reads (fun ts => IsDerived place given ts clause) c' := by
  rw [parse] at h
  split at h
  · next name c₁ hname =>
    obtain ⟨front, tokens, anonymous, named⟩ := isNamed_of_ruleName? hname
    exact ⟨front, some name, c₁, tokens, anonymous, named, reads_parseNamed h⟩
  · exact ⟨[], none, c, rfl, rfl, .unnamed, reads_parseNamed h⟩

end Soundness

section Completeness
variable {ls rest : List Located} {n : Nat} {name : String} {keep delete guards body : List Term}
  {clause : Clause}

lemma parseEnd_of_derives {dot : Located} (derives : Derives (ls.map Located.token) (.terms body))
    (hdot : dot.token = .symbol ".") :
    parseEnd ⟨ls ++ dot :: rest, n⟩ = .ok (body, ⟨rest, n⟩) := by
  rw [parseEnd, Cursor.parseTerms_of_derives derives hdot (by decide) (by decide)]
  dsimp only
  rw [Cursor.expect_cons hdot]

lemma parseRule_of_derived (h : DeriveBody (ls.map Located.token) guards body) :
    parseRule name keep delete ⟨ls ++ rest, n⟩ =
      .ok (.rule ⟨name, keep, delete, guards, withoutTrue body⟩, ⟨rest, n⟩) := by
  generalize hls : ls.map Located.token = ts at h
  cases h with
  | unguarded below =>
    obtain ⟨ks, line, rfl, rfl⟩ := Cursor.map_eq_append_singleton hls
    rw [parseRule, List.append_assoc, List.singleton_append,
      Cursor.parseTerms_of_derives below rfl (by decide) (by decide)]
    dsimp only
    rw [Cursor.isAt_eq_false rfl (by decide), Cursor.expect_cons rfl]
    rfl
  | guarded first second =>
    obtain ⟨ks, behind, rfl, rfl, hbehind⟩ := List.map_eq_append_iff.mp hls
    obtain ⟨line, ms, rfl, hms⟩ := Cursor.map_eq_cons hbehind
    obtain ⟨ms, line', rfl, rfl⟩ := Cursor.map_eq_append_singleton hms
    rw [parseRule, List.append_assoc, List.cons_append, List.append_assoc, List.singleton_append,
      Cursor.parseTerms_of_derives first rfl (by decide) (by decide)]
    dsimp only
    rw [if_pos (Cursor.isAt_cons rfl _ n), Cursor.advance_cons, parseEnd_of_derives second rfl]

lemma parseNamed_of_derived {place : Nat} {given : Option String}
    (h : IsDerived place given (ls.map Located.token) clause) :
    parseNamed place given ⟨ls ++ rest, n⟩ = .ok (clause, ⟨rest, n⟩) := by
  generalize hls : ls.map Located.token = ts at h
  cases h with
  | goals below =>
    obtain ⟨ks, line, rfl, rfl⟩ := Cursor.map_eq_append_singleton hls
    rw [parseNamed, List.append_assoc, List.singleton_append,
      Cursor.parseTerms_of_derives below rfl (by decide) (by decide)]
    rfl
  | rule heads behind =>
    obtain ⟨ks, ms, rfl, hks, rfl⟩ := List.map_eq_append_iff.mp hls
    rw [parseNamed, List.append_assoc]
    cases heads with
    | simplification below =>
      obtain ⟨ks, line, rfl, rfl⟩ := Cursor.map_eq_append_singleton hks
      rw [List.append_assoc, List.singleton_append,
        Cursor.parseTerms_of_derives below rfl (by decide) (by decide)]
      exact parseRule_of_derived behind
    | propagation below =>
      obtain ⟨ks, line, rfl, rfl⟩ := Cursor.map_eq_append_singleton hks
      rw [List.append_assoc, List.singleton_append,
        Cursor.parseTerms_of_derives below rfl (by decide) (by decide)]
      exact parseRule_of_derived behind
    | simpagation first second =>
      obtain ⟨ks, later, rfl, rfl, hlater⟩ := List.map_eq_append_iff.mp hks
      obtain ⟨line, us, rfl, hus⟩ := Cursor.map_eq_cons hlater
      obtain ⟨us, line', rfl, rfl⟩ := Cursor.map_eq_append_singleton hus
      rw [List.append_assoc, List.cons_append, List.append_assoc, List.singleton_append,
        Cursor.parseTerms_of_derives first rfl (by decide) (by decide)]
      dsimp only
      rw [parseDeleting, Cursor.parseTerms_of_derives second rfl (by decide) (by decide)]
      dsimp only
      rw [Cursor.expect_cons rfl]
      exact parseRule_of_derived behind

lemma ruleName?_eq_none {c : Cursor}
    (second : ∀ a b more, c.tokens = a :: b :: more → b.token.isSymbol "@" = false) :
    ruleName? c = none := by
  unfold ruleName?
  split
  · next heq => rw [second _ _ _ heq]; rfl
  · next heq => rw [second _ _ _ heq]; rfl
  · next heq => rw [second _ _ _ heq]; rfl
  · rfl

lemma ruleName?_of_isNamed {front : List Located} (h : IsNamed (front.map Located.token) (some name)) :
    ruleName? ⟨front ++ rest, n⟩ = some (name, ⟨rest, n⟩) := by
  generalize hfront : front.map Located.token = ts at h
  cases h with
  | @named a name hname =>
    obtain ⟨line, ks, rfl, hks⟩ := Cursor.map_eq_cons hfront
    obtain ⟨line', rfl⟩ := Cursor.map_eq_singleton hks
    cases a with
    | name | var | quoted => cases hname; rfl
    | _ => cases hname

lemma unnamed_of_derives {ts more : List Token} {items : List Term} {s : String}
    (derives : Derives ts (.terms items)) (hs : s ≠ "@") :
    ∃ a b us, ts ++ .symbol s :: more = a :: b :: us ∧ b ≠ .symbol "@" := by
  obtain ⟨_, heq⟩ | ⟨a, us, rfl, -⟩ := derives.begins
  · cases heq
  · cases us with
    | nil => exact ⟨a, .symbol s, more, rfl, by simpa using hs⟩
    | cons b us =>
      refine ⟨a, b, us ++ .symbol s :: more, rfl, ?_⟩
      rintro rfl
      have part := derives.standsInTerm (.symbol "@") (by simp)
      revert part
      decide

lemma IsDerived.unnamed {place : Nat} {given : Option String} {ts : List Token}
    (h : IsDerived place given ts clause) : ∃ a b us, ts = a :: b :: us ∧ b ≠ .symbol "@" := by
  cases h with
  | goals below => exact unnamed_of_derives below (by decide)
  | rule heads behind =>
    cases heads with
    | simplification below => simpa using unnamed_of_derives below (by decide)
    | propagation below => simpa using unnamed_of_derives below (by decide)
    | simpagation first second => simpa using unnamed_of_derives first (by decide)

theorem parse_of_derived {place : Nat} {given : Option String} {front : List Located}
    (named : IsNamed (front.map Located.token) given)
    (h : IsDerived place given (ls.map Located.token) clause) :
    parse place ⟨front ++ (ls ++ rest), n⟩ = .ok (clause, ⟨rest, n⟩) := by
  cases given with
  | some name =>
    rw [parse, ruleName?_of_isNamed named]
    exact parseNamed_of_derived h
  | none =>
    obtain ⟨a, b, us, hts, hb⟩ := h.unnamed
    obtain ⟨line, ks, rfl, hks⟩ := Cursor.map_eq_cons hts
    obtain ⟨line', ms, rfl, -⟩ := Cursor.map_eq_cons hks
    obtain rfl : front = [] := by
      generalize hfront : front.map Located.token = ts at named
      cases named
      exact List.map_eq_nil_iff.mp hfront
    rw [parse, ruleName?_eq_none, List.nil_append, parseNamed_of_derived h]
    intro l₁ l₂ more heq
    cases heq
    rw [Bool.eq_false_iff]
    exact fun mark => hb (Cursor.eq_symbol_of_isSymbol mark)

end Completeness
end Clause
end ConstraintHandling
