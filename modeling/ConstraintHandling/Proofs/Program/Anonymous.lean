import ConstraintHandling.Proofs.Program.Reading

/-! Anonymous variables. Every anonymous variable of a program is read as a variable that is named by
its number; so it differs from all others, apart from a variable that is written with just this name. -/
namespace ConstraintHandling

namespace Token

/-- The name with which the token stands for a variable. -/
def variableName? : Token → Option String
  | .var v => some v
  | _ => none

@[simp] lemma filterMap_variableName?_symbol (s : String) (ts : List Token) :
    (symbol s :: ts).filterMap variableName? = ts.filterMap variableName? := rfl

/-- The tokens of a clause behind the name that is given to it, if there is one. -/
def behindName : List Token → List Token
  | _ :: .symbol "@" :: ts => ts
  | ts => ts

/-- The variables as they are written in the terms of a clause, from left to right. -/
def written (ts : List Token) : List String :=
  (behindName ts).filterMap variableName?

lemma var_mem_of_written {ts : List Token} {name : String} (h : name ∈ written ts) :
    .var name ∈ ts := by
  obtain ⟨a, ha, hname⟩ := List.mem_filterMap.mp h
  have part : behindName ts ⊆ ts := by
    unfold behindName
    split
    · exact fun _ => List.mem_cons_of_mem _ ∘ List.mem_cons_of_mem _
    · exact List.Subset.refl _
  cases a with
  | var v =>
    cases hname
    exact part ha
  | _ => cases hname

end Token

def Clause.occurrences (clause : Clause) : List Variable :=
  clause.terms.flatMap Term.occurrences

section Naming
open Cursor

/-- The names of variables, with every anonymous one named by its number, `n` others having come
before. -/
def nameAnonymous : Nat → List String → List String
  | _, [] => []
  | n, v :: vs =>
    if v = "_" then anonymousName (n + 1) :: nameAnonymous (n + 1) vs else v :: nameAnonymous n vs

lemma nameAnonymous_append (n : Nat) (vs ws : List String) :
    nameAnonymous n (vs ++ ws) = nameAnonymous n vs ++ nameAnonymous (n + vs.count "_") ws := by
  induction vs generalizing n with
  | nil => rfl
  | cons v vs ih =>
    rw [List.cons_append, List.count_cons, nameAnonymous, nameAnonymous]
    split
    · next anonymous => simp [ih, anonymous, Nat.add_assoc, Nat.add_comm 1]
    · next named => simp [ih, named]

lemma getElem?_nameAnonymous (n : Nat) (vs : List String) (i : Nat) :
    (nameAnonymous n vs)[i]? = vs[i]?.map fun v =>
      if v = "_" then anonymousName (n + (vs.take (i + 1)).count "_") else v := by
  induction vs generalizing n i with
  | nil => rfl
  | cons v vs ih =>
    rw [nameAnonymous]
    by_cases anonymous : v = "_"
    · cases i with
      | zero => simp [anonymous]
      | succ i => simp [anonymous, ih, Nat.add_assoc, Nat.add_comm 1]
    · cases i with
      | zero => simp [anonymous]
      | succ i => simp [anonymous, ih]

lemma length_nameAnonymous (n : Nat) (vs : List String) :
    (nameAnonymous n vs).length = vs.length := by
  induction vs generalizing n with
  | nil => rfl
  | cons v vs ih =>
    rw [nameAnonymous]
    split <;> simp [ih]

lemma filterMap_variableName?_numbered (n : Nat) (ts : List Token) :
    (Token.numbered n ts).filterMap Token.variableName? =
      nameAnonymous n (ts.filterMap Token.variableName?) := by
  induction ts generalizing n with
  | nil => rfl
  | cons t ts ih =>
    by_cases anonymous : t = .var "_"
    · rw [anonymous, Token.numbered_cons_of_anonymous]
      simp [Token.variableName?, nameAnonymous, ih]
    · rw [Token.numbered_cons anonymous]
      cases t with
      | var v =>
        have named : v ≠ "_" := fun h => anonymous (congrArg Token.var h)
        simp [Token.variableName?, nameAnonymous, ih, named]
      | _ => exact ih n

lemma countP_isAnonymous (ts : List Token) :
    ts.countP Token.isAnonymous = (ts.filterMap Token.variableName?).count "_" := by
  induction ts with
  | nil => rfl
  | cons t ts ih =>
    rw [List.countP_cons, ih]
    cases t with
    | var v => simp [Token.variableName?, Token.isAnonymous, List.count_cons]
    | _ => rfl

end Naming

section Occurrences
variable {a : Token} {ts : List Token} {t : Term}

lemma Token.occurrences_of_literal? (h : a.literal? = some t) :
    t.occurrences = ([a].filterMap variableName?).map fun v => ⟨v, 0⟩ := by
  cases a with
  | int | float | str =>
    cases h
    rfl
  | var v =>
    simp only [literal?] at h
    split at h
    · cases h
    · cases h
      rfl
  | name n =>
    simp only [literal?] at h
    split at h
    · cases h
      rfl
    · split at h
      · cases h
        rfl
      · cases h
  | quoted | symbol => cases h

lemma Token.variableName?_of_negated? (h : a.negated? = some t) :
    a.variableName? = none ∧ t.occurrences = [] := by
  cases a with
  | int | float =>
    cases h
    exact ⟨rfl, rfl⟩
  | _ => cases h

lemma Token.variableName?_of_functor? {f : String} (h : a.functor? = some f) :
    a.variableName? = none := by
  cases a with
  | name | quoted => rfl
  | _ => cases h

lemma Token.variableName?_of_operator? {op : Operator} (h : a.operator? = some op) :
    a.variableName? = none := by
  cases a with
  | name | symbol => rfl
  | _ => cases h

/-- The variables of a phrase are those that its tokens stand for, in the same order. -/
theorem Derives.occurrences {phrase : Phrase} (h : Derives ts phrase) :
    phrase.items.flatMap Term.occurrences =
      (ts.filterMap Token.variableName?).map fun v => ⟨v, 0⟩ := by
  induction h with
  | literal h =>
    rw [Phrase.items, List.flatMap_singleton]
    exact Token.occurrences_of_literal? h
  | negative h =>
    obtain ⟨none, ground⟩ := Token.variableName?_of_negated? h
    simp [ground, none]
  | atom h => simp [Term.occurrences, Token.variableName?_of_functor? h]
  | compound h _ ih => simpa [Term.occurrences, Token.variableName?_of_functor? h] using ih
  | list _ ih => simpa [Term.occurrences] using ih
  | parentheses _ _ ih => simpa using ih
  | unary _ _ _ _ ih => simpa [Term.occurrences] using ih
  | binary hop _ _ _ _ left right =>
    rw [Phrase.items, List.flatMap_singleton] at left right
    simp [Term.occurrences, Token.variableName?_of_operator? hop, left, right]
  | last _ _ ih => exact ih
  | more _ _ _ ih later =>
    rw [Phrase.items, List.flatMap_singleton] at ih
    rw [Phrase.items] at later
    simp [ih, later]
  | none => rfl
  | some _ ih => exact ih

end Occurrences

/-- The token can stand in a clause, behind its name and before its dot. -/
def Token.standsInClause (a : Token) : Bool :=
  a.standsInTerm || ["<=>", "==>", "\\", "|"].any a.isSymbol

section Clauses
variable {ts : List Token} {keep delete guards body : List Term} {clause : Clause} {place : Nat}
  {given : Option String}

lemma Derives.standsInClause {phrase : Phrase} (h : Derives ts phrase) :
    ∀ a ∈ ts, a.standsInClause = true := fun a ha => by
  rw [Token.standsInClause, h.standsInTerm a ha, Bool.true_or]

lemma DeriveHeads.occurrences (h : DeriveHeads ts keep delete) :
    (keep ++ delete).flatMap Term.occurrences =
      (ts.filterMap Token.variableName?).map fun v => ⟨v, 0⟩ := by
  cases h with
  | simplification below => simpa using below.occurrences
  | propagation below => simpa using below.occurrences
  | simpagation first second =>
    have keep := first.occurrences
    have delete := second.occurrences
    rw [Phrase.items] at keep delete
    simp [keep, delete]

lemma DeriveHeads.standsInClause (h : DeriveHeads ts keep delete) :
    ∀ a ∈ ts, a.standsInClause = true := by
  cases h with
  | simplification below | propagation below =>
    rw [List.forall_mem_append, List.forall_mem_singleton]
    exact ⟨below.standsInClause, by decide⟩
  | simpagation first second =>
    simp only [List.forall_mem_append, List.forall_mem_cons]
    exact ⟨first.standsInClause, by decide, second.standsInClause, by decide, by simp⟩

lemma DeriveBody.occurrences (h : DeriveBody ts guards body) :
    (guards ++ body).flatMap Term.occurrences =
      (ts.filterMap Token.variableName?).map fun v => ⟨v, 0⟩ := by
  cases h with
  | unguarded below => simpa using below.occurrences
  | guarded first second =>
    have guards := first.occurrences
    have body := second.occurrences
    rw [Phrase.items] at guards body
    simp [guards, body]

lemma DeriveBody.ends (h : DeriveBody ts guards body) :
    ∃ us, ts = us ++ [.symbol "."] ∧ ∀ a ∈ us, a.standsInClause = true := by
  cases h with
  | unguarded below => exact ⟨_, rfl, below.standsInClause⟩
  | @guarded us vs _ _ first second =>
    refine ⟨us ++ .symbol "|" :: vs, by simp, ?_⟩
    rw [List.forall_mem_append, List.forall_mem_cons]
    exact ⟨first.standsInClause, by decide, second.standsInClause⟩

namespace Clause

lemma occurrences_withoutTrue (body : List Term) :
    (withoutTrue body).flatMap Term.occurrences = body.flatMap Term.occurrences := by
  induction body with
  | nil => rfl
  | cons t body ih =>
    rw [withoutTrue, List.filter_cons, List.flatMap_cons, ← ih]
    split
    · rfl
    · next dropped =>
      obtain rfl : t = .bool true := beq_true_iff.mp (by simpa using dropped)
      rfl

lemma IsDerived.occurrences (h : IsDerived place given ts clause) :
    clause.occurrences = (ts.filterMap Token.variableName?).map fun v => ⟨v, 0⟩ := by
  cases h with
  | goals below => simpa [Clause.occurrences, terms] using below.occurrences
  | rule heads behind =>
    have heads := heads.occurrences
    have behind := behind.occurrences
    rw [List.flatMap_append] at heads behind
    rw [Clause.occurrences, terms, Rule.terms, List.flatMap_append, List.flatMap_append,
      List.flatMap_append, occurrences_withoutTrue, heads, List.append_assoc, behind]
    simp

lemma IsDerived.ends (h : IsDerived place given ts clause) :
    ∃ us, ts = us ++ [.symbol "."] ∧ ∀ a ∈ us, a.standsInClause = true := by
  cases h with
  | goals below => exact ⟨_, rfl, below.standsInClause⟩
  | rule heads behind =>
    obtain ⟨us, rfl, hus⟩ := behind.ends
    exact ⟨_, (List.append_assoc ..).symm, List.forall_mem_append.mpr ⟨heads.standsInClause, hus⟩⟩

end Clause

lemma Token.behindName_eq_self (unmarked : .symbol "@" ∉ ts) : behindName ts = ts := by
  unfold behindName
  split
  · simp at unmarked
  · rfl

lemma chunk_of_derived {front : List Token} {n : Nat} (named : IsNamed front given)
    (h : Clause.IsDerived place given (Token.numbered n ts) clause) :
    ∃ us, front ++ ts = us ++ [.symbol "."] ∧ .symbol "." ∉ us ∧
      ts.countP Token.isAnonymous = (Token.written us).count "_" ∧
      clause.occurrences = (nameAnonymous n (Token.written us)).map fun v => ⟨v, 0⟩ := by
  have occurrences := h.occurrences
  obtain ⟨ws, hws, parts⟩ := h.ends
  obtain ⟨vs, rfl, rfl⟩ := Token.numbered_eq_concat hws
  -- Neither a dot nor the mark of a name stands among these tokens.
  have absent : ∀ s, (Token.symbol s).standsInClause = false → .symbol s ∉ vs := by
    intro s hs hmem
    have part := parts _ (Token.symbol_mem_numbered.mpr hmem)
    rw [hs] at part
    cases part
  have written : Token.written (front ++ vs) = vs.filterMap Token.variableName? := by
    cases named with
    | unnamed =>
      rw [List.nil_append, Token.written, Token.behindName_eq_self (absent "@" (by decide))]
    | named => rfl
  refine ⟨front ++ vs, (List.append_assoc ..).symm, ?_, ?_, ?_⟩
  · rw [List.mem_append, not_or]
    refine ⟨?_, absent "." (by decide)⟩
    cases named with
    | unnamed => simp
    | @named a _ hname =>
      have other : a ≠ .symbol "." := by
        rintro rfl
        cases hname
      simp [other.symm]
  · rw [written, countP_isAnonymous, List.filterMap_append]
    simp
  · rw [written, occurrences, filterMap_variableName?_numbered, List.filterMap_append]
    simp

end Clauses

namespace Program

theorem IsDerived.chunks {rules n : Nat} {ts : List Token} {clauses : List Clause}
    (h : IsDerived rules n ts clauses) :
    ∃ chunks : List (List Token), ts = chunks.flatMap (· ++ [.symbol "."]) ∧
      (∀ us ∈ chunks, .symbol "." ∉ us) ∧
      List.Forall₂ (fun us clause => clause.occurrences.length = (Token.written us).length) chunks
        clauses ∧
      clauses.flatMap Clause.occurrences =
        (nameAnonymous n (chunks.flatMap Token.written)).map fun v => ⟨v, 0⟩ := by
  induction h with
  | nil => exact ⟨[], rfl, by simp, .nil, rfl⟩
  | cons named first _ ih =>
    obtain ⟨us, cut, whole, count, occurrences⟩ := chunk_of_derived named first
    obtain ⟨chunks, rfl, wholes, aligned, later⟩ := ih
    refine ⟨us :: chunks, ?_, List.forall_mem_cons.mpr ⟨whole, wholes⟩, .cons ?_ aligned, ?_⟩
    · rw [List.flatMap_cons, ← cut, List.append_assoc]
    · rw [occurrences, List.length_map, length_nameAnonymous]
    · rw [List.flatMap_cons, List.flatMap_cons, nameAnonymous_append, List.map_append, occurrences,
        later, count]

/-- The source of a program: its tokens, clause by clause and without the dots, and what the clauses
are read as, which have an occurrence of a variable wherever one is written. -/
structure Source (bytes : ByteArray) (p : Program) where
  text : String
  tokens : List Located
  chunks : List (List Token)
  clauses : List Clause
  decoded : String.fromUTF8? bytes = some text
  scanned : Token.scan text.toList = .ok tokens
  cut : tokens.map Located.token = chunks.flatMap (· ++ [.symbol "."])
  whole : ∀ ts ∈ chunks, .symbol "." ∉ ts
  assembled : p = ofClauses clauses
  aligned : List.Forall₂ (fun ts clause => clause.occurrences.length = (Token.written ts).length)
    chunks clauses

def Source.written {bytes : ByteArray} {p : Program} (s : Source bytes p) : List String :=
  s.chunks.flatMap Token.written

def Source.occurrences {bytes : ByteArray} {p : Program} (s : Source bytes p) : List Variable :=
  s.clauses.flatMap Clause.occurrences

lemma exists_source {bytes : ByteArray} {p : Program} (h : (readBytes bytes).result = .ok p) :
    ∃ s : Source bytes p, s.occurrences = (nameAnonymous 0 s.written).map fun v => ⟨v, 0⟩ := by
  obtain ⟨text, decoded, hread⟩ := read_of_readBytes h
  obtain ⟨tokens, clauses, scanned, derived, assembled⟩ := derived_of_read hread
  obtain ⟨chunks, cut, whole, aligned, occurrences⟩ := derived.chunks
  exact ⟨⟨text, tokens, chunks, clauses, decoded, scanned, cut, whole, assembled, aligned⟩,
    occurrences⟩

end Program

/-- What the variables that are written are read as. A name stands for the variable of this name. An
anonymous variable is named by its number, so that no other place holds the same variable unless just
this name is written there. -/
structure ReadApart (written : List String) (read : List Variable) : Prop where
  named {i : Nat} {name : String} : written[i]? = some name → name ≠ "_" → read[i]? = some ⟨name, 0⟩
  anonymous {i : Nat} : written[i]? = some "_" →
    let name := Cursor.anonymousName ((written.take (i + 1)).count "_")
    read[i]? = some ⟨name, 0⟩ ∧ ∀ j ≠ i, (read[j]? = read[i]? ↔ written[j]? = some name)

lemma count_take_lt {vs : List String} {i j : Nat} (h : i < j) (later : vs[j]? = some "_") :
    (vs.take (i + 1)).count "_" < (vs.take (j + 1)).count "_" := by
  have split : vs.take (j + 1) = vs.take j ++ ["_"] := by
    rw [List.take_add_one, later]
    rfl
  have front : (vs.take (i + 1)).count "_" ≤ (vs.take j).count "_" :=
    (List.take_sublist_take_left h).count_le _
  rw [split, List.count_append, List.count_singleton]
  simp only [beq_self_eq_true, if_true]
  omega

lemma readApart_nameAnonymous (vs : List String) :
    ReadApart vs ((nameAnonymous 0 vs).map fun v => ⟨v, 0⟩) where
  named hi hname := by simp [getElem?_nameAnonymous, hi, hname]
  anonymous {i} hi := by
    intro name
    have here : ((nameAnonymous 0 vs).map fun v => (⟨v, 0⟩ : Variable))[i]? = some ⟨name, 0⟩ := by
      simp [getElem?_nameAnonymous, hi, name]
    refine ⟨here, fun j hj => ?_⟩
    rw [here, List.getElem?_map, getElem?_nameAnonymous]
    cases hw : vs[j]? with
    | none => simp
    | some w =>
      by_cases anonymous : w = "_"
      · subst anonymous
        have other : (vs.take (j + 1)).count "_" ≠ (vs.take (i + 1)).count "_" := by
          obtain before | behind := Nat.lt_or_gt_of_ne hj
          · exact Nat.ne_of_lt (count_take_lt before hi)
          · exact Nat.ne_of_gt (count_take_lt behind hw)
        have unlike : "_" ≠ name := (Cursor.anonymousName_ne _).symm
        simp [name, Cursor.anonymousName_inj, other, unlike]
      · simp [anonymous]

namespace Program

/-- The anonymous variables of a program are apart, from one another and from all variables with a
name, unless a variable is written with the name that is made up for an anonymous one. -/
theorem anonymous_apart {bytes : ByteArray} {p : Program} (h : (readBytes bytes).result = .ok p) :
    ∃ s : Source bytes p, ReadApart s.written s.occurrences := by
  obtain ⟨s, occurrences⟩ := exists_source h
  refine ⟨s, ?_⟩
  rw [occurrences]
  exact readApart_nameAnonymous s.written

/-- Two anonymous variables of a rule, which is named by a third one, and one of a goal. -/
theorem anonymous_apart_three :
    let p : Program := ⟨[⟨"_", [], [.ordinary "p" [.var ⟨"_1", 0⟩, .var ⟨"X", 0⟩, .var ⟨"_2", 0⟩]], [],
      []⟩], [[.ordinary "q" [.var ⟨"_3", 0⟩]]]⟩
    (readBytes "_ @ p(_,X,_) <=> true. q(_).".toUTF8).result = .ok p ∧
      ∃ s : Source "_ @ p(_,X,_) <=> true. q(_).".toUTF8 p, ReadApart s.written s.occurrences := by
  intro p
  have read : (readBytes "_ @ p(_,X,_) <=> true. q(_).".toUTF8).result = .ok p := by
    rw [readBytes_toUTF8]
    cbv
  exact ⟨read, anonymous_apart read⟩

/-- An anonymous variable is read as the variable that is written with the name made up for it. -/
theorem captured_of_made_up_name :
    (Token.scan "p(_1,_).".toList).map (·.map Located.token) =
      .ok [.name "p", .symbol "(", .var "_1", .symbol ",", .var "_", .symbol ")", .symbol "."] ∧
    (readBytes "p(_1,_).".toUTF8).result =
      .ok ⟨[], [[.ordinary "p" [.var ⟨"_1", 0⟩, .var ⟨"_1", 0⟩]]]⟩ := by
  rw [readBytes_toUTF8]
  constructor <;> cbv

end Program
end ConstraintHandling
