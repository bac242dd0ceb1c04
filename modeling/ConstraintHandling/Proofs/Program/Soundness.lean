import ConstraintHandling.Proofs.Program.Numbering

/-! What the parser reads is derived by the grammar. The tokens between the cursor before a call and
the one after it derive what comes back, once the anonymous variables among them are numbered. -/
namespace ConstraintHandling
namespace Cursor

/-- The tokens read between two cursors have a property, with the anonymous variables among them
numbered. -/
def Reads (c : Cursor) (P : List Token → Prop) (c' : Cursor) : Prop :=
  ∃ us : List Located, c.tokens = us ++ c'.tokens ∧
    c'.anonymous = c.anonymous + (us.map Located.token).countP Token.isAnonymous ∧
    P (Token.numbered c.anonymous (us.map Located.token))

section Reads
variable {c c' c'' : Cursor} {P Q R : List Token → Prop}

lemma reads_nil (h : P []) : c.Reads P c :=
  ⟨[], rfl, rfl, h⟩

lemma Reads.trans (h : c.Reads P c') (h' : c'.Reads Q c'')
    (join : ∀ us vs, P us → Q vs → R (us ++ vs)) : c.Reads R c'' := by
  obtain ⟨us, hus, hn, hP⟩ := h
  obtain ⟨vs, hvs, hn', hQ⟩ := h'
  refine ⟨us ++ vs, by rw [hus, hvs, List.append_assoc], ?_, ?_⟩
  · rw [List.map_append, List.countP_append, hn', hn, Nat.add_assoc]
  · rw [hn] at hQ
    rw [List.map_append, Token.numbered_append]
    exact join _ _ hP hQ

lemma Reads.mono (h : c.Reads P c') (imp : ∀ ts, P ts → Q ts) : c.Reads Q c' := by
  obtain ⟨us, hus, hn, hP⟩ := h
  exact ⟨us, hus, hn, imp _ hP⟩

lemma Reads.within (h : c.Reads P c') :
    c.Reads (fun ts => P ts ∧ ts <+: Token.numbered c.anonymous (c.tokens.map Located.token)) c' := by
  obtain ⟨us, hus, hn, hP⟩ := h
  refine ⟨us, hus, hn, hP, ?_⟩
  rw [hus, List.map_append, Token.numbered_append]
  exact List.prefix_append ..

lemma reads_cons {l : Located} (named : l.token ≠ .var "_") (rest : List Located) (n : Nat) :
    (⟨l :: rest, n⟩ : Cursor).Reads (· = [l.token]) ⟨rest, n⟩ := by
  refine ⟨[l], rfl, ?_, Token.numbered_cons named⟩
  rw [List.map_singleton, List.countP_singleton, Token.isAnonymous_eq_false named]
  rfl

lemma reads_anonymous (line : Nat) (rest : List Located) (n : Nat) :
    (⟨⟨.var "_", line⟩ :: rest, n⟩ : Cursor).Reads (· = [.var (anonymousName (n + 1))])
      ⟨rest, n + 1⟩ := by
  refine ⟨[⟨.var "_", line⟩], rfl, ?_, Token.numbered_cons_of_anonymous⟩
  rw [List.map_singleton, List.countP_singleton, if_pos (Token.isAnonymous_iff.mpr rfl)]

lemma eq_symbol_of_isSymbol {a : Token} {s : String} (h : a.isSymbol s = true) : a = .symbol s := by
  cases a with
  | symbol r => rw [beq_iff_eq.mp h]
  | _ => cases h

lemma reads_advance {s : String} (h : c.isAt s = true) :
    c.Reads (· = [.symbol s]) c.advance := by
  obtain ⟨_ | ⟨l, rest⟩, n⟩ := c
  · cases h
  · have symbol : l.token = .symbol s := eq_symbol_of_isSymbol h
    rw [← symbol]
    exact reads_cons (by simp [symbol]) rest n

lemma reads_expect {s : String} (h : c.expect s = .ok c') : c.Reads (· = [.symbol s]) c' := by
  obtain ⟨_ | ⟨l, rest⟩, n⟩ := c
  · cases h
  · simp only [expect] at h
    split at h
    · next here =>
      cases h
      have symbol : l.token = .symbol s := eq_symbol_of_isSymbol here
      rw [← symbol]
      exact reads_cons (by simp [symbol]) rest n
    · cases h

lemma reads_operator {op : Operator} (h : c.operator? = some op) :
    c.Reads (fun ts => ∃ a, ts = [a] ∧ a.operator? = some op) c.advance := by
  obtain ⟨_ | ⟨l, rest⟩, n⟩ := c
  · cases h
  · refine (reads_cons (fun anonymous => ?_) rest n).mono fun ts hts => ⟨l.token, hts, h⟩
    rw [operator?_cons, anonymous] at h
    cases h

end Reads

/-- With the given fuel, everything that is parsed is derived. -/
structure Sound (fuel : Nat) : Prop where
  term : ∀ {maximum c t c'}, term fuel maximum c = .ok (t, c') →
    c.Reads (fun ts => ∃ p ≤ maximum, Derives ts (.term t p)) c'
  operators : ∀ {maximum left p c t c'}, operators fuel maximum left p c = .ok (t, c') →
    c.Reads (fun ts => ∀ us, p ≤ maximum → Derives us (.term left p) →
      ∃ q ≤ maximum, Derives (us ++ ts) (.term t q)) c'
  primary : ∀ {maximum c t p c'}, primary fuel maximum c = .ok ((t, p), c') →
    c.Reads (fun ts => p ≤ maximum ∧ Derives ts (.term t p)) c'
  application : ∀ {f c t p c'}, application fuel f c = .ok ((t, p), c') →
    c.Reads (fun ts => p = 0 ∧ ∀ a, a.functor? = some f → Derives (a :: ts) (.term t 0)) c'
  sequence : ∀ {closing c items c'}, sequence fuel closing c = .ok (items, c') →
    c.Reads (fun ts => ∃ us, ts = us ++ [.symbol closing] ∧ Derives us (.sequence items)) c'
  terms : ∀ {c items c'}, terms fuel c = .ok (items, c') →
    c.Reads (fun ts => Derives ts (.terms items)) c'

section Steps
variable {fuel maximum : Nat} {c c' : Cursor} {t : Term}

lemma Sound.term_succ (h : Sound fuel) (hterm : Cursor.term (fuel + 1) maximum c = .ok (t, c')) :
    c.Reads (fun ts => ∃ p ≤ maximum, Derives ts (.term t p)) c' := by
  rw [Cursor.term] at hterm
  split at hterm
  · cases hterm
  · next left p c₁ hprimary =>
    refine (h.primary hprimary).trans (h.operators hterm) ?_
    rintro us vs ⟨hp, derives⟩ later
    exact later us hp derives

lemma Sound.operators_succ (h : Sound fuel) {left : Term} {p : Nat}
    (hoperators : Cursor.operators (fuel + 1) maximum left p c = .ok (t, c')) :
    c.Reads (fun ts => ∀ us, p ≤ maximum → Derives us (.term left p) →
      ∃ q ≤ maximum, Derives (us ++ ts) (.term t q)) c' := by
  have stop : c.Reads (fun ts => ∀ us, p ≤ maximum → Derives us (.term left p) →
      ∃ q ≤ maximum, Derives (us ++ ts) (.term left q)) c :=
    reads_nil fun us hp derives => ⟨p, hp, by rwa [List.append_nil]⟩
  rw [Cursor.operators] at hoperators
  split at hoperators
  · cases hoperators
    exact stop
  · next op hop =>
    split at hoperators
    · cases hoperators
      exact stop
    · next allowed =>
      split at hoperators
      · cases hoperators
      · next right c₁ hright =>
        have fits : p ≤ op.argumentMaxima.1 ∧ op.priority ≤ maximum := by omega
        have hargument : c.Reads (fun ts => ∃ a us q, ts = a :: us ∧ a.operator? = some op ∧
            q ≤ op.argumentMaxima.2 ∧ Derives us (.term right q)) c₁ := by
          refine (reads_operator hop).trans (h.term hright) ?_
          rintro _ us ⟨a, rfl, ha⟩ ⟨q, hq, derives⟩
          exact ⟨a, us, q, rfl, ha, hq, derives⟩
        -- The loop goes on with the term built so far as its left argument.
        refine hargument.trans (h.operators hoperators) ?_
        rintro _ vs ⟨a, us, q, rfl, ha, hq, derives⟩ later ts hp hleft
        have joined := later (ts ++ a :: us) fits.2 (.binary ha hleft fits.1 derives hq)
        rwa [List.append_assoc] at joined

lemma Sound.terms_succ (h : Sound fuel) {items : List Term}
    (hterms : Cursor.terms (fuel + 1) c = .ok (items, c')) :
    c.Reads (fun ts => Derives ts (.terms items)) c' := by
  rw [Cursor.terms] at hterms
  split at hterms
  · cases hterms
  · next t c₁ hterm =>
    split at hterms
    · next comma =>
      split at hterms
      · cases hterms
      · next ts c₂ hrest =>
        cases hterms
        have hcomma : c₁.Reads
            (fun us => ∃ vs, us = .symbol "," :: vs ∧ Derives vs (.terms ts)) c' := by
          refine (reads_advance comma).trans (h.terms hrest) ?_
          rintro _ vs rfl later
          exact ⟨vs, rfl, later⟩
        refine (h.term hterm).trans hcomma ?_
        rintro us _ ⟨p, hp, derives⟩ ⟨vs, rfl, later⟩
        exact .more derives hp later
    · cases hterms
      refine (h.term hterm).mono ?_
      rintro us ⟨p, hp, derives⟩
      exact .last derives hp

lemma Sound.sequence_succ (h : Sound fuel) {closing : String} {items : List Term}
    (hsequence : Cursor.sequence (fuel + 1) closing c = .ok (items, c')) :
    c.Reads (fun ts => ∃ us, ts = us ++ [.symbol closing] ∧ Derives us (.sequence items)) c' := by
  rw [Cursor.sequence] at hsequence
  split at hsequence
  · next closed =>
    cases hsequence
    exact (reads_advance closed).mono fun ts hts => ⟨[], hts, .none⟩
  · split at hsequence
    · cases hsequence
    · next ts c₁ hterms =>
      split at hsequence
      · cases hsequence
      · next c₂ hexpect =>
        cases hsequence
        refine (h.terms hterms).trans (reads_expect hexpect) ?_
        rintro us _ derives rfl
        exact ⟨us, rfl, .some derives⟩

lemma Sound.application_succ (h : Sound fuel) {f : String} {p : Nat}
    (happlication : Cursor.application (fuel + 1) f c = .ok ((t, p), c')) :
    c.Reads (fun ts => p = 0 ∧ ∀ a, a.functor? = some f → Derives (a :: ts) (.term t 0)) c' := by
  rw [Cursor.application] at happlication
  split at happlication
  · next opened =>
    split at happlication
    · cases happlication
    · next args c₁ hsequence =>
      cases happlication
      refine (reads_advance opened).trans (h.sequence hsequence) ?_
      rintro _ _ rfl ⟨us, rfl, derives⟩
      exact ⟨rfl, fun a ha => .compound ha derives⟩
  · cases happlication
    exact reads_nil ⟨rfl, fun a ha => .atom ha⟩

lemma reads_literal {a : Token} {t' : Term} {line n p : Nat} {rest : List Located}
    (ha : a.literal? = some t')
    (hprimary : Cursor.primary (fuel + 1) maximum ⟨⟨a, line⟩ :: rest, n⟩ = .ok ((t, p), c')) :
    (⟨⟨a, line⟩ :: rest, n⟩ : Cursor).Reads
      (fun ts => p ≤ maximum ∧ Derives ts (.term t p)) c' := by
  rw [primary_literal ha] at hprimary
  cases hprimary
  have named : a ≠ .var "_" := by rintro rfl; cases ha
  refine (reads_cons named rest n).mono ?_
  rintro ts rfl
  exact ⟨Nat.zero_le _, .literal ha⟩

lemma Sound.reads_functor (h : Sound fuel) {a : Token} {f : String} {line n p : Nat}
    {rest : List Located} (ha : a.functor? = some f)
    (hprimary : Cursor.primary (fuel + 1) maximum ⟨⟨a, line⟩ :: rest, n⟩ = .ok ((t, p), c')) :
    (⟨⟨a, line⟩ :: rest, n⟩ : Cursor).Reads
      (fun ts => p ≤ maximum ∧ Derives ts (.term t p)) c' := by
  rw [primary_functor ha] at hprimary
  have named : a ≠ .var "_" := by rintro rfl; cases ha
  refine (reads_cons named rest n).trans (h.application hprimary) ?_
  rintro _ us rfl ⟨rfl, derives⟩
  exact ⟨Nat.zero_le _, derives a ha⟩

lemma Sound.reads_unary (h : Sound fuel) {s : String} {line n p : Nat} {rest : List Located}
    (parenthesis : s ≠ "(") (bracket : s ≠ "[")
    (unsigned : s = "-" → (rest.head?.map Located.token).bind Token.negated? = none)
    (hprimary : Cursor.primary (fuel + 1) maximum ⟨⟨.symbol s, line⟩ :: rest, n⟩ =
      .ok ((t, p), c')) :
    (⟨⟨.symbol s, line⟩ :: rest, n⟩ : Cursor).Reads
      (fun ts => p ≤ maximum ∧ Derives ts (.term t p)) c' := by
  rw [primary_symbol parenthesis bracket unsigned] at hprimary
  split at hprimary
  · cases hprimary
  · next op hop =>
    split at hprimary
    · cases hprimary
    · next allowed =>
      split at hprimary
      · cases hprimary
      · next arg c₁ hterm =>
        cases hprimary
        refine (reads_cons (by simp) rest n).trans (h.term hterm).within ?_
        rintro _ us rfl ⟨⟨q, hq, derives⟩, front⟩
        refine ⟨Nat.le_of_not_lt allowed, .unary hop (fun hs => ?_) derives hq⟩
        obtain _ | ⟨u, us⟩ := us
        · rfl
        · obtain ⟨vs, hvs⟩ := front
          have first := Token.negated?_head?_numbered n (rest.map Located.token)
          rw [← hvs, List.head?_map, unsigned hs] at first
          exact first

lemma Sound.reads_symbol (h : Sound fuel) {s : String} {line n p : Nat} {rest : List Located}
    (hprimary : Cursor.primary (fuel + 1) maximum ⟨⟨.symbol s, line⟩ :: rest, n⟩ =
      .ok ((t, p), c')) :
    (⟨⟨.symbol s, line⟩ :: rest, n⟩ : Cursor).Reads
      (fun ts => p ≤ maximum ∧ Derives ts (.term t p)) c' := by
  have first : (⟨⟨.symbol s, line⟩ :: rest, n⟩ : Cursor).Reads (· = [.symbol s]) ⟨rest, n⟩ :=
    reads_cons (by simp) rest n
  by_cases parenthesis : s = "("
  · subst parenthesis
    rw [primary_parenthesis] at hprimary
    split at hprimary
    · cases hprimary
    · next t c₁ hterm =>
      split at hprimary
      · cases hprimary
      · next c₂ hexpect =>
        cases hprimary
        have inside : (⟨rest, n⟩ : Cursor).Reads (fun ts => ∃ us q, ts = us ++ [.symbol ")"] ∧
            q ≤ termMaximum ∧ Derives us (.term t q)) c' := by
          refine (h.term hterm).trans (reads_expect hexpect) ?_
          rintro us _ ⟨q, hq, derives⟩ rfl
          exact ⟨us, q, rfl, hq, derives⟩
        refine first.trans inside ?_
        rintro _ _ rfl ⟨us, q, rfl, hq, derives⟩
        exact ⟨Nat.zero_le _, .parentheses derives hq⟩
  · by_cases bracket : s = "["
    · subst bracket
      rw [primary_bracket] at hprimary
      split at hprimary
      · cases hprimary
      · next items c₁ hsequence =>
        cases hprimary
        refine first.trans (h.sequence hsequence) ?_
        rintro _ _ rfl ⟨us, rfl, derives⟩
        exact ⟨Nat.zero_le _, .list derives⟩
    · by_cases unsigned : s = "-" → (rest.head?.map Located.token).bind Token.negated? = none
      · exact h.reads_unary parenthesis bracket unsigned hprimary
      · obtain ⟨rfl, signed⟩ := Classical.not_imp.mp unsigned
        obtain _ | ⟨⟨a, line'⟩, rest⟩ := rest
        · exact absurd rfl signed
        · obtain ⟨t', ha⟩ := Option.ne_none_iff_exists'.mp signed
          rw [primary_negative ha] at hprimary
          cases hprimary
          have named : a ≠ .var "_" := by rintro rfl; cases ha
          refine first.trans (reads_cons named rest n) ?_
          rintro _ _ rfl rfl
          exact ⟨Nat.zero_le _, .negative ha⟩

lemma Sound.primary_succ (h : Sound fuel) {p : Nat}
    (hprimary : Cursor.primary (fuel + 1) maximum c = .ok ((t, p), c')) :
    c.Reads (fun ts => p ≤ maximum ∧ Derives ts (.term t p)) c' := by
  obtain ⟨_ | ⟨⟨a, line⟩, rest⟩, n⟩ := c
  · rw [Cursor.primary] at hprimary
    cases hprimary
  · cases a with
    | int i => exact reads_literal rfl hprimary
    | float x => exact reads_literal rfl hprimary
    | str s => exact reads_literal rfl hprimary
    | symbol s => exact h.reads_symbol hprimary
    | quoted q => exact h.reads_functor rfl hprimary
    | var v =>
      by_cases anonymous : v = "_"
      · subst anonymous
        rw [Cursor.primary] at hprimary
        cases hprimary
        refine (reads_anonymous line rest n).mono ?_
        rintro _ rfl
        exact ⟨Nat.zero_le _, .literal (if_neg (anonymousName_ne _))⟩
      · exact reads_literal (if_neg anonymous) hprimary
    | name m =>
      by_cases boolean : m = "true" ∨ m = "false"
      · obtain rfl | rfl := boolean
        · exact reads_literal rfl hprimary
        · exact reads_literal rfl hprimary
      · exact h.reads_functor (if_neg boolean) hprimary

end Steps

/-- Parsing is sound, whatever the fuel. -/
theorem sound (fuel : Nat) : Sound fuel := by
  induction fuel with
  | zero =>
    constructor
    · intro maximum c t c' h
      rw [Cursor.term] at h
      cases h
    · intro maximum left p c t c' h
      rw [Cursor.operators] at h
      cases h
    · intro maximum c t p c' h
      rw [Cursor.primary] at h
      cases h
    · intro f c t p c' h
      rw [Cursor.application] at h
      cases h
    · intro closing c items c' h
      rw [Cursor.sequence] at h
      cases h
    · intro c items c' h
      rw [Cursor.terms] at h
      cases h
  | succ fuel ih =>
    exact ⟨ih.term_succ, ih.operators_succ, ih.primary_succ, ih.application_succ, ih.sequence_succ,
      ih.terms_succ⟩

lemma reads_parseTerms {c c' : Cursor} {items : List Term} (h : c.parseTerms = .ok (items, c')) :
    c.Reads (fun ts => Derives ts (.terms items)) c' :=
  (sound c.fuel).terms h

theorem reads_parseTerm {c c' : Cursor} {maximum : Nat} {t : Term}
    (h : c.parseTerm maximum = .ok (t, c')) :
    ∃ us : List Located, c.tokens = us ++ c'.tokens ∧
      (.var "_" ∉ us.map Located.token →
        c'.anonymous = c.anonymous ∧ ∃ p ≤ maximum, Derives (us.map Located.token) (.term t p)) := by
  obtain ⟨us, hus, hn, p, hp, derives⟩ := (sound c.fuel).term h
  refine ⟨us, hus, fun named => ⟨?_, p, hp, ?_⟩⟩
  · rw [hn, Token.countP_isAnonymous_eq_zero named, Nat.add_zero]
  · rwa [Token.numbered_eq_self named] at derives

end Cursor
end ConstraintHandling
