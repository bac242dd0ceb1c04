import ConstraintHandling.Proofs.Program.Lexing

/-! What the tokens of a text look like. Every token belongs to a lexeme that stands somewhere in the
text; so names and variables are words, and a quoted name stands between its quotes. -/
namespace ConstraintHandling
namespace Lexeme
variable {cs : List Char} {l : Lexeme}

lemma kind_numeral (cs : List Char) :
    (numeral cs).kind = .int ∨ ∃ parts, (numeral cs).kind = .float parts := by
  unfold numeral
  dsimp only
  split
  · split
    · exact .inl rfl
    · split <;> exact .inr ⟨_, rfl⟩
  · exact .inl rfl

lemma quotedBody_eq_some {quote : Char} {body : List Char} (h : quotedBody quote cs = some body) :
    ∃ inside rest, body = inside ++ [quote] ∧ cs = inside ++ quote :: rest := by
  fun_induction quotedBody quote cs generalizing body with
  | case1 => cases h
  | case2 => cases h
  | case3 c cs feed ih =>
    obtain ⟨body, hbody, rfl⟩ := Option.map_eq_some_iff.mp h
    obtain ⟨inside, rest, rfl, rfl⟩ := ih hbody
    exact ⟨'\\' :: c :: inside, rest, rfl, rfl⟩
  | case4 cs =>
    cases h
    exact ⟨[], cs, rfl, rfl⟩
  | case5 => cases h
  | case6 c cs _ _ _ ih =>
    obtain ⟨body, hbody, rfl⟩ := Option.map_eq_some_iff.mp h
    obtain ⟨inside, rest, rfl, rfl⟩ := ih hbody
    exact ⟨c :: inside, rest, rfl, rfl⟩

/-- What a lexeme looks like: words and quoted names. -/
structure HasShape (cs : List Char) (l : Lexeme) : Prop where
  var : l.kind = .var → isVariableName (String.ofList l.text) = true
  name : l.kind = .name → Text.isPlainName (String.ofList l.text) = true
  quoted : l.kind = .quoted → ∃ inside rest, l.text = '\'' :: (inside ++ ['\'']) ∧
    cs = '\'' :: (inside ++ '\'' :: rest)

lemma HasShape.of_kind (var : l.kind ≠ .var) (name : l.kind ≠ .name) (quoted : l.kind ≠ .quoted) :
    l.HasShape cs where
  var h := absurd h var
  name h := absurd h name
  quoted h := absurd h quoted

lemma hasShape_var {c : Char} {rest : List Char} (capital : (c.isUpper || c = '_') = true) :
    (⟨.var, (c :: rest).takeWhile isNameChar⟩ : Lexeme).HasShape cs where
  var _ := by
    rw [isVariableName, String.toList_ofList,
      List.takeWhile_cons_of_pos (lead_of_capital capital).1]
    exact Bool.and_eq_true_iff.mpr ⟨capital, List.all_takeWhile⟩
  name h := by cases h
  quoted h := by cases h

lemma hasShape_name {c : Char} {rest : List Char} (lower : c.isLower = true) :
    (⟨.name, (c :: rest).takeWhile isNameChar⟩ : Lexeme).HasShape cs where
  var h := by cases h
  name _ := by
    rw [Text.isPlainName, String.toList_ofList,
      List.takeWhile_cons_of_pos (lead_of_isLower lower).1]
    exact Bool.and_eq_true_iff.mpr ⟨lower, List.all_takeWhile⟩
  quoted h := by cases h

lemma hasShape_quoted {rest body : List Char} (h : quotedBody '\'' rest = some body) :
    (⟨.quoted, '\'' :: body⟩ : Lexeme).HasShape ('\'' :: rest) where
  var h := by cases h
  name h := by cases h
  quoted _ := by
    obtain ⟨inside, more, rfl, rfl⟩ := quotedBody_eq_some h
    exact ⟨inside, more, rfl, rfl⟩

lemma first?_hasShape (h : first? cs = some l) : l.HasShape cs := by
  cases cs with
  | nil => cases h
  | cons c rest =>
    rw [first?] at h
    split_ifs at h with blank comment digit capital lower single double
    · cases h
      exact .of_kind (by simp) (by simp) (by simp)
    · cases h
      exact .of_kind (by simp) (by simp) (by simp)
    · cases h
      obtain kind | ⟨parts, kind⟩ := kind_numeral (c :: rest)
      all_goals exact .of_kind (by simp [kind]) (by simp [kind]) (by simp [kind])
    · cases h
      exact hasShape_var capital
    · cases h
      exact hasShape_name lower
    · obtain ⟨body, hbody, rfl⟩ := Option.map_eq_some_iff.mp h
      subst single
      exact hasShape_quoted hbody
    · obtain ⟨body, -, rfl⟩ := Option.map_eq_some_iff.mp h
      exact .of_kind (by simp) (by simp) (by simp)
    · obtain ⟨s, -, rfl⟩ := Option.map_eq_some_iff.mp h
      exact .of_kind (by simp) (by simp) (by simp)

end Lexeme

namespace Token
open Lexeme
variable {cs : List Char} {ls : List Located} {s : String}

/-- The token is that of a lexeme that stands somewhere in the text. -/
def StandsIn (cs : List Char) (t : Token) : Prop :=
  ∃ before rest l line, cs = before ++ rest ∧ first? rest = some l ∧ l.token? line = .ok (some t)

lemma StandsIn.append {t : Token} (h : t.StandsIn cs) (before : List Char) :
    t.StandsIn (before ++ cs) := by
  obtain ⟨more, rest, l, line, rfl, first, value⟩ := h
  exact ⟨before ++ more, rest, l, line, (List.append_assoc ..).symm, first, value⟩

lemma standsIn_of_scanWithin {lexemes line : Nat} (h : scanWithin lexemes line cs = .ok ls) :
    ∀ l ∈ ls, l.token.StandsIn cs := by
  induction lexemes generalizing line cs ls with
  | zero =>
    cases cs <;>
      · cases h
        simp
  | succ lexemes ih =>
    cases cs with
    | nil =>
      cases h
      simp
    | cons c cs =>
      simp only [scanWithin] at h
      split at h
      · cases h
      · next l first =>
        split at h
        · cases h
        · next token value =>
          split at h
          · cases h
          · next later hlater =>
            cases h
            rw [List.forall_mem_append]
            constructor
            · intro a ha
              obtain ⟨t, ht, rfl⟩ := List.mem_map.mp ha
              rw [Option.mem_toList] at ht
              exact ⟨[], c :: cs, l, line, rfl, first, ht ▸ value⟩
            · intro a ha
              have here := (ih hlater a ha).append ((c :: cs).take l.text.length)
              rwa [List.take_append_drop] at here

theorem standsIn_of_scan (h : scan cs = .ok ls) : ∀ l ∈ ls, l.token.StandsIn cs :=
  standsIn_of_scanWithin h

lemma kind_of_token? {l : Lexeme} {line : Nat} {t : Token} (h : l.token? line = .ok (some t)) :
    (∀ s, t = .var s → l.kind = .var ∧ s = String.ofList l.text) ∧
      (∀ s, t = .name s → l.kind = .name ∧ s = String.ofList l.text) ∧
      ∀ s, t = .quoted s → l.kind = .quoted ∧ s = String.ofList (Text.unescape l.inside) := by
  unfold Lexeme.token? at h
  cases hkind : l.kind with
  | blank | comment =>
    rw [hkind] at h
    cases h
  | var | name | quoted | str | symbol =>
    rw [hkind] at h
    cases h
    simp
  | float | int =>
    rw [hkind] at h
    dsimp only at h
    split at h
    · cases h
      simp
    · cases h

lemma isVariableName_of_standsIn (h : (Token.var s).StandsIn cs) : isVariableName s = true := by
  obtain ⟨_, _, l, _, -, first, value⟩ := h
  obtain ⟨hkind, rfl⟩ := (kind_of_token? value).1 s rfl
  exact (first?_hasShape first).var hkind

lemma isPlainName_of_standsIn (h : (Token.name s).StandsIn cs) : Text.isPlainName s = true := by
  obtain ⟨_, _, l, _, -, first, value⟩ := h
  obtain ⟨hkind, rfl⟩ := (kind_of_token? value).2.1 s rfl
  exact (first?_hasShape first).name hkind

lemma quoted_of_standsIn (h : (Token.quoted s).StandsIn cs) :
    ∃ before inside rest, cs = before ++ '\'' :: (inside ++ '\'' :: rest) ∧
      s = String.ofList (Text.unescape inside) := by
  obtain ⟨before, rest, l, _, rfl, first, value⟩ := h
  obtain ⟨hkind, rfl⟩ := (kind_of_token? value).2.2 s rfl
  obtain ⟨inside, more, htext, rfl⟩ := (first?_hasShape first).quoted hkind
  refine ⟨before, inside, more, rfl, ?_⟩
  rw [Lexeme.inside, htext]
  simp

end Token

lemma Text.length_unescape_le (cs : List Char) : (unescape cs).length ≤ cs.length := by
  fun_induction unescape cs with
  | case5 => simp only [List.length_cons]; omega
  | _ => simp only [List.length_cons, List.length_nil]; omega

end ConstraintHandling
