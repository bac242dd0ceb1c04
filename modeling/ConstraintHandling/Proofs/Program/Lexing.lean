import ConstraintHandling.Program.Token
import Mathlib

/-! Cutting text into tokens. A text is cut lexeme by lexeme, each as long as its class allows; so a
written lexeme is found again where the text behind it does not continue it. -/
namespace ConstraintHandling

/-- The text is cut into lexemes that have the given tokens. -/
inductive Cuts : List Char → List Token → Prop
  | nil : Cuts [] []
  | cons {l : Lexeme} {token : Option Token} {rest : List Char} {ts : List Token}
      (first : Lexeme.first? (l.text ++ rest) = some l) (nonempty : l.text ≠ [])
      (reads : ∀ line, l.token? line = .ok token) (later : Cuts rest ts) :
      Cuts (l.text ++ rest) (token.toList ++ ts)

/-- A text that is cut into tokens is scanned, as long as there is a step for every character. -/
theorem Cuts.scanWithin {cs : List Char} {ts : List Token} (h : Cuts cs ts) (line : Nat)
    {lexemes : Nat} (enough : cs.length ≤ lexemes) :
    ∃ ls, Token.scanWithin lexemes line cs = .ok ls ∧ ls.map Located.token = ts := by
  induction h generalizing line lexemes with
  | nil => exact ⟨[], by cases lexemes <;> rfl, rfl⟩
  | @cons l token rest ts first nonempty reads later ih =>
    obtain ⟨c, cs, htext⟩ := List.exists_cons_of_ne_nil nonempty
    simp only [htext, List.length_append, List.length_cons] at enough
    obtain ⟨lexemes, rfl⟩ : ∃ n, lexemes = n + 1 := ⟨lexemes - 1, by omega⟩
    obtain ⟨ls, hscan, hls⟩ :=
      ih (line + l.lineFeeds) (show rest.length ≤ lexemes by omega)
    refine ⟨token.toList.map (⟨·, line⟩) ++ ls, ?_, by cases token <;> simp [hls]⟩
    have hdrop : (l.text ++ rest).drop l.text.length = rest := List.drop_left
    have hcons : l.text ++ rest = c :: (cs ++ rest) := by rw [htext, List.cons_append]
    rw [hcons] at first hdrop ⊢
    simp only [Token.scanWithin, first, reads, hdrop, hscan]

namespace Lexeme

lemma takeWhile_append_eq {p : Char → Bool} {cs rest : List Char} (h : ∀ c ∈ cs, p c = true)
    (stop : ∀ c ∈ rest.head?, p c = false) : (cs ++ rest).takeWhile p = cs := by
  rw [List.takeWhile_append_of_pos h]
  cases rest with
  | nil => simp
  | cons c rest => simp [stop c (by simp)]

lemma ascii_of_isNameChar {c : Char} (h : isNameChar c = true) : c.toNat < 128 := by
  simp only [isNameChar, Char.isAlphanum, Char.isAlpha, Char.isUpper, Char.isLower, Char.isDigit,
    Bool.or_eq_true, Bool.and_eq_true, decide_eq_true_eq, beq_iff_eq, ge_iff_le,
    UInt32.le_iff_toNat_le] at h
  change c.val.toNat < 128
  rcases h with ((h | h) | h) | rfl
  · have : c.val.toNat ≤ 90 := h.2
    omega
  · have : c.val.toNat ≤ 122 := h.2
    omega
  · have : c.val.toNat ≤ 57 := h.2
    omega
  · decide

lemma first?_of_isNameChar {c : Char} (h : isNameChar c = true) (cs : List Char) :
    first? (c :: cs) = some (if c.isDigit then numeral (c :: cs)
      else ⟨if c.isLower then .name else .var, (c :: cs).takeWhile isNameChar⟩) := by
  have all : ∀ n < 128, isNameChar (Char.ofNat n) = true →
      Text.isBlank (Char.ofNat n) = false ∧ Char.ofNat n ≠ '%' ∧
        Text.isDecimalDigit (Char.ofNat n) = (Char.ofNat n).isDigit ∧
        ((Char.ofNat n).isUpper || Char.ofNat n = '_') =
          (!(Char.ofNat n).isDigit && !(Char.ofNat n).isLower) := by decide +kernel
  have hc := all c.toNat (ascii_of_isNameChar h)
  rw [Char.ofNat_toNat] at hc
  obtain ⟨visible, uncommented, digit, capital⟩ := hc h
  simp only [first?, visible, uncommented, digit, capital]
  cases c.isDigit <;> cases c.isLower <;> simp

/-- Behind this text stands nothing that continues a name or a numeral. -/
def Ends : List Char → Prop
  | [] => True
  | c :: cs => isNameChar c = false ∧ Text.isDecimalDigit c = false ∧
    (c = '.' → ∀ d ∈ cs.head?, Text.isDecimalDigit d = false)

lemma Ends.name {rest : List Char} (h : Ends rest) : ∀ c ∈ rest.head?, isNameChar c = false := by
  cases rest with
  | nil => simp
  | cons c rest => simpa using h.1

lemma Ends.digit {rest : List Char} (h : Ends rest) :
    ∀ c ∈ rest.head?, Text.isDecimalDigit c = false := by
  cases rest with
  | nil => simp
  | cons c rest => simpa using h.2.1

/-- A variable as it is written: a capital letter or an underscore, then letters, digits and
underscores. -/
def isVariableName (s : String) : Bool :=
  match s.toList with
  | [] => false
  | c :: cs => (c.isUpper || c = '_') && cs.all isNameChar

lemma isNameChar_of_isDigit {c : Char} (h : c.isDigit = true) : isNameChar c = true := by
  simp [isNameChar, Char.isAlphanum, h]

lemma isDigit_of_mem_repr {n : Nat} {c : Char} (h : c ∈ n.repr.toList) : c.isDigit = true :=
  Nat.isDigit_of_mem_toDigits (by decide) (by decide) (Nat.toList_repr ▸ h)

lemma numeral_digits {ds rest : List Char} (h : ∀ d ∈ ds, Text.isDecimalDigit d = true)
    (ends : Ends rest) : numeral (ds ++ rest) = ⟨.int, ds⟩ := by
  rw [numeral, takeWhile_append_eq h ends.digit, List.drop_left]
  cases rest with
  | nil => rfl
  | cons c rest =>
    by_cases hc : c = '.'
    · subst hc
      have fraction : ([] ++ rest).takeWhile Text.isDecimalDigit = [] :=
        takeWhile_append_eq (by simp) (ends.2.2 rfl)
      rw [List.nil_append] at fraction
      simp [fraction]
    · simp [hc]

lemma first?_digits {ds rest : List Char} (nonempty : ds ≠ []) (h : ∀ d ∈ ds, d.isDigit = true)
    (ends : Ends rest) : first? (ds ++ rest) = some ⟨.int, ds⟩ := by
  have decimal : ∀ d ∈ ds, Text.isDecimalDigit d = true := fun d hd =>
    Text.isDecimalDigit_of_isDigit (h d hd)
  rw [← numeral_digits decimal ends]
  obtain ⟨d, ds, rfl⟩ := List.exists_cons_of_ne_nil nonempty
  have hd := h d (by simp)
  rw [List.cons_append, first?_of_isNameChar (isNameChar_of_isDigit hd), if_pos hd]

lemma first?_word {c : Char} {cs rest : List Char} (h : ∀ d ∈ c :: cs, isNameChar d = true)
    (hc : c.isDigit = false) (ends : Ends rest) :
    first? (c :: cs ++ rest) = some ⟨if c.isLower then .name else .var, c :: cs⟩ := by
  rw [List.cons_append, first?_of_isNameChar (h c (by simp)), hc, ← List.cons_append,
    takeWhile_append_eq h ends.name]
  rfl

lemma lead_of_capital {c : Char} (h : (c.isUpper || c = '_') = true) :
    isNameChar c = true ∧ c.isDigit = false ∧ c.isLower = false := by
  have name : isNameChar c = true := by
    simp only [isNameChar, Char.isAlphanum, Char.isAlpha, Bool.or_eq_true, decide_eq_true_eq,
      beq_iff_eq] at h ⊢
    tauto
  have all : ∀ n < 128, ((Char.ofNat n).isUpper || Char.ofNat n = '_') = true →
      (Char.ofNat n).isDigit = false ∧ (Char.ofNat n).isLower = false := by decide +kernel
  have hc := all c.toNat (ascii_of_isNameChar name)
  rw [Char.ofNat_toNat] at hc
  exact ⟨name, hc h⟩

lemma lead_of_isLower {c : Char} (h : c.isLower = true) :
    isNameChar c = true ∧ c.isDigit = false := by
  have name : isNameChar c = true := by simp [isNameChar, Char.isAlphanum, Char.isAlpha, h]
  have all : ∀ n < 128, (Char.ofNat n).isLower = true → (Char.ofNat n).isDigit = false := by
    decide +kernel
  have hc := all c.toNat (ascii_of_isNameChar name)
  rw [Char.ofNat_toNat] at hc
  exact ⟨name, hc h⟩

lemma first?_variable {s : String} (h : isVariableName s = true) {rest : List Char}
    (ends : Ends rest) : first? (s.toList ++ rest) = some ⟨.var, s.toList⟩ := by
  rw [isVariableName] at h
  split at h
  · cases h
  · next c cs hs =>
    obtain ⟨hc, hcs⟩ := Bool.and_eq_true_iff.mp h
    obtain ⟨name, digit, lower⟩ := lead_of_capital hc
    have all : ∀ d ∈ c :: cs, isNameChar d = true :=
      List.forall_mem_cons.mpr ⟨name, List.all_eq_true.mp hcs⟩
    rw [hs, first?_word all digit ends, lower]
    rfl

lemma first?_name {s : String} (h : Text.isPlainName s = true) {rest : List Char}
    (ends : Ends rest) : first? (s.toList ++ rest) = some ⟨.name, s.toList⟩ := by
  rw [Text.isPlainName] at h
  split at h
  · cases h
  · next c cs hs =>
    obtain ⟨lower, hcs⟩ := Bool.and_eq_true_iff.mp h
    obtain ⟨name, digit⟩ := lead_of_isLower lower
    have all : ∀ d ∈ c :: cs, isNameChar d = true :=
      List.forall_mem_cons.mpr ⟨name, List.all_eq_true.mp hcs⟩
    rw [hs, first?_word all digit ends, lower]
    rfl

/-- A symbol goes on with a character: another one begins with both. -/
def continues (s : String) (c : Char) : Bool :=
  symbols.any fun t => (s.toList ++ [c]).isPrefixOf t.toList

/-- The characters with which some symbol goes on. -/
def isContinuation (c : Char) : Bool :=
  c == '=' || c == '>' || c == '&' || c == '|' || c == '*'

lemma continues_eq_false {s : String} (hs : s ∈ symbols) {c : Char} (hc : isContinuation c = false) :
    continues s c = false := by
  have all : ∀ s ∈ symbols, ∀ t ∈ symbols,
      (t.toList.drop s.toList.length).head?.all isContinuation = true := by decide +kernel
  rw [continues, List.any_eq_false]
  intro t ht hprefix
  obtain ⟨more, hmore⟩ := List.isPrefixOf_iff_prefix.mp hprefix
  have continuation := all s hs t ht
  rw [← hmore, List.append_assoc, List.drop_left] at continuation
  exact absurd (hc.symm.trans continuation) Bool.false_ne_true

lemma continues_bracket {s : String} (hs : s ∈ ["(", ")", "[", "]", ","]) (c : Char) :
    continues s c = false := by
  have all : ∀ s ∈ ["(", ")", "[", "]", ","], ∀ t ∈ symbols, s.toList.isPrefixOf t.toList →
      t = s := by decide +kernel
  rw [continues, List.any_eq_false]
  intro t ht hprefix
  obtain ⟨more, hmore⟩ := List.isPrefixOf_iff_prefix.mp hprefix
  have same := all s hs t ht (List.isPrefixOf_iff_prefix.mpr ⟨c :: more, by simp [← hmore]⟩)
  have length := congrArg List.length hmore
  simp [same] at length

lemma find?_symbol {s : String} (hs : s ∈ symbols) {rest : List Char}
    (stop : ∀ c ∈ rest.head?, continues s c = false) :
    (symbols.find? fun t => t.toList.isPrefixOf (s.toList ++ rest)) = some s := by
  have shorter : symbols.Pairwise fun t s => ¬ t.toList.isPrefixOf s.toList := by decide +kernel
  obtain ⟨before, behind, hsymbols⟩ := List.append_of_mem hs
  refine List.find?_eq_some_iff_append.mpr ⟨by simp, before, behind, hsymbols, fun t ht => ?_⟩
  have smaller : ¬ t.toList.isPrefixOf s.toList := by
    rw [hsymbols] at shorter
    exact (List.pairwise_append.mp shorter).2.2 t ht s (by simp)
  by_contra found
  simp only [Bool.not_eq_true', Bool.not_eq_false, List.isPrefixOf_iff_prefix] at found smaller
  -- The other symbol does not end within this one, so it takes the character behind it.
  obtain inside | ⟨more, hmore⟩ :=
    List.prefix_or_prefix_of_prefix found (List.prefix_append s.toList rest)
  · exact smaller inside
  · rw [← hmore, List.prefix_append_right_inj] at found
    obtain ⟨later, rfl⟩ := found
    cases more with
    | nil =>
      rw [List.append_nil] at hmore
      exact smaller (hmore ▸ List.prefix_refl _)
    | cons c more =>
      have member : t ∈ symbols := hsymbols ▸ List.mem_append_left _ ht
      have goes : continues s c = true := List.any_eq_true.mpr ⟨t, member,
        List.isPrefixOf_iff_prefix.mpr ⟨more, by simp [← hmore]⟩⟩
      rw [stop c rfl] at goes
      cases goes

/-- The characters with which neither blanks and comments begin nor words, numbers and quotations. -/
def opensSymbol (c : Char) : Bool :=
  !Text.isBlank c && c != '%' && !Text.isDecimalDigit c && !(c.isUpper || c = '_') && !c.isLower &&
    c != '\'' && c != '"'

lemma opensSymbol_of_mem {s : String} (hs : s ∈ symbols) {c : Char} {cs : List Char}
    (hcs : s.toList = c :: cs) : opensSymbol c = true := by
  have all : ∀ s ∈ symbols, s.toList.head?.all opensSymbol = true := by decide +kernel
  have opens := all s hs
  rwa [hcs] at opens

lemma first?_symbol {s : String} (hs : s ∈ symbols) {rest : List Char}
    (stop : ∀ c ∈ rest.head?, continues s c = false) :
    first? (s.toList ++ rest) = some ⟨.symbol, s.toList⟩ := by
  have found := find?_symbol hs stop
  have nonempty : ∀ s ∈ symbols, s.toList ≠ [] := by decide +kernel
  obtain ⟨c, cs, hcs⟩ := List.exists_cons_of_ne_nil (nonempty s hs)
  have opens := opensSymbol_of_mem hs hcs
  simp only [opensSymbol, Bool.and_eq_true, Bool.not_eq_true', bne_iff_ne] at opens
  obtain ⟨⟨⟨⟨⟨⟨visible, uncommented⟩, digit⟩, capital⟩, lower⟩, unquoted⟩, unquoted'⟩ := opens
  rw [hcs, List.cons_append] at found ⊢
  simp only [first?, visible, uncommented, digit, capital, lower, unquoted, unquoted', found]
  rw [Option.map_some, hcs]
  rfl

/-- The ways in which a character is written inside quotes. -/
inductive IsWritten (quote : Char) : Char → List Char → Prop
  | plain {c : Char} (unquoted : c ≠ quote) (unescaped : c ≠ '\\') : IsWritten quote c [c]
  | escaped {c d : Char} (hd : d ≠ '\n')
      (meaning : ∀ cs, Text.unescape ('\\' :: d :: cs) = c :: Text.unescape cs) :
      IsWritten quote c ['\\', d]

section Quoted
variable {quote : Char} {write : Char → List Char} {cs : List Char}

lemma quotedBody_write (h : ∀ c ∈ cs, IsWritten quote c (write c)) (hq : quote ≠ '\\')
    (rest : List Char) :
    quotedBody quote (cs.flatMap write ++ quote :: rest) = some (cs.flatMap write ++ [quote]) := by
  induction cs with
  | nil =>
    cases rest <;> simp [quotedBody, hq]
  | cons c cs ih =>
    obtain ⟨hc, hcs⟩ := List.forall_mem_cons.mp h
    have ih := ih hcs
    rw [List.flatMap_cons]
    generalize write c = w at hc
    cases hc with
    | plain unquoted unescaped =>
      have step : quotedBody quote (c :: (cs.flatMap write ++ quote :: rest)) =
          (quotedBody quote (cs.flatMap write ++ quote :: rest)).map (c :: ·) := by
        rw [quotedBody]
        · simp [unquoted, unescaped]
        · simp [unescaped]
      rw [List.cons_append, List.cons_append, List.nil_append, step, ih]
      rfl
    | escaped hd meaning =>
      simp only [List.cons_append, List.nil_append]
      rw [quotedBody, if_neg hd, ih]
      rfl

lemma unescape_write (h : ∀ c ∈ cs, IsWritten quote c (write c)) :
    Text.unescape (cs.flatMap write) = cs := by
  induction cs with
  | nil => rfl
  | cons c cs ih =>
    obtain ⟨hc, hcs⟩ := List.forall_mem_cons.mp h
    have ih := ih hcs
    rw [List.flatMap_cons]
    generalize write c = w at hc
    cases hc with
    | plain unquoted unescaped =>
      have step : Text.unescape (c :: cs.flatMap write) = c :: Text.unescape (cs.flatMap write) := by
        rw [Text.unescape] <;> simp [unescaped]
      rw [List.cons_append, List.nil_append, step, ih]
    | escaped hd meaning => rw [List.cons_append, List.cons_append, List.nil_append, meaning, ih]

end Quoted

/-- A character that a string shows or writes with a letter of its own: printable ASCII, a line feed or
a tab. -/
def isWritable (c : Char) : Bool :=
  (0x20 ≤ c.toNat && c.toNat < 0x7F) || c = '\n' || c = '\t'

lemma isWritten_escapeChar {c : Char} (h : isWritable c = true) :
    IsWritten '"' c (Text.escapeChar c) := by
  unfold Text.escapeChar
  split
  · exact .escaped (by decide) fun cs => by simp [Text.unescape]
  · exact .escaped (by decide) fun cs => by simp [Text.unescape]
  · exact .escaped (by decide) fun cs => by simp [Text.unescape]
  · cases h
  · exact .escaped (by decide) fun cs => by simp [Text.unescape]
  · cases h
  · next quote backslash feed _ tab _ =>
    have printable : 0x20 ≤ c.toNat ∧ c.toNat < 0x7F := by
      simp only [isWritable, Bool.or_eq_true, Bool.and_eq_true, decide_eq_true_eq] at h
      exact h.resolve_right tab |>.resolve_right feed
    rw [if_pos (Text.isVisible_of_ascii printable.1 printable.2)]
    exact .plain quote backslash

lemma isWritten_atom {c : Char} (h : c ≠ '\\') :
    IsWritten '\'' c (if c = '\'' then ['\\', '\''] else [c]) := by
  split
  · next quote =>
    subst quote
    exact .escaped (by decide) fun cs => by simp [Text.unescape]
  · next unquoted => exact .plain unquoted h

lemma le_ofDigitChars (ds : List Char) (n : Nat) : n ≤ Nat.ofDigitChars 10 ds n := by
  induction ds generalizing n with
  | nil => exact Nat.le_refl n
  | cons d ds ih =>
    rw [Nat.ofDigitChars_cons]
    exact Nat.le_trans (by omega) (ih _)

lemma readDigits_eq {limit n : Nat} {ds : List Char} (h : ∀ d ∈ ds, d.isDigit = true)
    (fits : Nat.ofDigitChars 10 ds n ≤ limit) :
    Numeral.readDigits limit n ds = .ok (Nat.ofDigitChars 10 ds n) := by
  induction ds generalizing n with
  | nil => rfl
  | cons d ds ih =>
    obtain ⟨hd, hds⟩ := List.forall_mem_cons.mp h
    have step : Nat.ofDigitChars 10 (d :: ds) n =
        Nat.ofDigitChars 10 ds (10 * n + Numeral.digitValue d) := Nat.ofDigitChars_cons
    rw [step] at fits ⊢
    have below : 10 * n + Numeral.digitValue d ≤ limit := Nat.le_trans (le_ofDigitChars ds _) fits
    rw [Numeral.readDigits, hd]
    simp only [Bool.not_true, Bool.false_eq_true, if_false, if_neg (Nat.not_lt.mpr below)]
    exact ih hds fits

lemma readInteger_repr {n : Nat} (h : n ≤ Int64.maxValue.toInt.toNat) :
    Numeral.readInteger n.repr.toList = .ok (.ofNat n) := by
  have digits : ∀ d ∈ n.repr.toList, d.isDigit = true := fun _ => isDigit_of_mem_repr
  have value : Nat.ofDigitChars 10 n.repr.toList 0 = n := by
    rw [Nat.toList_repr]
    exact Nat.ofDigitChars_toDigits (by decide) (by decide)
  rw [Numeral.readInteger, readDigits_eq digits (by rwa [value]), value]
  rfl

end Lexeme

namespace Cuts
open Lexeme
variable {s : String} {rest : List Char} {ts : List Token}

lemma token (kind : LexemeClass) {text : List Char} {t : Token}
    (first : first? (text ++ rest) = some ⟨kind, text⟩) (nonempty : text ≠ [])
    (reads : ∀ line, (⟨kind, text⟩ : Lexeme).token? line = .ok (some t)) (later : Cuts rest ts) :
    Cuts (text ++ rest) (t :: ts) :=
  .cons first nonempty reads later

lemma blank {c : Char} (hc : Text.isBlank c = true)
    (stop : ∀ d ∈ rest.head?, Text.isBlank d = false) (later : Cuts rest ts) :
    Cuts (c :: rest) ts := by
  have first : first? (c :: rest) = some ⟨.blank, [c]⟩ := by
    have all : ([c] ++ rest).takeWhile Text.isBlank = [c] :=
      takeWhile_append_eq (List.forall_mem_singleton.mpr hc) stop
    rw [first?, if_pos hc, ← List.singleton_append, all]
  exact @Cuts.cons ⟨.blank, [c]⟩ none rest ts first (List.cons_ne_nil _ _) (fun _ => rfl) later

lemma comment {cs : List Char} (h : '\n' ∉ cs) (stop : ∀ c ∈ rest.head?, Text.isBlank c = false)
    (later : Cuts rest ts) : Cuts ('%' :: (cs ++ '\n' :: rest)) ts := by
  have first : first? ('%' :: cs ++ '\n' :: rest) = some ⟨.comment, '%' :: cs⟩ := by
    have all : ('%' :: cs ++ '\n' :: rest).takeWhile (· != '\n') = '%' :: cs := by
      refine takeWhile_append_eq (fun c hc => ?_) (by simp)
      obtain rfl | hc := List.mem_cons.mp hc
      · rfl
      · exact bne_iff_ne.mpr fun feed => h (feed ▸ hc)
    rw [List.cons_append] at all ⊢
    rw [first?, if_neg (by decide), if_pos rfl, all]
  exact @Cuts.cons ⟨.comment, '%' :: cs⟩ none ('\n' :: rest) ts first (List.cons_ne_nil _ _)
    (fun _ => rfl) (blank (by decide) stop later)

lemma symbol (hs : s ∈ symbols) (stop : ∀ c ∈ rest.head?, continues s c = false)
    (later : Cuts rest ts) : Cuts (s.toList ++ rest) (.symbol s :: ts) := by
  have nonempty : ∀ s ∈ symbols, s.toList ≠ [] := by decide +kernel
  exact token _ (first?_symbol hs stop) (nonempty s hs) (fun _ => by simp [Lexeme.token?]) later

lemma name (h : Text.isPlainName s = true) (ends : Ends rest) (later : Cuts rest ts) :
    Cuts (s.toList ++ rest) (.name s :: ts) := by
  refine token _ (first?_name h ends) ?_ (fun _ => by simp [Lexeme.token?]) later
  intro empty
  simp [Text.isPlainName, empty] at h

lemma var (h : isVariableName s = true) (ends : Ends rest) (later : Cuts rest ts) :
    Cuts (s.toList ++ rest) (.var s :: ts) := by
  refine token _ (first?_variable h ends) ?_ (fun _ => by simp [Lexeme.token?]) later
  intro empty
  simp [isVariableName, empty] at h

lemma int {n : Nat} (h : n ≤ Int64.maxValue.toInt.toNat) (ends : Ends rest)
    (later : Cuts rest ts) : Cuts (n.repr.toList ++ rest) (.int (.ofNat n) :: ts) := by
  have digits : ∀ d ∈ n.repr.toList, d.isDigit = true := fun _ => isDigit_of_mem_repr
  have nonempty : n.repr.toList ≠ [] := Nat.toList_repr ▸ Nat.toDigits_ne_nil
  exact token _ (first?_digits nonempty digits ends) nonempty
    (fun _ => by simp only [Lexeme.token?, readInteger_repr h]) later

lemma inside_quotes (kind : LexemeClass) (quote : Char) (cs : List Char) :
    (⟨kind, quote :: (cs ++ [quote])⟩ : Lexeme).inside = cs := by
  simp [Lexeme.inside]

lemma quoted (h : '\\' ∉ s.toList) (later : Cuts rest ts) :
    Cuts ((Text.quoteAtom s).toList ++ rest) (.quoted s :: ts) := by
  have written : ∀ c ∈ s.toList, IsWritten '\'' c (if c = '\'' then ['\\', '\''] else [c]) :=
    fun c hc => isWritten_atom fun heq => h (heq ▸ hc)
  rw [Text.quoteAtom, String.toList_ofList]
  refine token .quoted ?_ (List.cons_ne_nil _ _) (fun _ => ?_) later
  · have body := quotedBody_write written (by decide) rest
    simp only [List.cons_append, List.append_assoc, List.nil_append]
    rw [first?, if_neg (by decide), if_neg (by decide), if_neg (by decide), if_neg (by decide),
      if_neg (by decide), if_pos rfl, body]
    rfl
  · simp [Lexeme.token?, inside_quotes, unescape_write written]

lemma str (h : ∀ c ∈ s.toList, isWritable c = true) (later : Cuts rest ts) :
    Cuts ((Text.quoteString s).toList ++ rest) (.str s :: ts) := by
  have written : ∀ c ∈ s.toList, IsWritten '"' c (Text.escapeChar c) :=
    fun c hc => isWritten_escapeChar (h c hc)
  rw [Text.quoteString, String.toList_ofList]
  refine token .str ?_ (List.cons_ne_nil _ _) (fun _ => ?_) later
  · have body := quotedBody_write written (by decide) rest
    simp only [List.cons_append, List.append_assoc, List.nil_append]
    rw [first?, if_neg (by decide), if_neg (by decide), if_neg (by decide), if_neg (by decide),
      if_neg (by decide), if_neg (by decide), if_pos rfl, body]
    rfl
  · simp [Lexeme.token?, inside_quotes, unescape_write written]

end Cuts
end ConstraintHandling
