import ConstraintHandling.Program.Basic
import ConstraintHandling.Proofs.Program.Completeness
import ConstraintHandling.Proofs.Program.Lexing
import ConstraintHandling.Term.Printer

/-! How a term is spelled. The text of a term is cut into tokens that derive the term, operators
written without blanks included; only its variables change, which are named by their texts. -/
namespace ConstraintHandling
open Lexeme

/-- The variable of source text that is named by the text of this one. -/
def Variable.asRead (v : Variable) : Variable :=
  ⟨v.text, 0⟩

namespace Term

def asRead (t : Term) : Term :=
  t.mapVariables fun v => .var v.asRead

/-- Names that are read back as names: not those of the booleans, and none with a backslash, which atoms do
not escape. -/
def isReadableName (s : String) : Bool :=
  s != "true" && s != "false" && !s.toList.contains '\\'

def beginsWithDigit (t : Term) : Bool :=
  t.text.toList.head?.any Char.isDigit

/-- A part of the terms that are read back: there are no floats among them, strings are printable ASCII
with newlines and tabs, and a minus sign, behind which digits would be read as a part of a negative
number, stands before nothing that begins with a digit, not even in parentheses. -/
inductive IsReadable : Term → Prop
  | var {v : Variable} (name : isVariableName v.name = true) (named : v.text ≠ "_") :
    IsReadable (.var v)
  | int {i : Int64} (h : i ≠ Int64.minValue) : IsReadable (.int i)
  | bool (b : Bool) : IsReadable (.bool b)
  | str {s : String} (h : ∀ c ∈ s.toList, isWritable c = true) : IsReadable (.str s)
  | atom {a : String} (h : isReadableName a = true) : IsReadable (.atom a)
  | list {items : List Term} (below : ∀ t ∈ items, IsReadable t) : IsReadable (.list items)
  | ordinary {f : String} {args : List Term} (h : isReadableName f = true)
    (below : ∀ t ∈ args, IsReadable t) : IsReadable (.compound f args 0)
  | unary {op : Operator} {t : Term} (hop : op ∈ Operator.unaryTable) (below : IsReadable t)
    (unsigned : op.name = "-" → t.beginsWithDigit = false) :
    IsReadable (.compound op.name [t] op.priority)
  | binary {op : Operator} {s t : Term} (hop : op ∈ Operator.binaryTable) (left : IsReadable s)
    (right : IsReadable t) : IsReadable (.compound op.name [s, t] op.priority)

end Term

/-- The text begins with a character that neither is blank nor continues a symbol. -/
def Opens (cs : List Char) : Prop :=
  ∃ c ∈ cs.head?, Text.isBlank c = false ∧ isContinuation c = false

lemma Opens.append {cs : List Char} (h : Opens cs) (rest : List Char) : Opens (cs ++ rest) := by
  obtain ⟨c, hc, opens⟩ := h
  exact ⟨c, by simp [List.head?_append, Option.mem_def.mp hc], opens⟩

lemma Opens.unblank {cs : List Char} (h : Opens cs) : ∀ c ∈ cs.head?, Text.isBlank c = false := by
  obtain ⟨c, hc, blank, -⟩ := h
  intro d hd
  rwa [Option.mem_unique hd hc]

lemma Opens.uncontinued {cs : List Char} (h : Opens cs) {s : String} (hs : s ∈ symbols) :
    ∀ c ∈ cs.head?, continues s c = false := by
  obtain ⟨c, hc, -, other⟩ := h
  intro d hd
  rw [Option.mem_unique hd hc]
  exact continues_eq_false hs other

/-- The text is cut into the tokens wherever it ends. -/
def IsCut (cs : List Char) (ts : List Token) : Prop :=
  ∀ (rest : List Char) (us : List Token), Ends rest → Cuts rest us → Cuts (cs ++ rest) (ts ++ us)

/-- The text spells the tokens. The first of them is a number only where the text begins with a
digit. -/
structure Spells (cs : List Char) (ts : List Token) : Prop where
  cuts : IsCut cs ts
  opens : Opens cs
  unsigned : cs.head?.any Char.isDigit = false → ts.head?.bind Token.negated? = none

/-- What stands between two terms: it ends the one before it and is cut off in front of the other. -/
structure Links (cs : List Char) (a : Token) : Prop where
  cuts : ∀ {rest : List Char} {us : List Token}, Opens rest → Cuts rest us →
    Cuts (cs ++ rest) (a :: us)
  ends : ∀ rest, Ends (cs ++ rest)
  unsigned : a.negated? = none

/-- The text spells a term of at most the given priority. -/
def Writes (cs : List Char) (t : Term) (maximum : Nat) : Prop :=
  ∃ ts p, p ≤ maximum ∧ Spells cs ts ∧ Derives ts (.term t p)

/-- A character that ends every name and every numeral. -/
def isSeparator (c : Char) : Bool :=
  !isNameChar c && !Text.isDecimalDigit c && c != '.'

lemma ends_cons {c : Char} (h : isSeparator c = true) {cs : List Char} : Ends (c :: cs) := by
  simp only [isSeparator, Bool.and_eq_true, Bool.not_eq_true', bne_iff_ne] at h
  exact ⟨h.1.1, h.1.2, fun point => absurd point h.2⟩

lemma opens_of_isNameChar {c : Char} (h : isNameChar c = true) (cs : List Char) :
    Opens (c :: cs) := by
  have all : ∀ n < 128, isNameChar (Char.ofNat n) = true →
      Text.isBlank (Char.ofNat n) = false ∧ isContinuation (Char.ofNat n) = false := by
    decide +kernel
  have hc := all c.toNat (ascii_of_isNameChar h)
  rw [Char.ofNat_toNat] at hc
  exact ⟨c, rfl, hc h⟩

lemma Operator.isAlphabetic_eq (op : Operator) :
    op.isAlphabetic = op.name.toList.all Char.isAlpha :=
  String.all_bool_eq

section Spelling
variable {cs ds sep : List Char} {ts us : List Token} {a : Token} {s : String}

lemma Spells.link (left : Spells cs ts) (between : Links sep a) (right : Spells ds us) :
    Spells (cs ++ sep ++ ds) (ts ++ a :: us) where
  cuts rest us ends later := by
    simp only [List.append_assoc, List.cons_append]
    exact left.cuts _ _ (between.ends _)
      (between.cuts (right.opens.append _) (right.cuts rest us ends later))
  opens := (left.opens.append _).append _
  unsigned h := by
    obtain ⟨c, hc, -⟩ := left.opens
    have first := left.unsigned (by simpa [List.head?_append, Option.mem_def.mp hc] using h)
    cases ts with
    | nil => simpa using between.unsigned
    | cons => exact first

lemma Spells.followed (left : Spells cs [a]) (ends : ∀ rest, Ends (ds ++ rest))
    (right : IsCut ds us) : Spells (cs ++ ds) (a :: us) where
  cuts rest vs later_ends later := by
    rw [List.append_assoc]
    exact left.cuts _ _ (ends rest) (right rest vs later_ends later)
  opens := left.opens.append _
  unsigned h := by
    obtain ⟨c, hc, -⟩ := left.opens
    exact left.unsigned (by simpa [List.head?_append, Option.mem_def.mp hc] using h)

lemma spells_name (h : Text.isPlainName s = true) : Spells s.toList [.name s] where
  cuts _ _ := Cuts.name h
  opens := by
    rw [Text.isPlainName] at h
    split at h
    · cases h
    · next c cs hs =>
      rw [hs]
      exact opens_of_isNameChar (lead_of_isLower (Bool.and_eq_true_iff.mp h).1).1 cs
  unsigned _ := rfl

lemma spells_atomText (h : Term.isReadableName s = true) :
    ∃ a, a.functor? = some s ∧ Spells (Text.atomText s).toList [a] := by
  simp only [Term.isReadableName, Bool.and_eq_true, bne_iff_ne, Bool.not_eq_true',
    List.contains_eq_mem, decide_eq_false_iff_not] at h
  obtain ⟨⟨notTrue, notFalse⟩, unescaped⟩ := h
  unfold Text.atomText
  split
  · next plain =>
    exact ⟨.name s, by simp [Token.functor?, notTrue, notFalse], spells_name plain⟩
  · refine ⟨.quoted s, rfl, fun _ _ _ => Cuts.quoted unescaped, ⟨'\'', ?_, by decide⟩,
      fun _ => rfl⟩
    rw [Text.quoteAtom, String.toList_ofList]
    rfl

lemma spells_var (h : isVariableName s = true) : Spells s.toList [.var s] where
  cuts _ _ := Cuts.var h
  opens := by
    rw [isVariableName] at h
    split at h
    · cases h
    · next c cs hs =>
      rw [hs]
      exact opens_of_isNameChar (lead_of_capital (Bool.and_eq_true_iff.mp h).1).1 cs
  unsigned _ := rfl

lemma spells_quoteString (h : ∀ c ∈ s.toList, isWritable c = true) :
    Spells (Text.quoteString s).toList [.str s] where
  cuts _ _ _ := Cuts.str h
  opens := by
    refine ⟨'"', ?_, by decide⟩
    rw [Text.quoteString, String.toList_ofList]
    rfl
  unsigned _ := rfl

lemma digits_repr (n : Nat) : ∃ c cs, n.repr.toList = c :: cs ∧ c.isDigit = true := by
  have nonempty : n.repr.toList ≠ [] := Nat.toList_repr ▸ Nat.toDigits_ne_nil
  obtain ⟨c, cs, hcs⟩ := List.exists_cons_of_ne_nil nonempty
  exact ⟨c, cs, hcs, isDigit_of_mem_repr (hcs ▸ List.mem_cons_self)⟩

lemma spells_repr {n : Nat} (h : n ≤ Int64.maxValue.toInt.toNat) :
    Spells n.repr.toList [.int (.ofNat n)] where
  cuts _ _ := Cuts.int h
  opens := by
    obtain ⟨c, cs, hcs, hc⟩ := digits_repr n
    rw [hcs]
    exact opens_of_isNameChar (isNameChar_of_isDigit hc) cs
  unsigned h := by
    obtain ⟨c, cs, hcs, hc⟩ := digits_repr n
    simp [hcs, hc] at h

lemma Spells.sign {name : String} (hname : name ∈ ["-", "!"]) (below : Spells cs ts) :
    Spells (name.toList ++ cs) (.symbol name :: ts) where
  cuts rest us ends later := by
    have known : ∀ s ∈ ["-", "!"], s ∈ symbols := by decide
    rw [List.append_assoc]
    exact Cuts.symbol (known _ hname) ((below.opens.append _).uncontinued (known _ hname))
      (below.cuts rest us ends later)
  opens := by
    have all : ∀ s ∈ ["-", "!"], Opens s.toList := by
      simp only [List.forall_mem_cons]
      exact ⟨⟨'-', rfl, by decide⟩, ⟨'!', rfl, by decide⟩, by simp⟩
    exact (all _ hname).append _
  unsigned _ := rfl

lemma IsCut.enclose (before behind : String) (hbefore : before ∈ ["(", "["])
    (hbehind : behind ∈ [")", "]"]) (inside : IsCut cs ts) :
    IsCut (before.toList ++ cs ++ behind.toList) (.symbol before :: (ts ++ [.symbol behind])) := by
  intro rest us _ later
  have known : ∀ s ∈ ["(", "["], s ∈ symbols ∧ s ∈ ["(", ")", "[", "]", ","] := by decide
  have known' : ∀ s ∈ [")", "]"], s ∈ symbols ∧ s ∈ ["(", ")", "[", "]", ","] := by decide
  have ends : Ends (behind.toList ++ rest) := by
    have all : ∀ s ∈ [")", "]"], ∀ rest, Ends (s.toList ++ rest) := by
      simp only [List.forall_mem_cons]
      exact ⟨fun _ => ends_cons (by decide), fun _ => ends_cons (by decide), by simp⟩
    exact all _ hbehind _
  have closed := Cuts.symbol (known' _ hbehind).1
    (fun c _ => continues_bracket (known' _ hbehind).2 c) later
  have opened := Cuts.symbol (known _ hbefore).1
    (fun c _ => continues_bracket (known _ hbefore).2 c) (inside _ _ ends closed)
  simpa using opened

lemma links_comma : Links ",".toList (.symbol ",") where
  cuts _ later := Cuts.symbol (s := ",") (by decide)
    (fun c _ => continues_bracket (by decide) c) later
  ends _ := ends_cons (by decide)
  unsigned := rfl

lemma links_operator {op : Operator} (hop : op ∈ Operator.binaryTable) :
    ∃ a, a.operator? = some op ∧
      Links (if op.isAlphabetic then " " ++ op.name ++ " " else op.name).toList a := by
  have known : Operator.binary? op.name = some op := by
    have all : ∀ op ∈ Operator.binaryTable, Operator.binary? op.name = some op := by decide
    exact all op hop
  rw [Operator.isAlphabetic_eq]
  split
  · next alphabetic =>
    have all : ∀ op ∈ Operator.binaryTable, op.name.toList.all Char.isAlpha = true →
        Text.isPlainName op.name = true := by decide +kernel
    have plain := all op hop alphabetic
    refine ⟨.name op.name, known, ⟨fun opens later => ?_, fun _ => ?_, rfl⟩⟩
    · have behind := Cuts.blank (c := ' ') rfl opens.unblank later
      have word := Cuts.name plain (ends_cons (by decide)) behind
      simpa using Cuts.blank (c := ' ') rfl ((spells_name plain).opens.append _).unblank word
    · simpa using ends_cons (c := ' ') (by decide)
  · next symbolic =>
    have all : ∀ op ∈ Operator.binaryTable, ¬ op.name.toList.all Char.isAlpha = true →
        op.name ∈ symbols ∧ op.name.toList ≠ [] ∧ op.name.toList.head?.all isSeparator = true := by
      decide +kernel
    obtain ⟨symbol, nonempty, ends⟩ := all op hop symbolic
    refine ⟨.symbol op.name, known, ⟨fun opens later => ?_, fun rest => ?_, rfl⟩⟩
    · exact Cuts.symbol symbol (opens.uncontinued symbol) later
    · obtain ⟨c, cs, hcs⟩ := List.exists_cons_of_ne_nil nonempty
      rw [hcs] at ends ⊢
      exact ends_cons ends

lemma writes_int {i : Int64} (h : i ≠ Int64.minValue) (maximum : Nat) :
    Writes (Int.repr i.toInt).toList (.int i) maximum := by
  have low : -9223372036854775808 ≤ i.toInt := Int64.le_toInt i
  have high : i.toInt < 9223372036854775808 := Int64.toInt_lt i
  have limit : Int64.maxValue.toInt.toNat = 9223372036854775807 := rfl
  have same : Int64.ofInt i.toInt = i := Int64.ofInt_toInt i
  have above : i.toInt ≠ -9223372036854775808 := fun heq => h (Int64.toInt_inj.mp heq)
  cases hn : i.toInt with
  | ofNat n =>
    rw [hn] at same high
    have fits : n ≤ Int64.maxValue.toInt.toNat := Int.ofNat_le.mp (Int.lt_add_one_iff.mp high)
    have value : (Token.int (.ofNat n)).literal? = some (.int i) := by rw [← same]; rfl
    exact ⟨_, 0, Nat.zero_le _, spells_repr fits, .literal value⟩
  | negSucc n =>
    rw [hn] at same low above
    have fits : n + 1 ≤ Int64.maxValue.toInt.toNat := by rw [limit]; omega
    have negated : -Int64.ofNat (n + 1) = i := by
      rw [← same, Int.negSucc_eq, Int64.ofInt_neg]
      rfl
    have value : (Token.int (.ofNat (n + 1))).negated? = some (.int i) := by
      rw [← negated]
      rfl
    have written : (Int.repr (Int.negSucc n)).toList = "-".toList ++ (n + 1).repr.toList :=
      String.toList_append
    rw [written]
    exact ⟨_, 0, Nat.zero_le _, .sign (by simp) (spells_repr fits), .negative value⟩

end Spelling

namespace Term

lemma textEach_replicate (m : Nat) (ts : List Term) :
    textEach (List.replicate ts.length m) ts = ts.map (textWithin m) := by
  induction ts with
  | nil => rfl
  | cons t ts ih => simp [List.replicate_succ, textEach, ih]

end Term

lemma spells_terms {ts : List Term} {sep : String} {maximum : Nat}
    (links : Links sep.toList (.symbol ",")) (fits : maximum ≤ Cursor.termMaximum)
    (nonempty : ts ≠ [])
    (h : ∀ t ∈ ts, Writes (t.textWithin maximum).toList t.asRead maximum) :
    ∃ us, Spells (String.intercalate sep (ts.map (Term.textWithin maximum))).toList us ∧
      Derives us (.terms (ts.map Term.asRead)) := by
  induction ts with
  | nil => exact absurd rfl nonempty
  | cons t ts ih =>
    obtain ⟨ht, hts⟩ := List.forall_mem_cons.mp h
    obtain ⟨us, p, hp, spells, derives⟩ := ht
    have hp : p ≤ Cursor.termMaximum := Nat.le_trans hp fits
    cases ts with
    | nil => exact ⟨us, by simpa using spells, .last derives hp⟩
    | cons u ts =>
      obtain ⟨vs, later, derives'⟩ := ih (List.cons_ne_nil u ts) hts
      refine ⟨us ++ .symbol "," :: vs, ?_, .more derives hp derives'⟩
      have linked := spells.link links later
      simpa using linked

lemma cuts_sequence {ts : List Term}
    (h : ∀ t ∈ ts, Writes (t.textWithin Term.elementMaximum).toList t.asRead Term.elementMaximum) :
    ∃ us, IsCut (String.intercalate "," (ts.map (Term.textWithin Term.elementMaximum))).toList us ∧
      Derives us (.sequence (ts.map Term.asRead)) := by
  cases ts with
  | nil => exact ⟨[], fun _ _ _ later => later, .none⟩
  | cons t ts =>
    obtain ⟨us, spells, derives⟩ := spells_terms links_comma (by decide) (List.cons_ne_nil t ts) h
    exact ⟨us, spells.cuts, .some derives⟩

namespace Operator

lemma ofCompound?_unary {op : Operator} (hop : op ∈ unaryTable) :
    ofCompound? op.name 1 op.priority = some op ∧ unary? op.name = some op ∧
      op.operandMaxima = [op.argumentMaxima.2] ∧ op.name ∈ ["-", "!"] := by
  have all : ∀ op ∈ unaryTable, ofCompound? op.name 1 op.priority = some op ∧
      unary? op.name = some op ∧ op.operandMaxima = [op.argumentMaxima.2] ∧
      op.name ∈ ["-", "!"] := by decide
  exact all op hop

lemma ofCompound?_binary {op : Operator} (hop : op ∈ binaryTable) :
    ofCompound? op.name 2 op.priority = some op ∧
      op.operandMaxima = [op.argumentMaxima.1, op.argumentMaxima.2] := by
  have all : ∀ op ∈ binaryTable, ofCompound? op.name 2 op.priority = some op ∧
      op.operandMaxima = [op.argumentMaxima.1, op.argumentMaxima.2] := by decide
  exact all op hop

lemma priority_le_termMaximum {op : Operator} (hop : op ∈ binaryTable ++ unaryTable) :
    op.priority ≤ Cursor.termMaximum := by
  have all : ∀ op ∈ binaryTable ++ unaryTable, op.priority ≤ Cursor.termMaximum := by decide
  exact all op hop

lemma mem_of_ofCompound? {f : String} {arity p : Nat} {op : Operator}
    (h : ofCompound? f arity p = some op) : op ∈ binaryTable ++ unaryTable ∧ op.priority = p := by
  obtain ⟨hentry, hp⟩ := Option.filter_eq_some_iff.mp h
  refine ⟨?_, beq_iff_eq.mp hp⟩
  split at hentry
  · exact List.mem_append_right _ (mem_unaryTable_of_unary? hentry).1
  · exact List.mem_append_left _ (mem_binaryTable_of_binary? hentry).1
  · cases hentry

lemma ofCompound?_zero (f : String) (arity : Nat) : ofCompound? f arity 0 = none := by
  have all : ∀ op ∈ binaryTable ++ unaryTable, op.priority ≠ 0 := by decide
  refine Option.eq_none_iff_forall_ne_some.mpr fun op hop => ?_
  obtain ⟨member, hp⟩ := mem_of_ofCompound? hop
  exact all op member hp

end Operator

namespace Term

@[simp] lemma asRead_compound (f : String) (args : List Term) (p : Nat) :
    (Term.compound f args p).asRead = .compound f (args.map asRead) p := by
  rw [asRead, mapVariables, mapVariablesAll_eq]
  rfl

@[simp] lemma asRead_list (items : List Term) :
    (Term.list items).asRead = .list (items.map asRead) := by
  rw [asRead, mapVariables, mapVariablesAll_eq]
  rfl

lemma textWithin_operator {f : String} {args : List Term} {p : Nat} {op : Operator}
    (h : Operator.ofCompound? f args.length p = some op) (maximum : Nat) :
    (compound f args p).textWithin maximum =
      if maximum < op.priority then "(" ++ op.layout (textEach op.operandMaxima args) ++ ")"
      else op.layout (textEach op.operandMaxima args) := by
  rw [textWithin, h]

lemma textWithin_ordinary {f : String} {args : List Term} {p : Nat}
    (h : Operator.ofCompound? f args.length p = none) (maximum : Nat) :
    (compound f args p).textWithin maximum = Text.atomText f ++ "(" ++
      String.intercalate "," (args.map (textWithin elementMaximum)) ++ ")" := by
  rw [textWithin, h, textEach_replicate]

lemma unsigned_textWithin {t : Term} (h : t.beginsWithDigit = false) (maximum : Nat) :
    (t.textWithin maximum).toList.head?.any Char.isDigit = false := by
  rw [beginsWithDigit, text] at h
  cases t with
  | compound f args p =>
    cases hop : Operator.ofCompound? f args.length p with
    | some op =>
      have small : ¬ topMaximum < op.priority :=
        Nat.not_lt.mpr (Operator.priority_le_termMaximum (Operator.mem_of_ofCompound? hop).1)
      rw [textWithin_operator hop, if_neg small] at h
      rw [textWithin_operator hop]
      split
      · simp
      · exact h
    | none =>
      rw [textWithin_ordinary hop] at h ⊢
      exact h
  | _ => simpa only [textWithin] using h

end Term

lemma isVariableName_text {v : Variable} (h : isVariableName v.name = true) :
    isVariableName v.text = true := by
  unfold Variable.text
  split
  · exact h
  · have digits : ∀ d ∈ (Nat.repr v.scope).toList, isNameChar d = true := fun _ =>
      isNameChar_of_isDigit ∘ isDigit_of_mem_repr
    unfold isVariableName at h ⊢
    split at h
    · cases h
    · next c cs hname =>
      obtain ⟨hc, hcs⟩ := Bool.and_eq_true_iff.mp h
      have hall : (cs ++ '_' :: (Nat.repr v.scope).toList).all isNameChar = true := by
        rw [List.all_append, hcs, List.all_cons]
        exact List.all_eq_true.mpr digits
      have written : (v.name ++ "_" ++ Nat.repr v.scope).toList =
          c :: (cs ++ '_' :: (Nat.repr v.scope).toList) := by
        simp [hname]
      rw [written]
      exact Bool.and_eq_true_iff.mpr ⟨hc, hall⟩

lemma writes_within {body : String} {ts : List Token} {t : Term} {p : Nat}
    (spells : Spells body.toList ts) (derives : Derives ts (.term t p))
    (hp : p ≤ Cursor.termMaximum) (maximum : Nat) :
    Writes (if maximum < p then "(" ++ body ++ ")" else body).toList t maximum := by
  split
  · have inside := IsCut.enclose "(" ")" (by simp) (by simp) spells.cuts
    rw [String.toList_append, String.toList_append]
    exact ⟨_, 0, Nat.zero_le _, ⟨inside, ⟨'(', rfl, by decide⟩, fun _ => rfl⟩,
      .parentheses derives hp⟩
  · next fits => exact ⟨ts, p, Nat.not_lt.mp fits, spells, derives⟩

/-- The text of a term in any place is cut into tokens that derive the term. -/
theorem Term.IsReadable.writes {t : Term} (h : t.IsReadable) (maximum : Nat) :
    Writes (t.textWithin maximum).toList t.asRead maximum := by
  induction h generalizing maximum with
  | @var v name named =>
    rw [textWithin]
    have value : (Token.var v.text).literal? = some (.var v.asRead) := if_neg named
    exact ⟨_, 0, Nat.zero_le _, spells_var (isVariableName_text name), .literal value⟩
  | int h =>
    rw [textWithin]
    exact writes_int h maximum
  | bool b =>
    rw [textWithin]
    cases b with
    | true => exact ⟨_, 0, Nat.zero_le _, spells_name (s := "true") (by decide), .literal rfl⟩
    | false => exact ⟨_, 0, Nat.zero_le _, spells_name (s := "false") (by decide), .literal rfl⟩
  | str h =>
    rw [textWithin]
    exact ⟨_, 0, Nat.zero_le _, spells_quoteString h, .literal rfl⟩
  | atom h =>
    obtain ⟨a, functor, spells⟩ := spells_atomText h
    rw [textWithin]
    exact ⟨_, 0, Nat.zero_le _, spells, .atom functor⟩
  | list _ ih =>
    obtain ⟨us, cuts, derives⟩ := cuts_sequence fun t ht => ih t ht elementMaximum
    have inside := IsCut.enclose "[" "]" (by simp) (by simp) cuts
    rw [textWithin, textEach_replicate, String.toList_append, String.toList_append, asRead_list]
    exact ⟨_, 0, Nat.zero_le _, ⟨inside, ⟨'[', rfl, by decide⟩, fun _ => rfl⟩, .list derives⟩
  | ordinary h _ ih =>
    obtain ⟨a, functor, spells⟩ := spells_atomText h
    obtain ⟨us, cuts, derives⟩ := cuts_sequence fun t ht => ih t ht elementMaximum
    have inside := IsCut.enclose "(" ")" (by simp) (by simp) cuts
    rw [textWithin_ordinary (Operator.ofCompound?_zero _ _), String.toList_append,
      String.toList_append, String.toList_append, List.append_assoc, List.append_assoc,
      ← List.append_assoc "(".toList, asRead_compound]
    exact ⟨_, 0, Nat.zero_le _, spells.followed (fun _ => ends_cons (by decide)) inside,
      .compound functor derives⟩
  | @unary op t hop _ unsigned ih =>
    obtain ⟨known, table, operands, sign⟩ := Operator.ofCompound?_unary hop
    obtain ⟨ts, p, hp, spells, derives⟩ := ih op.argumentMaxima.2
    have begins : op.name = "-" → ts.head?.bind Token.negated? = none := fun minus =>
      spells.unsigned (unsigned_textWithin (unsigned minus) _)
    rw [textWithin_operator known, operands, asRead_compound]
    have written : Spells (op.layout (textEach [op.argumentMaxima.2] [t])).toList
        (.symbol op.name :: ts) := by
      simpa [textEach, Operator.layout] using spells.sign sign
    exact writes_within written (.unary table begins derives hp)
      (Operator.priority_le_termMaximum (List.mem_append_right _ hop)) maximum
  | @binary op s t hop _ _ left right =>
    obtain ⟨known, operands⟩ := Operator.ofCompound?_binary hop
    obtain ⟨a, operator, links⟩ := links_operator hop
    obtain ⟨ts, p, hp, spells, derives⟩ := left op.argumentMaxima.1
    obtain ⟨us, q, hq, spells', derives'⟩ := right op.argumentMaxima.2
    rw [textWithin_operator known, operands, asRead_compound]
    have written : Spells (op.layout (textEach [op.argumentMaxima.1, op.argumentMaxima.2]
        [s, t])).toList (ts ++ a :: us) := by
      simpa [textEach, Operator.layout] using spells.link links spells'
    exact writes_within written (.binary operator derives hp derives' hq)
      (Operator.priority_le_termMaximum (List.mem_append_left _ hop)) maximum

end ConstraintHandling
