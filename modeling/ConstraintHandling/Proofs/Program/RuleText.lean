import ConstraintHandling.Proofs.Program.Anonymous
import ConstraintHandling.Proofs.Program.RoundTrip
import ConstraintHandling.Proofs.Program.Scanning
import ConstraintHandling.Proofs.Program.WellFormed
import ConstraintHandling.Proofs.Term.Occurrences

/-! Reading back a rule. The text of a rule whose terms need no quotes is a program of this rule alone,
provided that its name needs none either: the name is written as it is, even if quotes were around it
where the rule was read. -/
namespace ConstraintHandling
open Lexeme

structure Variable.IsWritten (v : Variable) : Prop where
  scope : v.scope = 0
  name : isVariableName v.name = true
  named : v.name ≠ "_"

lemma Variable.IsWritten.text {v : Variable} (h : v.IsWritten) : v.text = v.name :=
  if_pos h.scope

lemma Variable.IsWritten.asRead {v : Variable} (h : v.IsWritten) : v.asRead = v := by
  rw [Variable.asRead, h.text, ← h.scope]

lemma Term.asRead_eq_self {t : Term} (h : t.Within Variable.IsWritten) : t.asRead = t :=
  mapVariables_eq_self fun v hv => congrArg Term.var (h v hv).asRead

/-- A name that is written without quotes and is none of a boolean. -/
def Text.isBareName (s : String) : Bool :=
  isPlainName s && s != "true" && s != "false"

/-- The terms that are written without quotes, floats and operators in front of their arguments. -/
inductive Term.IsBare : Term → Prop
  | var (v : Variable) : IsBare (.var v)
  | int {i : Int64} (h : i ≠ Int64.minValue) : IsBare (.int i)
  | bool (b : Bool) : IsBare (.bool b)
  | atom {a : String} (h : Text.isBareName a = true) : IsBare (.atom a)
  | list {items : List Term} (below : ∀ t ∈ items, IsBare t) : IsBare (.list items)
  | ordinary {f : String} {args : List Term} (h : Text.isBareName f = true)
    (below : ∀ t ∈ args, IsBare t) : IsBare (.compound f args 0)
  | binary {op : Operator} {s t : Term} (hop : op ∈ Operator.binaryTable) (left : IsBare s)
    (right : IsBare t) : IsBare (.compound op.name [s, t] op.priority)

def Text.IsUnquoted (s : String) : Prop :=
  '\'' ∉ s.toList

instance : DecidablePred Text.IsUnquoted := fun s => inferInstanceAs (Decidable ('\'' ∉ s.toList))

section Unquoted
open Text

@[simp] lemma Text.isUnquoted_append {s t : String} :
    IsUnquoted (s ++ t) ↔ IsUnquoted s ∧ IsUnquoted t := by
  simp [IsUnquoted]

lemma Text.isUnquoted_intercalate {sep : String} (hsep : IsUnquoted sep) {ss : List String}
    (h : ∀ s ∈ ss, IsUnquoted s) : IsUnquoted (String.intercalate sep ss) := by
  induction ss with
  | nil => simp [IsUnquoted]
  | cons s ss ih =>
    obtain ⟨hs, hss⟩ := List.forall_mem_cons.mp h
    cases ss with
    | nil => simpa using hs
    | cons t ss =>
      rw [String.intercalate_cons_cons, isUnquoted_append, isUnquoted_append]
      exact ⟨⟨hs, hsep⟩, ih hss⟩

lemma Text.isUnquoted_of_isNameChar {s : String} (h : ∀ c ∈ s.toList, isNameChar c = true) :
    IsUnquoted s := fun quote => by
  have := h _ quote
  revert this
  decide

lemma isNameChar_of_isPlainName {s : String} (h : isPlainName s = true) :
    ∀ c ∈ s.toList, isNameChar c = true := by
  rw [isPlainName] at h
  split at h
  · cases h
  · next c cs hs =>
    obtain ⟨lower, hcs⟩ := Bool.and_eq_true_iff.mp h
    rw [hs]
    exact List.forall_mem_cons.mpr ⟨(lead_of_isLower lower).1, List.all_eq_true.mp hcs⟩

lemma isNameChar_of_isVariableName {s : String} (h : isVariableName s = true) :
    ∀ c ∈ s.toList, isNameChar c = true := by
  rw [isVariableName] at h
  split at h
  · cases h
  · next c cs hs =>
    obtain ⟨capital, hcs⟩ := Bool.and_eq_true_iff.mp h
    rw [hs]
    exact List.forall_mem_cons.mpr ⟨(lead_of_capital capital).1, List.all_eq_true.mp hcs⟩

lemma isPlainName_of_isBareName {s : String} (h : isBareName s = true) : isPlainName s = true := by
  simp only [isBareName, Bool.and_eq_true] at h
  exact h.1.1

lemma isUnquoted_atomText {s : String} (h : isBareName s = true) : IsUnquoted (atomText s) := by
  have plain := isPlainName_of_isBareName h
  rw [atomText, if_pos plain]
  exact isUnquoted_of_isNameChar (isNameChar_of_isPlainName plain)

lemma isUnquoted_repr (i : Int) : IsUnquoted (Int.repr i) := by
  have digits : ∀ n : Nat, IsUnquoted n.repr := fun _ =>
    isUnquoted_of_isNameChar fun _ => isNameChar_of_isDigit ∘ isDigit_of_mem_repr
  cases i with
  | ofNat n => exact digits n
  | negSucc n => exact isUnquoted_append.mpr ⟨by decide, digits (n + 1)⟩

end Unquoted

namespace Term.IsBare
variable {t : Term}

lemma isReadable (h : t.IsBare) (written : t.Within Variable.IsWritten) : t.IsReadable := by
  have readable : ∀ {s}, Text.isBareName s = true → isReadableName s = true := by
    intro s hs
    have unescaped : '\\' ∉ s.toList := fun mark => by
      have := isNameChar_of_isPlainName (isPlainName_of_isBareName hs) _ mark
      revert this
      decide
    simp only [Text.isBareName, Bool.and_eq_true] at hs
    simp [isReadableName, hs.1.2, hs.2, unescaped]
  induction h with
  | var v =>
    have hv := within_var.mp written
    exact .var hv.name (by rw [hv.text]; exact hv.named)
  | int h => exact .int h
  | bool b => exact .bool b
  | atom h => exact .atom (readable h)
  | list _ ih => exact .list fun t ht => ih t ht (within_list.mp written t ht)
  | ordinary h _ ih =>
    exact .ordinary (readable h) fun t ht => ih t ht (within_compound.mp written t ht)
  | binary hop _ _ left right =>
    have below := within_compound.mp written
    exact .binary hop (left (below _ (by simp))) (right (below _ (by simp)))

lemma isUnquoted (h : t.IsBare) (written : t.Within Variable.IsWritten) (maximum : Nat) :
    Text.IsUnquoted (t.textWithin maximum) := by
  induction h generalizing maximum with
  | var v =>
    have hv := within_var.mp written
    rw [textWithin, hv.text]
    exact Text.isUnquoted_of_isNameChar (isNameChar_of_isVariableName hv.name)
  | int => exact isUnquoted_repr _
  | bool b =>
    rw [textWithin]
    cases b <;> decide
  | atom h => exact isUnquoted_atomText h
  | list _ ih =>
    have below := within_list.mp written
    rw [textWithin, textEach_replicate, Text.isUnquoted_append, Text.isUnquoted_append]
    refine ⟨⟨by decide, Text.isUnquoted_intercalate (by decide) ?_⟩, by decide⟩
    exact List.forall_mem_map.mpr fun t ht => ih t ht (below t ht) _
  | ordinary h _ ih =>
    have below := within_compound.mp written
    rw [textWithin_ordinary (Operator.ofCompound?_zero _ _)]
    simp only [Text.isUnquoted_append]
    refine ⟨⟨⟨isUnquoted_atomText h, by decide⟩, Text.isUnquoted_intercalate (by decide) ?_⟩,
      by decide⟩
    exact List.forall_mem_map.mpr fun t ht => ih t ht (below t ht) _
  | @binary op s t hop _ _ left right =>
    have below := within_compound.mp written
    obtain ⟨known, operands⟩ := Operator.ofCompound?_binary hop
    have name : Text.IsUnquoted (if op.isAlphabetic then " " ++ op.name ++ " " else op.name) := by
      have all : ∀ op ∈ Operator.binaryTable,
          '\'' ∉ op.name.toList ∧ '\'' ∉ (" " ++ op.name ++ " ").toList := by decide +kernel
      split
      · exact (all op hop).2
      · exact (all op hop).1
    have body : Text.IsUnquoted (op.layout (textEach op.operandMaxima [s, t])) := by
      simp only [operands, textEach, Operator.layout, Text.isUnquoted_append]
      exact ⟨⟨left (below _ (by simp)) _, name⟩, right (below _ (by simp)) _⟩
    rw [textWithin_operator known]
    split
    · simp only [Text.isUnquoted_append]
      exact ⟨⟨by decide, body⟩, by decide⟩
    · exact body

end Term.IsBare

section Links

lemma links_spaced {s : String} (hs : s ∈ symbols) : Links (" " ++ s ++ " ").toList (.symbol s) where
  cuts {rest us} opens later := by
    have behind : Cuts (' ' :: rest) us := .blank rfl opens.unblank later
    have here : Cuts (s.toList ++ ' ' :: rest) (.symbol s :: us) :=
      .symbol hs (fun c hc => Option.some.inj hc ▸ continues_eq_false hs (by decide)) behind
    have visible : ∀ c ∈ (s.toList ++ ' ' :: rest).head?, Text.isBlank c = false := by
      have all : ∀ s ∈ symbols, ∃ c cs, s.toList = c :: cs ∧ Text.isBlank c = false := by
        intro s hs
        have nonempty : ∀ s ∈ symbols, s.toList ≠ [] := by decide +kernel
        obtain ⟨c, cs, hcs⟩ := List.exists_cons_of_ne_nil (nonempty s hs)
        have opens := opensSymbol_of_mem hs hcs
        simp only [opensSymbol, Bool.and_eq_true, Bool.not_eq_true'] at opens
        exact ⟨c, cs, hcs, opens.1.1.1.1.1.1⟩
      obtain ⟨c, cs, hcs, blank⟩ := all s hs
      rw [hcs]
      exact fun d hd => Option.some.inj hd ▸ blank
    simpa using Cuts.blank (c := ' ') rfl visible here
  ends rest := by
    rw [String.toList_append, String.toList_append]
    exact ends_cons (by decide)
  unsigned := rfl

lemma links_listed : Links ", ".toList (.symbol ",") where
  cuts opens later :=
    Cuts.symbol (s := ",") (by decide) (fun c _ => continues_bracket (by decide) c)
      (.blank (c := ' ') rfl opens.unblank later)
  ends _ := ends_cons (by decide)
  unsigned := rfl

end Links

namespace Rule
variable {r : Rule}

/-- The terms of a rule that need no quotes, with the variables of source text. -/
structure IsBare (r : Rule) : Prop where
  bare : ∀ t ∈ r.terms, t.IsBare
  written : ∀ t ∈ r.terms, t.Within Variable.IsWritten

lemma IsBare.spells (h : r.IsBare) (ts : List Term) (within : ∀ t ∈ ts, t ∈ r.terms)
    (nonempty : ts ≠ []) :
    ∃ us, Spells (conjunctionText ts).toList us ∧ Derives us (.terms ts) := by
  have readable : ∀ t ∈ ts, Writes (t.textWithin Term.topMaximum).toList t.asRead Term.topMaximum :=
    fun t ht => ((h.bare t (within t ht)).isReadable (h.written t (within t ht))).writes _
  have same : ts.map Term.asRead = ts :=
    (List.map_congr_left fun t ht => Term.asRead_eq_self (h.written t (within t ht))).trans
      (List.map_id ts)
  obtain ⟨us, spells, derives⟩ := spells_terms links_listed (by decide) nonempty readable
  rw [same] at derives
  exact ⟨us, spells, derives⟩

lemma IsBare.spells_keep (h : r.IsBare) (nonempty : r.keepHeads ≠ []) :
    ∃ us, Spells (conjunctionText r.keepHeads).toList us ∧ Derives us (.terms r.keepHeads) :=
  h.spells _ (fun t ht => by simp [terms, ht]) nonempty

lemma IsBare.spells_delete (h : r.IsBare) (nonempty : r.deleteHeads ≠ []) :
    ∃ us, Spells (conjunctionText r.deleteHeads).toList us ∧ Derives us (.terms r.deleteHeads) :=
  h.spells _ (fun t ht => by simp [terms, ht]) nonempty

lemma IsBare.spells_heads (h : r.IsBare) (headed : r.heads ≠ []) :
    ∃ (text s : String) (us : List Token), s ∈ symbols ∧ r.headText = text ++ (" " ++ s ++ " ") ∧
      Spells text.toList us ∧ DeriveHeads (us ++ [.symbol s]) r.keepHeads r.deleteHeads := by
  by_cases propagation : r.deleteHeads = []
  · have nonempty : r.keepHeads ≠ [] := by simpa [heads, propagation] using headed
    obtain ⟨us, spells, derives⟩ := h.spells_keep nonempty
    refine ⟨_, "==>", us, by decide, ?_, spells, ?_⟩
    · rw [headText, isPropagation, propagation]
      rfl
    · rw [propagation]
      exact .propagation derives
  · obtain ⟨us, spells, derives⟩ := h.spells_delete propagation
    by_cases simplification : r.keepHeads = []
    · refine ⟨_, "<=>", us, by decide, ?_, spells, ?_⟩
      · simp [headText, isPropagation, propagation, simplification]
      · rw [simplification]
        exact .simplification derives
    · obtain ⟨vs, spells', derives'⟩ := h.spells_keep simplification
      have linked := spells'.link (links_spaced (s := "\\") (by decide)) spells
      refine ⟨conjunctionText r.keepHeads ++ (" " ++ "\\" ++ " ") ++ conjunctionText r.deleteHeads,
        "<=>", _, by decide, ?_, by simpa only [String.toList_append] using linked, ?_⟩
      · simp [headText, isPropagation, propagation, simplification]
      · rw [List.append_assoc]
        exact .simpagation derives' derives

def guardText (r : Rule) : String :=
  if r.guards.isEmpty then "" else conjunctionText r.guards ++ " | "

def bodyText (r : Rule) : String :=
  if r.body.isEmpty then "true" else conjunctionText r.body

lemma text_eq (r : Rule) :
    r.text = r.name ++ " @ " ++ r.headText ++ r.guardText ++ r.bodyText ++ "." := rfl

lemma IsBare.spells_body (h : r.IsBare) (effective : .bool true ∉ r.body) :
    ∃ us body, Spells r.bodyText.toList us ∧ Derives us (.terms body) ∧
      Clause.withoutTrue body = r.body := by
  -- An empty body is written as a boolean, which is dropped where it is read.
  by_cases nothing : r.body = []
  · have word : Spells "true".toList [.name "true"] := spells_name (by decide)
    have value : (Token.name "true").literal? = some (.bool true) := rfl
    refine ⟨_, [.bool true], ?_, .last (.literal value) (Nat.zero_le _), ?_⟩
    · rw [bodyText, nothing]
      exact word
    · rw [nothing]
      rfl
  · obtain ⟨us, spells, derives⟩ := h.spells r.body (fun t ht => by simp [terms, ht]) nothing
    refine ⟨us, r.body, ?_, derives, Clause.withoutTrue_eq_self effective⟩
    rwa [bodyText, if_neg (by simpa using nothing)]

lemma IsBare.spells_behind (h : r.IsBare) (effective : .bool true ∉ r.body) :
    ∃ us body, Spells (r.guardText ++ r.bodyText).toList us ∧
      DeriveBody (us ++ [.symbol "."]) r.guards body ∧ Clause.withoutTrue body = r.body := by
  obtain ⟨us, body, spells, derives, same⟩ := h.spells_body effective
  by_cases unguarded : r.guards = []
  · refine ⟨us, body, ?_, ?_, same⟩
    · rw [guardText, unguarded]
      simpa using spells
    · rw [unguarded]
      exact .unguarded derives
  · obtain ⟨vs, spells', derives'⟩ :=
      h.spells r.guards (fun t ht => by simp [terms, ht]) unguarded
    have linked := spells'.link (links_spaced (s := "|") (by decide)) spells
    refine ⟨vs ++ .symbol "|" :: us, body, ?_, ?_, same⟩
    · rw [guardText, if_neg (by simpa using unguarded)]
      simpa using linked
    · rw [List.append_assoc]
      exact .guarded derives' derives

/-- A name that can be given to a rule without quotes. -/
def isBareName (s : String) : Bool :=
  Text.isPlainName s || isVariableName s

lemma spells_ruleName {s : String} (h : isBareName s = true) :
    ∃ a : Token, a.ruleName? = some s ∧ Spells s.toList [a] := by
  obtain plain | capital := Bool.or_eq_true_iff.mp h
  · exact ⟨.name s, rfl, spells_name plain⟩
  · exact ⟨.var s, rfl, spells_var capital⟩

lemma IsBare.cuts_text (h : r.IsBare) (headed : r.heads ≠ []) (effective : .bool true ∉ r.body)
    (name : isBareName r.name = true) :
    ∃ front ts, Cuts r.text.toList (front ++ ts) ∧ IsNamed front (some r.name) ∧
      Clause.IsDerived 1 (some r.name) ts (.rule r) := by
  obtain ⟨a, ha, spells⟩ := spells_ruleName name
  obtain ⟨text, s, us, hs, htext, spells', heads⟩ := h.spells_heads headed
  obtain ⟨vs, body, spells'', behind, same⟩ := h.spells_behind effective
  have named := spells.link (links_spaced (s := "@") (by decide)) spells'
  have whole := named.link (links_spaced hs) spells''
  have ends : Ends ".".toList := ⟨by decide, by decide, by simp⟩
  have dot : Cuts (".".toList ++ []) [.symbol "."] := .symbol (by decide) (by simp) .nil
  refine ⟨[a, .symbol "@"], (us ++ [.symbol s]) ++ (vs ++ [.symbol "."]), ?_, .named ha, ?_⟩
  · have cuts := whole.cuts ".".toList [.symbol "."] ends dot
    rw [text_eq, htext]
    simpa using cuts
  · have derived : Clause.IsDerived 1 (some r.name) (us ++ [.symbol s] ++ (vs ++ [.symbol "."]))
        (.rule ⟨r.name, r.keepHeads, r.deleteHeads, r.guards, Clause.withoutTrue body⟩) :=
      .rule heads behind
    rwa [same] at derived

end Rule

namespace Program

theorem read_clause {cs : List Char} {front ts : List Token} {given : Option String} {clause : Clause}
    (cuts : Cuts cs (front ++ ts)) (named : IsNamed front given)
    (derived : Clause.IsDerived 1 given ts clause) :
    (read cs).result = .ok (ofClauses [clause]) := by
  obtain ⟨ls, hscan, hls⟩ := cuts.scanWithin 1 (Nat.le_refl cs.length)
  obtain ⟨ks, ms, rfl, rfl, rfl⟩ := List.map_eq_append_iff.mp hls
  have parsed : Clause.parse 1 ⟨ks ++ (ms ++ []), 0⟩ = .ok (clause, ⟨[], 0⟩) :=
    Clause.parse_of_derived named derived
  rw [List.append_nil] at parsed
  obtain ⟨l, more, hfirst⟩ : ∃ l more, ks ++ ms = l :: more := by
    refine List.exists_cons_of_ne_nil fun empty => ?_
    obtain ⟨a, b, us, hus, -⟩ := derived.unnamed
    rw [(List.append_eq_nil_iff.mp empty).2] at hus
    cases hus
  rw [read, Token.scan, hscan]
  dsimp only
  rw [hfirst] at parsed ⊢
  rw [List.length_cons, readClauses]
  dsimp only
  rw [show Draft.empty.rules.length + 1 = 1 from rfl, parsed]
  dsimp only
  -- All tokens are used up, so the number of steps that are left does not matter.
  have last : ∀ d : Draft, (readClauses more.length d ⟨[], 0⟩).result = .ok d.program := by
    intro d
    cases more <;> rfl
  rw [last, program_add, ofClauses_cons]
  simp [Draft.empty, Draft.program, ofClauses]

lemma name_of_read {cs : List Char} {r : Rule} (h : (read cs).result = .ok ⟨[r], []⟩) :
    Rule.isBareName r.name = true ∨ (Token.quoted r.name).StandsIn cs := by
  obtain ⟨ls, clauses, hscan, derived, assembled⟩ := derived_of_read h
  generalize hls : ls.map Located.token = tokens at derived
  cases derived with
  | nil => cases assembled
  | @cons _ _ front given ts clause later clauses named first _ =>
    generalize Token.numbered 0 ts = us at first
    rw [ofClauses_cons] at assembled
    cases first with
    | goals => exact nomatch congrArg Program.goals assembled
    | rule =>
      obtain ⟨rfl, -⟩ := List.cons_eq_cons.mp (congrArg Program.rules assembled)
      cases named with
      | unnamed =>
        -- The first rule is given the name of its place.
        refine .inl ?_
        change Rule.isBareName "rule_1" = true
        decide
      | @named a name ha =>
        obtain ⟨l, hl, rfl⟩ : ∃ l ∈ ls, l.token = a := List.mem_map.mp (hls ▸ by simp)
        have here := Token.standsIn_of_scan hscan l hl
        change Rule.isBareName name = true ∨ (Token.quoted name).StandsIn cs
        cases htoken : l.token with
        | name n =>
          rw [htoken] at ha here
          cases ha
          exact .inl (Bool.or_eq_true_iff.mpr (.inl (Token.isPlainName_of_standsIn here)))
        | var v =>
          rw [htoken] at ha here
          cases ha
          exact .inl (Bool.or_eq_true_iff.mpr (.inr (Token.isVariableName_of_standsIn here)))
        | quoted q =>
          rw [htoken] at ha here
          cases ha
          exact .inr here
        | _ =>
          rw [htoken] at ha
          cases ha

end Program

namespace Rule
variable {r : Rule}

lemma IsBare.isUnquoted (h : r.IsBare) (ts : List Term) (within : ∀ t ∈ ts, t ∈ r.terms) :
    Text.IsUnquoted (conjunctionText ts) :=
  Text.isUnquoted_intercalate (by decide) (List.forall_mem_map.mpr fun t ht =>
    (h.bare t (within t ht)).isUnquoted (h.written t (within t ht)) _)

lemma IsBare.isUnquoted_behind (h : r.IsBare) :
    Text.IsUnquoted (" @ " ++ r.headText ++ r.guardText ++ r.bodyText ++ ".") := by
  have keep := h.isUnquoted r.keepHeads fun t ht => by simp [terms, ht]
  have delete := h.isUnquoted r.deleteHeads fun t ht => by simp [terms, ht]
  have guards := h.isUnquoted r.guards fun t ht => by simp [terms, ht]
  have body := h.isUnquoted r.body fun t ht => by simp [terms, ht]
  have layout : ∀ s ∈ [" @ ", " ==> ", " \\ ", " <=> ", " | ", "true", ".", ""],
      Text.IsUnquoted s := by decide
  have head : Text.IsUnquoted r.headText := by
    rw [headText]
    split
    · exact Text.isUnquoted_append.mpr ⟨keep, layout _ (by simp)⟩
    · split
      · simp [delete, layout]
      · simp [keep, delete, layout]
  have guard : Text.IsUnquoted r.guardText := by
    rw [guardText]
    split
    · exact layout _ (by simp)
    · exact Text.isUnquoted_append.mpr ⟨guards, layout _ (by simp)⟩
  have body : Text.IsUnquoted r.bodyText := by
    rw [bodyText]
    split
    · exact layout _ (by simp)
    · exact body
  simp [head, guard, body, layout]

lemma IsBare.not_quoted (h : r.IsBare) : ¬ (Token.quoted r.name).StandsIn r.text.toList := by
  -- If the name were quoted there, the closing quote would stand behind it.
  intro here
  obtain ⟨before, inside, more, heq, hname⟩ := Token.quoted_of_standsIn here
  have short : r.name.toList.length ≤ (before ++ '\'' :: inside).length := by
    have := Text.length_unescape_le inside
    rw [hname, String.toList_ofList, List.length_append, List.length_cons]
    omega
  have behind : r.text.toList.drop r.name.toList.length =
      (" @ " ++ r.headText ++ r.guardText ++ r.bodyText ++ ".").toList := by
    simp [text_eq]
  refine h.isUnquoted_behind ?_
  rw [← behind, heq, ← List.cons_append, ← List.append_assoc, List.drop_append_of_le_length short]
  simp

end Rule

namespace Program
variable {bytes : ByteArray} {p : Program}

lemma mem_nameAnonymous {n : Nat} {vs : List String} {name : String}
    (h : name ∈ nameAnonymous n vs) :
    name ∈ vs ∧ name ≠ "_" ∨ ∃ k, name = Cursor.anonymousName k := by
  obtain ⟨i, hi⟩ := List.mem_iff_getElem?.mp h
  rw [getElem?_nameAnonymous] at hi
  obtain ⟨v, hv, rfl⟩ := Option.map_eq_some_iff.mp hi
  split
  · exact .inr ⟨_, rfl⟩
  · next named => exact .inl ⟨List.mem_of_getElem? hv, named⟩

lemma isVariableName_anonymousName (n : Nat) : isVariableName (Cursor.anonymousName n) = true := by
  have digits : n.repr.toList.all isNameChar = true :=
    List.all_eq_true.mpr fun _ => isNameChar_of_isDigit ∘ isDigit_of_mem_repr
  rw [isVariableName, Cursor.toList_anonymousName]
  exact Bool.and_eq_true_iff.mpr ⟨by decide, digits⟩

lemma Source.isWritten (s : Source bytes p)
    (read : s.occurrences = (nameAnonymous 0 s.written).map fun v => ⟨v, 0⟩) :
    ∀ v ∈ s.occurrences, v.IsWritten := by
  intro v hv
  rw [read] at hv
  obtain ⟨name, hname, rfl⟩ := List.mem_map.mp hv
  obtain ⟨member, named⟩ | ⟨k, rfl⟩ := mem_nameAnonymous hname
  · obtain ⟨ts, hts, hmem⟩ := List.mem_flatMap.mp member
    have token : .var name ∈ s.tokens.map Located.token := by
      rw [s.cut]
      exact List.mem_flatMap.mpr ⟨ts, hts, List.mem_append_left _ (Token.var_mem_of_written hmem)⟩
    obtain ⟨l, hl, htoken⟩ := List.mem_map.mp token
    have here := Token.standsIn_of_scan s.scanned l hl
    rw [htoken] at here
    exact ⟨rfl, Token.isVariableName_of_standsIn here, named⟩
  · exact ⟨rfl, isVariableName_anonymousName k, Cursor.anonymousName_ne k⟩

lemma within_isWritten (h : (readBytes bytes).result = .ok p) {r : Rule} (hr : r ∈ p.rules) :
    ∀ t ∈ r.terms, t.Within Variable.IsWritten := by
  intro t ht v hv
  obtain ⟨s, read⟩ := exists_source h
  refine s.isWritten read v ?_
  rw [s.assembled] at hr
  obtain ⟨clause, hclause, hr⟩ := List.mem_filterMap.mp hr
  refine List.mem_flatMap.mpr ⟨clause, hclause, List.mem_flatMap.mpr ⟨t, ?_, hv⟩⟩
  cases clause with
  | rule =>
    cases hr
    exact ht
  | goals => cases hr

/-- A rule that is read is printed and read back as it is, if its terms need no quotes, just when its
name needs none. -/
theorem rule_read (h : (readBytes bytes).result = .ok p) {r : Rule} (hr : r ∈ p.rules)
    (bare : ∀ t ∈ r.terms, t.IsBare) :
    (readBytes r.text.toUTF8).result = .ok ⟨[r], []⟩ ↔
      Text.isPlainName r.name = true ∨ isVariableName r.name = true := by
  obtain ⟨headed, effective⟩ := rule_of_readBytes h hr
  have bare : r.IsBare := ⟨bare, within_isWritten h hr⟩
  rw [readBytes_toUTF8, ← Bool.or_eq_true_iff]
  constructor
  · exact fun back => (name_of_read back).resolve_right bare.not_quoted
  · intro name
    obtain ⟨front, ts, cuts, named, derived⟩ :=
      bare.cuts_text headed effective name
    exact read_clause cuts named derived

/-- Heads of both kinds, an anonymous variable, a guard and a negative number. -/
theorem rule_read_guarded :
    let r : Rule := ⟨"Step", [.ordinary "p" [.var ⟨"_1", 0⟩]], [.atom "q"],
      [.relation "<" (.var ⟨"X", 0⟩) (.int (-3))], [.list [.var ⟨"X", 0⟩]]⟩
    (readBytes "'Step' @ p(_) \\ q <=> X<(-3) | true, [X].".toUTF8).result = .ok ⟨[r], []⟩ ∧
      (∀ t ∈ r.terms, t.IsBare) ∧ r.text = "Step @ p(_1) \\ q <=> X<-3 | [X]." ∧
      (readBytes r.text.toUTF8).result = .ok ⟨[r], []⟩ := by
  intro r
  have read : (readBytes "'Step' @ p(_) \\ q <=> X<(-3) | true, [X].".toUTF8).result =
      .ok ⟨[r], []⟩ := by
    rw [readBytes_toUTF8]
    cbv
  have bare : ∀ t ∈ r.terms, t.IsBare := by
    simp only [r, Rule.terms, List.cons_append, List.nil_append, List.forall_mem_cons]
    refine ⟨.ordinary (by decide) ?_, .atom (by decide), ?_, .list ?_, by simp⟩
    · simpa using Term.IsBare.var _
    · exact @Term.IsBare.binary ⟨"<", 700, .xfx⟩ _ _ (by decide) (.var _) (.int (by decide))
    · simpa using Term.IsBare.var _
  have same := (rule_read read (List.mem_singleton_self r) bare).mpr (.inr (by decide))
  exact ⟨read, bare, by cbv, same⟩

/-- The quotes that a name had are not written again, and without them the text cannot be read. -/
theorem unread_of_quoted_rule_name :
    let r : Rule := ⟨"My rule", [], [.atom "p"], [], []⟩
    (readBytes "'My rule' @ p <=> true.".toUTF8).result = .ok ⟨[r], []⟩ ∧
      (∀ t ∈ r.terms, t.IsBare) ∧ r.text = "My rule @ p <=> true." ∧
      (readBytes r.text.toUTF8).result =
        .error (.clause 1 (.unexpectedToken (.name "rule") 1)) := by
  intro r
  have text : r.text = "My rule @ p <=> true." := by cbv
  refine ⟨?_, ?_, text, ?_⟩
  · rw [readBytes_toUTF8]
    cbv
  · simpa [r, Rule.terms] using Term.IsBare.atom (a := "p") (by decide)
  · rw [text, readBytes_toUTF8]
    cbv

end Program
end ConstraintHandling
