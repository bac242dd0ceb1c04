import ConstraintHandling.Proofs.Program.RoundTrip
import ConstraintHandling.Proofs.Scope.Course
import ConstraintHandling.Solution

/-! Reading back a solution that is written as clauses. Every constraint comes back as a clause of its
own, if all of them can be read back at all; an atom that is written like a boolean and a backslash in
a quoted atom cannot. -/
namespace ConstraintHandling
open Lexeme

def clauseText (ts : List Term) : List Char :=
  ts.flatMap fun t => t.text.toList ++ ['.', '\n']

section Cutting
variable {cs rest : List Char} {ts us : List Token}

lemma Spells.clause (h : Spells cs ts) (stop : ∀ c ∈ rest.head?, Text.isBlank c = false)
    (later : Cuts rest us) :
    Cuts (cs ++ '.' :: '\n' :: rest) (ts ++ .symbol "." :: us) := by
  have feed : ∀ c ∈ ('\n' :: rest).head?, isContinuation c = false ∧ Text.isDecimalDigit c = false :=
    fun c hc => Option.some.inj hc ▸ by decide
  have dot : Cuts (".".toList ++ '\n' :: rest) (.symbol "." :: us) :=
    .symbol (by decide) (fun c hc => continues_eq_false (by decide) (feed c hc).1)
      (.blank (by decide) stop later)
  exact h.cuts _ _ ⟨by decide, by decide, fun _ c hc => (feed c hc).2⟩ dot

lemma cuts_clauses {terms : List Term} (readable : ∀ t ∈ terms, t.IsReadable)
    (stop : ∀ c ∈ rest.head?, Text.isBlank c = false) (later : Cuts rest us) :
    (∀ c ∈ (clauseText terms ++ rest).head?, Text.isBlank c = false) ∧
      ∃ tss, Program.DeriveAll tss (terms.map Term.asRead) ∧
        Cuts (clauseText terms ++ rest) (tss.flatMap (· ++ [.symbol "."]) ++ us) := by
  induction terms with
  | nil => exact ⟨stop, [], .nil, later⟩
  | cons t terms ih =>
    obtain ⟨ht, hterms⟩ := List.forall_mem_cons.mp readable
    obtain ⟨stop, tss, derives, cuts⟩ := ih hterms
    obtain ⟨ts, p, hp, spells, first⟩ := ht.writes Term.topMaximum
    have text : clauseText (t :: terms) ++ rest =
        t.text.toList ++ '.' :: '\n' :: (clauseText terms ++ rest) := by
      simp [clauseText]
    have tokens : ((ts :: tss).flatMap (· ++ [.symbol "."]) ++ us) =
        ts ++ .symbol "." :: (tss.flatMap (· ++ [.symbol "."]) ++ us) := by
      simp
    refine ⟨?_, ts :: tss, .cons ⟨p, hp, first⟩ derives, ?_⟩
    · rw [text]
      exact (spells.opens.append _).unblank
    · rw [text, tokens]
      exact spells.clause stop cuts

end Cutting

namespace Solution
variable {s : Solution}

def constraints (s : Solution) : List Term :=
  s.ordinary ++ s.builtin

lemma toList_lines (ts : List Term) :
    ((ts.map clauseLine).map fun l => l.text ++ "\n").flatMap String.toList = clauseText ts := by
  induction ts with
  | nil => rfl
  | cons t ts ih =>
    rw [List.map_cons, List.map_cons, List.flatMap_cons, ih, clauseText, clauseText,
      List.flatMap_cons]
    simp [clauseLine]

/-- The lines for the built-in constraints, with a comment in front of them. -/
def builtinText (ts : List Term) : List Char :=
  if ts.isEmpty then [] else '%' :: (" built-in".toList ++ '\n' :: clauseText ts)

lemma toList_text (fixpoint : s.verdict = .fixpoint) :
    (s.text .clauses).toList = clauseText s.ordinary ++ builtinText s.builtin := by
  rw [text, String.toList_join, lines, verdictLines, fixpoint, List.nil_append, List.map_append,
    List.flatMap_append, toList_lines, builtinText]
  split
  · rfl
  · rw [List.map_cons, List.flatMap_cons, toList_lines]
    rfl

lemma cuts_builtin {ts : List Term} (readable : ∀ t ∈ ts, t.IsReadable) :
    (∀ c ∈ (builtinText ts).head?, Text.isBlank c = false) ∧
      ∃ tss, Program.DeriveAll tss (ts.map Term.asRead) ∧
        Cuts (builtinText ts) (tss.flatMap (· ++ [.symbol "."])) := by
  have last : ∀ c ∈ ([] : List Char).head?, Text.isBlank c = false := by simp
  obtain ⟨stop, tss, derives, cuts⟩ := cuts_clauses readable last .nil
  rw [List.append_nil] at stop
  rw [List.append_nil, List.append_nil] at cuts
  unfold builtinText
  split
  · next none =>
    rw [List.isEmpty_iff.mp none]
    exact ⟨by simp, [], .nil, .nil⟩
  · refine ⟨fun c hc => Option.some.inj hc ▸ by decide, tss, derives, ?_⟩
    exact .comment (by decide) stop cuts

/-- A fixpoint that is written as clauses is read back, if its constraints are. -/
theorem read_clauses (fixpoint : s.verdict = .fixpoint)
    (readable : ∀ t ∈ s.constraints, t.IsReadable) :
    Program.readBytes (s.text .clauses).toUTF8 =
      ⟨[], .ok ⟨[], s.constraints.map fun t => [t.asRead]⟩⟩ := by
  obtain ⟨ordinary, builtin⟩ := List.forall_mem_append.mp readable
  obtain ⟨stop, tss', derives', cuts'⟩ := cuts_builtin builtin
  obtain ⟨-, tss, derives, cuts⟩ := cuts_clauses ordinary stop cuts'
  rw [← List.flatMap_append] at cuts
  have derives : Program.DeriveAll (tss ++ tss') (s.constraints.map Term.asRead) := by
    rw [constraints, List.map_append]
    exact List.rel_append derives derives'
  rw [Program.readBytes_toUTF8, toList_text fixpoint, Program.read_goals cuts derives, List.map_map]
  rfl

end Solution

/-- What is left of a solution is read back. Whatever a user does with rules and goals of source text,
the clauses that are written for a fixpoint are read back one by one, in order, provided that the
constraints are readable, and different variables of the constraints are different again. -/
theorem solution_read (rs : List Rule) (source : ∀ r ∈ rs, ∀ t ∈ r.terms, t.IsSource)
    (commands : List Command) (given : ∀ ts, .goals ts ∈ commands → ∀ t ∈ ts, t.IsSource) :
    let s := ((Journal.begin (RuleBase.ofRules rs).1).obeyAll commands).session
    let solution := s.solve.session.solution s.solve.verdict
    s.solve.verdict = .fixpoint → (∀ t ∈ solution.constraints, t.IsReadable) →
      Program.readBytes (solution.text .clauses).toUTF8 =
          ⟨[], .ok ⟨[], solution.constraints.map fun t => [t.asRead]⟩⟩ ∧
        Set.InjOn Variable.asRead {v | ∃ t ∈ solution.constraints, v ∈ t.occurrences} := by
  intro s solution fixpoint readable
  refine ⟨Solution.read_clauses fixpoint readable, ?_⟩
  have hsource : ∀ r ∈ (RuleBase.ofRules rs).1.rules, ∀ t ∈ r.terms, t.IsSource := fun r hr =>
    source r (RuleBase.mem_of_ofRules hr)
  obtain ⟨os, course⟩ : ∃ os, Course (RuleBase.ofRules rs).1 s.solve.session os := by
    have given' : ∀ ts, .goals ts ∈ commands ++ [.solve] → ∀ t ∈ ts, t.IsSource := by
      simpa using given
    obtain ⟨os, course⟩ := course_obeyAll given'
    rw [Journal.obeyAll, List.foldl_append] at course
    exact ⟨os, course⟩
  have stored := (course.apart (RuleBase.hasHeads_ofRules rs) hsource).stored
  refine Variable.injOn_asRead.mono ?_
  rintro v ⟨t, ht, hv⟩
  have within : t.Within (Variable.IsOpened s.solve.session.lastScope) := by
    obtain ht | ht := List.mem_append.mp ht
    · obtain ⟨c, hc, rfl⟩ := List.mem_map.mp ht
      exact stored.live hc
    · obtain ⟨c, hc, rfl⟩ := List.mem_map.mp ht
      exact stored.live hc
  exact (within v hv).1

/-- A quoted atom, a negative number and an equation with a string. -/
theorem solution_read_quoted :
    let goals : List Term := [.ordinary "arg" [.atom "Big A", .list [.int (-1)]],
      .equation (.var ⟨"Y", 0⟩) (.str "s")]
    let s := ((Journal.begin (RuleBase.ofRules []).1).obeyAll [.goals goals]).session
    let solution := s.solve.session.solution s.solve.verdict
    solution.text .clauses = "arg('Big A',[-1]).\n% built-in\nY_1==\"s\".\n" ∧
      Program.readBytes (solution.text .clauses).toUTF8 = ⟨[], .ok ⟨[], [
        [.ordinary "arg" [.atom "Big A", .list [.int (-1)]]],
        [.equation (.var ⟨"Y_1", 0⟩) (.str "s")]]⟩⟩ := by
  intro goals s solution
  have given : ∀ ts, Command.goals ts ∈ [Command.goals goals] → ∀ t ∈ ts, t.IsSource := by
    intro ts hts
    obtain rfl : ts = goals := by simpa using hts
    simp [goals, Term.IsSource, Term.ordinary, Term.equation, Term.relation,
      Term.within_of_isConstant (rfl : Term.isConstant (.atom _) = true),
      Term.within_of_isConstant (rfl : Term.isConstant (.int _) = true),
      Term.within_of_isConstant (rfl : Term.isConstant (.str _) = true)]
  have left : solution = ⟨.fixpoint, [.ordinary "arg" [.atom "Big A", .list [.int (-1)]]],
      [.equation (.var ⟨"Y", 1⟩) (.str "s")]⟩ := by rfl
  have readable : ∀ t ∈ solution.constraints, t.IsReadable := by
    rw [left, Solution.constraints, List.singleton_append]
    simp only [List.forall_mem_cons]
    refine ⟨.ordinary (by decide) ?_, ?_, by simp⟩
    · simp only [List.forall_mem_cons]
      exact ⟨.atom (by decide), .list (by simpa using .int (by decide)), by simp⟩
    · exact @Term.IsReadable.binary ⟨"==", 700, .xfx⟩ _ _ (by decide) (.var (by decide) (by decide))
        (.str (List.all_eq_true.mp rfl))
  have fixpoint : s.solve.verdict = .fixpoint := by decide +kernel
  have back : Program.readBytes (solution.text .clauses).toUTF8 =
      ⟨[], .ok ⟨[], solution.constraints.map fun t => [t.asRead]⟩⟩ :=
    (solution_read [] (by simp) [.goals goals] given fixpoint readable).1
  constructor
  · rw [left]
    cbv
  · rw [back, left]
    rfl

/-- An atom that is written like a boolean is read as a boolean. -/
theorem unread_of_boolean_name :
    let s := ((Journal.begin (RuleBase.ofRules []).1).obeyAll
      [.goals [.ordinary "p" [.atom "true"]]]).session
    let solution := s.solve.session.solution s.solve.verdict
    Program.readBytes "p('true').".toUTF8 = ⟨[], .ok ⟨[], [[.ordinary "p" [.atom "true"]]]⟩⟩ ∧
      s.solve.verdict = .fixpoint ∧ solution.constraints = [.ordinary "p" [.atom "true"]] ∧
      Program.readBytes (solution.text .clauses).toUTF8 =
        ⟨[], .ok ⟨[], [[.ordinary "p" [.bool true]]]⟩⟩ := by
  intro s solution
  have text : solution.text .clauses = "p(true).\n" := by decide +kernel
  refine ⟨?_, by decide +kernel, rfl, ?_⟩
  · rw [Program.readBytes_toUTF8]
    cbv
  · rw [text, Program.readBytes_toUTF8]
    cbv

end ConstraintHandling
