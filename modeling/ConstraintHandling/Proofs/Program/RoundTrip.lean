import ConstraintHandling.Proofs.Program.Reading
import ConstraintHandling.Proofs.Program.Spelling

/-! Reading back what is written: the text of a term, ended by a dot, is a program whose only clause
has the term as its only goal. -/
namespace ConstraintHandling
open Lexeme

namespace Clause
variable {ls rest : List Located} {dot : Located} {n p : Nat} {goal : Term}

lemma parse_goal (derives : Derives (ls.map Located.token) (.term goal p))
    (hp : p ≤ Cursor.termMaximum) (hdot : dot.token = .symbol ".") (place : Nat) :
    parse place ⟨ls ++ dot :: rest, n⟩ = .ok (.goals [goal], ⟨rest, n⟩) := by
  have derived : IsDerived place none ((ls ++ [dot]).map Located.token) (.goals [goal]) := by
    rw [List.map_append, List.map_singleton, hdot]
    exact .goals (.last derives hp)
  have parsed : parse place ⟨[] ++ ((ls ++ [dot]) ++ rest), n⟩ = .ok (.goals [goal], ⟨rest, n⟩) :=
    parse_of_derived .unnamed derived
  rwa [List.append_assoc, List.singleton_append] at parsed

end Clause

namespace Program
variable {tss : List (List Token)} {goals : List Term}

def DeriveAll (tss : List (List Token)) (goals : List Term) : Prop :=
  List.Forall₂ (fun ts goal => ∃ p ≤ Cursor.termMaximum, Derives ts (.term goal p)) tss goals

lemma readClauses_goals (h : DeriveAll tss goals) {ls : List Located}
    (hls : ls.map Located.token = tss.flatMap (· ++ [.symbol "."])) {clauses : Nat}
    (enough : tss.length ≤ clauses) (before : List (List Term)) :
    readClauses clauses ⟨[], before⟩ ⟨ls, 0⟩ = ⟨[], .ok ⟨[], before ++ goals.map ([·])⟩⟩ := by
  induction h generalizing ls clauses before with
  | nil =>
    obtain rfl := List.map_eq_nil_iff.mp hls
    rw [List.map_nil, List.append_nil]
    cases clauses <;> rfl
  | @cons ts goal tss goals first later ih =>
    obtain ⟨p, hp, derives⟩ := first
    obtain ⟨clauses, rfl⟩ : ∃ n, clauses = n + 1 := ⟨clauses - 1, by simp at enough; omega⟩
    rw [List.flatMap_cons] at hls
    obtain ⟨ks, rest, rfl, hks, hrest⟩ := List.map_eq_append_iff.mp hls
    obtain ⟨ls, line, rfl, rfl⟩ := Cursor.map_eq_append_singleton hks
    have parsed : Clause.parse 1 ⟨ls ++ ⟨.symbol ".", line⟩ :: rest, 0⟩ =
        .ok (.goals [goal], ⟨rest, 0⟩) :=
      Clause.parse_goal derives hp rfl 1
    have behind := ih hrest (Nat.le_of_succ_le_succ enough) (before ++ [[goal]])
    obtain ⟨first, more, hfirst⟩ : ∃ l more, ls ++ ⟨.symbol ".", line⟩ :: rest = l :: more :=
      List.exists_cons_of_ne_nil (by simp)
    rw [List.append_assoc, List.singleton_append]
    rw [hfirst] at parsed ⊢
    rw [readClauses]
    dsimp only
    rw [List.length_nil, Nat.zero_add, parsed]
    dsimp only [Draft.add]
    rw [behind]
    simp

lemma length_le_flatMap (tss : List (List Token)) :
    tss.length ≤ (tss.flatMap (· ++ [.symbol "."])).length := by
  induction tss with
  | nil => exact Nat.le_refl 0
  | cons ts tss ih =>
    rw [List.flatMap_cons, List.length_append, List.length_append, List.length_cons]
    simp only [List.length_singleton]
    omega

theorem read_goals {cs : List Char} (cuts : Cuts cs (tss.flatMap (· ++ [.symbol "."])))
    (h : DeriveAll tss goals) : read cs = ⟨[], .ok ⟨[], goals.map ([·])⟩⟩ := by
  obtain ⟨ls, hscan, hls⟩ := cuts.scanWithin 1 (Nat.le_refl cs.length)
  have enough : tss.length ≤ ls.length :=
    (length_le_flatMap tss).trans_eq (by rw [← hls, List.length_map])
  rw [read, Token.scan, hscan]
  exact readClauses_goals h hls enough []

theorem read_goal {cs : List Char} {ts : List Token} {goal : Term} {p : Nat}
    (cuts : Cuts cs (ts ++ [.symbol "."])) (derives : Derives ts (.term goal p))
    (hp : p ≤ Cursor.termMaximum) : read cs = ⟨[], .ok ⟨[], [[goal]]⟩⟩ := by
  have alone : DeriveAll [ts] [goal] := .cons ⟨p, hp, derives⟩ .nil
  exact read_goals (by simpa using cuts) alone

end Program

lemma split_at_last {α : Type} {a : α} {xs ys ds es : List α} (hds : a ∉ ds) (hes : a ∉ es)
    (h : xs ++ a :: ds = ys ++ a :: es) : xs = ys ∧ ds = es := by
  obtain ⟨more, rfl, hmore⟩ | ⟨more, rfl, hmore⟩ := List.append_eq_append_iff.mp h
  all_goals
    cases more with
    | nil => simpa [eq_comm] using hmore
    | cons b more => simp_all

lemma Variable.injOn_asRead : Set.InjOn Variable.asRead {v | 0 < v.scope} := by
  -- The last underscore of a text tells the name before it and the scope behind it.
  intro v hv w hw heq
  have digits : ∀ n : Nat, '_' ∉ n.repr.toList := fun _ mark => nomatch isDigit_of_mem_repr mark
  have texts : v.name.toList ++ '_' :: v.scope.repr.toList =
      w.name.toList ++ '_' :: w.scope.repr.toList := by
    have same := congrArg (fun u : Variable => u.name.toList) heq
    simpa [asRead, text, Nat.ne_of_gt hv, Nat.ne_of_gt hw] using same
  obtain ⟨names, scopes⟩ := split_at_last (digits _) (digits _) texts
  have same : v.scope = w.scope := Nat.repr_inj.mp (String.toList_inj.mp scopes)
  cases v
  cases w
  simp_all [String.toList_inj]

/-- What is printed is read back: the text of a term and a dot are a program of one clause, which has
the term as its only goal, with its variables named by their texts; and variables with different
positive scopes or different names have different texts. -/
theorem read_text :
    (∀ t : Term, t.IsReadable →
      Program.readBytes (t.text ++ ".").toUTF8 = ⟨[], .ok ⟨[], [[t.asRead]]⟩⟩) ∧
    Set.InjOn Variable.asRead {v | 0 < v.scope} := by
  refine ⟨fun t h => ?_, Variable.injOn_asRead⟩
  obtain ⟨ts, p, hp, spells, derives⟩ := h.writes Term.topMaximum
  have dot : Cuts (".".toList ++ []) [.symbol "."] := .symbol (by decide) (by simp) .nil
  have ends : Ends ".".toList := ⟨by decide, by decide, by simp⟩
  rw [Program.readBytes_toUTF8, String.toList_append]
  exact Program.read_goal (spells.cuts _ _ ends dot) derives hp

/-- Signs next to one another, a variable in a scope, a negative number and quotes. -/
theorem read_text_signs :
    let t : Term := .compound "<" [.var ⟨"X", 2⟩, .compound "-" [.compound "-" [.compound "Ok?"
      [.list [.int (-3), .str "a\"b"]] 0] 200] 200] 700
    t.text = "X_2<--'Ok?'([-3,\"a\\\"b\"])" ∧
      Program.readBytes "X_2<--'Ok?'([-3,\"a\\\"b\"]).".toUTF8 = ⟨[], .ok ⟨[], [[
        .compound "<" [.var ⟨"X_2", 0⟩, .compound "-" [.compound "-" [.compound "Ok?"
          [.list [.int (-3), .str "a\"b"]] 0] 200] 200] 700]]⟩⟩ := by
  intro t
  let minus : Operator := ⟨"-", 200, .fy⟩
  have written : t.text = "X_2<--'Ok?'([-3,\"a\\\"b\"])" := by cbv
  have items : ∀ u ∈ [Term.int (-3), .str "a\"b"], u.IsReadable := by
    simp only [List.forall_mem_cons]
    exact ⟨.int (by decide), .str (List.all_eq_true.mp rfl), by simp⟩
  have inner : (Term.compound "Ok?" [.list [.int (-3), .str "a\"b"]] 0).IsReadable :=
    .ordinary (by decide) (by simpa using .list items)
  have once : (Term.compound "-" [.compound "Ok?" [.list [.int (-3), .str "a\"b"]] 0] 200).IsReadable :=
    @Term.IsReadable.unary minus _ (by decide) inner (by decide +kernel)
  have readable : t.IsReadable :=
    @Term.IsReadable.binary ⟨"<", 700, .xfx⟩ _ _ (by decide) (.var (by decide) (by decide))
      (@Term.IsReadable.unary minus _ (by decide) once (by decide +kernel))
  have back := read_text.1 t readable
  rw [written] at back
  exact ⟨written, back⟩

end ConstraintHandling
