import ConstraintHandling.Proofs.Program.Grammar
import Mathlib

/-! Numbering of anonymous variables. An anonymous variable is read as a variable that is named by its
number, so that the grammar, which knows named variables only, applies to the tokens that are left when
all anonymous variables are named in this way. -/
namespace ConstraintHandling

namespace Token

def isAnonymous : Token → Bool
  | .var v => v == "_"
  | _ => false

/-- The tokens with every anonymous variable named by its number, `n` others having come before. -/
def numbered : Nat → List Token → List Token
  | _, [] => []
  | n, t :: ts =>
    if t.isAnonymous then .var (Cursor.anonymousName (n + 1)) :: numbered (n + 1) ts
    else t :: numbered n ts

variable {t : Token} {n : Nat} {ts : List Token}

lemma isAnonymous_iff : t.isAnonymous = true ↔ t = .var "_" := by
  cases t with
  | var v => simp [isAnonymous]
  | _ => simp [isAnonymous]

lemma isAnonymous_eq_false (h : t ≠ .var "_") : t.isAnonymous = false := by
  rwa [Bool.eq_false_iff, Ne, isAnonymous_iff]

lemma numbered_cons_of_anonymous :
    numbered n (.var "_" :: ts) = .var (Cursor.anonymousName (n + 1)) :: numbered (n + 1) ts := by
  rw [numbered, if_pos (isAnonymous_iff.mpr rfl)]

lemma numbered_cons (h : t ≠ .var "_") : numbered n (t :: ts) = t :: numbered n ts := by
  rw [numbered, if_neg (by simp [isAnonymous_eq_false h])]

lemma numbered_append (n : Nat) (ts us : List Token) :
    numbered n (ts ++ us) = numbered n ts ++ numbered (n + ts.countP isAnonymous) us := by
  induction ts generalizing n with
  | nil => rfl
  | cons t ts ih =>
    rw [List.cons_append, List.countP_cons]
    by_cases h : t = .var "_"
    · subst h
      rw [numbered_cons_of_anonymous, numbered_cons_of_anonymous, ih, List.cons_append,
        if_pos (isAnonymous_iff.mpr rfl), Nat.add_assoc, Nat.add_comm 1]
    · rw [numbered_cons h, numbered_cons h, ih, List.cons_append,
        if_neg (by simp [isAnonymous_eq_false h]), Nat.add_zero]

lemma numbered_eq_self (h : .var "_" ∉ ts) : numbered n ts = ts := by
  induction ts with
  | nil => rfl
  | cons t ts ih =>
    obtain ⟨other, named⟩ := not_or.mp (mt List.mem_cons.mpr h)
    rw [numbered_cons (Ne.symm other), ih named]

lemma countP_isAnonymous_eq_zero (h : .var "_" ∉ ts) : ts.countP isAnonymous = 0 := by
  rw [List.countP_eq_zero]
  intro t ht anonymous
  exact h (isAnonymous_iff.mp anonymous ▸ ht)

lemma symbol_mem_numbered {s : String} : .symbol s ∈ numbered n ts ↔ .symbol s ∈ ts := by
  induction ts generalizing n with
  | nil => rfl
  | cons t ts ih =>
    by_cases h : t = .var "_"
    · rw [h, numbered_cons_of_anonymous]
      simp [ih]
    · rw [numbered_cons h, List.mem_cons, List.mem_cons, ih]

lemma numbered_eq_concat {us : List Token} {s : String} (h : numbered n ts = us ++ [.symbol s]) :
    ∃ vs, ts = vs ++ [.symbol s] ∧ numbered n vs = us := by
  obtain rfl | ⟨vs, a, rfl⟩ := List.eq_nil_or_concat ts
  · simp [numbered] at h
  · rw [List.concat_eq_append, numbered_append] at h
    by_cases anonymous : a = .var "_"
    · rw [anonymous, numbered_cons_of_anonymous] at h
      have last := (List.append_inj' h rfl).2
      simp at last
    · rw [numbered_cons anonymous] at h
      obtain ⟨front, last⟩ := List.append_inj' h rfl
      obtain rfl : a = .symbol s := (List.cons_eq_cons.mp last).1
      exact ⟨vs, List.concat_eq_append, front⟩

lemma negated?_head?_numbered (n : Nat) (ts : List Token) :
    (numbered n ts).head?.bind negated? = ts.head?.bind negated? := by
  cases ts with
  | nil => rfl
  | cons t ts =>
    by_cases h : t = .var "_"
    · rw [h, numbered_cons_of_anonymous]
      rfl
    · rw [numbered_cons h]
      rfl

end Token

namespace Cursor

lemma toList_anonymousName (n : Nat) : (anonymousName n).toList = '_' :: n.repr.toList := by
  rw [anonymousName, String.toList_append]
  rfl

lemma anonymousName_ne (n : Nat) : anonymousName n ≠ "_" := by
  intro h
  have none : n.repr = "" := by simpa [toList_anonymousName] using congrArg String.toList h
  exact Nat.repr_ne_empty none

lemma anonymousName_inj {m n : Nat} : anonymousName m = anonymousName n ↔ m = n := by
  rw [← String.toList_inj, toList_anonymousName, toList_anonymousName, List.cons_inj_right,
    String.toList_inj, Nat.repr_inj]

end Cursor
end ConstraintHandling
