import Std.Data.TreeMap

/-! Sequences kept under keys. Every key has a sequence, empty at first, that only grows at its end,
so that a position in it designates the same element for ever. -/
namespace ConstraintHandling

/-- A growing sequence of elements for every key. -/
structure Buckets (κ : Type) (α : Type) (order : κ → κ → Ordering) where
  sequences : Std.TreeMap κ (Array α) order

namespace Buckets
variable {κ α : Type} {order : κ → κ → Ordering}

def empty : Buckets κ α order := ⟨∅⟩

instance : Inhabited (Buckets κ α order) := ⟨empty⟩

def get (b : Buckets κ α order) (k : κ) : Array α :=
  b.sequences.getD k #[]

def push (b : Buckets κ α order) (k : κ) (a : α) : Buckets κ α order :=
  ⟨b.sequences.alter k fun
    | some elements => some (elements.push a)
    | none => some #[a]⟩

@[simp] theorem get_empty (k : κ) : (empty : Buckets κ α order).get k = #[] := rfl

theorem get_push [DecidableEq κ] [Std.TransCmp order] [Std.LawfulEqCmp order]
    (b : Buckets κ α order) (k l : κ) (a : α) :
    (b.push k a).get l = if k = l then (b.get l).push a else b.get l := by
  simp only [get, push, Std.TreeMap.getD_alter, Std.LawfulEqCmp.compare_eq_iff_eq]
  split
  · next same =>
    subst same
    rw [Std.TreeMap.getD_eq_getD_getElem?]
    cases b.sequences[k]? <;> simp
  · rfl

@[simp] theorem get_push_self [DecidableEq κ] [Std.TransCmp order] [Std.LawfulEqCmp order]
    (b : Buckets κ α order) (k : κ) (a : α) : (b.push k a).get k = (b.get k).push a := by
  simp [get_push]

end Buckets
end ConstraintHandling
