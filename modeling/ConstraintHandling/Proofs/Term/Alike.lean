import ConstraintHandling.Proofs.Term.Equality
import ConstraintHandling.Proofs.Term.Occurrences

/-! Terms that are alike. Two terms are the same tree up to operator priorities and signs of zeros just
when they have the same canonical form; so being alike is an equivalence, it goes into the parts of
terms, and alike terms have the same size. -/
namespace ConstraintHandling

/-- The number with which both zeros are replaced by the positive one. -/
def Binary64.unsigned (x : Binary64) : Binary64 :=
  if x.isZero then ⟨0⟩ else x

lemma Binary64.unsigned_eq_iff {x y : Binary64} :
    x.unsigned = y.unsigned ↔ x = y ∨ x.equal y = true := by
  have zero : (⟨0⟩ : Binary64).isZero = true := by decide +kernel
  have apart {z w : Binary64} (hz : z.isZero = true) (hw : w.isZero = false) : z ≠ w := by
    rintro rfl
    rw [hz] at hw
    cases hw
  rw [equal_iff, unsigned, unsigned]
  cases hx : x.isZero with
  | true =>
    cases hy : y.isZero with
    | true => simp
    | false => simp [apart hx hy, apart zero hy]
  | false =>
    cases hy : y.isZero with
    | true => simp [(apart hy hx).symm, (apart zero hx).symm]
    | false => simpa using fun (same : x = y) _ => same

namespace Term

mutual
/-- The term without operator priorities and without negative zeros. -/
def canonical : Term → Term
  | .float x => .float x.unsigned
  | .compound f as _ => .compound f (canonicalAll as) 0
  | .list as => .list (canonicalAll as)
  | t => t
def canonicalAll : List Term → List Term
  | [] => []
  | a :: as => canonical a :: canonicalAll as
end

@[simp] lemma canonicalAll_eq (as : List Term) : canonicalAll as = as.map canonical := by
  induction as with
  | nil => simp [canonicalAll]
  | cons a as ih => simp [canonicalAll, ih]

lemma alikeAll_iff (as bs : List Term)
    (h : ∀ a ∈ as, ∀ b, a.alike b = true ↔ a.canonical = b.canonical) :
    alikeAll as bs = true ↔ as.map canonical = bs.map canonical := by
  induction as generalizing bs with
  | nil => cases bs <;> simp [alikeAll]
  | cons a as ih =>
    obtain ⟨ha, has⟩ := List.forall_mem_cons.mp h
    cases bs with
    | nil => simp [alikeAll]
    | cons b bs => simp [alikeAll, ha, ih bs has]

/-- Terms are alike when they have the same canonical form. -/
theorem alike_iff {s t : Term} : s.alike t = true ↔ s.canonical = t.canonical := by
  induction s using children_induction generalizing t with
  | step s ih =>
    cases s with
    | float x =>
      cases t with
      | float y => simp [alike, canonical, Binary64.unsigned_eq_iff]
      | _ => simp [alike, canonical]
    | compound f as p =>
      cases t with
      | compound g bs q => simp [alike, canonical, alikeAll_iff as bs fun a ha b => ih a ha]
      | _ => simp [alike, canonical]
    | list as =>
      cases t with
      | list bs => simp [alike, canonical, alikeAll_iff as bs fun a ha b => ih a ha]
      | _ => simp [alike, canonical]
    | _ => cases t <;> simp [alike, canonical]

variable {s t u : Term}

theorem alike_symm (h : s.alike t = true) : t.alike s = true :=
  alike_iff.mpr (alike_iff.mp h).symm

theorem alike_trans (h : s.alike t = true) (h' : t.alike u = true) : s.alike u = true :=
  alike_iff.mpr ((alike_iff.mp h).trans (alike_iff.mp h'))

lemma size_canonical (t : Term) : t.canonical.size = t.size := by
  have parts (as : List Term) (h : ∀ a ∈ as, a.canonical.size = a.size) :
      sizeAll (as.map canonical) = sizeAll as := by
    induction as with
    | nil => rfl
    | cons a as ih =>
      obtain ⟨ha, has⟩ := List.forall_mem_cons.mp h
      rw [List.map_cons, sizeAll, sizeAll, ha, ih has]
  induction t using children_induction with
  | step t ih =>
    cases t with
    | compound f as p =>
      rw [canonical, canonicalAll_eq, size, size, parts as ih]
    | list as =>
      rw [canonical, canonicalAll_eq, size, size, parts as ih]
    | _ => rfl

theorem size_eq_of_alike (h : s.alike t = true) : s.size = t.size := by
  rw [← size_canonical s, alike_iff.mp h, size_canonical]

end Term
end ConstraintHandling
