import ConstraintHandling.Proofs.Binary64
import ConstraintHandling.Proofs.Term.Subterms

/-! Equality of terms. It is symmetric and transitive, although a term that holds a NaN does not equal
itself, and equal terms have the same size. A wider notion is reflexive too: it makes no difference
between operator priorities, and none between a float and itself. -/
namespace ConstraintHandling

namespace Binary64

lemma equal_symm {x y : Binary64} (h : x.equal y = true) : y.equal x = true := by
  rw [equal_iff] at h ⊢
  obtain ⟨rfl, number⟩ | ⟨hx, hy⟩ := h
  · exact .inl ⟨rfl, number⟩
  · exact .inr ⟨hy, hx⟩

lemma equal_trans {x y z : Binary64} (h : x.equal y = true) (h' : y.equal z = true) :
    x.equal z = true := by
  rw [equal_iff] at h h' ⊢
  obtain ⟨rfl, number⟩ | ⟨hx, hy⟩ := h
  · exact h'
  · obtain ⟨rfl, -⟩ | ⟨-, hz⟩ := h'
    · exact .inr ⟨hx, hy⟩
    · exact .inr ⟨hx, hz⟩

end Binary64

namespace Term

/-- A term whose equality to others is identity, whatever its value. -/
def isPlain : Term → Bool
  | .atom _ | .bool _ | .int _ | .str _ | .var _ => true
  | .float _ | .compound .. | .list _ => false

/-- The ways in which two terms are equal. -/
inductive Equal : Term → Term → Prop
  | plain {t : Term} (h : t.isPlain = true) : Equal t t
  | float {x y : Binary64} (h : x.equal y = true) : Equal (.float x) (.float y)
  | compound {f : String} {as bs : List Term} {p : Nat} (parts : beqAll as bs = true) :
      Equal (.compound f as p) (.compound f bs p)
  | list {as bs : List Term} (parts : beqAll as bs = true) : Equal (.list as) (.list bs)

theorem beq_iff_equal {s t : Term} : (s == t) = true ↔ Equal s t := by
  change beq s t = true ↔ _
  constructor
  · intro h
    cases s with
    | float x =>
      cases t with
      | float y => exact .float (by rwa [beq] at h)
      | _ => cases h
    | compound f as p =>
      cases t with
      | compound g bs q =>
        simp only [beq, Bool.and_eq_true, beq_iff_eq] at h
        obtain ⟨⟨rfl, rfl⟩, parts⟩ := h
        exact .compound parts
      | _ => cases h
    | list as =>
      cases t with
      | list bs => exact .list (by rwa [beq] at h)
      | _ => cases h
    | _ =>
      cases t <;> simp [beq] at h
      subst h
      exact .plain rfl
  · intro h
    cases h with
    | plain h =>
      cases s with
      | float | compound | list => cases h
      | _ => simp [beq]
    | float h => rwa [beq]
    | compound parts => simpa [beq] using parts
    | list parts => rwa [beq]

lemma beq_compound {f g : String} {as bs : List Term} {p q : Nat} :
    (compound f as p == compound g bs q) = true ↔ f = g ∧ p = q ∧ beqAll as bs = true := by
  change beq _ _ = true ↔ _
  simp [beq, and_assoc]

lemma beq_list {as bs : List Term} : (list as == list bs) = true ↔ beqAll as bs = true := by
  change beq _ _ = true ↔ _
  rw [beq]

lemma beqAll_iff {as bs : List Term} :
    beqAll as bs = true ↔ List.Forall₂ (fun a b => (a == b) = true) as bs := by
  induction as generalizing bs with
  | nil => cases bs <;> simp [beqAll]
  | cons a as ih =>
    cases bs with
    | nil => simp [beqAll]
    | cons b bs => rw [beqAll_cons, Bool.and_eq_true, List.forall₂_cons, ih]

lemma forall₂_of_beqAll {motive : Term → Term → Prop} {as bs : List Term}
    (h : ∀ a ∈ as, ∀ b, (a == b) = true → motive a b) (parts : beqAll as bs = true) :
    List.Forall₂ motive as bs := by
  induction beqAll_iff.mp parts with
  | nil => exact .nil
  | cons hab later ih =>
    obtain ⟨ha, has⟩ := List.forall_mem_cons.mp h
    exact .cons (ha _ hab) (ih has (beqAll_iff.mpr later))

/-- Induction on two equal terms by their parts. -/
theorem beq_induction {motive : Term → Term → Prop} (plain : ∀ t, t.isPlain = true → motive t t)
    (float : ∀ x y : Binary64, x.equal y = true → motive (.float x) (.float y))
    (compound : ∀ f as bs p, List.Forall₂ motive as bs →
      motive (.compound f as p) (.compound f bs p))
    (list : ∀ as bs, List.Forall₂ motive as bs → motive (.list as) (.list bs))
    {s t : Term} (h : (s == t) = true) : motive s t := by
  induction s using children_induction generalizing t with
  | step s ih =>
    cases beq_iff_equal.mp h with
    | plain identity => exact plain s identity
    | float values => exact float _ _ values
    | compound parts => exact compound _ _ _ _ (forall₂_of_beqAll (fun a ha _ => ih a ha) parts)
    | list parts => exact list _ _ (forall₂_of_beqAll (fun a ha _ => ih a ha) parts)

variable {s t u : Term}

theorem beq_symm (h : (s == t) = true) : (t == s) = true := by
  refine beq_induction (motive := fun s t => (t == s) = true) ?_ ?_ ?_ ?_ h
  · exact fun t plain => beq_iff_equal.mpr (.plain plain)
  · exact fun x y h => beq_iff_equal.mpr (.float (Binary64.equal_symm h))
  · exact fun f as bs p parts => beq_iff_equal.mpr (.compound (beqAll_iff.mpr parts.flip))
  · exact fun as bs parts => beq_iff_equal.mpr (.list (beqAll_iff.mpr parts.flip))

theorem beq_trans (h : (s == t) = true) (h' : (t == u) = true) : (s == u) = true := by
  have parts {as bs cs : List Term}
      (h : List.Forall₂ (fun s t => ∀ u, (t == u) = true → (s == u) = true) as bs)
      (h' : beqAll bs cs = true) : beqAll as cs = true := by
    induction h generalizing cs with
    | nil => exact h'
    | cons hab _ ih =>
      cases cs with
      | nil => simp [beqAll] at h'
      | cons c cs =>
        rw [beqAll_cons, Bool.and_eq_true] at h' ⊢
        exact ⟨hab c h'.1, ih h'.2⟩
  refine beq_induction (motive := fun s t => ∀ u, (t == u) = true → (s == u) = true)
    ?_ ?_ ?_ ?_ h u h'
  · exact fun t _ u h => h
  · intro x y h u h'
    cases beq_iff_equal.mp h' with
    | plain h => cases h
    | float later => exact beq_iff_equal.mpr (.float (Binary64.equal_trans h later))
  · intro f as bs p h u h'
    cases beq_iff_equal.mp h' with
    | plain h => cases h
    | compound later => exact beq_iff_equal.mpr (.compound (parts h later))
  · intro as bs h u h'
    cases beq_iff_equal.mp h' with
    | plain h => cases h
    | list later => exact beq_iff_equal.mpr (.list (parts h later))

theorem size_eq_of_beq (h : (s == t) = true) : s.size = t.size := by
  have parts {as bs : List Term} (h : List.Forall₂ (fun s t => s.size = t.size) as bs) :
      sizeAll as = sizeAll bs := by
    induction h with
    | nil => rfl
    | cons hab _ ih => rw [sizeAll, sizeAll, hab, ih]
  refine beq_induction (motive := fun s t => s.size = t.size) ?_ ?_ ?_ ?_ h
  · exact fun t _ => rfl
  · exact fun x y _ => rfl
  · exact fun f as bs p h => congrArg (· + 1) (parts h)
  · exact fun as bs h => congrArg (· + 1) (parts h)

mutual
/-- The same tree, operator priorities apart. Floats count as the same when they have the same bits or
compare as equal. -/
def alike : Term → Term → Bool
  | .atom a, .atom b => a == b
  | .bool a, .bool b => a == b
  | .int a, .int b => a == b
  | .float a, .float b => a == b || a.equal b
  | .str a, .str b => a == b
  | .compound f as _, .compound g bs _ => f == g && alikeAll as bs
  | .list as, .list bs => alikeAll as bs
  | .var v, .var w => v == w
  | _, _ => false
def alikeAll : List Term → List Term → Bool
  | [], [] => true
  | a :: as, b :: bs => alike a b && alikeAll as bs
  | _, _ => false
end

mutual
theorem alike_refl : (t : Term) → t.alike t = true
  | .compound _ as _ => by simp [alike, alikeAll_refl as]
  | .list as => by simp [alike, alikeAll_refl as]
  | .atom _ | .bool _ | .int _ | .float _ | .str _ | .var _ => by simp [alike]
theorem alikeAll_refl : (ts : List Term) → alikeAll ts ts = true
  | [] => by simp [alikeAll]
  | t :: ts => by simp [alikeAll, alike_refl t, alikeAll_refl ts]
end

theorem alike_of_beq (h : (s == t) = true) : s.alike t = true := by
  have parts {as bs : List Term} (h : List.Forall₂ (fun s t => s.alike t = true) as bs) :
      alikeAll as bs = true := by
    induction h with
    | nil => exact alikeAll_refl []
    | cons hab _ ih => simp [alikeAll, hab, ih]
  refine beq_induction (motive := fun s t => s.alike t = true) ?_ ?_ ?_ ?_ h
  · exact fun t _ => t.alike_refl
  · exact fun x y h => by simp [alike, h]
  · exact fun f as bs p h => by simp [alike, parts h]
  · exact fun as bs h => by simp [alike, parts h]

end Term
end ConstraintHandling
