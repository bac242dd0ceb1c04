import ConstraintHandling.Proofs.Term.Equality
import ConstraintHandling.Proofs.Term.Occurrences

/-! What a replacement leaves behind. The term that is replaced can be found in the result only where the
new term overlaps it: where the new term contains it, or is one of its parts, so that it arises around
the new term. -/
namespace ConstraintHandling
namespace Term
variable {s t u v old new : Term}

/-- Some subterm equals the other term. -/
def Contains (t u : Term) : Prop :=
  ∃ v ∈ t.subterms, (v == u) = true

instance (t u : Term) : Decidable (t.Contains u) :=
  inferInstanceAs (Decidable (∃ v ∈ t.subterms, (v == u) = true))

section Containment

lemma contains_iff : t.Contains u ↔ (t == u) = true ∨ ∃ a ∈ t.children, a.Contains u := by
  simp only [Contains]
  rw [subterms_eq, List.exists_mem_cons_iff]
  simp only [List.mem_flatMap]
  grind

lemma Contains.of_child {a : Term} (ha : a ∈ t.children) (h : a.Contains u) : t.Contains u :=
  contains_iff.mpr (.inr ⟨a, ha, h⟩)

lemma exists_mem_of_beqAll {as bs : List Term} {a : Term} (h : beqAll as bs = true) (ha : a ∈ as) :
    ∃ b ∈ bs, (a == b) = true := by
  induction beqAll_iff.mp h with
  | nil => cases ha
  | cons hab later ih =>
    obtain rfl | ha := List.mem_cons.mp ha
    · exact ⟨_, List.mem_cons_self, hab⟩
    · obtain ⟨b, hb, equal⟩ := ih (beqAll_iff.mpr later) ha
      exact ⟨b, List.mem_cons_of_mem _ hb, equal⟩

lemma exists_child_of_beq {a : Term} (h : (s == t) = true) (ha : a ∈ s.children) :
    ∃ b ∈ t.children, (a == b) = true := by
  cases beq_iff_equal.mp h with
  | plain identity =>
    cases s with
    | compound | list => cases identity
    | _ => cases ha
  | float values => cases ha
  | compound parts => exact exists_mem_of_beqAll parts ha
  | list parts => exact exists_mem_of_beqAll parts ha

lemma exists_subterm_of_beq (h : (s == t) = true) (hv : v ∈ s.subterms) :
    ∃ w ∈ t.subterms, (v == w) = true := by
  induction s using children_induction generalizing t with
  | step s ih =>
    rw [subterms_eq] at hv
    obtain rfl | hv := List.mem_cons.mp hv
    · exact ⟨t, t.self_mem_subterms, h⟩
    · obtain ⟨a, ha, hv⟩ := List.mem_flatMap.mp hv
      obtain ⟨b, hb, hab⟩ := exists_child_of_beq h ha
      obtain ⟨w, hw, hvw⟩ := ih a ha hab hv
      exact ⟨w, mem_subterms_of_child hb hw, hvw⟩

lemma Contains.of_beq (h : (s == t) = true) (hs : s.Contains u) : t.Contains u := by
  obtain ⟨v, hv, hvu⟩ := hs
  obtain ⟨w, hw, hvw⟩ := exists_subterm_of_beq h hv
  exact ⟨w, hw, beq_trans (beq_symm hvw) hvu⟩

lemma Contains.trans (h : t.Contains u) (h' : u.Contains v) : t.Contains v := by
  obtain ⟨w, hw, hwu⟩ := h
  obtain ⟨x, hx, hxv⟩ := h'.of_beq (beq_symm hwu)
  exact ⟨x, mem_subterms_trans hw hx, hxv⟩

lemma Contains.beq_self (h : t.Contains u) : (u == u) = true := by
  obtain ⟨v, -, hv⟩ := h
  exact beq_trans (beq_symm hv) hv

end Containment

section Replacing

lemma replace_of_beq (h : (t == old) = true) : replace old new t = new := by
  cases t <;> simp [replace, h]

lemma children_replace (h : ¬(t == old) = true) :
    (replace old new t).children = t.children.map (replace old new) := by
  cases t <;> simp [replace, h, children]

lemma replace_mem_children {a : Term} (whole : ¬(t == old) = true) (ha : a ∈ t.children) :
    replace old new a ∈ (replace old new t).children := by
  rw [children_replace whole]
  exact List.mem_map_of_mem ha

lemma replace_of_not_contains (h : ¬t.Contains old) : replace old new t = t := by
  have parts {as : List Term} (below : ∀ a ∈ as, replace old new a = a) :
      as.map (replace old new) = as :=
    (List.map_congr_left below).trans (List.map_id' as)
  induction t using Term.induction with
  | var v =>
    rw [contains_iff, not_or] at h
    simp [replace, h.1]
  | constant t ht =>
    rw [contains_iff, not_or] at h
    rw [replace_of_isConstant ht, if_neg h.1]
  | compound f as p ih =>
    rw [contains_iff, not_or] at h
    rw [replace, if_neg h.1, replaceAll_eq, parts fun a ha => ih a ha fun inside => h.2 ⟨a, ha, inside⟩]
  | list as ih =>
    rw [contains_iff, not_or] at h
    rw [replace, if_neg h.1, replaceAll_eq, parts fun a ha => ih a ha fun inside => h.2 ⟨a, ha, inside⟩]

lemma new_mem_subterms_replace (h : t.Contains old) : new ∈ (replace old new t).subterms := by
  induction t using children_induction with
  | step t ih =>
    by_cases whole : (t == old) = true
    · rw [replace_of_beq whole]
      exact new.self_mem_subterms
    · obtain ⟨a, ha, inside⟩ := (contains_iff.mp h).resolve_left whole
      exact mem_subterms_of_child (replace_mem_children whole ha) (ih a ha inside)

/-- What is contained in the result was there before and has no part that is replaced, or it overlaps the
new term. -/
theorem contains_of_replace (h : (replace old new t).Contains u) :
    t.Contains u ∧ ¬u.Contains old ∨ t.Contains old ∧ (new.Contains u ∨ u.Contains new) := by
  induction t using children_induction with
  | step t ih =>
    by_cases found : t.Contains old
    · by_cases whole : (t == old) = true
      · rw [replace_of_beq whole] at h
        exact .inr ⟨found, .inl h⟩
      · obtain h | ⟨a, ha, h⟩ := contains_iff.mp h
        -- The new term is in the result, so that it is in all that equals the result.
        · obtain ⟨w, hw, same⟩ := exists_subterm_of_beq h (new_mem_subterms_replace found)
          exact .inr ⟨found, .inr ⟨w, hw, beq_symm same⟩⟩
        · rw [children_replace whole] at ha
          obtain ⟨b, hb, rfl⟩ := List.mem_map.mp ha
          obtain ⟨kept, free⟩ | ⟨inside, overlap⟩ := ih b hb h
          · exact .inl ⟨kept.of_child hb, free⟩
          · exact .inr ⟨inside.of_child hb, overlap⟩
    · rw [replace_of_not_contains found] at h
      exact .inl ⟨h, fun inside => found (h.trans inside)⟩

end Replacing
end Term
end ConstraintHandling
