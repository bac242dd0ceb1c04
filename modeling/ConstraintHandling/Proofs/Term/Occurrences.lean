import ConstraintHandling.Proofs.Scope.Variables
import ConstraintHandling.Proofs.Term.Subterms

/-! The variables that occur in terms, and what terms become when other terms are put in their
places. -/
namespace ConstraintHandling
namespace Term
variable {f g σ : Variable → Term} {s t a : Term} {v : Variable}

lemma var_or_not_var (t : Term) : (∃ v, t = .var v) ∨ t.asVariable? = none := by
  cases t <;> simp [asVariable?]

lemma mem_occurrences_iff : v ∈ t.occurrences ↔ t = .var v ∨ ∃ a ∈ t.children, v ∈ a.occurrences := by
  cases t <;> simp [occurrences, children, eq_comm]

lemma size_le_sizeAll {ts : List Term} (h : t ∈ ts) : t.size ≤ sizeAll ts := by
  induction ts with
  | nil => cases h
  | cons u ts ih =>
    rw [sizeAll]
    obtain rfl | h := List.mem_cons.mp h
    · omega
    · have := ih h
      omega

lemma children_mapVariables (ht : t.asVariable? = none) :
    (t.mapVariables σ).children = t.children.map (mapVariables σ) := by
  cases t with
  | var => cases ht
  | _ => simp [mapVariables, children]

lemma size_lt_of_mem_children (h : a ∈ t.children) : a.size < t.size := by
  cases t with
  | compound | list => exact Nat.lt_succ_of_le (size_le_sizeAll h)
  | _ => cases h

lemma size_le_of_mem_subterms {u : Term} (h : u ∈ t.subterms) : u.size ≤ t.size := by
  induction t using children_induction with
  | step t ih =>
    rw [subterms_eq] at h
    obtain rfl | h := List.mem_cons.mp h
    · exact le_rfl
    · obtain ⟨a, ha, h⟩ := List.mem_flatMap.mp h
      exact (ih a ha h).trans (size_lt_of_mem_children ha).le

lemma size_mapVariables_lt (h : a ∈ t.children) :
    (a.mapVariables σ).size < (t.mapVariables σ).size := by
  apply size_lt_of_mem_children
  rw [children_mapVariables (by cases t <;> first | rfl | cases h)]
  exact List.mem_map_of_mem h

lemma mem_subterms_mapVariables (h : v ∈ t.occurrences) : σ v ∈ (t.mapVariables σ).subterms := by
  induction t using children_induction with
  | step t ih =>
    obtain rfl | ⟨a, ha, hv⟩ := mem_occurrences_iff.mp h
    · exact self_mem_subterms _
    · refine mem_subterms_of_child ?_ (ih a ha hv)
      rw [children_mapVariables (by cases t <;> first | rfl | cases ha)]
      exact List.mem_map_of_mem ha

lemma size_le_of_mem_occurrences (h : v ∈ t.occurrences) :
    (σ v).size ≤ (t.mapVariables σ).size :=
  size_le_of_mem_subterms (mem_subterms_mapVariables h)

lemma size_lt_of_mem_occurrences (ht : t.asVariable? = none) (h : v ∈ t.occurrences) :
    (σ v).size < (t.mapVariables σ).size := by
  obtain rfl | ⟨a, ha, hv⟩ := mem_occurrences_iff.mp h
  · cases ht
  · exact (size_le_of_mem_occurrences hv).trans_lt (size_mapVariables_lt ha)

lemma mapVariables_congr (h : ∀ v ∈ t.occurrences, f v = g v) :
    t.mapVariables f = t.mapVariables g := by
  induction t using Term.induction with
  | var v => exact h v (by simp [occurrences])
  | constant t ht => rw [mapVariables_of_isConstant ht, mapVariables_of_isConstant ht]
  | compound k args p ih =>
    simp only [occurrences, occurrencesAll_eq, List.mem_flatMap] at h
    rw [mapVariables, mapVariables, mapVariablesAll_eq, mapVariablesAll_eq]
    congr 1
    exact List.map_congr_left fun a ha => ih a ha fun v hv => h v ⟨a, ha, hv⟩
  | list items ih =>
    simp only [occurrences, occurrencesAll_eq, List.mem_flatMap] at h
    rw [mapVariables, mapVariables, mapVariablesAll_eq, mapVariablesAll_eq]
    congr 1
    exact List.map_congr_left fun a ha => ih a ha fun v hv => h v ⟨a, ha, hv⟩

lemma mapVariables_var (t : Term) : t.mapVariables .var = t := by
  induction t using Term.induction with
  | var v => rfl
  | constant t ht => exact mapVariables_of_isConstant ht
  | compound k args p ih =>
    rw [mapVariables, mapVariablesAll_eq, List.map_congr_left ih, List.map_id']
  | list items ih =>
    rw [mapVariables, mapVariablesAll_eq, List.map_congr_left ih, List.map_id']

lemma mapVariables_eq_self (h : ∀ v ∈ t.occurrences, f v = .var v) : t.mapVariables f = t :=
  (mapVariables_congr h).trans t.mapVariables_var

end Term
end ConstraintHandling
