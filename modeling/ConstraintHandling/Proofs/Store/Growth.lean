import ConstraintHandling.Proofs.Store.Index

/-! How stores grow. Terms are added at the end and constraints are consumed; neither changes the term
of a number or brings a consumed constraint back, so that old candidates keep their positions. -/
namespace ConstraintHandling

inductive Change where
  | add (t : Term)
  | consume (id : ConstraintId)

namespace Store

/-- Makes a change; a term that is refused leaves the store as it is. -/
def change (s : Store) : Change → Store
  | .add t =>
    match s.add t with
    | .ok (s', _) => s'
    | .error _ => s
  | .consume id => s.consume id

def changeAll (s : Store) (changes : List Change) : Store :=
  changes.foldl change s

/-- Some changes lead from the first store to the second one. -/
def Reaches (s s' : Store) : Prop :=
  ∃ changes, s.changeAll changes = s'

lemma changeAll_append (s : Store) (cs ds : List Change) :
    s.changeAll (cs ++ ds) = (s.changeAll cs).changeAll ds :=
  List.foldl_append

lemma Reaches.refl (s : Store) : s.Reaches s :=
  ⟨[], rfl⟩

lemma Reaches.trans {s₁ s₂ s₃ : Store} (h : s₁.Reaches s₂) (h' : s₂.Reaches s₃) :
    s₁.Reaches s₃ := by
  obtain ⟨cs, rfl⟩ := h
  obtain ⟨ds, rfl⟩ := h'
  exact ⟨cs ++ ds, changeAll_append s₁ cs ds⟩

lemma reaches_changeAll (s : Store) (changes : List Change) : s.Reaches (s.changeAll changes) :=
  ⟨changes, rfl⟩

lemma reaches_add {s s' : Store} {t : Term} {id : ConstraintId} (h : s.add t = .ok (s', id)) :
    s.Reaches s' :=
  ⟨[.add t], by simp [changeAll, change, h]⟩

lemma reaches_consume (s : Store) (id : ConstraintId) : s.Reaches (s.consume id) :=
  ⟨[.consume id], rfl⟩

/-- The second store holds the constraints of the first one and has consumed what the first one has
consumed. -/
structure Extends (s s' : Store) : Prop where
  size_le : s.size ≤ s'.size
  get : ∀ id < s.size, s'.get? id = s.get? id
  live : ∀ id < s.size, s'.isLive id = true → s.isLive id = true

lemma Extends.refl (s : Store) : s.Extends s :=
  ⟨Nat.le_refl _, fun _ _ => rfl, fun _ _ h => h⟩

lemma Extends.trans {s₁ s₂ s₃ : Store} (h : s₁.Extends s₂) (h' : s₂.Extends s₃) :
    s₁.Extends s₃ where
  size_le := h.size_le.trans h'.size_le
  get id hid := (h'.get id (hid.trans_le h.size_le)).trans (h.get id hid)
  live id hid hlive := h.live id hid (h'.live id (hid.trans_le h.size_le) hlive)

lemma InStep.extends_insert {s : Store} (h : s.InStep) (f : String) (t : Term) :
    s.Extends (s.insert f t) where
  size_le := by simp
  get id hid := by rw [get?_insert, if_neg hid.ne]
  live id hid hlive := by simpa [h.isLive_insert, hid.ne] using hlive

lemma extends_consume (s : Store) (id : ConstraintId) : s.Extends (s.consume id) where
  size_le := by simp
  get other _ := get?_consume s id other
  live other _ hlive := by
    rw [isLive_consume, Bool.and_eq_true] at hlive
    exact hlive.1

lemma inStep_change {s : Store} (h : s.InStep) (c : Change) : (s.change c).InStep := by
  cases c with
  | consume id => exact h.consume id
  | add t =>
    simp only [change]
    cases hadd : s.add t with
    | error e => exact h
    | ok added =>
      obtain ⟨s', id⟩ := added
      obtain ⟨f, -, rfl, rfl⟩ := add_eq_ok_iff.mp hadd
      exact h.insert f t

/-- Every list of the indexes has grown by the same numbers as the one of the constraints that belong
in it. -/
structure IndexesGrow (s s' : Store) : Prop where
  allOf : ∀ partition f, ∃ later,
    s'.idsWhere (hasFunctor partition f) = s.idsWhere (hasFunctor partition f) ++ later ∧
      (s'.allOf partition f).toList = (s.allOf partition f).toList ++ later
  bucket : ∀ partition f key, ∃ later,
    (s'.idsWhere fun t => hasFunctor partition f t && FirstArgument.ofConstraint t == key) =
        (s.idsWhere fun t => hasFunctor partition f t && FirstArgument.ofConstraint t == key) ++
          later ∧
      (s'.bucket partition f key).toList = (s.bucket partition f key).toList ++ later

lemma IndexesGrow.refl (s : Store) : s.IndexesGrow s :=
  ⟨fun _ _ => ⟨[], by simp⟩, fun _ _ _ => ⟨[], by simp⟩⟩

lemma IndexesGrow.trans {s₁ s₂ s₃ : Store} (h : s₁.IndexesGrow s₂) (h' : s₂.IndexesGrow s₃) :
    s₁.IndexesGrow s₃ where
  allOf partition f := by
    obtain ⟨first, terms, index⟩ := h.allOf partition f
    obtain ⟨second, terms', index'⟩ := h'.allOf partition f
    exact ⟨first ++ second, by simp [terms, terms'], by simp [index, index']⟩
  bucket partition f key := by
    obtain ⟨first, terms, index⟩ := h.bucket partition f key
    obtain ⟨second, terms', index'⟩ := h'.bucket partition f key
    exact ⟨first ++ second, by simp [terms, terms'], by simp [index, index']⟩

lemma indexesGrow_consume (s : Store) (id : ConstraintId) : s.IndexesGrow (s.consume id) where
  allOf partition f := ⟨[], by simp, (List.append_nil _).symm⟩
  bucket partition f key := ⟨[], by simp, (List.append_nil _).symm⟩

lemma indexesGrow_insert (s : Store) {f : String} {t : Term} (ht : t.functor? = some f) :
    s.IndexesGrow (s.insert f t) where
  allOf partition g := by
    refine ⟨_, idsWhere_insert .., ?_⟩
    rw [allOf_insert]
    simp only [hasFunctor, ht]
    by_cases hp : Partition.of t = partition <;> by_cases hf : f = g <;> simp [hp, hf]
  bucket partition g key := by
    refine ⟨_, idsWhere_insert .., ?_⟩
    rw [bucket_insert]
    simp only [hasFunctor, ht]
    by_cases hp : Partition.of t = partition <;> by_cases hf : f = g <;>
      by_cases hk : FirstArgument.ofConstraint t = key <;> simp [hp, hf, hk]

lemma Reaches.indexesGrow {s s' : Store} (h : s.Reaches s') : s.IndexesGrow s' := by
  obtain ⟨changes, rfl⟩ := h
  induction changes generalizing s with
  | nil => exact .refl s
  | cons c cs ih =>
    refine IndexesGrow.trans ?_ ih
    cases c with
    | consume id => exact s.indexesGrow_consume id
    | add t =>
      simp only [change]
      cases hadd : s.add t with
      | error e => exact .refl s
      | ok added =>
        obtain ⟨s', id⟩ := added
        obtain ⟨f, hf, rfl, rfl⟩ := add_eq_ok_iff.mp hadd
        exact s.indexesGrow_insert hf

lemma change_keeps {s : Store} (h : s.Indexed) (c : Change) :
    (s.change c).Indexed ∧ s.Extends (s.change c) := by
  cases c with
  | consume id => exact ⟨h.consume id, extends_consume s id⟩
  | add t =>
    simp only [change]
    cases hadd : s.add t with
    | error e => exact ⟨h, .refl s⟩
    | ok added =>
      obtain ⟨s', id⟩ := added
      obtain ⟨f, hf, rfl, rfl⟩ := add_eq_ok_iff.mp hadd
      exact ⟨h.insert hf, h.extends_insert f t⟩

lemma Reaches.inStep {s s' : Store} (h : s.Reaches s') (inStep : s.InStep) : s'.InStep := by
  obtain ⟨changes, rfl⟩ := h
  induction changes generalizing s with
  | nil => exact inStep
  | cons c cs ih => exact ih (inStep_change inStep c)

theorem Reaches.keeps {s s' : Store} (h : s.Reaches s') (indexed : s.Indexed) :
    s'.Indexed ∧ s.Extends s' := by
  obtain ⟨changes, rfl⟩ := h
  induction changes generalizing s with
  | nil => exact ⟨indexed, .refl s⟩
  | cons c cs ih =>
    obtain ⟨hone, hext⟩ := change_keeps indexed c
    obtain ⟨hall, hexts⟩ := ih hone
    exact ⟨hall, hext.trans hexts⟩

lemma Reaches.indexed {s s' : Store} (h : s.Reaches s') (indexed : s.Indexed) : s'.Indexed :=
  (h.keeps indexed).1

lemma Reaches.extends {s s' : Store} (h : s.Reaches s') (indexed : s.Indexed) : s.Extends s' :=
  (h.keeps indexed).2

theorem Extends.candidates_prefix {s s' : Store} (h : s.Extends s') (indexed : s.Indexed)
    (indexed' : s'.Indexed) (head : Term) (env : Environment) :
    ∃ later, (s'.candidates head env).toList = (s.candidates head env).toList ++ later ∧
      ∀ id ∈ later, s.size ≤ id := by
  rw [toList_candidates indexed, toList_candidates indexed']
  exact idsWhere_prefix h.size_le h.get _

/-- A position in a list of candidates designates the same constraint for ever: whatever is added to a
store and consumed in it, the candidates for a head stay the first ones in their order, and what comes
behind them is newer than all constraints that were there. -/
theorem candidates_stable (changes later : List Change) (head : Term) (env : Environment) :
    let s := empty.changeAll changes
    let s' := s.changeAll later
    (s.candidates head env).toList <+: (s'.candidates head env).toList ∧
      ∀ id ∈ (s'.candidates head env).toList.drop (s.candidates head env).size, s.size ≤ id := by
  intro s s'
  have indexed : s.Indexed := (reaches_changeAll empty changes).indexed indexed_empty
  have grown : s.Reaches s' := reaches_changeAll s later
  obtain ⟨new, appended, newer⟩ :=
    Extends.candidates_prefix (grown.extends indexed) indexed (grown.indexed indexed) head env
  refine ⟨⟨new, appended.symm⟩, ?_⟩
  rwa [appended, ← Array.length_toList, List.drop_left]

end Store
end ConstraintHandling
