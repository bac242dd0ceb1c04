import ConstraintHandling.Evaluation
import ConstraintHandling.Proofs.Search.Combination
import ConstraintHandling.Proofs.Unification.Bindings

/-! Where the variables of terms come from. A property of the variables of some terms is kept by all
that is made of them: by substitution and evaluation, by replacement, and by unification and guards,
which bind variables of the terms to terms made of them. -/
namespace ConstraintHandling

namespace Term
variable {P Q : Variable → Prop}

def Within (P : Variable → Prop) (t : Term) : Prop :=
  ∀ v ∈ t.occurrences, P v

lemma Within.mono {t : Term} (h : t.Within P) (imp : ∀ v, P v → Q v) : t.Within Q :=
  fun v hv => imp v (h v hv)

@[simp] lemma within_var {v : Variable} : (Term.var v).Within P ↔ P v := by
  simp [Within, occurrences]

@[simp] lemma within_compound {f : String} {args : List Term} {p : Nat} :
    (compound f args p).Within P ↔ ∀ t ∈ args, t.Within P := by
  simp only [Within, occurrences, occurrencesAll_eq, List.mem_flatMap]
  exact ⟨fun h t ht v hv => h v ⟨t, ht, hv⟩, fun h v ⟨t, ht, hv⟩ => h t ht v hv⟩

@[simp] lemma within_list {items : List Term} :
    (list items).Within P ↔ ∀ t ∈ items, t.Within P := by
  simp only [Within, occurrences, occurrencesAll_eq, List.mem_flatMap]
  exact ⟨fun h t ht v hv => h v ⟨t, ht, hv⟩, fun h v ⟨t, ht, hv⟩ => h t ht v hv⟩

lemma Within.children {t a : Term} (h : t.Within P) (ha : a ∈ t.children) : a.Within P := by
  cases t with
  | compound => exact within_compound.mp h a ha
  | list => exact within_list.mp h a ha
  | _ => cases ha

lemma within_of_isConstant {t : Term} (h : t.isConstant = true) : t.Within P := by
  cases t <;> simp_all [isConstant, Within, occurrences]

/-- Induction on terms by their parts. -/
@[elab_as_elim]
theorem induction {motive : Term → Prop} (var : ∀ v, motive (.var v))
    (constant : ∀ t, t.isConstant = true → motive t)
    (compound : ∀ f args p, (∀ t ∈ args, motive t) → motive (.compound f args p))
    (list : ∀ items, (∀ t ∈ items, motive t) → motive (.list items)) : ∀ t, motive t
  | .var v => var v
  | .atom _ | .bool _ | .int _ | .float _ | .str _ => constant _ rfl
  | .compound f args p => compound f args p fun t _ => induction var constant compound list t
  | .list items => list items fun t _ => induction var constant compound list t

lemma mapVariables_of_isConstant {f : Variable → Term} {t : Term} (h : t.isConstant = true) :
    t.mapVariables f = t := by
  cases t with
  | var | compound | list => cases h
  | _ => rfl

/-- The property holds of a compound term and of a list just when it holds of their parts. -/
structure IsPartwise (H : Term → Prop) : Prop where
  compound {f : String} {args : List Term} {p : Nat} : H (compound f args p) ↔ ∀ t ∈ args, H t
  list {items : List Term} : H (list items) ↔ ∀ t ∈ items, H t

lemma IsPartwise.mapVariables {H K : Term → Prop} (hH : IsPartwise H) (hK : IsPartwise K)
    (constant : ∀ t, t.isConstant = true → H t → K t) {f : Variable → Term}
    (image : ∀ v, H (.var v) → K (f v)) {t : Term} (h : H t) : K (t.mapVariables f) := by
  induction t using Term.induction with
  | var v => exact image v h
  | constant t ht =>
    rw [mapVariables_of_isConstant ht]
    exact constant t ht h
  | compound g args p ih =>
    have below := hH.compound.mp h
    rw [Term.mapVariables, mapVariablesAll_eq, hK.compound, List.forall_mem_map]
    exact fun t ht => ih t ht (below t ht)
  | list items ih =>
    have below := hH.list.mp h
    rw [Term.mapVariables, mapVariablesAll_eq, hK.list, List.forall_mem_map]
    exact fun t ht => ih t ht (below t ht)

lemma isPartwise_within : IsPartwise (Within P) where
  compound := within_compound
  list := within_list

lemma Within.mapVariables {f : Variable → Term} {t : Term} (h : t.Within P)
    (image : ∀ v, P v → (f v).Within Q) : (t.mapVariables f).Within Q :=
  isPartwise_within.mapVariables isPartwise_within (fun _ ht _ => within_of_isConstant ht)
    (fun v hv => image v (within_var.mp hv)) h

lemma replace_of_isConstant {old new t : Term} (h : t.isConstant = true) :
    Term.replace old new t = if t == old then new else t := by
  cases t with
  | var | compound | list => cases h
  | _ => simp [Term.replace]

lemma Within.replace {old new t : Term} (h : t.Within P) (hnew : new.Within P) :
    (Term.replace old new t).Within P := by
  have whole : ∀ {t u : Term}, u.Within P → (if t == old then new else u).Within P := by
    intro t u hu
    split
    · exact hnew
    · exact hu
  induction t using Term.induction with
  | var v =>
    have single : Term.replace old new (.var v) = if Term.var v == old then new else .var v := by
      simp [Term.replace]
    rw [single]
    exact whole h
  | constant t ht =>
    rw [replace_of_isConstant ht]
    exact whole h
  | compound g args p ih =>
    have below := within_compound.mp h
    rw [Term.replace, replaceAll_eq]
    refine whole (within_compound.mpr ?_)
    rw [List.forall_mem_map]
    exact fun t ht => ih t ht (below t ht)
  | list items ih =>
    have below := within_list.mp h
    rw [Term.replace, replaceAll_eq]
    refine whole (within_list.mpr ?_)
    rw [List.forall_mem_map]
    exact fun t ht => ih t ht (below t ht)

lemma within_equation {s t : Term} : (equation s t).Within P ↔ s.Within P ∧ t.Within P := by
  simp [equation, relation]

lemma Within.assignment? {t left right : Term} (h : t.Within P)
    (hassign : t.assignment? = some (left, right)) : left.Within P ∧ right.Within P := by
  unfold Term.assignment? at hassign
  split at hassign
  · split at hassign
    · cases hassign
      simpa using h
    · cases hassign
  · cases hassign

section Operations
variable {known : Oracle} {s t u : Term}

lemma bool_of_map_bool {b : Option Bool} {g : Bool → Bool}
    (h : b.map (fun b => Term.bool (g b)) = some u) : ∃ b, u = .bool b := by
  obtain ⟨b, -, rfl⟩ := Option.map_eq_some_iff.mp h
  exact ⟨_, rfl⟩

lemma isConstant_of_arithmetic {op : Arithmetic} (h : op.apply s t = some u) :
    u.isConstant = true := by
  unfold Arithmetic.apply at h
  split at h
  · obtain ⟨i, -, rfl⟩ := Option.map_eq_some_iff.mp h
    rfl
  · split at h
    · cases h
      rfl
    · cases h
  · split at h
    · obtain ⟨x, -, rfl⟩ := Option.map_eq_some_iff.mp h
      rfl
    · cases h

lemma bool_or_mem_of_conjunction? (h : Evaluation.conjunction? known s t = some u) :
    (∃ b, u = .bool b) ∨ u ∈ [s, t] := by
  unfold Evaluation.conjunction? at h
  split at h
  case h_6 =>
    split at h
    · cases h
      exact .inl ⟨_, rfl⟩
    · cases h
  all_goals
    cases h
    first | exact .inl ⟨_, rfl⟩ | exact .inr (by simp)

lemma bool_or_mem_of_disjunction? (h : Evaluation.disjunction? known s t = some u) :
    (∃ b, u = .bool b) ∨ u ∈ [s, t] := by
  unfold Evaluation.disjunction? at h
  split at h
  case h_6 =>
    split at h
    · cases h
      exact .inl ⟨_, rfl⟩
    · cases h
  all_goals
    cases h
    first | exact .inl ⟨_, rfl⟩ | exact .inr (by simp)

lemma arithmetic_or_bool_or_mem_of_binary? {name : String}
    (h : Evaluation.binary? known name s t = some u) :
    (∃ op : Arithmetic, op.apply s t = some u) ∨ (∃ b, u = .bool b) ∨ u ∈ [s, t] := by
  unfold Evaluation.binary? at h
  split at h
  · next op _ => exact .inl ⟨op, h⟩
  · exact .inr (.inl (bool_of_map_bool (g := id) h))
  · exact .inr (.inl (bool_of_map_bool (g := id) h))
  · exact .inr (.inl (bool_of_map_bool h))
  · exact .inr (bool_or_mem_of_conjunction? h)
  · exact .inr (bool_or_mem_of_disjunction? h)
  · cases h

lemma isConstant_of_unary? {name : String} (h : Evaluation.unary? known name t = some u) :
    u.isConstant = true := by
  unfold Evaluation.unary? at h
  split at h
  · obtain ⟨i, -, rfl⟩ := Option.map_eq_some_iff.mp h
    rfl
  · cases h
    rfl
  · obtain ⟨b, rfl⟩ := bool_of_map_bool h
    rfl
  · cases h

lemma constant_or_mem_of_operation? {name : String} {args : List Term}
    (h : Evaluation.operation? known name args = some u) : u.isConstant = true ∨ u ∈ args := by
  unfold Evaluation.operation? at h
  split at h
  · exact .inl (isConstant_of_unary? h)
  · obtain ⟨op, h⟩ | ⟨b, rfl⟩ | mem := arithmetic_or_bool_or_mem_of_binary? h
    · exact .inl (isConstant_of_arithmetic h)
    · exact .inl rfl
    · exact .inr mem
  · cases h

lemma within_of_operation? {name : String} {args : List Term}
    (h : Evaluation.operation? known name args = some u) (below : ∀ t ∈ args, t.Within P) :
    u.Within P :=
  (constant_or_mem_of_operation? h).elim within_of_isConstant (below u)

end Operations

lemma reduce_of_isConstant {known : Oracle} {t : Term} (h : t.isConstant = true) :
    t.reduce known = t := by
  cases t with
  | var | compound | list => cases h
  | _ => simp [Term.reduce]

lemma IsPartwise.reduce {H : Term → Prop} (hH : IsPartwise H) {known : Oracle}
    (operation : ∀ name args u, Evaluation.operation? known name args = some u →
      (∀ t ∈ args, H t) → H u) {t : Term} (h : H t) : H (t.reduce known) := by
  induction t using Term.induction with
  | var v => simpa [Term.reduce] using h
  | constant t ht => rwa [reduce_of_isConstant ht]
  | compound f args p ih =>
    have below : ∀ t ∈ args.map (Term.reduce known), H t :=
      List.forall_mem_map.mpr fun t ht => ih t ht (hH.compound.mp h t ht)
    rw [Term.reduce, reduceAll_eq]
    split
    · exact hH.compound.mpr below
    · cases hop : Evaluation.operation? known f (args.map (Term.reduce known)) with
      | none => exact hH.compound.mpr below
      | some u => exact operation f _ u hop below
  | list items ih =>
    rw [Term.reduce, reduceAll_eq, hH.list, List.forall_mem_map]
    exact fun t ht => ih t ht (hH.list.mp h t ht)

lemma Within.reduce {known : Oracle} {t : Term} (h : t.Within P) : (t.reduce known).Within P :=
  isPartwise_within.reduce (fun _ _ _ hop below => within_of_operation? hop below) h

end Term
namespace Environment
variable {P : Variable → Prop} {env : Environment}

def Within (P : Variable → Prop) (env : Environment) : Prop :=
  ∀ b ∈ env.bindings, P b.1 ∧ b.2.Within P

lemma within_empty : empty.Within P := by
  simp [Within, empty]

lemma Within.bind {v : Variable} {t : Term} (h : env.Within P) (hv : P v) (ht : t.Within P) :
    (env.bind v t).Within P :=
  List.forall_mem_cons.mpr ⟨⟨hv, ht⟩, h⟩

lemma Within.lookup {v : Variable} {t : Term} (h : env.Within P) (ht : env.lookup v = some t) :
    t.Within P := by
  obtain ⟨before, behind, heq, -⟩ := List.lookup_eq_some_iff.mp ht
  exact (h (v, t) (by rw [heq]; simp)).2

lemma Extended.within {env' : Environment} (h : Extended (Term.Within P) env env')
    (henv : env.Within P) : env'.Within P := by
  induction h with
  | refl => exact henv
  | bind _ _ _ hv ht ih => exact ih.bind (Term.within_var.mp hv) ht

lemma Within.chaseWithin {n : Nat} {t : Term} (h : env.Within P) (ht : t.Within P) :
    (env.chaseWithin n t).Within P := by
  induction n generalizing t with
  | zero => exact ht
  | succ n ih =>
    cases t with
    | var v =>
      rw [Environment.chaseWithin]
      cases hlookup : env.lookup v with
      | none => exact ht
      | some u => exact ih (h.lookup hlookup)
    | _ => exact ht

lemma Within.substituteWithin {depth : Nat} {t : Term} (h : env.Within P) (ht : t.Within P) :
    (env.substituteWithin depth t).Within P := by
  induction depth generalizing t with
  | zero => exact ht
  | succ depth ih =>
    rw [Environment.substituteWithin]
    refine ht.mapVariables fun v hv => ?_
    cases hlookup : env.lookup v with
    | none => exact Term.within_var.mpr hv
    | some u => exact ih (h.lookup hlookup)

lemma Within.substitute {t : Term} (h : env.Within P) (ht : t.Within P) :
    (env.substitute t).Within P := by
  unfold Environment.substitute
  split
  · exact ht
  · exact h.substituteWithin ht

lemma Within.evaluate (known : Oracle) {t : Term} (h : env.Within P) (ht : t.Within P) :
    (evaluate known t env).Within P :=
  (h.substitute ht).reduce

end Environment

section Matching
variable {P : Variable → Prop} {s t : Term} {env env' : Environment}

theorem within_of_unify (h : unify s t env = some env') (hs : s.Within P) (ht : t.Within P)
    (henv : env.Within P) : env'.Within P := by
  obtain ⟨depth, run⟩ := Unification.exists_within_of_unify h
  have extended : Environment.Extended (Term.Within P) env env' :=
    Unification.extended_of_within (fun _ ht _ ha => ht.children ha)
      (fun _ _ bound => henv.lookup bound) hs ht run
  exact extended.within henv

def Store.Within (P : Variable → Prop) (store : Store) : Prop :=
  ∀ c t, store.get? c = some t → t.Within P

lemma Search.within_of_unifyAll {store : Store} (stored : store.Within P) {heads : List Term}
    {cs : List ConstraintId} (h : unifyAll store heads cs env = some env')
    (hheads : ∀ t ∈ heads, t.Within P) (henv : env.Within P) : env'.Within P := by
  refine unifyAll_keeps (fun pair hpair t ht env₁ env₂ henv unified => ?_) h henv
  have hhead : pair.1.Within P := hheads pair.1 (List.of_mem_zip hpair).1
  exact within_of_unify unified hhead (stored pair.2 t ht) henv

lemma Search.within_of_checkGuards {known : Oracle} {guards : List Term}
    (h : checkGuards known guards env = some env') (hguards : ∀ t ∈ guards, t.Within P)
    (henv : env.Within P) : env'.Within P := by
  refine checkGuards_keeps (fun g hg left right v env₁ assigns hv henv => ?_) h henv
  obtain ⟨hleft, hright⟩ := (hguards g hg).assignment? assigns
  have chased : (env₁.chase left).Within P := henv.chaseWithin hleft
  rw [hv] at chased
  exact henv.bind (Term.within_var.mp chased) (henv.evaluate known hright)

end Matching

end ConstraintHandling
