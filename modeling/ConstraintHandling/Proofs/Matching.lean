import ConstraintHandling.Matching
import ConstraintHandling.Proofs.Term.Reflexivity
import ConstraintHandling.Proofs.Unification.Soundness

/-! One-way matching. It succeeds just when one simultaneous replacement of the pattern's variables turns the
pattern into the subject and agrees with the bindings that are there; the bindings that it adds are those
of this replacement, one for each variable that has been unbound. -/
namespace ConstraintHandling

namespace Term

def signature? : Term → Option (String × Nat)
  | .compound f as _ => some (f, as.length)
  | _ => none

/-- No functor with the same number of arguments has one priority in the first term and another one in
the second. -/
def PrioritiesAgree (s t : Term) : Prop :=
  ∀ u ∈ s.subterms, ∀ w ∈ t.subterms, u.signature? = w.signature? → u.priority = w.priority

instance (s t : Term) : Decidable (s.PrioritiesAgree t) :=
  inferInstanceAs (Decidable (∀ u ∈ s.subterms, ∀ w ∈ t.subterms,
    u.signature? = w.signature? → u.priority = w.priority))

variable {s t a b : Term}

lemma PrioritiesAgree.of_mem_children (h : s.PrioritiesAgree t) (ha : a ∈ s.children)
    (hb : b ∈ t.children) : a.PrioritiesAgree b :=
  fun u hu w hw => h u (mem_subterms_of_child ha hu) w (mem_subterms_of_child hb hw)

end Term

namespace Environment

/-- The second environment is the first one with exactly one more binding for every variable of the list
that is unbound there, to a term equal to what the substitution puts in its place. -/
def Adds (θ : Variable → Term) (vs : List Variable) (env env' : Environment) : Prop :=
  ∃ new : List (Variable × Term), env'.bindings = new ++ env.bindings ∧ (new.map Prod.fst).Nodup ∧
    (∀ v, v ∈ new.map Prod.fst ↔ v ∈ vs ∧ env.lookup v = none) ∧ ∀ b ∈ new, (b.2 == θ b.1) = true

variable {θ : Variable → Term} {vs ws : List Variable} {env env₁ env₂ : Environment} {v : Variable}
  {t : Term}

lemma adds_nothing (bound : ∀ v ∈ vs, env.lookup v ≠ none) : Adds θ vs env env := by
  refine ⟨[], rfl, List.nodup_nil, fun v => ?_, by simp⟩
  simpa using bound v

lemma adds_bind (unbound : env.lookup v = none) (h : (t == θ v) = true) :
    Adds θ [v] env (env.bind v t) := by
  refine ⟨[(v, t)], rfl, by simp, fun w => ?_, by simpa using h⟩
  simp only [List.map_cons, List.map_nil, List.mem_singleton]
  exact ⟨fun same => ⟨same, same ▸ unbound⟩, And.left⟩

lemma lookup_of_append {new : List (Variable × Term)} (h : env₁.bindings = new ++ env.bindings)
    (v : Variable) : env₁.lookup v = (new.lookup v).or (env.lookup v) := by
  rw [lookup, h, List.lookup_append, lookup]

lemma lookup_keys_eq_none_iff {new : List (Variable × Term)} :
    new.lookup v = none ↔ v ∉ new.map Prod.fst := by
  rw [List.lookup_eq_none_iff]
  simp only [List.mem_map, not_exists, not_and, bne_iff_ne]
  exact forall₂_congr fun b _ => ne_comm

lemma lookup_append_eq_none_iff {new : List (Variable × Term)}
    (h : env₁.bindings = new ++ env.bindings) :
    env₁.lookup v = none ↔ v ∉ new.map Prod.fst ∧ env.lookup v = none := by
  rw [lookup_of_append h, Option.or_eq_none_iff, lookup_keys_eq_none_iff]

lemma Adds.trans (h : Adds θ vs env env₁) (h' : Adds θ ws env₁ env₂) : Adds θ (vs ++ ws) env env₂ := by
  obtain ⟨new, heq, nodup, keys, values⟩ := h
  obtain ⟨new', heq', nodup', keys', values'⟩ := h'
  refine ⟨new' ++ new, by rw [heq', heq, List.append_assoc], ?_, fun v => ?_, ?_⟩
  · rw [List.map_append]
    refine nodup'.append nodup fun v hnew' hnew => ?_
    exact ((lookup_append_eq_none_iff heq).mp ((keys' v).mp hnew').2).1 hnew
  · rw [List.map_append, List.mem_append, keys', lookup_append_eq_none_iff heq, keys, List.mem_append]
    tauto
  · exact List.forall_mem_append.mpr ⟨values', values⟩

lemma Adds.agrees (h : Adds θ vs env env₁)
    (agrees : ∀ t, env.lookup v = some t → (θ v == t) = true) (bound : env₁.lookup v = some t) :
    (θ v == t) = true := by
  obtain ⟨new, heq, -, -, values⟩ := h
  rw [lookup_of_append heq, Option.or_eq_some_iff] at bound
  obtain found | ⟨-, old⟩ := bound
  · obtain ⟨before, behind, rfl, -⟩ := List.lookup_eq_some_iff.mp found
    exact Term.beq_symm (values (v, t) (by simp))
  · exact agrees t old

end Environment

/-- The substitution turns the pattern into the subject, with the values that the pattern's variables
already have. -/
structure Instantiates (env : Environment) (pattern subject : Term) (θ : Variable → Term) : Prop where
  bound : ∀ v ∈ pattern.occurrences, ∀ t, env.lookup v = some t → (θ v == t) = true
  whole : (pattern.mapVariables θ == subject) = true

section Runs
open Environment

variable {env env' : Environment} {θ : Variable → Term} {p s : Term} {ps ss : List Term}

lemma matchTerm_of_isConstant (h : p.isConstant = true) :
    matchTerm p s env = if p == s then some env else none := by
  cases p with
  | var | compound | list => cases h
  | _ => simp [matchTerm]

lemma matchAll_cons_eq_some :
    matchAll (p :: ps) (s :: ss) env = some env' ↔
      ∃ env₁, matchTerm p s env = some env₁ ∧ matchAll ps ss env₁ = some env' := by
  rw [matchAll]
  cases matchTerm p s env <;> simp

lemma matchAll_of_forall₂
    (single : ∀ p ∈ ps, ∀ s env, Instantiates env p s θ →
      ∃ env', matchTerm p s env = some env' ∧ Adds θ p.occurrences env env')
    (bound : ∀ p ∈ ps, ∀ v ∈ p.occurrences, ∀ t, env.lookup v = some t → (θ v == t) = true)
    (whole : List.Forall₂ (fun p s => (p.mapVariables θ == s) = true) ps ss) :
    ∃ env', matchAll ps ss env = some env' ∧ Adds θ (ps.flatMap Term.occurrences) env env' := by
  induction whole generalizing env with
  | nil => exact ⟨env, by simp [matchAll], adds_nothing (by simp)⟩
  | @cons p s ps ss first later ih =>
    obtain ⟨hp, hps⟩ := List.forall_mem_cons.mp single
    obtain ⟨boundFirst, boundLater⟩ := List.forall_mem_cons.mp bound
    obtain ⟨env₁, run, adds⟩ := hp s env ⟨boundFirst, first⟩
    obtain ⟨env', runs, adds'⟩ := ih hps fun q hq v hv t => adds.agrees (boundLater q hq v hv)
    exact ⟨env', matchAll_cons_eq_some.mpr ⟨env₁, run, runs⟩, adds.trans adds'⟩

theorem matchTerm_of_instantiates (h : Instantiates env p s θ) :
    ∃ env', matchTerm p s env = some env' ∧ Adds θ p.occurrences env env' := by
  induction p using Term.induction generalizing s env with
  | var v =>
    have whole : (θ v == s) = true := h.whole
    have bound : ∀ t, env.lookup v = some t → (θ v == t) = true := h.bound v (by simp [Term.occurrences])
    rw [matchTerm, Term.occurrences]
    cases hlookup : env.lookup v with
    | some t =>
      have same : (t == s) = true := Term.beq_trans (Term.beq_symm (bound t hlookup)) whole
      exact ⟨env, by simp [same], adds_nothing (by simp [hlookup])⟩
    | none => exact ⟨env.bind v s, rfl, adds_bind hlookup (Term.beq_symm whole)⟩
  | constant p hp =>
    have whole := h.whole
    rw [Term.mapVariables_of_isConstant hp] at whole
    refine ⟨env, by rw [matchTerm_of_isConstant hp, if_pos whole], adds_nothing fun v hv => ?_⟩
    exact absurd hv (Term.within_of_isConstant (P := fun _ => False) hp v)
  | compound f ps p ih =>
    have whole := h.whole
    rw [Term.mapVariables, Term.mapVariablesAll_eq] at whole
    cases Term.beq_iff_equal.mp whole with
    | plain identity => cases identity
    | @compound _ _ ss _ parts =>
      rw [Term.beqAll_iff, List.forall₂_map_left_iff] at parts
      obtain ⟨env', run, adds⟩ := matchAll_of_forall₂ (fun a ha _ _ => ih a ha)
        (fun a ha v hv => h.bound v (Term.mem_occurrences_iff.mpr (.inr ⟨a, ha, hv⟩))) parts
      rw [matchTerm, if_pos ⟨rfl, parts.length_eq⟩, Term.occurrences, Term.occurrencesAll_eq]
      exact ⟨env', run, adds⟩
  | list ps ih =>
    have whole := h.whole
    rw [Term.mapVariables, Term.mapVariablesAll_eq] at whole
    cases Term.beq_iff_equal.mp whole with
    | plain identity => cases identity
    | @list _ ss parts =>
      rw [Term.beqAll_iff, List.forall₂_map_left_iff] at parts
      obtain ⟨env', run, adds⟩ := matchAll_of_forall₂ (fun a ha _ _ => ih a ha)
        (fun a ha v hv => h.bound v (Term.mem_occurrences_iff.mpr (.inr ⟨a, ha, hv⟩))) parts
      rw [matchTerm, if_pos parts.length_eq, Term.occurrences, Term.occurrencesAll_eq]
      exact ⟨env', run, adds⟩

/-- The ways in which a match can succeed. -/
inductive Matched (env env' : Environment) : Term → Term → Prop
  | bound {v : Variable} {t s : Term} (found : env.lookup v = some t) (same : (t == s) = true)
      (stays : env' = env) : Matched env env' (.var v) s
  | free {v : Variable} {s : Term} (unbound : env.lookup v = none) (binds : env' = env.bind v s) :
      Matched env env' (.var v) s
  | constant {p s : Term} (hp : p.isConstant = true) (same : (p == s) = true) (stays : env' = env) :
      Matched env env' p s
  | compound {f : String} {ps ss : List Term} {m n : Nat} (length : ps.length = ss.length)
      (run : matchAll ps ss env = some env') : Matched env env' (.compound f ps m) (.compound f ss n)
  | list {ps ss : List Term} (length : ps.length = ss.length) (run : matchAll ps ss env = some env') :
      Matched env env' (.list ps) (.list ss)

lemma matched_of_matchTerm (h : matchTerm p s env = some env') : Matched env env' p s := by
  cases p with
  | var v =>
    rw [matchTerm] at h
    split at h
    · next t found =>
      simp only [Option.ite_none_right_eq_some, Option.some.injEq] at h
      exact .bound found h.1 h.2.symm
    · next unbound => exact .free unbound (Option.some.inj h).symm
  | compound f ps m =>
    cases s with
    | compound g ss n =>
      simp only [matchTerm, Option.ite_none_right_eq_some] at h
      obtain ⟨⟨rfl, length⟩, run⟩ := h
      exact .compound length run
    | _ => cases h
  | list ps =>
    cases s with
    | list ss =>
      simp only [matchTerm, Option.ite_none_right_eq_some] at h
      exact .list h.1 h.2
    | _ => cases h
  | _ =>
    rw [matchTerm_of_isConstant rfl] at h
    simp only [Option.ite_none_right_eq_some, Option.some.injEq] at h
    exact .constant rfl h.1 h.2.symm

lemma grows_of_matchAll
    (single : ∀ p ∈ ps, ∀ s env env', matchTerm p s env = some env' → env.Grows env')
    (h : matchAll ps ss env = some env') : env.Grows env' := by
  induction ps generalizing ss env with
  | nil =>
    cases ss <;> cases h <;> exact .refl
  | cons p ps ih =>
    cases ss with
    | nil =>
      cases h
      exact .refl
    | cons s ss =>
      obtain ⟨hp, hps⟩ := List.forall_mem_cons.mp single
      obtain ⟨env₁, run, runs⟩ := matchAll_cons_eq_some.mp h
      exact (hp s env env₁ run).trans (ih hps runs)

lemma grows_of_matchTerm (h : matchTerm p s env = some env') : env.Grows env' := by
  induction p using Term.children_induction generalizing s env env' with
  | step p ih =>
    cases matched_of_matchTerm h with
    | bound _ _ stays => exact stays ▸ .refl
    | free unbound binds => exact binds ▸ .bind .refl unbound
    | constant _ _ stays => exact stays ▸ .refl
    | compound _ run => exact grows_of_matchAll (fun a ha _ _ _ => ih a ha) run
    | list _ run => exact grows_of_matchAll (fun a ha _ _ _ => ih a ha) run

lemma forall₂_of_matchAll
    (single : ∀ p ∈ ps, ∀ s ∈ ss, ∀ env env', matchTerm p s env = some env' →
      (∀ v t, env'.lookup v = some t → θ v = t) → (p.mapVariables θ == s) = true)
    (length : ps.length = ss.length) (h : matchAll ps ss env = some env')
    (values : ∀ v t, env'.lookup v = some t → θ v = t) :
    List.Forall₂ (fun p s => (p.mapVariables θ == s) = true) ps ss := by
  induction ps generalizing ss env with
  | nil =>
    obtain rfl : ss = [] := by simpa using length.symm
    exact .nil
  | cons p ps ih =>
    cases ss with
    | nil => cases length
    | cons s ss =>
      obtain ⟨env₁, run, runs⟩ := matchAll_cons_eq_some.mp h
      have later : env₁.Grows env' := grows_of_matchAll (fun _ _ _ _ _ => grows_of_matchTerm) runs
      refine .cons ?_ (ih (fun q hq u hu => single q (List.mem_cons_of_mem _ hq) u
        (List.mem_cons_of_mem _ hu)) (Nat.succ.inj length) runs)
      exact single p List.mem_cons_self s List.mem_cons_self env env₁ run
        fun v t bound => values v t (later.lookup bound)

theorem whole_of_matchTerm (h : matchTerm p s env = some env') (hs : s.NaNFree)
    (agree : p.PrioritiesAgree s) (values : ∀ v t, env'.lookup v = some t → θ v = t) :
    (p.mapVariables θ == s) = true := by
  induction p using Term.children_induction generalizing s env env' with
  | step p ih =>
    cases matched_of_matchTerm h with
    | bound found same stays =>
      subst stays
      rw [Term.mapVariables, values _ _ found]
      exact same
    | free unbound binds =>
      subst binds
      rw [Term.mapVariables, values _ _ (lookup_bind_self env _ s)]
      exact Term.beq_self_iff.mpr hs
    | constant hp same =>
      rw [Term.mapVariables_of_isConstant hp]
      exact same
    | @compound f ps ss m n length run =>
      obtain rfl : m = n := agree _ (Term.self_mem_subterms _) _ (Term.self_mem_subterms _)
        (by simp [Term.signature?, length])
      have parts := forall₂_of_matchAll (fun a ha b hb _ _ hab => ih a ha hab
        (hs.of_mem_children hb) (agree.of_mem_children ha hb)) length run values
      rw [Term.mapVariables, Term.mapVariablesAll_eq, Term.beq_compound, Term.beqAll_iff,
        List.forall₂_map_left_iff]
      exact ⟨rfl, rfl, parts⟩
    | @list ps ss length run =>
      have parts := forall₂_of_matchAll (fun a ha b hb _ _ hab => ih a ha hab
        (hs.of_mem_children hb) (agree.of_mem_children ha hb)) length run values
      rw [Term.mapVariables, Term.mapVariablesAll_eq, Term.beq_list, Term.beqAll_iff,
        List.forall₂_map_left_iff]
      exact parts

end Runs

/-- One-way matching is sound and complete: on a subject without NaNs that gives no functor another
priority than the pattern does, it succeeds just when a substitution makes the pattern equal to the
subject and its bound variables equal to their values. It then adds exactly one binding for each variable
of the pattern that has been unbound, to a term equal to what any such substitution puts in its place. -/
theorem matchTerm_iff {p s : Term} (number : s.NaNFree) (agree : p.PrioritiesAgree s)
    (env : Environment) :
    ((matchTerm p s env).isSome ↔ ∃ θ, Instantiates env p s θ) ∧
      ∀ env' θ, matchTerm p s env = some env' → Instantiates env p s θ →
        env.Adds θ p.occurrences env' := by
  constructor
  · constructor
    · intro success
      obtain ⟨env', run⟩ := Option.isSome_iff_exists.mp success
      let θ (v : Variable) : Term := (env'.lookup v).getD (.var v)
      have values (v : Variable) (t : Term) (bound : env'.lookup v = some t) : θ v = t := by
        simp [θ, bound]
      have whole : (p.mapVariables θ == s) = true := whole_of_matchTerm run number agree values
      refine ⟨θ, fun v hv t bound => ?_, whole⟩
      have value : θ v = t := values v t ((grows_of_matchTerm run).lookup bound)
      have inside : θ v ∈ (p.mapVariables θ).subterms := Term.mem_subterms_mapVariables hv
      rw [value] at inside ⊢
      exact Term.beq_self_iff.mpr ((Term.nanFree_of_beq whole).of_mem_subterms inside)
    · rintro ⟨θ, h⟩
      obtain ⟨env', run, -⟩ := matchTerm_of_instantiates h
      exact Option.isSome_iff_exists.mpr ⟨env', run⟩
  · intro env' θ run h
    obtain ⟨env₁, run₁, adds⟩ := matchTerm_of_instantiates h
    obtain rfl : env' = env₁ := Option.some.inj (run.symm.trans run₁)
    exact adds

/-- Variables that the pattern shares with the subject, and one that has been bound to the other zero. -/
theorem matchTerm_iff_shared :
    let var (name : String) := Term.var ⟨name, 0⟩
    let successor (t : Term) := Term.compound "+" [t, .int 1] 500
    let p := Term.ordinary "p" [var "X", var "Y", .list [var "X"], successor (var "Z")]
    let s := Term.ordinary "p" [var "Y", .float ⟨0x8000000000000000⟩, .list [var "Y"],
      successor (var "X")]
    let env := Environment.empty.bind ⟨"Y", 0⟩ (.float ⟨0⟩)
    let θ (v : Variable) : Term :=
      if v.name = "X" then var "Y" else if v.name = "Y" then .float ⟨0⟩ else var "X"
    s.NaNFree ∧ p.PrioritiesAgree s ∧ Instantiates env p s θ ∧
      ∃ env', matchTerm p s env = some env' ∧ env.Adds θ p.occurrences env' := by
  intro var successor p s env θ
  have number : s.NaNFree := by decide +kernel
  have agree : p.PrioritiesAgree s := by decide
  have instantiates : Instantiates env p s θ := by
    refine ⟨fun v _ => ?_, by decide +kernel⟩
    exact Environment.forall_lookup_bind (P := fun v t => (θ v == t) = true) (by simp)
      (by decide +kernel) v
  have iff := matchTerm_iff number agree env
  obtain ⟨env', run⟩ := Option.isSome_iff_exists.mp (iff.1.mpr ⟨θ, instantiates⟩)
  exact ⟨number, agree, instantiates, env', run, iff.2 env' θ run instantiates⟩

end ConstraintHandling
