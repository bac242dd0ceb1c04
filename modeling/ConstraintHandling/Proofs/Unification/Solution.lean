import ConstraintHandling.Proofs.Unification.Depth
import ConstraintHandling.Proofs.Unification.Soundness

/-! Solutions. A substitution that makes two terms equal and respects the bindings made so far shows
that unification succeeds: what it makes of the terms bounds the depth of the run, and the
occurs-check refuses only bindings whose two sides cannot become equally large. -/
namespace ConstraintHandling

/-- The substitution makes every bound variable equal to its value. -/
def Environment.IsSolvedBy (env : Environment) (σ : Variable → Term) : Prop :=
  ∀ v t, env.lookup v = some t → (σ v == t.mapVariables σ) = true

namespace Environment
variable {env : Environment} {σ : Variable → Term} {v : Variable} {t : Term}

lemma isSolvedBy_empty (σ : Variable → Term) : empty.IsSolvedBy σ :=
  fun _ _ h => by cases h

lemma IsSolvedBy.bind (h : env.IsSolvedBy σ) (heq : (σ v == t.mapVariables σ) = true) :
    (env.bind v t).IsSolvedBy σ :=
  forall_lookup_bind h heq

lemma IsSolvedBy.isUpheldBy (h : env.IsSolvedBy σ) : env.IsUpheldBy σ :=
  fun v t bound => Term.alike_of_beq (h v t bound)

lemma Grows.isSolvedBy {env' : Environment} (h : env.Grows env') (solved : env'.IsSolvedBy σ) :
    env.IsSolvedBy σ :=
  fun v t bound => solved v t (h.lookup bound)

lemma IsSolvedBy.chaseVisiting (h : env.IsSolvedBy σ) {u : Term}
    (heq : (u == t.mapVariables σ) = true) :
    (u == (env.chaseVisiting t).1.mapVariables σ) = true ∧
      ∀ w ∈ (env.chaseVisiting t).2, (u == σ w) = true :=
  chaseVisiting_induct (P := fun t => (u == t.mapVariables σ) = true)
    (fun v t hv bound => Term.beq_trans hv (h v t bound)) heq

end Environment

namespace Unification
variable {env : Environment} {σ : Variable → Term} {s t : Term}

lemma occurs_eq_false (solved : env.IsSolvedBy σ) {visited : List Variable}
    (ht : t.asVariable? = none) (size : ∀ v ∈ visited, (σ v).size = (t.mapVariables σ).size) :
    occurs visited env t = false := by
  have smaller {w : Variable} (hw : (σ w).size < (t.mapVariables σ).size) : w ∉ visited := by
    intro hvisited
    have := size w hvisited
    omega
  unfold occurs
  rw [List.any_eq_false]
  intro w hw
  have hsize : (σ w).size < (t.mapVariables σ).size := Term.size_lt_of_mem_occurrences ht hw
  rw [Bool.not_eq_true, Bool.or_eq_false_iff]
  refine ⟨by simpa using smaller hsize, ?_⟩
  cases bound : env.lookup w with
  | none => rfl
  | some value =>
    rw [List.any_eq_false]
    intro x hx
    have hle : (σ x).size ≤ (value.mapVariables σ).size := Term.size_le_of_mem_occurrences hx
    rw [← Term.size_eq_of_beq (solved w value bound)] at hle
    simpa using smaller (hle.trans_lt hsize)

lemma constant_or_pairs (hs : s.asVariable? = none) (ht : t.asVariable? = none)
    (heq : (s.mapVariables σ == t.mapVariables σ) = true) :
    (s.isConstant = true ∧ (s == t) = true) ∨ ∃ as bs, Pairs s t as bs ∧
      Term.beqAll (as.map (Term.mapVariables σ)) (bs.map (Term.mapVariables σ)) = true := by
  cases s with
  | var => cases hs
  | compound f as p =>
    cases t with
    | var => cases ht
    | compound g bs q =>
      rw [Term.mapVariables, Term.mapVariables, Term.mapVariablesAll_eq, Term.mapVariablesAll_eq,
        Term.beq_compound] at heq
      obtain ⟨rfl, rfl, parts⟩ := heq
      have length : as.length = bs.length := by simpa using Term.length_eq_of_beqAll parts
      exact .inr ⟨as, bs, .compound length, parts⟩
    | _ => cases heq
  | list as =>
    cases t with
    | var => cases ht
    | list bs =>
      rw [Term.mapVariables, Term.mapVariables, Term.mapVariablesAll_eq, Term.mapVariablesAll_eq,
        Term.beq_list] at heq
      have length : as.length = bs.length := by simpa using Term.length_eq_of_beqAll heq
      exact .inr ⟨as, bs, .list length, heq⟩
    | _ => cases heq
  | _ =>
    cases t with
    | var => cases ht
    | compound | list => cases heq
    | _ => exact .inl ⟨rfl, heq⟩

lemma fold_of_solution {step : Term → Term → Environment → Unification} {as bs : List Term}
    (succeeds : ∀ a ∈ as, ∀ b env, env.IsSolvedBy σ →
      (a.mapVariables σ == b.mapVariables σ) = true →
      ∃ env', step a b env = .unified env' ∧ env'.IsSolvedBy σ)
    (solved : env.IsSolvedBy σ)
    (heq : Term.beqAll (as.map (Term.mapVariables σ)) (bs.map (Term.mapVariables σ)) = true) :
    ∃ env', fold step as bs env = .unified env' ∧ env'.IsSolvedBy σ := by
  induction as generalizing bs env with
  | nil => exact ⟨env, rfl, solved⟩
  | cons a as ih =>
    cases bs with
    | nil => exact ⟨env, rfl, solved⟩
    | cons b bs =>
      rw [List.map_cons, List.map_cons, Term.beqAll_cons, Bool.and_eq_true] at heq
      obtain ⟨env₁, first, solved₁⟩ := succeeds a List.mem_cons_self b env solved heq.1
      obtain ⟨env', later, solved'⟩ :=
        ih (fun a ha => succeeds a (List.mem_cons_of_mem _ ha)) solved₁ heq.2
      refine ⟨env', ?_, solved'⟩
      rw [fold, first]
      exact later

/-- Two terms that a solution makes equal are unified at the depth of what they become. -/
theorem within_of_solution {depth : Nat} (solved : env.IsSolvedBy σ)
    (heq : (s.mapVariables σ == t.mapVariables σ) = true)
    (deep : (s.mapVariables σ).size ≤ depth) :
    ∃ env', within depth s t env = .unified env' ∧ env'.IsSolvedBy σ := by
  induction depth generalizing s t env with
  | zero => cases hs : s.mapVariables σ <;> simp [hs, Term.size] at deep
  | succ depth ih =>
    -- both terms and all variables visited become equal to what the first term becomes
    obtain ⟨left, visitedLeft⟩ := solved.chaseVisiting (Term.beq_trans heq (Term.beq_symm heq))
    obtain ⟨right, visitedRight⟩ := solved.chaseVisiting heq
    have chased := Term.beq_trans (Term.beq_symm left) right
    have made {env' : Environment} (hstep : Step (fun as bs env env' =>
        fold (within depth) as bs env = .unified env') (env.chaseVisiting s) (env.chaseVisiting t)
        env env') : within (depth + 1) s t env = .unified env' := within_of_step hstep
    have paired := @within_of_pairs s t env
    generalize env.chaseVisiting s = l at *
    generalize env.chaseVisiting t = r at *
    obtain ⟨u, l⟩ := l
    obtain ⟨w, r⟩ := r
    dsimp only at left right visitedLeft visitedRight chased
    have size {x : Variable} {y : Term} (hx : (s.mapVariables σ == σ x) = true)
        (hy : (s.mapVariables σ == y.mapVariables σ) = true) :
        (σ x).size = (y.mapVariables σ).size :=
      (Term.size_eq_of_beq hx).symm.trans (Term.size_eq_of_beq hy)
    obtain ⟨v, rfl⟩ | hu := u.var_or_not_var
    · obtain ⟨x, rfl⟩ | hw := w.var_or_not_var
      · by_cases hvx : v = x
        · subst hvx
          exact ⟨env, made .same, solved⟩
        · exact ⟨_, made (.link hvx), solved.bind chased⟩
      · have fresh := occurs_eq_false solved hw fun x hx => size (visitedLeft x hx) right
        exact ⟨_, made (.bindLeft hw fresh), solved.bind chased⟩
    · obtain ⟨x, rfl⟩ | hw := w.var_or_not_var
      · have fresh := occurs_eq_false solved hu fun x hx => size (visitedRight x hx) left
        exact ⟨_, made (.bindRight hu fresh), solved.bind (Term.beq_symm chased)⟩
      · obtain ⟨constant, same⟩ | ⟨as, bs, hpairs, parts⟩ := constant_or_pairs hu hw chased
        · exact ⟨env, made (.equal constant same), solved⟩
        · have smaller : ∀ a ∈ as, (a.mapVariables σ).size ≤ depth := by
            intro a ha
            rw [hpairs.children.1] at ha
            have part : (a.mapVariables σ).size < (u.mapVariables σ).size :=
              Term.size_mapVariables_lt ha
            have := Term.size_eq_of_beq left
            omega
          obtain ⟨env', run, solved'⟩ := fold_of_solution
            (fun a ha b env solved heq => ih solved heq (smaller a ha)) solved parts
          exact ⟨env', (paired hpairs depth).trans run, solved'⟩

end Unification

/-- The second environment is made from the first one by binding unbound variables, and its solutions
solve the first one and make the two terms the same tree. -/
structure Environment.Equates (env : Environment) (s t : Term) (env' : Environment) : Prop where
  grows : env.Grows env'
  before : ∀ σ, env'.IsSolvedBy σ → env.IsSolvedBy σ
  same : ∀ σ, env'.IsSolvedBy σ → (s.mapVariables σ).alike (t.mapVariables σ) = true

lemma Unification.equates_of_within {depth : Nat} {env env' : Environment} {s t : Term}
    (ends : env.Ends) (run : within depth s t env = .unified env') : env.Equates s t env' where
  grows := (grows_of_within ends run).1
  before _ := (grows_of_within ends run).1.isSolvedBy
  same _ solved := alike_of_upheld solved.isUpheldBy ends .refl run

/-- Unification finds a most general solution whenever there is a solution: the resulting bindings are
solved by every solution of the bindings before that makes the terms equal, and when those have no
cycle, by no other substitution, priorities and signs of zeros apart. -/
theorem unify_most_general {env : Environment} {σ : Variable → Term} {s t : Term}
    (solved : env.IsSolvedBy σ) (heq : (s.mapVariables σ == t.mapVariables σ) = true) :
    ∃ env', unify s t env = some env' ∧ env'.IsSolvedBy σ ∧
      (env.Acyclic → env.Equates s t env') := by
  obtain ⟨env', run, solved'⟩ := Unification.within_of_solution solved heq (Nat.le_refl _)
  refine ⟨env', Unification.unify_eq_some_iff.mpr ⟨_, run⟩, solved', fun acyclic => ?_⟩
  exact Unification.equates_of_within (Environment.ends_of_acyclic acyclic) run

/-- The second arguments of `p(X, A)` and `p(f(Y), f(X))`, with `A` bound to `f(B)`, are unified by
binding `B` to `X`, which is bound to `f(Y)` by then. -/
theorem unify_most_general_chained :
    let var (name : String) := Term.var ⟨name, 0⟩
    let f (t : Term) := Term.ordinary "f" [t]
    let env := Environment.empty.bind ⟨"A", 0⟩ (f (var "B"))
    let c := Term.atom "c"
    let σ : Variable → Term := fun v =>
      if v.name = "A" then f (f c) else if v.name = "Y" then c else f c
    let s := Term.ordinary "p" [var "X", var "A"]
    let t := Term.ordinary "p" [f (var "Y"), f (var "X")]
    env.IsSolvedBy σ ∧ (s.mapVariables σ == t.mapVariables σ) = true ∧ env.Acyclic ∧
      ∃ env', unify s t env = some env' ∧ env'.IsSolvedBy σ ∧ env.Equates s t env' := by
  intro var f env c σ s t
  have solved : env.IsSolvedBy σ := (Environment.isSolvedBy_empty σ).bind (by decide)
  have heq : (s.mapVariables σ == t.mapVariables σ) = true := by decide
  have acyclic : env.Acyclic :=
    Environment.acyclic_of_rank (fun v => if v.name = "A" then 1 else 0) (by decide)
  obtain ⟨env', unified, solved', equates⟩ := unify_most_general solved heq
  exact ⟨solved, heq, acyclic, env', unified, solved', equates acyclic⟩

end ConstraintHandling
