import ConstraintHandling.Unification
import Mathlib.Tactic.Common

/-! What one level of unification does, told by the chased terms. -/
namespace ConstraintHandling

/-- A term that is no variable and has no parts. -/
def Term.isConstant : Term → Bool
  | .atom _ | .bool _ | .int _ | .float _ | .str _ => true
  | _ => false

namespace Unification

/-- The ways in which one level of unification succeeds on two chased terms, which come with the
variables visited before them. `Below` holds of the runs on arguments. -/
inductive Step (Below : List Term → List Term → Environment → Environment → Prop) :
    Term × List Variable → Term × List Variable → Environment → Environment → Prop
  | same {v : Variable} {l r : List Variable} {env : Environment} :
      Step Below (.var v, l) (.var v, r) env env
  | link {v w : Variable} {l r : List Variable} {env : Environment} (hne : v ≠ w) :
      Step Below (.var v, l) (.var w, r) env (env.bind v (.var w))
  | bindLeft {v : Variable} {t : Term} {l r : List Variable} {env : Environment}
      (ht : t.asVariable? = none) (fresh : occurs l env t = false) :
      Step Below (.var v, l) (t, r) env (env.bind v t)
  | bindRight {v : Variable} {s : Term} {l r : List Variable} {env : Environment}
      (hs : s.asVariable? = none) (fresh : occurs r env s = false) :
      Step Below (s, l) (.var v, r) env (env.bind v s)
  | compound {f : String} {as bs : List Term} {p q : Nat} {l r : List Variable}
      {env env' : Environment} (length : as.length = bs.length) (below : Below as bs env env') :
      Step Below (.compound f as p, l) (.compound f bs q, r) env env'
  | list {as bs : List Term} {l r : List Variable} {env env' : Environment}
      (length : as.length = bs.length) (below : Below as bs env env') :
      Step Below (.list as, l) (.list bs, r) env env'
  | equal {s t : Term} {l r : List Variable} {env : Environment} (constant : s.isConstant = true)
      (heq : (s == t) = true) : Step Below (s, l) (t, r) env env

lemma bindChecked_eq_unified {visited : List Variable} {env env' : Environment} {v : Variable}
    {t : Term} (h : bindChecked visited env v t = .unified env') :
    occurs visited env t = false ∧ env' = env.bind v t := by
  unfold bindChecked at h
  split at h
  · cases h
  · next fresh =>
    cases h
    exact ⟨by simpa using fresh, rfl⟩

lemma bindChecked_ne_unfinished {visited : List Variable} {env : Environment} {v : Variable}
    {t : Term} : bindChecked visited env v t ≠ .unfinished := by
  unfold bindChecked
  split <;> simp

lemma compared_ne_unfinished {env : Environment} {b : Bool} :
    (if b = true then unified env else clash) ≠ .unfinished := by
  split <;> simp

theorem step_of_within {depth : Nat} {s t : Term} {env env' : Environment}
    (h : within (depth + 1) s t env = .unified env') :
    Step (fun as bs env env' => fold (within depth) as bs env = .unified env')
      (env.chaseVisiting s) (env.chaseVisiting t) env env' := by
  rw [within] at h
  generalize env.chaseVisiting s = left at h ⊢
  generalize env.chaseVisiting t = right at h ⊢
  obtain ⟨s, l⟩ := left
  obtain ⟨t, r⟩ := right
  dsimp only at h
  split at h
  · next v w =>
    by_cases hvw : v = w
    · subst hvw
      rw [if_pos rfl] at h
      cases h
      exact .same
    · rw [if_neg hvw] at h
      cases h
      exact .link hvw
  · next v t ht =>
    obtain ⟨fresh, rfl⟩ := bindChecked_eq_unified h
    exact .bindLeft (Term.asVariable?_eq_none_iff.mpr ht) fresh
  · next s w hs =>
    obtain ⟨fresh, rfl⟩ := bindChecked_eq_unified h
    exact .bindRight (Term.asVariable?_eq_none_iff.mpr hs) fresh
  · next f as p g bs q =>
    split at h
    · next same =>
      obtain ⟨rfl, length⟩ := same
      exact .compound length h
    · cases h
  · next as bs =>
    split at h
    · next length => exact .list length h
    · cases h
  · next hs _ _ compounds lists =>
    split at h
    · next heq =>
      cases h
      refine .equal ?_ heq
      change Term.beq s t = true at heq
      cases s with
      | compound => cases t <;> first | exact absurd rfl (compounds _ _ _ _ _ _ rfl) | cases heq
      | list => cases t <;> first | exact absurd rfl (lists _ _ rfl) | cases heq
      | var v => exact absurd rfl (hs v)
      | _ => rfl
    · cases h

theorem within_of_step {depth : Nat} {s t : Term} {env env' : Environment}
    (h : Step (fun as bs env env' => fold (within depth) as bs env = .unified env')
      (env.chaseVisiting s) (env.chaseVisiting t) env env') :
    within (depth + 1) s t env = .unified env' := by
  rw [within]
  generalize env.chaseVisiting s = left at h ⊢
  generalize env.chaseVisiting t = right at h ⊢
  cases h with
  | same => exact congrArg unified (if_pos rfl)
  | link hne => exact congrArg unified (if_neg hne)
  | @bindLeft v t l r _ ht fresh =>
    have bound : bindChecked l env v t = .unified (env.bind v t) := by simp [bindChecked, fresh]
    cases t with
    | var => cases ht
    | _ => exact bound
  | @bindRight v s l r _ hs fresh =>
    have bound : bindChecked r env v s = .unified (env.bind v s) := by simp [bindChecked, fresh]
    cases s with
    | var => cases hs
    | _ => exact bound
  | compound length below => exact (if_pos ⟨rfl, length⟩).trans below
  | list length below => exact (if_pos length).trans below
  | equal constant heq =>
    rename_i s t l r
    cases s with
    | var | compound | list => cases constant
    | _ =>
      cases t with
      | var => cases heq
      | _ => exact if_pos heq

/-- Two terms whose parts are to be unified pairwise. -/
inductive Pairs : Term → Term → List Term → List Term → Prop
  | compound {f : String} {as bs : List Term} {p q : Nat} (length : as.length = bs.length) :
      Pairs (.compound f as p) (.compound f bs q) as bs
  | list {as bs : List Term} (length : as.length = bs.length) : Pairs (.list as) (.list bs) as bs

lemma within_of_pairs {s t : Term} {env : Environment} {as bs : List Term}
    (h : Pairs (env.chaseVisiting s).1 (env.chaseVisiting t).1 as bs) (depth : Nat) :
    within (depth + 1) s t env = fold (within depth) as bs env := by
  rw [within]
  generalize env.chaseVisiting s = left at h ⊢
  generalize env.chaseVisiting t = right at h ⊢
  obtain ⟨s, l⟩ := left
  obtain ⟨t, r⟩ := right
  cases h with
  | compound length => exact if_pos ⟨rfl, length⟩
  | list length => exact if_pos length

lemma within_of_not_pairs {s t : Term} {env : Environment}
    (h : ∀ as bs, ¬Pairs (env.chaseVisiting s).1 (env.chaseVisiting t).1 as bs) (depth : Nat) :
    within (depth + 1) s t env = within 1 s t env ∧ within (depth + 1) s t env ≠ .unfinished := by
  rw [within, within]
  generalize env.chaseVisiting s = left at h ⊢
  generalize env.chaseVisiting t = right at h ⊢
  obtain ⟨s, l⟩ := left
  obtain ⟨t, r⟩ := right
  cases s with
  | var v =>
    cases t with
    | var w => exact ⟨rfl, by simp⟩
    | _ => exact ⟨rfl, bindChecked_ne_unfinished⟩
  | compound f as p =>
    cases t with
    | var w => exact ⟨rfl, bindChecked_ne_unfinished⟩
    | compound g bs q =>
      have other : ¬(f = g ∧ as.length = bs.length) := by
        rintro ⟨rfl, length⟩
        exact h as bs (.compound length)
      simp [other]
    | _ => exact ⟨rfl, compared_ne_unfinished⟩
  | list as =>
    cases t with
    | var w => exact ⟨rfl, bindChecked_ne_unfinished⟩
    | list bs =>
      have other : as.length ≠ bs.length := fun length => h as bs (.list length)
      simp [other]
    | _ => exact ⟨rfl, compared_ne_unfinished⟩
  | _ =>
    cases t with
    | var w => exact ⟨rfl, bindChecked_ne_unfinished⟩
    | _ => exact ⟨rfl, compared_ne_unfinished⟩

lemma fold_cons_eq_unified {step : Term → Term → Environment → Unification} {s t : Term}
    {ss ts : List Term} {env env' : Environment}
    (h : fold step (s :: ss) (t :: ts) env = .unified env') :
    ∃ env₁, step s t env = .unified env₁ ∧ fold step ss ts env₁ = .unified env' := by
  rw [fold] at h
  cases hstep : step s t env with
  | unified env₁ => exact ⟨env₁, rfl, by simpa [hstep] using h⟩
  | clash => simp [hstep] at h
  | unfinished => simp [hstep] at h

lemma fold_keeps {R : Environment → Prop} {step : Term → Term → Environment → Unification}
    {as bs : List Term} {env env' : Environment}
    (keep : ∀ a ∈ as, ∀ b ∈ bs, ∀ env env', R env → step a b env = .unified env' → R env')
    (h : fold step as bs env = .unified env') (hR : R env) : R env' := by
  induction as generalizing bs env with
  | nil =>
    cases h
    exact hR
  | cons a as ih =>
    cases bs with
    | nil =>
      cases h
      exact hR
    | cons b bs =>
      obtain ⟨env₁, first, later⟩ := fold_cons_eq_unified h
      refine ih (fun a ha b hb => ?_) later ?_
      · exact keep a (List.mem_cons_of_mem _ ha) b (List.mem_cons_of_mem _ hb)
      · exact keep a List.mem_cons_self b List.mem_cons_self env env₁ hR first

lemma exists_within_of_unify {s t : Term} {env env' : Environment} (h : unify s t env = some env') :
    ∃ depth, within (depth + 1) s t env = .unified env' := by
  unfold unify at h
  cases hrun : within (depthBound s t env) s t env with
  | clash => simp [hrun, environment?] at h
  | unfinished => simp [hrun, environment?] at h
  | unified env₁ =>
    obtain rfl : env₁ = env' := by simpa [hrun, environment?] using h
    cases hdepth : depthBound s t env with
    | zero =>
      rw [hdepth] at hrun
      cases hrun
    | succ depth => exact ⟨depth, hdepth ▸ hrun⟩

end Unification
end ConstraintHandling
