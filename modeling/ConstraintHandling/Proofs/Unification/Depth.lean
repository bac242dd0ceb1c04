import ConstraintHandling.Proofs.Unification.Bindings
import Mathlib.Data.List.ProdSigma

/-! How deep unification goes. A run that ends at all ends within the bound on the depth, also under
environments with cycles: on a way down no two terms are met twice with as many loose variables, since
the bindings would then have the same meaning and the run would repeat itself for ever. -/
namespace ConstraintHandling

open Classical in
noncomputable def Environment.looseCount (nodes : List Term) (env : Environment) : Nat :=
  nodes.countP fun u => decide (∃ v, u = .var v ∧ env.Loose v)

namespace Environment
variable {nodes : List Term} {env env' env₁ env₂ env₃ : Environment}

lemma SameLookups.symm (h : env.SameLookups env') : env'.SameLookups env :=
  fun v => (h v).symm

lemma SameLookups.trans (h : env₁.SameLookups env₂) (h' : env₂.SameLookups env₃) :
    env₁.SameLookups env₃ :=
  fun v => (h v).trans (h' v)

lemma SameLookups.bind (h : env.SameLookups env') (v : Variable) (t : Term) :
    (env.bind v t).SameLookups (env'.bind v t) := by
  intro w
  rw [lookup_bind, lookup_bind, h w]

lemma SameLookups.looseCount_eq (h : env.SameLookups env') (nodes : List Term) :
    env.looseCount nodes = env'.looseCount nodes := by
  have links : env.Links = env'.Links := by
    funext v w
    rw [Links, Links, h v]
  have loose : env.Loose = env'.Loose := by
    funext v
    rw [Loose, Loose, h v, links]
  rw [looseCount, loose, looseCount]

/-- Between two environments all values are kept, or a variable among some terms is settled. -/
def Settles (nodes : List Term) (env env' : Environment) : Prop :=
  env.SameLookups env' ∨ env'.looseCount nodes < env.looseCount nodes

lemma Settles.refl (nodes : List Term) (env : Environment) : Settles nodes env env :=
  .inl fun _ => rfl

lemma Settles.trans (h : Settles nodes env₁ env₂) (h' : Settles nodes env₂ env₃) :
    Settles nodes env₁ env₃ := by
  obtain same | fewer := h
  · obtain same' | fewer' := h'
    · exact .inl (same.trans same')
    · exact .inr (by rwa [same.looseCount_eq nodes])
  · obtain same' | fewer' := h'
    · exact .inr (by rwa [← same'.looseCount_eq nodes])
    · exact .inr (fewer'.trans fewer)

open Classical in
lemma looseCount_lt {u : Variable} (fewer : ∀ v, env'.Loose v → env.Loose v) (hu : .var u ∈ nodes)
    (loose : env.Loose u) (settled : ¬env'.Loose u) :
    env'.looseCount nodes < env.looseCount nodes := by
  let p (w : Term) : Bool := decide (∃ v, w = .var v ∧ env.Loose v)
  let q (w : Term) : Bool := decide (∃ v, w = .var v ∧ env'.Loose v)
  have both : ∀ w, (q w && p w) = q w := by
    intro w
    cases hq : q w with
    | false => rfl
    | true =>
      obtain ⟨x, rfl, hx⟩ := of_decide_eq_true hq
      exact decide_eq_true ⟨x, rfl, fewer x hx⟩
  have out : q (.var u) = false := by
    apply decide_eq_false
    rintro ⟨x, hx, hloose⟩
    cases hx
    exact settled hloose
  calc nodes.countP q
    _ = (nodes.filter p).countP q := by rw [List.countP_filter]; simp only [both]
    _ < (nodes.filter p).length := by
      rw [List.countP_lt_length_iff]
      exact ⟨.var u, List.mem_filter.mpr ⟨hu, decide_eq_true ⟨u, rfl, loose⟩⟩, out⟩
    _ = nodes.countP p := List.countP_eq_length_filter.symm

lemma Extended.settles (h : Extended (· ∈ nodes) env env') (covered : env.Covered (· ∈ nodes)) :
    Settles nodes env env' := by
  induction h with
  | refl => exact .refl nodes env
  | @bind env' v t earlier loose other hv ht ih =>
    refine ih.trans ?_
    obtain same | ⟨u, origin, looseu, settled⟩ := same_or_settled loose other
    · exact .inl same
    have hu : .var u ∈ nodes := by
      obtain rfl | link := origin
      · exact hv
      · exact earlier.covered covered v _ link
    exact .inr (looseCount_lt (fun x hx => hx.of_bind other) hu looseu settled)

end Environment

namespace Unification
open Environment

variable {nodes : List Term} {env env' : Environment} {s t : Term}

lemma fold_mono {step step' : Term → Term → Environment → Unification}
    (larger : ∀ {s t env}, step s t env ≠ .unfinished → step' s t env = step s t env)
    {as bs : List Term} (h : fold step as bs env ≠ .unfinished) :
    fold step' as bs env = fold step as bs env := by
  induction as generalizing bs env with
  | nil => rfl
  | cons a as ih =>
    cases bs with
    | nil => rfl
    | cons b bs =>
      rw [fold] at h
      rw [fold, fold]
      cases first : step a b env with
      | unified env₁ =>
        rw [first] at h
        rw [larger (by rw [first]; simp), first]
        exact ih h
      | clash => rw [larger (by rw [first]; simp), first]
      | unfinished => simp [first] at h

lemma within_succ {depth : Nat} (h : within depth s t env ≠ .unfinished) :
    within (depth + 1) s t env = within depth s t env := by
  induction depth generalizing s t env with
  | zero => exact absurd rfl h
  | succ depth ih =>
    by_cases hpairs : ∃ as bs, Pairs (env.chaseVisiting s).1 (env.chaseVisiting t).1 as bs
    · obtain ⟨as, bs, hpairs⟩ := hpairs
      rw [within_of_pairs hpairs] at h
      rw [within_of_pairs hpairs, within_of_pairs hpairs]
      exact fold_mono ih h
    · push Not at hpairs
      rw [(within_of_not_pairs hpairs (depth + 1)).1, (within_of_not_pairs hpairs depth).1]

lemma within_of_le {m n : Nat} (hmn : m ≤ n) (h : within m s t env ≠ .unfinished) :
    within n s t env = within m s t env := by
  induction n, hmn using Nat.le_induction with
  | base => rfl
  | succ n _ ih =>
    rw [← ih]
    exact within_succ (ih ▸ h)

lemma occurs_of_sameLookups (same : env.SameLookups env') (visited : List Variable) (t : Term) :
    occurs visited env t = occurs visited env' t := by
  unfold occurs
  simp only [same _]

/-- Bindings of the same meaning lead to the same successes, with bindings of the same meaning. -/
def Respects (step : Term → Term → Environment → Unification) : Prop :=
  ∀ s t env env₁ env', env.SameLookups env₁ → step s t env = .unified env' →
    ∃ env₁', step s t env₁ = .unified env₁' ∧ env'.SameLookups env₁'

lemma Respects.fold {step : Term → Term → Environment → Unification} (h : Respects step)
    {as bs : List Term} {env₁ : Environment} (same : env.SameLookups env₁)
    (hfold : fold step as bs env = .unified env') :
    ∃ env₁', Unification.fold step as bs env₁ = .unified env₁' ∧ env'.SameLookups env₁' := by
  induction as generalizing bs env env₁ with
  | nil =>
    cases hfold
    exact ⟨env₁, rfl, same⟩
  | cons a as ih =>
    cases bs with
    | nil =>
      cases hfold
      exact ⟨env₁, rfl, same⟩
    | cons b bs =>
      obtain ⟨envm, first, later⟩ := fold_cons_eq_unified hfold
      obtain ⟨envm₁, first₁, same₁⟩ := h a b env env₁ envm same first
      rw [Unification.fold, first₁]
      exact ih same₁ later

theorem respects_within (depth : Nat) : Respects (within depth) := by
  induction depth with
  | zero => exact fun _ _ _ _ _ _ h => by cases h
  | succ depth ih =>
    intro s t env env₁ env' same h
    have hstep := step_of_within h
    rw [chaseVisiting_congr same s, chaseVisiting_congr same t] at hstep
    have made {env₁' : Environment} (hstep' : Step (fun as bs env env' =>
        Unification.fold (within depth) as bs env = .unified env') (env₁.chaseVisiting s)
        (env₁.chaseVisiting t) env₁ env₁') : within (depth + 1) s t env₁ = .unified env₁' :=
      within_of_step hstep'
    generalize env₁.chaseVisiting s = left at hstep made
    generalize env₁.chaseVisiting t = right at hstep made
    cases hstep with
    | same => exact ⟨env₁, made .same, same⟩
    | link hne => exact ⟨_, made (.link hne), same.bind _ _⟩
    | bindLeft ht fresh =>
      rw [occurs_of_sameLookups same] at fresh
      exact ⟨_, made (.bindLeft ht fresh), same.bind _ _⟩
    | bindRight hs fresh =>
      rw [occurs_of_sameLookups same] at fresh
      exact ⟨_, made (.bindRight hs fresh), same.bind _ _⟩
    | compound length below =>
      obtain ⟨env₁', below₁, same'⟩ := ih.fold same below
      exact ⟨env₁', made (.compound length below₁), same'⟩
    | list length below =>
      obtain ⟨env₁', below₁, same'⟩ := ih.fold same below
      exact ⟨env₁', made (.list length below₁), same'⟩
    | equal constant heq => exact ⟨env₁, made (.equal constant heq), same⟩

lemma exists_pairs_of_unfinished {depth : Nat} (h : within (depth + 1) s t env = .unfinished) :
    ∃ as bs, Pairs (env.chaseVisiting s).1 (env.chaseVisiting t).1 as bs := by
  by_contra hpairs
  push Not at hpairs
  exact (within_of_not_pairs hpairs depth).2 h

lemma within_unfinished_of_same {depth : Nat} {env₁ : Environment} (same : env.SameLookups env₁)
    (h : within depth s t env = .unfinished) : within depth s t env₁ = .unfinished := by
  induction depth generalizing s t env env₁ with
  | zero => rfl
  | succ depth ih =>
    obtain ⟨as, bs, hpairs⟩ := exists_pairs_of_unfinished h
    rw [within_of_pairs hpairs] at h
    rw [chaseVisiting_congr same s, chaseVisiting_congr same t] at hpairs
    rw [within_of_pairs hpairs]
    clear hpairs
    induction as generalizing bs env env₁ with
    | nil => cases h
    | cons a as ihas =>
      cases bs with
      | nil => cases h
      | cons b bs =>
        rw [fold] at h ⊢
        cases first : within depth a b env with
        | unified envm =>
          rw [first] at h
          obtain ⟨envm₁, first₁, same₁⟩ := respects_within depth a b env env₁ envm same first
          rw [first₁]
          exact ihas same₁ bs h
        | clash => simp [first] at h
        | unfinished => rw [ih same first]

/-- A run that ends with a bound just above the given one. -/
def Needs (depth : Nat) (s t : Term) (env : Environment) : Prop :=
  within depth s t env = .unfinished ∧ within (depth + 1) s t env ≠ .unfinished

lemma Needs.unique {m n : Nat} (hm : Needs m s t env) (hn : Needs n s t env) : m = n := by
  have le {m n : Nat} (hm : Needs m s t env) (hn : Needs n s t env) : n ≤ m := by
    by_contra hlt
    apply hm.2
    rw [← within_of_le (Nat.lt_of_not_le hlt) hm.2]
    exact hn.1
  exact Nat.le_antisymm (le hn hm) (le hm hn)

lemma Needs.congr {depth : Nat} {env₁ : Environment} (same : env.SameLookups env₁)
    (h : Needs depth s t env) : Needs depth s t env₁ :=
  ⟨within_unfinished_of_same same h.1, fun h' => h.2 (within_unfinished_of_same same.symm h')⟩

lemma exists_of_fold {step step' : Term → Term → Environment → Unification}
    (larger : ∀ {s t env}, step s t env ≠ .unfinished → step' s t env = step s t env)
    {R : Environment → Prop} {as bs : List Term}
    (keep : ∀ a ∈ as, ∀ b ∈ bs, ∀ env env', R env → step a b env = .unified env' → R env')
    (hR : R env) (h : fold step as bs env = .unfinished)
    (h' : fold step' as bs env ≠ .unfinished) :
    ∃ a ∈ as, ∃ b ∈ bs, ∃ env₁, R env₁ ∧ step a b env₁ = .unfinished ∧
      step' a b env₁ ≠ .unfinished := by
  induction as generalizing bs env with
  | nil => cases h
  | cons a as ih =>
    cases bs with
    | nil => cases h
    | cons b bs =>
      rw [fold] at h h'
      cases first : step a b env with
      | unified env₁ =>
        rw [larger (by rw [first]; simp), first] at h'
        rw [first] at h
        have hR₁ := keep a List.mem_cons_self b List.mem_cons_self env env₁ hR first
        obtain ⟨a', ha', b', hb', found⟩ := ih (fun a ha b hb =>
          keep a (List.mem_cons_of_mem _ ha) b (List.mem_cons_of_mem _ hb)) hR₁ h h'
        exact ⟨a', List.mem_cons_of_mem _ ha', b', List.mem_cons_of_mem _ hb', found⟩
      | clash => simp [first] at h
      | unfinished =>
        refine ⟨a, List.mem_cons_self, b, List.mem_cons_self, env, hR, first, fun first' => ?_⟩
        simp [first'] at h'

def keys (nodes : List Term) : List (Term × Term × Nat) :=
  nodes ×ˢ nodes ×ˢ List.range (nodes.length + 1)

lemma length_keys (nodes : List Term) :
    (keys nodes).length = nodes.length * (nodes.length * (nodes.length + 1)) := by
  simp [keys, List.length_product]

/-- What has been met on a way down to some bindings: the two terms of different runs that need at
least the given depth, and the number of loose variables at their beginning. -/
structure Met (nodes : List Term) (depth : Nat) (env : Environment)
    (seen : List (Term × Term × Nat)) : Prop where
  nodup : seen.Nodup
  subset : seen ⊆ keys nodes
  needed : ∀ key ∈ seen, ∃ env₀ n, depth ≤ n ∧ Needs n key.1 key.2.1 env₀ ∧
    key.2.2 = env₀.looseCount nodes ∧ Settles nodes env₀ env

namespace Met
variable {depth : Nat} {seen : List (Term × Term × Nat)}

lemma length_le (h : Met nodes depth env seen) : seen.length ≤ (keys nodes).length :=
  (List.subperm_of_subset h.nodup h.subset).length_le

lemma settles (h : Met nodes depth env seen) (hsettles : Settles nodes env env') :
    Met nodes depth env' seen where
  nodup := h.nodup
  subset := h.subset
  needed key hkey := by
    obtain ⟨env₀, n, hn, needs, count, settled⟩ := h.needed key hkey
    exact ⟨env₀, n, hn, needs, count, settled.trans hsettles⟩

lemma cons (h : Met nodes (depth + 1) env seen) (hs : s ∈ nodes) (ht : t ∈ nodes)
    (needs : Needs depth s t env) :
    Met nodes depth env ((s, t, env.looseCount nodes) :: seen) where
  nodup := by
  -- Under bindings of the same meaning the run would need the same depth as one met before.
    refine List.nodup_cons.mpr ⟨fun hseen => ?_, h.nodup⟩
    obtain ⟨env₀, n, hn, needs₀, count, same | fewer⟩ := h.needed _ hseen
    · have := (needs₀.congr same).unique needs
      omega
    · dsimp only at count
      omega
  subset := by
    refine List.cons_subset.mpr ⟨?_, h.subset⟩
    have : env.looseCount nodes ≤ nodes.length := List.countP_le_length
    simp only [keys, List.mem_product, List.mem_range]
    exact ⟨hs, ht, by omega⟩
  needed := by
    refine List.forall_mem_cons.mpr ⟨⟨env, depth, Nat.le_refl _, needs, rfl, .refl nodes env⟩, ?_⟩
    intro key hkey
    obtain ⟨env₀, n, hn, rest⟩ := h.needed key hkey
    exact ⟨env₀, n, by omega, rest⟩

end Met

lemma depth_lt_of_needs (closed : ∀ t ∈ nodes, ∀ a ∈ t.children, a ∈ nodes) {depth : Nat}
    {seen : List (Term × Term × Nat)} (met : Met nodes (depth + 1) env seen)
    (covered : env.Covered (· ∈ nodes)) (hs : s ∈ nodes) (ht : t ∈ nodes)
    (needs : Needs depth s t env) : seen.length + depth < (keys nodes).length := by
  induction depth generalizing s t env seen with
  | zero =>
    have := (met.cons hs ht needs).length_le
    rwa [List.length_cons] at this
  | succ depth ih =>
    obtain ⟨as, bs, hpairs⟩ := exists_pairs_of_unfinished needs.1
    have here := met.cons hs ht needs
    obtain ⟨unfinished, finished⟩ := needs
    rw [within_of_pairs hpairs] at unfinished finished
    have has : ∀ a ∈ as, a ∈ nodes := hpairs.children.1 ▸ closed _ (covered.chaseVisiting hs)
    have hbs : ∀ b ∈ bs, b ∈ nodes := hpairs.children.2 ▸ closed _ (covered.chaseVisiting ht)
    obtain ⟨a, ha, b, hb, env₁, extended, needs₁⟩ :=
      exists_of_fold within_succ (R := Extended (· ∈ nodes) env)
        (fun a ha b hb env₁ env₂ h₁ hab => h₁.trans
          (extended_of_within closed (h₁.covered covered) (has a ha) (hbs b hb) hab))
        .refl unfinished finished
    have := ih (here.settles (extended.settles covered)) (extended.covered covered) (has a ha)
      (hbs b hb) needs₁
    rw [List.length_cons] at this
    omega

lemma length_flatMap_subterms (ts : List Term) :
    (ts.flatMap Term.subterms).length = Term.sizeAll ts := by
  rw [← Term.subtermsAll_eq, Term.length_subtermsAll]

lemma exists_nodes (s t : Term) (env : Environment) :
    ∃ nodes : List Term, (∀ u ∈ nodes, ∀ a ∈ u.children, a ∈ nodes) ∧ s ∈ nodes ∧ t ∈ nodes ∧
      env.Covered (· ∈ nodes) ∧ nodes.length ≤ Unification.nodes s t env := by
  let values := env.bindings.map Prod.snd
  let roots := s :: t :: values
  have inside {u : Term} (hu : u ∈ roots) : u ∈ roots.flatMap Term.subterms :=
    List.mem_flatMap.mpr ⟨u, hu, u.self_mem_subterms⟩
  refine ⟨roots.flatMap Term.subterms, ?_, inside (by simp [roots]), inside (by simp [roots]), ?_, ?_⟩
  · intro u hu a ha
    obtain ⟨root, hroot, hu⟩ := List.mem_flatMap.mp hu
    exact List.mem_flatMap.mpr ⟨root, hroot, Term.children_mem_subterms hu ha⟩
  · intro v u bound
    obtain ⟨before, behind, heq, -⟩ := List.lookup_eq_some_iff.mp bound
    refine inside (List.mem_cons_of_mem _ (List.mem_cons_of_mem _ ?_))
    exact List.mem_map.mpr ⟨(v, u), by simp [heq], rfl⟩
  · simp only [roots, length_flatMap_subterms, Term.sizeAll, Unification.nodes, values]
    omega

lemma depth_lt_depthBound {depth : Nat} (needs : Needs depth s t env) :
    depth < depthBound s t env := by
  obtain ⟨nodes, closed, hs, ht, covered, length⟩ := exists_nodes s t env
  have met : Met nodes (depth + 1) env [] := ⟨List.nodup_nil, List.nil_subset _, by simp⟩
  have few := depth_lt_of_needs closed met covered hs ht needs
  rw [length_keys, List.length_nil, Nat.zero_add] at few
  calc depth
    _ < nodes.length * (nodes.length * (nodes.length + 1)) := few
    _ ≤ (Unification.nodes s t env + 1) ^ 3 := by
      rw [Nat.pow_succ, Nat.pow_two, Nat.mul_assoc]
      gcongr <;> omega
    _ ≤ depthBound s t env := Nat.le_mul_of_pos_left _ Nat.two_pos

lemma exists_needs {depth : Nat} (h : within depth s t env ≠ .unfinished) :
    ∃ n < depth, Needs n s t env := by
  induction depth with
  | zero => exact absurd rfl h
  | succ depth ih =>
    by_cases earlier : within depth s t env = .unfinished
    · exact ⟨depth, Nat.lt_succ_self _, earlier, h⟩
    · obtain ⟨n, hn, needs⟩ := ih earlier
      exact ⟨n, by omega, needs⟩

/-- No run that ends with some bound on the depth ends differently with the one that is used. -/
theorem within_depthBound {depth : Nat} (h : within depth s t env ≠ .unfinished) :
    within (depthBound s t env) s t env = within depth s t env := by
  obtain ⟨n, hn, needs⟩ := exists_needs h
  rw [within_of_le (depth_lt_depthBound needs) needs.2, within_of_le hn needs.2]

lemma unify_eq_of_within {depth : Nat} (h : within depth s t env ≠ .unfinished) :
    unify s t env = (within depth s t env).environment? := by
  rw [unify, within_depthBound h]

theorem unify_eq_some_iff :
    unify s t env = some env' ↔ ∃ depth, within depth s t env = .unified env' := by
  constructor
  · intro h
    obtain ⟨depth, run⟩ := exists_within_of_unify h
    exact ⟨depth + 1, run⟩
  · rintro ⟨depth, run⟩
    rw [unify_eq_of_within (by rw [run]; simp), run]
    rfl

end Unification
end ConstraintHandling
