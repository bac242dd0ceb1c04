import ConstraintHandling.Proofs.Unification.Solution
import ConstraintHandling.Proofs.Unification.Soundness
import Mathlib.Order.WellFounded

/-! The calls that unification makes of itself, and when they come to an end. On chased terms with
pairs of parts there is a call for each pair, as long as the calls before it succeed. A run is endless
just when one of its calls comes back to itself, to the same two terms under bindings of the same
meaning. For that the bindings must have a cycle, and then nothing makes the two terms equal. -/
namespace ConstraintHandling
namespace Unification
open Relation Environment

structure Call where
  left : Term
  right : Term
  env : Environment

/-- The calls on the pairs of two lists. The bindings at the beginning of each are those that the
calls before it have made. -/
inductive Meets : List Term → List Term → Environment → Call → Prop
  | here {a b : Term} {as bs : List Term} {env : Environment} :
      Meets (a :: as) (b :: bs) env ⟨a, b, env⟩
  | later {a b : Term} {as bs : List Term} {env env' : Environment} {c : Call}
      (first : unify a b env = some env') (behind : Meets as bs env' c) :
      Meets (a :: as) (b :: bs) env c

namespace Call

/-- The second call is one that the first one makes for its parts. -/
def Makes (c c' : Call) : Prop :=
  ∃ as bs, Pairs (c.env.chaseVisiting c.left).1 (c.env.chaseVisiting c.right).1 as bs ∧
    Meets as bs c.env c'

/-- No more than some number of calls follow each other below the call. -/
def Finishes (c : Call) : Prop :=
  ∃ depth, within depth c.left c.right c.env ≠ .unfinished

/-- Below the call there is one on the same terms, under bindings of the same meaning. -/
def Recurs (c : Call) : Prop :=
  ∃ env, c.env.SameLookups env ∧ TransGen Makes c ⟨c.left, c.right, env⟩

end Call

variable {P : Term → Prop} {as bs : List Term} {env env' : Environment} {s t : Term} {c c' : Call}

section Finishing

lemma Meets.within_ne_unfinished {depth : Nat} (h : Meets as bs env c)
    (run : fold (within depth) as bs env ≠ .unfinished) :
    within depth c.left c.right c.env ≠ .unfinished := by
  induction h with
  | here =>
    intro unfinished
    rw [fold, unfinished] at run
    exact run rfl
  | @later a b as bs env env' c first behind ih =>
    apply ih
    rw [fold] at run
    cases outcome : within depth a b env with
    | unfinished => simp [outcome] at run
    | clash =>
      rw [unify_eq_of_within (by rw [outcome]; simp), outcome] at first
      cases first
    | unified env₁ =>
      rw [unify_eq_of_within (by rw [outcome]; simp), outcome] at first
      cases first
      rwa [outcome] at run

lemma Call.Makes.within_ne_unfinished {depth : Nat} (h : c.Makes c')
    (run : within (depth + 1) c.left c.right c.env ≠ .unfinished) :
    within depth c'.left c'.right c'.env ≠ .unfinished := by
  obtain ⟨as, bs, hpairs, met⟩ := h
  rw [within_of_pairs hpairs] at run
  exact met.within_ne_unfinished run

lemma within_ne_unfinished_of_transGen {depth : Nat} (h : TransGen Call.Makes c c')
    (run : within (depth + 1) c.left c.right c.env ≠ .unfinished) :
    within depth c'.left c'.right c'.env ≠ .unfinished := by
  induction h with
  | single first => exact first.within_ne_unfinished run
  | tail _ last ih =>
    refine last.within_ne_unfinished ?_
    rwa [within_succ ih]

lemma Call.Finishes.of_reach (h : c.Finishes) (reach : ReflTransGen Call.Makes c c') :
    c'.Finishes := by
  obtain rfl | below := reflTransGen_iff_eq_or_transGen.mp reach
  · exact h
  · obtain ⟨depth, run⟩ := h
    refine ⟨depth, within_ne_unfinished_of_transGen below ?_⟩
    rwa [within_succ run]

lemma Call.Finishes.not_recurs (h : c.Finishes) : ¬c.Recurs := by
  -- The call would need less depth than it needs.
  rintro ⟨env, same, below⟩
  obtain ⟨depth, run⟩ := h
  obtain ⟨n, -, needs⟩ := exists_needs run
  exact within_ne_unfinished_of_transGen below needs.2 (within_unfinished_of_same same needs.1)

lemma exists_fold_ne_unfinished (h : ∀ c, Meets as bs env c → c.Finishes) :
    ∃ depth, fold (within depth) as bs env ≠ .unfinished := by
  induction as generalizing bs env with
  | nil => exact ⟨0, by simp [fold]⟩
  | cons a as ih =>
    cases bs with
    | nil => exact ⟨0, by simp [fold]⟩
    | cons b bs =>
      obtain ⟨m, first⟩ := h _ .here
      dsimp only at first
      cases outcome : within m a b env with
      | unfinished => exact absurd outcome first
      | clash => exact ⟨m, by simp [fold, outcome]⟩
      | unified env' =>
        have made : unify a b env = some env' := unify_eq_some_iff.mpr ⟨m, outcome⟩
        obtain ⟨n, rest⟩ := ih fun c behind => h c (.later made behind)
        refine ⟨max m n, ?_⟩
        rw [fold, within_of_le (Nat.le_max_left m n) first, outcome]
        dsimp only
        rwa [fold_mono (within_of_le (Nat.le_max_right m n)) rest]

lemma Call.finishes_of_makes (h : ∀ c', c.Makes c' → c'.Finishes) : c.Finishes := by
  by_cases hpairs :
      ∃ as bs, Pairs (c.env.chaseVisiting c.left).1 (c.env.chaseVisiting c.right).1 as bs
  · obtain ⟨as, bs, hpairs⟩ := hpairs
    obtain ⟨depth, run⟩ := exists_fold_ne_unfinished fun c' met => h c' ⟨as, bs, hpairs, met⟩
    refine ⟨depth + 1, ?_⟩
    rwa [within_of_pairs hpairs]
  · push Not at hpairs
    exact ⟨1, (within_of_not_pairs hpairs 0).2⟩

theorem Call.finishes_iff_acc : c.Finishes ↔ Acc (fun c' c => c.Makes c') c := by
  constructor
  · rintro ⟨depth, run⟩
    induction depth generalizing c with
    | zero => exact absurd rfl run
    | succ depth ih => exact .intro c fun c' made => ih (made.within_ne_unfinished run)
  · intro acc
    induction acc with
    | intro c _ ih => exact finishes_of_makes ih

end Finishing

section Recurrence

structure Call.Among (P : Term → Prop) (c : Call) : Prop where
  left : P c.left
  right : P c.right
  values : c.env.Covered P

lemma Meets.extended (parts : ∀ t, P t → ∀ a ∈ t.children, P a) (h : Meets as bs env c)
    (covered : env.Covered P) (has : ∀ a ∈ as, P a) (hbs : ∀ b ∈ bs, P b) :
    c.Among P ∧ Extended P env c.env := by
  induction h with
  | here => exact ⟨⟨has _ List.mem_cons_self, hbs _ List.mem_cons_self, covered⟩, .refl⟩
  | later first _ ih =>
    obtain ⟨ha, has⟩ := List.forall_mem_cons.mp has
    obtain ⟨hb, hbs⟩ := List.forall_mem_cons.mp hbs
    obtain ⟨depth, run⟩ := exists_within_of_unify first
    have extended := extended_of_within parts covered ha hb run
    obtain ⟨among, later⟩ := ih (extended.covered covered) has hbs
    exact ⟨among, extended.trans later⟩

lemma Call.Makes.extended (parts : ∀ t, P t → ∀ a ∈ t.children, P a) (h : c.Makes c')
    (among : c.Among P) : c'.Among P ∧ Extended P c.env c'.env := by
  obtain ⟨as, bs, hpairs, met⟩ := h
  refine met.extended parts among.values ?_ ?_
  · exact hpairs.children.1 ▸ parts _ (among.values.chaseVisiting among.left)
  · exact hpairs.children.2 ▸ parts _ (among.values.chaseVisiting among.right)

/-- An endless call leads to one that comes back to itself. There are only so many pairs of nodes and
numbers of loose variables, and where these numbers agree no binding has changed its meaning. -/
theorem exists_recurs (h : ¬c.Finishes) : ∃ c', ReflTransGen Call.Makes c c' ∧ c'.Recurs := by
  obtain ⟨nodes, closed, left, right, covered, -⟩ := exists_nodes c.left c.right c.env
  rw [Call.finishes_iff_acc, not_acc_iff_exists_descending_chain] at h
  obtain ⟨f, rfl, step⟩ := h
  have among (n : ℕ) : (f n).Among (· ∈ nodes) := by
    induction n with
    | zero => exact ⟨left, right, covered⟩
    | succ n ih => exact ((step n).extended closed ih).1
  have way {m n : ℕ} (hmn : m < n) : TransGen Call.Makes (f m) (f n) :=
    Nat.rel_of_forall_rel_succ_of_lt (TransGen Call.Makes) (fun k => .single (step k)) hmn
  have settles {m n : ℕ} (hmn : m ≤ n) : Settles nodes (f m).env (f n).env := by
    induction n, hmn using Nat.le_induction with
    | base => exact .refl nodes _
    | succ n _ ih => exact ih.trans (((step n).extended closed (among n)).2.settles (among n).values)
  let key (n : ℕ) : Term × Term × ℕ := ((f n).left, (f n).right, (f n).env.looseCount nodes)
  have mem (n : ℕ) : key n ∈ keys nodes := by
    have : (f n).env.looseCount nodes ≤ nodes.length := List.countP_le_length
    simp only [key, keys, List.mem_product, List.mem_range]
    exact ⟨(among n).left, (among n).right, by omega⟩
  obtain ⟨m, n, hmn, same⟩ : ∃ m n, m < n ∧ key m = key n := by
    have : Finite {k // k ∈ keys nodes} := (keys nodes).finite_toSet
    obtain ⟨m, n, hne, same⟩ :=
      Finite.exists_ne_map_eq_of_infinite fun n => (⟨key n, mem n⟩ : {k // k ∈ keys nodes})
    obtain hlt | hlt := Nat.lt_or_gt_of_ne hne
    · exact ⟨m, n, hlt, congrArg Subtype.val same⟩
    · exact ⟨n, m, hlt, congrArg Subtype.val same.symm⟩
  have hleft : (f m).left = (f n).left := congrArg (·.1) same
  have hright : (f m).right = (f n).right := congrArg (·.2.1) same
  have count : (f m).env.looseCount nodes = (f n).env.looseCount nodes := congrArg (·.2.2) same
  refine ⟨f m, ?_, (f n).env, (settles hmn.le).resolve_right (by omega), ?_⟩
  · obtain rfl | hm := Nat.eq_zero_or_pos m
    · exact .refl
    · exact (way hm).to_reflTransGen
  · rw [hleft, hright]
    exact way hmn

end Recurrence

section Cycles

lemma Call.Makes.grows (h : c.Makes c') (ends : c.env.Ends) :
    c.env.Grows c'.env ∧ c'.env.Ends :=
  (h.extended (P := fun _ => True) (fun _ _ _ _ => trivial)
    ⟨trivial, trivial, fun _ _ _ => trivial⟩).2.grows ends

lemma Meets.left_mem (h : Meets as bs env c) : c.left ∈ as := by
  induction h with
  | here => exact List.mem_cons_self
  | later _ _ ih => exact List.mem_cons_of_mem _ ih

lemma Call.Makes.size_lt {last : Environment} (acyclic : last.Acyclic) (h : c.Makes c')
    (grows : c.env.Grows last) : (last.substitute c'.left).size < (last.substitute c.left).size := by
  obtain ⟨as, bs, hpairs, met⟩ := h
  rw [← substitute_chaseVisiting acyclic grows c.left]
  exact size_substitute_lt (hpairs.children.1 ▸ met.left_mem)

lemma size_lt_of_transGen (h : TransGen Call.Makes c c') (ends : c.env.Ends)
    (acyclic : c'.env.Acyclic) :
    c.env.Grows c'.env ∧ (c'.env.substitute c'.left).size < (c'.env.substitute c.left).size := by
  induction h using TransGen.head_induction_on with
  | single first =>
    have grows := (first.grows ends).1
    exact ⟨grows, first.size_lt acyclic grows⟩
  | head first _ ih =>
    obtain ⟨grows, ends⟩ := first.grows ends
    obtain ⟨later, smaller⟩ := ih ends
    exact ⟨grows.trans later, smaller.trans (first.size_lt acyclic (grows.trans later))⟩

/-- Only cyclic bindings bring a call back to itself. -/
theorem Call.Recurs.not_acyclic (h : c.Recurs) : ¬c.env.Acyclic := by
  intro acyclic
  obtain ⟨env, same, below⟩ := h
  have smaller := (size_lt_of_transGen below (ends_of_acyclic acyclic) (acyclic.congr same)).2
  exact Nat.lt_irrefl _ smaller

end Cycles

/-- Unification comes to an end unless a call comes back to itself under bindings of the same meaning.
This happens only under bindings with a cycle, and only to terms that no substitution makes equal. -/
theorem unify_ends_iff (s t : Term) (env : Environment) :
    ((∃ depth, within depth s t env ≠ .unfinished) ↔
      ∀ c, ReflTransGen Call.Makes ⟨s, t, env⟩ c → ¬c.Recurs) ∧
    ∀ c, ReflTransGen Call.Makes ⟨s, t, env⟩ c → c.Recurs →
      ¬c.env.Acyclic ∧
        ∀ σ, env.IsSolvedBy σ → (s.mapVariables σ == t.mapVariables σ) = false := by
  have finishing {c : Call} (reach : ReflTransGen Call.Makes ⟨s, t, env⟩ c) {depth : ℕ}
      (run : within depth s t env ≠ .unfinished) : ¬c.Recurs :=
    (Call.Finishes.of_reach ⟨depth, run⟩ reach).not_recurs
  refine ⟨⟨fun ⟨depth, run⟩ c reach => finishing reach run, fun none => ?_⟩, ?_⟩
  · by_contra endless
    obtain ⟨c, reach, recurs⟩ := exists_recurs (c := ⟨s, t, env⟩) endless
    exact none c reach recurs
  · refine fun c reach recurs => ⟨recurs.not_acyclic, fun σ solved => ?_⟩
    by_contra heq
    obtain ⟨env', run, -⟩ :=
      within_of_solution solved (by simpa using heq) (Nat.le_refl (s.mapVariables σ).size)
    exact finishing reach (by rw [run]; simp) recurs

/-- Three variables are bound in a ring, each to a term that shows the next one; then two of them are
unified without end. -/
theorem unify_endless :
    let var (name : String) := Term.var ⟨name, 0⟩
    let f := Term.ordinary "f"
    let g (t : Term) := Term.ordinary "g" [t]
    let s := f [var "X", var "Y", var "Z", var "X"]
    let t := f [g (var "Y"), g (var "Z"), g (var "X"), var "Y"]
    ∀ depth, within depth s t .empty = .unfinished := by
  intro var f g s t depth
  let ring := ((Environment.empty.bind ⟨"X", 0⟩ (g (var "Y"))).bind ⟨"Y", 0⟩ (g (var "Z"))).bind
    ⟨"Z", 0⟩ (g (var "X"))
  have first : Call.Makes ⟨s, t, .empty⟩ ⟨var "X", var "Y", ring⟩ :=
    ⟨_, _, .compound rfl, .later rfl (.later rfl (.later rfl .here))⟩
  have xy : Call.Makes ⟨var "X", var "Y", ring⟩ ⟨var "Y", var "Z", ring⟩ :=
    ⟨_, _, .compound rfl, .here⟩
  have yz : Call.Makes ⟨var "Y", var "Z", ring⟩ ⟨var "Z", var "X", ring⟩ :=
    ⟨_, _, .compound rfl, .here⟩
  have zx : Call.Makes ⟨var "Z", var "X", ring⟩ ⟨var "X", var "Y", ring⟩ :=
    ⟨_, _, .compound rfl, .here⟩
  by_contra run
  have finishes : Call.Finishes ⟨s, t, .empty⟩ := ⟨depth, run⟩
  exact (finishes.of_reach (.single first)).not_recurs
    ⟨ring, fun _ => rfl, ((TransGen.single xy).tail yz).tail zx⟩

end Unification
end ConstraintHandling
