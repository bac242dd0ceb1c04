import ConstraintHandling.Proofs.Environment.Walk
import Mathlib.Dynamics.PeriodicPts.Lemmas

/-! Links between variables. A chase that ends at a variable has found one that is unbound or lies on a
cycle of variables; such variables are called loose here. Binding a loose variable makes no variable
loose, and it settles one unless the binding repeats what has been there. -/
namespace ConstraintHandling
namespace Environment
open Relation

def Links (env : Environment) (v w : Variable) : Prop :=
  env.lookup v = some (.var w)

/-- A variable at which a chase can end. -/
def Loose (env : Environment) (v : Variable) : Prop :=
  env.lookup v = none ∨ TransGen env.Links v v

/-- No variable leads back to itself through bindings to variables. -/
def Ends (env : Environment) : Prop :=
  ∀ v, ¬TransGen env.Links v v

variable {env : Environment} {v w x y : Variable}

lemma Links.unique (h : env.Links v x) (h' : env.Links v y) : x = y := by
  unfold Links at h h'
  rw [h] at h'
  cases h'
  rfl

lemma not_transGen_of_unbound (unbound : env.lookup v = none) : ¬TransGen env.Links v w := by
  intro h
  obtain ⟨x, link, -⟩ := TransGen.head'_iff.mp h
  rw [Links, unbound] at link
  cases link

lemma cycle_of_reach (cycle : TransGen env.Links v v) (reach : ReflTransGen env.Links v w) :
    TransGen env.Links w w := by
  induction reach with
  | refl => exact cycle
  | tail _ link ih =>
    obtain ⟨x, link', back⟩ := TransGen.head'_iff.mp ih
    obtain rfl := link.unique link'
    exact TransGen.tail' back link

/-- The variable to which a variable is bound, the variable itself if there is none. -/
def next (env : Environment) (v : Variable) : Variable :=
  match env.lookup v with
  | some (.var w) => w
  | _ => v

lemma Links.next_eq (h : env.Links v w) : env.next v = w := by
  unfold Links at h
  simp [next, h]

lemma exists_iterate_next (h : TransGen env.Links v w) : ∃ n > 0, env.next^[n] v = w := by
  induction h with
  | single link => exact ⟨1, Nat.one_pos, link.next_eq⟩
  | tail _ link ih =>
    obtain ⟨n, -, rfl⟩ := ih
    exact ⟨n + 1, n.succ_pos, by rw [Function.iterate_succ_apply', link.next_eq]⟩

lemma eq_of_cycles (hx : TransGen env.Links x x) (hy : TransGen env.Links y y)
    (linkx : env.Links x v) (linky : env.Links y v) : x = y := by
  have periodic {z : Variable} (hz : TransGen env.Links z z) :
      z ∈ Function.periodicPts env.next := by
    obtain ⟨n, hn, back⟩ := exists_iterate_next hz
    exact Function.mk_mem_periodicPts hn back
  apply (Function.bijOn_periodicPts env.next).injOn (periodic hx) (periodic hy)
  rw [linkx.next_eq, linky.next_eq]

lemma Walks.loose {visited visited' : List Variable} {t : Term}
    (h : env.Walks visited t (.var v) visited')
    (lead : ∀ w ∈ visited, ∀ x, t = .var x → TransGen env.Links w x) : env.Loose v := by
  generalize hu : Term.var v = u at h
  induction h with
  | here ht =>
    subst hu
    cases ht
  | again seen =>
    cases hu
    exact .inr (lead _ seen _ rfl)
  | free _ unbound =>
    cases hu
    exact .inl unbound
  | step _ bound _ ih =>
    apply ih _ hu
    rintro w hw x rfl
    obtain rfl | hw := List.mem_cons.mp hw
    · exact .single bound
    · exact (lead w hw _ rfl).tail bound

lemma loose_of_chaseVisiting {t : Term} (h : (env.chaseVisiting t).1 = .var v) : env.Loose v := by
  have walk := env.walks_chaseVisiting t
  rw [h] at walk
  exact walk.loose (by simp)

section Bind
variable {t : Term}

lemma Links.of_bind (h : (env.bind v t).Links x y) (hne : x ≠ v) : env.Links x y :=
  ((of_lookup_bind h).resolve_left fun old => hne old.1).2

lemma unbound_of_bind (unbound : (env.bind v t).lookup x = none) : env.lookup x = none := by
  rw [lookup_bind] at unbound
  split at unbound
  · cases unbound
  · exact unbound

lemma transGen_of_bind (h : TransGen (env.bind v t).Links x y) :
    TransGen env.Links x y ∨
      ∃ w, t = .var w ∧ ReflTransGen (env.bind v t).Links x v ∧ ReflTransGen env.Links w y := by
  -- Behind its last use, the way does not use the new link any more.
  have last {a b : Variable} (link : (env.bind v t).Links a b) (hav : a = v) : t = .var b := by
    subst hav
    rw [Links, lookup_bind_self] at link
    exact Option.some.inj link
  induction h with
  | @single b link =>
    by_cases hxv : x = v
    · exact .inr ⟨b, last link hxv, hxv ▸ .refl, .refl⟩
    · exact .inl (.single (link.of_bind hxv))
  | @tail b c reach link ih =>
    by_cases hbv : b = v
    · exact .inr ⟨c, last link hbv, hbv ▸ reach.to_reflTransGen, .refl⟩
    · have old := link.of_bind hbv
      obtain direct | ⟨w, ht, before, behind⟩ := ih
      · exact .inl (direct.tail old)
      · exact .inr ⟨w, ht, before, behind.tail old⟩

lemma cycle_of_bind (other : ∀ w, t = .var w → w ≠ v ∧ env.Loose w)
    (h : TransGen (env.bind v t).Links x x) : TransGen env.Links x x := by
  obtain old | ⟨w, ht, before, behind⟩ := transGen_of_bind h
  · exact old
  obtain ⟨hwv, loose⟩ := other w ht
  have reach : ReflTransGen env.Links w v := by
    obtain rfl | before := reflTransGen_iff_eq_or_transGen.mp before
    · exact behind
    obtain old | ⟨w', ht', -, behind'⟩ := transGen_of_bind before
    · exact behind.trans old.to_reflTransGen
    · cases ht.symm.trans ht'
      exact behind'
  have way : TransGen env.Links w v :=
    (reflTransGen_iff_eq_or_transGen.mp reach).resolve_left (Ne.symm hwv)
  obtain unbound | cycle := loose
  · exact absurd way (not_transGen_of_unbound unbound)
  · exact cycle_of_reach cycle behind

lemma Loose.of_bind (other : ∀ w, t = .var w → w ≠ v ∧ env.Loose w)
    (h : (env.bind v t).Loose x) : env.Loose x := by
  obtain unbound | cycle := h
  · exact .inl (unbound_of_bind unbound)
  · exact .inr (cycle_of_bind other cycle)

lemma same_or_settled (loose : env.Loose v) (other : ∀ w, t = .var w → w ≠ v ∧ env.Loose w) :
    env.SameLookups (env.bind v t) ∨
      ∃ u, (u = v ∨ env.Links v u) ∧ env.Loose u ∧ ¬(env.bind v t).Loose u := by
  obtain unbound | cycle := loose
  · refine .inr ⟨v, .inl rfl, .inl unbound, ?_⟩
    rintro (unbound' | cycle')
    · rw [lookup_bind_self] at unbound'
      cases unbound'
    · exact not_transGen_of_unbound unbound (cycle_of_bind other cycle')
  obtain ⟨u, link, back⟩ := TransGen.head'_iff.mp cycle
  by_cases htu : t = .var u
  · left
    intro x
    rw [lookup_bind]
    split
    · next hxv => rw [hxv, link, htu]
    · rfl
  right
  have cycleu : TransGen env.Links u u := cycle_of_reach cycle (.single link)
  refine ⟨u, .inr link, .inr cycleu, ?_⟩
  rintro (unbound | cycle')
  · exact not_transGen_of_unbound (unbound_of_bind unbound) cycleu
  -- The variable before `u` on a new cycle would be one before `u` on an old cycle, hence `v`.
  · obtain ⟨y, way, link'⟩ := TransGen.tail'_iff.mp cycle'
    have hyv : y ≠ v := by
      rintro rfl
      rw [Links, lookup_bind_self] at link'
      exact htu (Option.some.inj link')
    have cycley : TransGen env.Links y y := cycle_of_bind other (cycle_of_reach cycle' way)
    exact hyv (eq_of_cycles cycley cycle (link'.of_bind hyv) link)

end Bind

end Environment
end ConstraintHandling
