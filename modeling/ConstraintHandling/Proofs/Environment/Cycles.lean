import ConstraintHandling.Proofs.Environment.Acyclic

/-! Cycles among bindings. A variable at which a chase ends is unbound or lies on a cycle of variables that
are bound to each other; a cycle through other terms stays, whatever is bound to such variables. A
binding closes no cycle when it gives a variable a term without it and without bound variables. -/
namespace ConstraintHandling
namespace Environment
open Relation

variable {env : Environment} {v w x : Variable} {t u value : Term}

lemma reach_of_chaseWithin {n : Nat} (h : env.chaseWithin n (.var x) = .var v) :
    ReflTransGen env.Links x v := by
  induction n generalizing x with
  | zero =>
    cases h
    exact .refl
  | succ n ih =>
    rw [chaseWithin] at h
    cases bound : env.lookup x with
    | none =>
      rw [bound] at h
      cases h
      exact .refl
    | some t =>
      rw [bound] at h
      cases t with
      | var y => exact .head bound (ih h)
      | _ => cases n <;> cases h

lemma loose_of_chaseWithin {n : Nat} {seen : List Variable} (nodup : seen.Nodup)
    (bound : ∀ y ∈ seen, env.isBound y = true) (lead : ∀ y ∈ seen, TransGen env.Links y x)
    (enough : env.size < n + seen.length) (h : env.chaseWithin n (.var x) = .var v) :
    env.Loose v := by
  -- The variables seen are bound and different, so that within the bound one of them comes up again.
  induction n generalizing x seen with
  | zero =>
    have := length_le_size_of_bound nodup bound
    omega
  | succ n ih =>
    by_cases again : x ∈ seen
    · exact .inr (cycle_of_reach (lead x again) (reach_of_chaseWithin h))
    rw [chaseWithin] at h
    cases hx : env.lookup x with
    | none =>
      rw [hx] at h
      cases h
      exact .inl hx
    | some t =>
      rw [hx] at h
      cases t with
      | var y =>
        refine ih (List.nodup_cons.mpr ⟨again, nodup⟩) ?_ ?_ ?_ h
        · exact List.forall_mem_cons.mpr ⟨by simp [isBound, hx], bound⟩
        · exact List.forall_mem_cons.mpr ⟨.single hx, fun z hz => (lead z hz).tail hx⟩
        · rw [List.length_cons]
          omega
      | _ => cases n <;> cases h

lemma loose_of_chase (h : env.chase t = .var v) : env.Loose v := by
  cases t with
  | var x => exact loose_of_chaseWithin List.nodup_nil (by simp) (by simp) (Nat.lt_succ_self _) h
  | _ => cases h

/-- A variable is bound to a term that is no variable and leads back to the variable. -/
def Knotted (env : Environment) : Prop :=
  ∃ v t w, env.lookup v = some t ∧ t.asVariable? = none ∧ w ∈ t.occurrences ∧
    ReflTransGen env.Mentions w v

lemma Knotted.not_acyclic (h : env.Knotted) : ¬env.Acyclic := by
  obtain ⟨v, t, w, bound, -, hw, back⟩ := h
  exact fun acyclic => acyclic v (.head' ⟨t, bound, hw⟩ back)

lemma links_or_value_of_mentions (way : TransGen env.Mentions v w) :
    TransGen env.Links v w ∨ ∃ x t y, ReflTransGen env.Mentions v x ∧ env.lookup x = some t ∧
      t.asVariable? = none ∧ y ∈ t.occurrences ∧ ReflTransGen env.Mentions y w := by
  have step {x y : Variable} (mentions : env.Mentions x y) :
      env.Links x y ∨ ∃ t, env.lookup x = some t ∧ t.asVariable? = none ∧ y ∈ t.occurrences := by
    obtain ⟨t, bound, hy⟩ := mentions
    obtain ⟨z, rfl⟩ | ht := t.var_or_not_var
    · obtain rfl : y = z := by simpa [Term.occurrences] using hy
      exact .inl bound
    · exact .inr ⟨t, bound, ht, hy⟩
  induction way with
  | @single x first =>
    obtain link | ⟨t, bound, ht, hx⟩ := step first
    · exact .inl (.single link)
    · exact .inr ⟨v, t, x, .refl, bound, ht, hx, .refl⟩
  | @tail x y before last ih =>
    obtain link | ⟨t, bound, ht, hy⟩ := step last
    · obtain links | ⟨z, t, w, there, bound, ht, hw, back⟩ := ih
      · exact .inl (links.tail link)
      · exact .inr ⟨z, t, w, there, bound, ht, hw, back.tail last⟩
    · exact .inr ⟨x, t, y, before.to_reflTransGen, bound, ht, hy, .refl⟩

lemma acyclic_of_not_knotted (ends : env.Ends) (h : ¬env.Knotted) : env.Acyclic := by
  intro v cycle
  obtain links | ⟨x, t, y, there, bound, ht, hy, back⟩ := links_or_value_of_mentions cycle
  · exact ends v links
  · exact h ⟨x, t, y, bound, ht, hy, back.trans there⟩

lemma cycle_of_mentions (cycle : TransGen env.Links v v) (reach : ReflTransGen env.Mentions v w) :
    TransGen env.Links w w := by
  induction reach with
  | refl => exact cycle
  | tail _ last ih =>
    obtain ⟨y, link, back⟩ := TransGen.head'_iff.mp ih
    obtain ⟨t, bound, hw⟩ := last
    obtain rfl : t = .var y := Option.some.inj (bound.symm.trans link)
    obtain rfl := by simpa [Term.occurrences] using hw
    exact cycle_of_reach ih (.single link)

lemma not_loose_of_reach (reach : ReflTransGen env.Mentions x v) (bound : env.lookup v = some t)
    (ht : t.asVariable? = none) : ¬env.Loose x := by
  rintro (unbound | cycle)
  · obtain rfl | ⟨y, ⟨u, hu, -⟩, -⟩ := reflTransGen_iff_eq_or_transGen.mp reach |>.imp_right
      TransGen.head'_iff.mp
    · rw [unbound] at bound
      cases bound
    · rw [unbound] at hu
      cases hu
  · obtain ⟨y, link, -⟩ := TransGen.head'_iff.mp (cycle_of_mentions cycle reach)
    obtain rfl : t = .var y := Option.some.inj (bound.symm.trans link)
    cases ht

lemma Knotted.bind (h : env.Knotted) (loose : env.Loose x) (value : Term) :
    (env.bind x value).Knotted := by
  obtain ⟨v, t, w, bound, ht, hw, back⟩ := h
  have kept {y : Variable} (reach : ReflTransGen env.Mentions y v) :
      (env.bind x value).lookup y = env.lookup y := by
    refine lookup_bind_of_ne env value ?_
    rintro rfl
    exact not_loose_of_reach reach bound ht loose
  refine ⟨v, t, w, (kept .refl).trans bound, ht, hw, ?_⟩
  clear hw
  induction back using ReflTransGen.head_induction_on with
  | refl => exact .refl
  | head first later ih =>
    obtain ⟨u, hu, hy⟩ := first
    exact .head ⟨u, (kept (.head ⟨u, hu, hy⟩ later)).trans hu, hy⟩ ih

lemma Acyclic.bind (h : env.Acyclic) (fresh : v ∉ value.occurrences)
    (unbound : ∀ w ∈ value.occurrences, env.lookup w = none) : (env.bind v value).Acyclic := by
  have ends {x y : Variable} (hx : x ∈ value.occurrences) : ¬(env.bind v value).Mentions x y := by
    rintro ⟨t, bound, -⟩
    obtain ⟨rfl, -⟩ | ⟨-, old⟩ := of_lookup_bind bound
    · exact fresh hx
    · rw [unbound x hx] at old
      cases old
  have way {x y : Variable} (mentions : TransGen (env.bind v value).Mentions x y) :
      TransGen env.Mentions x y ∨ y ∈ value.occurrences := by
    have step {x y : Variable} (mentions : (env.bind v value).Mentions x y) :
        env.Mentions x y ∨ y ∈ value.occurrences := by
      obtain ⟨t, bound, hy⟩ := mentions
      obtain ⟨-, rfl⟩ | ⟨-, old⟩ := of_lookup_bind bound
      · exact .inr hy
      · exact .inl ⟨t, old, hy⟩
    induction mentions with
    | single first => exact (step first).imp_left .single
    | tail _ last ih =>
      obtain before | hy := ih
      · exact (step last).imp_left before.tail
      · exact absurd last (ends hy)
  intro x cycle
  obtain old | hx := way cycle
  · exact h x old
  · obtain ⟨y, first, -⟩ := TransGen.head'_iff.mp cycle
    exact ends hx first

lemma unbound_of_shallow {depth n : Nat} (h : env.Shallow depth t) (hn : depth ≤ n) :
    (env.substituteWithin n t).Within fun v => env.lookup v = none := by
  induction depth generalizing t n with
  | zero =>
    rw [substituteWithin_of_shallow h hn]
    exact h
  | succ depth ih =>
    obtain ⟨n, rfl⟩ : ∃ m, n = m + 1 := ⟨n - 1, by omega⟩
    rw [substituteWithin]
    refine Term.Within.mapVariables (P := (· ∈ t.occurrences)) (fun v hv => hv) fun v hv => ?_
    cases hlookup : env.lookup v with
    | none => exact Term.within_var.mpr hlookup
    | some u => exact ih (h v hv u hlookup) (Nat.le_of_succ_le_succ hn)

theorem unbound_of_substitute (h : env.Acyclic) (t : Term) :
    (env.substitute t).Within fun v => env.lookup v = none := by
  rw [substitute_eq]
  exact unbound_of_shallow (shallow_of_acyclic h t) (Nat.le_succ _)

end Environment
end ConstraintHandling
