import ConstraintHandling.Search
import ConstraintHandling.Proofs.Store.Index

/-! The combinations of constraints on which a rule can be tried, in lexicographic order, and the
plain search that goes through all of them, leaving out those that have been tried. Bindings are made
on the way by unification with the heads, one head after the other, and by guards that are assignments:
whatever these steps keep is kept by all of them together. -/
namespace ConstraintHandling

/-- A constraint belongs to the partition of a head. -/
def Store.sharesPartition (s : Store) (head : Term) (c : ConstraintId) : Bool :=
  (s.get? c).any fun t => Partition.of t == Partition.of head

/-- A head that is an atom or a compound term can be matched by the constraints of its partition, and
any other head by none. -/
def Store.canMatch (s : Store) (head : Term) (c : ConstraintId) : Bool :=
  head.functor?.isSome && s.sharesPartition head c

/-- One evaluation of the guards of a rule: the constraints it was made on, the store that it was made
against, and whether all guards succeeded. -/
structure Trial where
  rule : RuleId
  constraints : List ConstraintId
  store : Store
  passed : Bool

namespace Search

def unifyAll (store : Store) : List Term → List ConstraintId → Environment → Option Environment
  | [], [], env => some env
  | h :: hs, c :: cs, env =>
    ((store.get? c).bind fun t => unify h t env).bind fun env' => unifyAll store hs cs env'
  | _, _, _ => none

/-- All sequences of the given length of numbers below a bound, in lexicographic order. -/
def sequences (bound : Nat) : Nat → List (List ConstraintId)
  | 0 => [[]]
  | n + 1 => (List.range bound).flatMap fun c => (sequences bound n).map (c :: ·)

/-- The constraints are distinct and live, and each may be taken for its head. -/
def areEligible (store : Store) (eligible : Term → ConstraintId → Bool) (heads : List Term)
    (cs : List ConstraintId) : Bool :=
  cs.Nodup && (heads.zip cs).all fun (h, c) => store.isLive c && eligible h c

/-- The combinations of constraints that match heads, with the environments they lead to. -/
def combinations (store : Store) (eligible : Term → ConstraintId → Bool) (heads : List Term) :
    List Match :=
  (sequences store.size heads.length).filterMap fun cs =>
    if areEligible store eligible heads cs then
      (unifyAll store heads cs .empty).map fun env => ⟨cs, env⟩
    else none

/-- Goes through combinations, leaving out the tried ones, up to the first on which the guards
succeed. What comes back is the match and the trials made on the way. -/
def attempt (r : Rule) (id : RuleId) (store : Store) :
    List Match → List (List ConstraintId) → Option Match × List Trial
  | [], _ => (none, [])
  | m :: ms, tried =>
    if m.constraints ∈ tried then attempt r id store ms tried
    else
      match checkGuards store.holds r.guards m.env with
      | some env => (some ⟨m.constraints, env⟩, [⟨id, m.constraints, store, true⟩])
      | none =>
        let (found, trials) := attempt r id store ms (tried ++ [m.constraints])
        (found, ⟨id, m.constraints, store, false⟩ :: trials)

/-- A constraint as the next one to take, behind those that are claimed. -/
def take (store : Store) (eligible : Term → ConstraintId → Bool) (claimed : List ConstraintId)
    (h : Term) (env : Environment) (c : ConstraintId) : Option Environment :=
  if eligible h c then unifyAvailable store claimed h env c else none

/-- The combinations that begin with the claimed constraints, the latest of which comes first. -/
def completions (store : Store) (eligible : Term → ConstraintId → Bool) :
    List Term → List ConstraintId → Environment → List Match
  | [], claimed, env => [⟨claimed.reverse, env⟩]
  | h :: hs, claimed, env =>
    (List.range store.size).flatMap fun c =>
      match take store eligible claimed h env c with
      | some env' => completions store eligible hs (c :: claimed) env'
      | none => []

section Combinations
variable {store : Store} {eligible : Term → ConstraintId → Bool}

lemma areEligible_cons {h : Term} {hs : List Term} {c : ConstraintId}
    {cs claimed : List ConstraintId} :
    (areEligible store eligible (h :: hs) (c :: cs) && (c :: cs).all fun d => !claimed.contains d) =
      ((store.isLive c && !claimed.contains c && eligible h c) &&
        (areEligible store eligible hs cs && cs.all fun d => !(c :: claimed).contains d)) := by
  rw [Bool.eq_iff_iff]
  simp [areEligible]
  grind

lemma take_eq {h : Term} {c : ConstraintId} {claimed : List ConstraintId} {env : Environment} :
    take store eligible claimed h env c =
      if store.isLive c && !claimed.contains c && eligible h c then
        (store.get? c).bind fun t => unify h t env
      else none := by
  unfold take unifyAvailable isAvailable
  cases eligible h c <;> cases store.isLive c <;> cases claimed.contains c <;>
    cases store.get? c <;> simp

lemma completions_eq_filterMap (hs : List Term) (claimed : List ConstraintId) (env : Environment) :
    completions store eligible hs claimed env =
      (sequences store.size hs.length).filterMap fun cs =>
        if areEligible store eligible hs cs && cs.all fun d => !claimed.contains d then
          (unifyAll store hs cs env).map fun env' => ⟨claimed.reverse ++ cs, env'⟩
        else none := by
  -- Both sides go through the numbers for the first head in order. Behind a number that cannot be
  -- taken, the right side still has all its sequences, and drops every one of them.
  induction hs generalizing claimed env with
  | nil => simp [completions, sequences, areEligible, unifyAll]
  | cons h hs ih =>
    simp only [completions, List.length_cons, sequences, List.filterMap_flatMap, List.filterMap_map,
      Function.comp_def]
    congr 1
    funext c
    simp only [areEligible_cons, unifyAll, take_eq]
    cases free : store.isLive c && !claimed.contains c && eligible h c with
    | false =>
      simp only [Bool.false_and, Bool.false_eq_true, if_false]
      exact (List.filterMap_eq_nil_iff.mpr fun _ _ => rfl).symm
    | true =>
      cases step : (store.get? c).bind fun t => unify h t env with
      | none =>
        simp only [Option.bind_none, Option.map_none, ite_self]
        exact (List.filterMap_eq_nil_iff.mpr fun _ _ => rfl).symm
      | some env' =>
        simp only [Bool.true_and, if_true, Option.bind_some, ih, List.reverse_cons,
          List.append_assoc, List.singleton_append]

theorem combinations_eq_completions (heads : List Term) :
    combinations store eligible heads = completions store eligible heads [] .empty := by
  rw [completions_eq_filterMap]
  simp [combinations]

lemma mem_sequences {bound n : Nat} {cs : List ConstraintId} :
    cs ∈ sequences bound n ↔ cs.length = n ∧ ∀ c ∈ cs, c < bound := by
  induction n generalizing cs with
  | zero => cases cs <;> simp [sequences]
  | succ n ih =>
    simp only [sequences, List.mem_flatMap, List.mem_map, List.mem_range, ih]
    constructor
    · rintro ⟨c, hc, cs, ⟨rfl, hcs⟩, rfl⟩
      exact ⟨rfl, by simpa using ⟨hc, hcs⟩⟩
    · intro ⟨length, hcs⟩
      cases cs with
      | nil => cases length
      | cons c cs =>
        obtain ⟨hc, hcs⟩ := List.forall_mem_cons.mp hcs
        exact ⟨c, hc, cs, ⟨by simpa using length, hcs⟩, rfl⟩

lemma unifyAll_cons_eq_some {head : Term} {heads : List Term} {c : ConstraintId}
    {cs : List ConstraintId} {env env' : Environment}
    (h : unifyAll store (head :: heads) (c :: cs) env = some env') :
    ∃ t env₁, store.get? c = some t ∧ unify head t env = some env₁ ∧
      unifyAll store heads cs env₁ = some env' := by
  obtain ⟨env₁, first, later⟩ := Option.bind_eq_some_iff.mp h
  obtain ⟨t, ht, unified⟩ := Option.bind_eq_some_iff.mp first
  exact ⟨t, env₁, ht, unified, later⟩

lemma lt_size_of_unifyAll {heads : List Term} {cs : List ConstraintId} {env env' : Environment}
    (h : unifyAll store heads cs env = some env') : ∀ c ∈ cs, c < store.size := by
  induction cs generalizing heads env with
  | nil => exact List.forall_mem_nil _
  | cons c cs ih =>
    cases heads with
    | nil => cases h
    | cons head heads =>
      obtain ⟨t, env₁, ht, -, later⟩ := unifyAll_cons_eq_some h
      exact List.forall_mem_cons.mpr ⟨Store.lt_size_of_get? ht, ih later⟩

/-- A tuple of distinct live constraints, each eligible for its head, that unify with the heads from
the empty environment on and lead to the given one. -/
structure Combines (store : Store) (eligible : Term → ConstraintId → Bool) (heads : List Term)
    (cs : List ConstraintId) (env : Environment) : Prop where
  length : cs.length = heads.length
  distinct : cs.Nodup
  live : ∀ c ∈ cs, store.isLive c = true
  eligible : ∀ pair ∈ heads.zip cs, eligible pair.1 pair.2 = true
  unified : unifyAll store heads cs .empty = some env

lemma Combines.lt_size {heads : List Term} {cs : List ConstraintId} {env : Environment}
    (h : Combines store eligible heads cs env) {c : ConstraintId} (hc : c ∈ cs) : c < store.size :=
  lt_size_of_unifyAll h.unified c hc

lemma all_zip_iff {heads : List Term} {cs : List ConstraintId} {p : ConstraintId → Bool}
    (length : cs.length = heads.length) :
    (∀ pair ∈ heads.zip cs, p pair.2 = true) ↔ ∀ c ∈ cs, p c = true := by
  have hcs : (heads.zip cs).map Prod.snd = cs := List.map_snd_zip (by omega)
  constructor
  · intro h c hc
    rw [← hcs] at hc
    obtain ⟨pair, hpair, rfl⟩ := List.mem_map.mp hc
    exact h pair hpair
  · intro h pair hpair
    exact h pair.2 (hcs ▸ List.mem_map_of_mem hpair)

theorem mem_combinations {heads : List Term} {cs : List ConstraintId} {env : Environment} :
    ⟨cs, env⟩ ∈ combinations store eligible heads ↔ Combines store eligible heads cs env := by
  simp only [combinations, List.mem_filterMap, mem_sequences]
  constructor
  · rintro ⟨ds, ⟨length, -⟩, h⟩
    split at h
    · next free =>
      obtain ⟨env', unified, heq⟩ := Option.map_eq_some_iff.mp h
      cases heq
      simp only [areEligible, Bool.and_eq_true, decide_eq_true_eq, List.all_eq_true] at free
      obtain ⟨distinct, fits⟩ := free
      exact ⟨length, distinct, (all_zip_iff length).mp fun pair hpair => (fits pair hpair).1,
        fun pair hpair => (fits pair hpair).2, unified⟩
    · cases h
  · intro h
    refine ⟨cs, ⟨h.length, fun c => h.lt_size⟩, ?_⟩
    have free : areEligible store eligible heads cs = true := by
      simp only [areEligible, Bool.and_eq_true, decide_eq_true_eq, List.all_eq_true]
      exact ⟨h.distinct, fun pair hpair =>
        ⟨(all_zip_iff h.length).mpr h.live pair hpair, h.eligible pair hpair⟩⟩
    rw [if_pos free, h.unified]
    rfl

end Combinations

section Heads
variable {store : Store} {heads : List Term} {cs : List ConstraintId} {env env' : Environment}

lemma unifyAll_keeps {R : Environment → Prop}
    (keep : ∀ pair ∈ heads.zip cs, ∀ t, store.get? pair.2 = some t → ∀ env env', R env →
      unify pair.1 t env = some env' → R env')
    (h : unifyAll store heads cs env = some env') (hR : R env) : R env' := by
  induction heads generalizing cs env with
  | nil =>
    cases cs with
    | nil =>
      cases h
      exact hR
    | cons => cases h
  | cons head heads ih =>
    cases cs with
    | nil => cases h
    | cons c cs =>
      rw [List.zip_cons_cons] at keep
      obtain ⟨here, keep⟩ := List.forall_mem_cons.mp keep
      obtain ⟨t, env₁, ht, first, later⟩ := unifyAll_cons_eq_some h
      exact ih keep later (here t ht env env₁ hR first)

end Heads

section Guards
variable {known : Oracle} {env env' : Environment}

lemma checkGuard_cases {guard : Term} (h : checkGuard known guard env = some env') :
    env' = env ∨ ∃ left right v, guard.assignment? = some (left, right) ∧ env.chase left = .var v ∧
      env' = env.bind v (evaluate known right env) := by
  unfold checkGuard at h
  split at h
  · next left right assigns =>
    split at h
    · next v chased =>
      cases h
      exact .inr ⟨left, right, v, assigns, chased, rfl⟩
    · cases h
  · split at h
    · cases h
      exact .inl rfl
    · cases h

lemma checkGuards_cons (known : Oracle) (guard : Term) (guards : List Term) (env : Environment) :
    checkGuards known (guard :: guards) env =
      (checkGuard known guard env).bind (checkGuards known guards) := by
  rw [checkGuards]
  cases checkGuard known guard env with
  | none => rfl
  | some env' => rfl

lemma checkGuards_keeps {R : Environment → Prop} {guards : List Term}
    (keep : ∀ g ∈ guards, ∀ left right v env, g.assignment? = some (left, right) →
      env.chase left = .var v → R env → R (env.bind v (evaluate known right env)))
    (h : checkGuards known guards env = some env') (hR : R env) : R env' := by
  induction guards generalizing env with
  | nil =>
    cases h
    exact hR
  | cons g gs ih =>
    obtain ⟨here, keep⟩ := List.forall_mem_cons.mp keep
    rw [checkGuards_cons] at h
    obtain ⟨env₁, first, later⟩ := Option.bind_eq_some_iff.mp h
    obtain rfl | ⟨left, right, v, assigns, chased, rfl⟩ := checkGuard_cases first
    · exact ih keep later hR
    · exact ih keep later (here left right v env assigns chased hR)

end Guards

section Attempt
variable {r : Rule} {id : RuleId} {store : Store}

lemma attempt_append (ms ms' : List Match) (tried : List (List ConstraintId)) :
    attempt r id store (ms ++ ms') tried =
      match attempt r id store ms tried with
      | (some m, trials) => (some m, trials)
      | (none, trials) =>
        let (found, later) := attempt r id store ms' (tried ++ trials.map Trial.constraints)
        (found, trials ++ later) := by
  induction ms generalizing tried with
  | nil => simp [attempt]
  | cons m ms ih =>
    simp only [List.cons_append, attempt]
    by_cases known : m.constraints ∈ tried
    · simp only [known, if_true, ih]
    · simp only [known, if_false]
      cases checkGuards store.holds r.guards m.env with
      | some env => rfl
      | none =>
        simp only [ih]
        obtain ⟨found, trials⟩ := attempt r id store ms (tried ++ [m.constraints])
        cases found <;> simp

lemma attempt_of_tried {ms : List Match} {tried : List (List ConstraintId)}
    (h : ∀ m ∈ ms, m.constraints ∈ tried) : attempt r id store ms tried = (none, []) := by
  induction ms with
  | nil => rfl
  | cons m ms ih =>
    rw [attempt, if_pos (h m (by simp)), ih fun m hm => h m (by simp [hm])]

lemma trial_of_attempt {ms : List Match} {tried : List (List ConstraintId)} {t : Trial}
    (h : t ∈ (attempt r id store ms tried).2) :
    ∃ m ∈ ms, t = ⟨id, m.constraints, store, (checkGuards store.holds r.guards m.env).isSome⟩ := by
  induction ms generalizing tried with
  | nil => simp [attempt] at h
  | cons m ms ih =>
    rw [attempt] at h
    split at h
    · obtain ⟨m', hm', rfl⟩ := ih h
      exact ⟨m', by simp [hm'], rfl⟩
    · split at h
      · next env passed => exact ⟨m, by simp, by simpa [passed] using h⟩
      · next failed =>
        obtain rfl | h := List.mem_cons.mp h
        · exact ⟨m, by simp, by simp [failed]⟩
        · obtain ⟨m', hm', rfl⟩ := ih h
          exact ⟨m', by simp [hm'], rfl⟩

variable (r id store) in
lemma passed_of_attempt (ms : List Match) (tried : List (List ConstraintId)) :
    ((attempt r id store ms tried).2.filter Trial.passed).map Trial.constraints =
      ((attempt r id store ms tried).1.map Match.constraints).toList := by
  induction ms generalizing tried with
  | nil => rfl
  | cons m ms ih =>
    rw [attempt]
    split
    · exact ih tried
    · split
      · rfl
      · exact ih _

variable (r id store) in
lemma new_of_attempt (ms : List Match) (tried : List (List ConstraintId)) :
    ((attempt r id store ms tried).2.map Trial.constraints).Nodup ∧
      ∀ cs ∈ (attempt r id store ms tried).2.map Trial.constraints, cs ∉ tried := by
  induction ms generalizing tried with
  | nil => simp [attempt]
  | cons m ms ih =>
    rw [attempt]
    split
    · exact ih tried
    · next new =>
      split
      · simpa using new
      · obtain ⟨nodup, unknown⟩ := ih (tried ++ [m.constraints])
        simp only [List.mem_append, List.mem_singleton, not_or] at unknown
        dsimp only
        rw [List.map_cons]
        constructor
        · exact List.nodup_cons.mpr ⟨fun hm => (unknown _ hm).2 rfl, nodup⟩
        · intro cs hcs
          obtain rfl | hcs := List.mem_cons.mp hcs
          · exact new
          · exact (unknown cs hcs).1

lemma tried_of_found_none {ms : List Match} {tried : List (List ConstraintId)}
    (h : (attempt r id store ms tried).1 = none) {m : Match} (hm : m ∈ ms) :
    m.constraints ∈ tried ++ (attempt r id store ms tried).2.map Trial.constraints := by
  induction ms generalizing tried with
  | nil => simp at hm
  | cons m' ms ih =>
    rw [attempt] at h ⊢
    split at h
    · next known =>
      rw [if_pos known]
      obtain rfl | hm := List.mem_cons.mp hm
      · exact List.mem_append_left _ known
      · exact ih h hm
    · next new =>
      rw [if_neg new]
      split at h
      · cases h
      · next failed =>
        dsimp only
        obtain rfl | hm := List.mem_cons.mp hm
        · simp
        · simpa using ih h hm

end Attempt

end Search
end ConstraintHandling
