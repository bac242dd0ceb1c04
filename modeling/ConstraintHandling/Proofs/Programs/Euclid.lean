import ConstraintHandling.Proofs.Programs.Numbers
import ConstraintHandling.Proofs.Session.Firings
import Mathlib.Algebra.GCDMonoid.Multiset
import Mathlib.Algebra.GCDMonoid.Nat

/-! The Euclidean algorithm on a store of numbers. One rule removes zeros, the other one replaces a
number by its remainder modulo one that is not larger. The greatest common divisor of the live numbers
never changes, and it is what is left at the fixpoint. -/
namespace ConstraintHandling
namespace Euclid

def held (k : Nat) : Term :=
  .number "gcd" k

/-- `zero @ gcd(0) <=> true.` -/
def zero (body : List Term) : Rule where
  name := "zero"
  keepHeads := []
  deleteHeads := [held 0]
  guards := []
  body := body

/-- `step @ gcd(N) \ gcd(M) <=> N <= M, L is M mod N | gcd(L).` -/
def step : Rule where
  name := "step"
  keepHeads := [.slot "gcd" ⟨"N", 0⟩]
  deleteHeads := [.slot "gcd" ⟨"M", 0⟩]
  guards := [.relation "<=" (.var ⟨"N", 0⟩) (.var ⟨"M", 0⟩),
    .relation "is" (.var ⟨"L", 0⟩) (.compound "mod" [.var ⟨"M", 0⟩, .var ⟨"N", 0⟩] 400)]
  body := [.ordinary "gcd" [.var ⟨"L", 0⟩]]

/-- The two rules in this order. The body of the first one is `true`, which may be left out. -/
def base (body : List Term) : RuleBase :=
  (RuleBase.ofRules [zero body, step]).1

/-- The bindings of a match of the second rule, which takes the number to replace first. -/
def stepEnv (m k : Nat) : Environment :=
  (Environment.empty.bind ⟨"M", 0⟩ (.int (.ofNat m))).bind ⟨"N", 0⟩ (.int (.ofNat k))

section Rules
variable {known : Oracle} {m k : Nat} {body : List Term} {scope : Nat} {s : Store} {c d : Nat}

lemma guards_step (hm : m < wordLimit) (hk : k < wordLimit) (positive : 0 < k) :
    Search.checkGuards known step.guards (stepEnv m k) =
      if k ≤ m then some ((stepEnv m k).bind ⟨"L", 0⟩ (.int (.ofNat (m % k)))) else none := by
  have left : evaluate known (.var ⟨"M", 0⟩) (stepEnv m k) = .int (.ofNat m) :=
    evaluate_var known rfl rfl
  have right : evaluate known (.var ⟨"N", 0⟩) (stepEnv m k) = .int (.ofNat k) :=
    evaluate_var known rfl rfl
  have test : evaluate known (.relation "<=" (.var ⟨"N", 0⟩) (.var ⟨"M", 0⟩)) (stepEnv m k) =
      .bool (decide (k ≤ m)) :=
    evaluate_binary known _ (by decide) right left
      (congrArg (Option.map Term.bool) (atMost_ofNat hk hm))
  have remainder : evaluate known (.compound "mod" [.var ⟨"M", 0⟩, .var ⟨"N", 0⟩] 400)
      (stepEnv m k) = .int (.ofNat (m % k)) :=
    evaluate_binary known _ (by decide) left right (modulo_ofNat hm hk positive)
  rw [step, Search.checkGuards_cons, Search.checkGuard_test rfl test]
  by_cases hkm : k ≤ m
  · simp only [hkm, decide_true, if_true, Option.bind_some]
    rw [Search.checkGuards_singleton, Search.checkGuard_assign rfl rfl, remainder]
  · simp [hkm]

lemma fire_zero (trivial : ∀ t ∈ body, t = .bool true) {found : Match}
    (hcs : found.constraints = [c]) : ((zero body).fire found scope s).1 = s.consume c := by
  rw [Rule.fire_trivial trivial, hcs]
  rfl

lemma fire_step {found : Match} (hcs : found.constraints = [c, d])
    (henv : found.env = (stepEnv m k).bind ⟨"L", 0⟩ (.int (.ofNat (m % k)))) :
    (step.fire found scope s).1 = (s.consume c).insert "gcd" (held (m % k)) := by
  have bound : found.env.substitute (.var ⟨"L", 0⟩) = .int (.ofNat (m % k)) := by
    rw [henv]
    exact Environment.substitute_var rfl rfl
  have consumed : s.consumeAll (found.constraints.take step.deleteHeads.length) = s.consume c := by
    rw [hcs]
    rfl
  rw [Rule.fire_ordinary rfl, consumed]
  simp only [List.map_cons, List.map_nil, bound, Term.rename_int, evaluate_int]
  rfl

end Rules

lemma gcd_mod_cons {m k : Nat} {ks : Multiset Nat} (hk : k ∈ ks) :
    ((m % k) ::ₘ ks).gcd = (m ::ₘ ks).gcd := by
  have divides : ks.gcd ∣ k := Multiset.gcd_dvd hk
  have same : ∀ d, d ∣ Nat.gcd (m % k) ks.gcd ↔ d ∣ Nat.gcd m ks.gcd := by
    intro d
    rw [Nat.dvd_gcd_iff, Nat.dvd_gcd_iff]
    exact and_congr_left fun hd => Nat.dvd_mod_iff (hd.trans divides)
  rw [Multiset.gcd_cons, Multiset.gcd_cons]
  exact Nat.dvd_antisymm ((same _).mp dvd_rfl) ((same _).mpr dvd_rfl)

/-- The live constraints hold numbers with a given greatest common divisor. -/
structure State (g : Nat) (s : Store) : Prop where
  holds : s.HoldsNumbers "gcd"
  gcd : Multiset.gcd (s.numbers : Multiset Nat) = g

/-- A removed zero makes the numbers fewer, and a remainder makes their sum smaller. -/
def measure (s : Store) : Nat :=
  s.numbers.sum + s.numbers.length

section Step
variable {g : Nat} {s : Store} {c d : ConstraintId} {m k : Nat} (h : State g s)
include h

lemma State.remove (hc : s.HasLive "gcd" c 0) :
    State g (s.consume c) ∧ measure (s.consume c) < measure s := by
  have perm := hc.perm_numbers h.holds.toInStep (by decide)
  have divisor := h.gcd
  rw [Multiset.coe_eq_coe.mpr perm, ← Multiset.cons_coe, Multiset.gcd_cons] at divisor
  refine ⟨⟨h.holds.consume c, (Nat.gcd_zero_left _).symm.trans divisor⟩, ?_⟩
  rw [measure, measure, perm.sum_eq, perm.length_eq, List.sum_cons, List.length_cons]
  omega

lemma State.replace (hcd : c ≠ d) (hc : s.HasLive "gcd" c m)
    (hd : s.HasLive "gcd" d k) (hm : m < wordLimit) (hk : k < wordLimit) (positive : 0 < k)
    (atMost : k ≤ m) :
    State g ((s.consume c).insert "gcd" (held (m % k))) ∧
      measure ((s.consume c).insert "gcd" (held (m % k))) < measure s := by
  have smaller : m % k < m := (Nat.mod_lt m positive).trans_le atMost
  have perm := hc.perm_numbers h.holds.toInStep hm
  have stays : k ∈ (s.consume c).numbers :=
    (hd.consume hcd).mem_numbers (h.holds.toInStep.consume c) hk
  have added : ((s.consume c).insert "gcd" (held (m % k))).numbers.Perm
      (m % k :: (s.consume c).numbers) := by
    rw [held, (h.holds.toInStep.consume c).numbers_insert _ (smaller.trans hm)]
    exact List.perm_append_singleton _ _
  have divisor := h.gcd
  rw [Multiset.coe_eq_coe.mpr perm, ← Multiset.cons_coe, ← gcd_mod_cons (Multiset.mem_coe.mpr stays),
    Multiset.cons_coe, ← Multiset.coe_eq_coe.mpr added] at divisor
  refine ⟨⟨(h.holds.consume c).insert (smaller.trans hm), divisor⟩, ?_⟩
  rw [measure, measure, perm.sum_eq, perm.length_eq, added.sum_eq, added.length_eq, List.sum_cons,
    List.sum_cons, List.length_cons, List.length_cons]
  omega

end Step
section Run
variable {g : Nat} {body : List Term} {s : Session} {chronicle : Chronicle} {c d : ConstraintId}
  {m k : Nat}

lemma State.positive (h : State g s.store)
    (consistent : Consistent (base body) s chronicle) (settled : IsSettled (base body) s chronicle 0)
    (hc : s.store.HasLive "gcd" c k) : 0 < k := by
  by_contra zero
  obtain rfl : k = 0 := by omega
  have combines := (Search.combines_number h.holds (by decide)).mpr ⟨c, hc, rfl, rfl⟩
  have registered : (base body).get? 0 = some (Euclid.zero body) := rfl
  obtain ⟨known, failed⟩ :=
    consistent.guards_fail registered settled (List.cons_ne_nil _ _) combines
  cases failed

theorem progresses (trivial : ∀ t ∈ body, t = .bool true) :
    Progresses (base body) (fun s _ => State g s) (fun s _ => measure s) := by
  intro s chronicle r id found fires h
  obtain ⟨env, matched⟩ := fires.matches (RuleBase.hasHeads_ofRules _)
  obtain ⟨rfl, rfl⟩ | ⟨rfl, rfl⟩ := RuleBase.of_get?_pair rfl fires.registered
  · obtain ⟨c, hc, hcs, rfl⟩ := (Search.combines_number h.holds (by decide)).mp matched.combines
    rw [fire_zero trivial hcs]
    exact h.remove hc
  · obtain ⟨c, d, m, k, hcd, ⟨hm, hc⟩, ⟨hk, hd⟩, hcs, rfl⟩ :=
      (Search.combines_slots h.holds (by decide)).mp matched.combines
    -- The first rule comes first, so that there is no division by zero.
    have positive : 0 < k := h.positive fires.consistent (fires.settled 0 (by decide)) hd
    have guards := matched.guards
    rw [← stepEnv, guards_step hm hk positive, Option.ite_none_right_eq_some] at guards
    rw [fire_step hcs (Option.some.inj guards.2).symm]
    exact h.replace hcd hc hd hm hk positive guards.1

lemma State.not_atMost (h : State g s.store) (consistent : Consistent (base body) s chronicle)
    (tried : HasTriedAll (base body) s chronicle) (hcd : c ≠ d) (hm : m < wordLimit)
    (hk : k < wordLimit) (hc : s.store.HasLive "gcd" c m) (hd : s.store.HasLive "gcd" d k) :
    ¬ k ≤ m := by
  -- The larger number would have been replaced.
  intro atMost
  have combines := (Search.combines_slots h.holds (show Variable.mk "M" 0 ≠ ⟨"N", 0⟩ by decide)).mpr
    ⟨c, d, m, k, hcd, ⟨hm, hc⟩, ⟨hk, hd⟩, rfl, rfl⟩
  have registered : (base body).get? 1 = some step := rfl
  obtain ⟨known, failed⟩ :=
    consistent.guards_fail registered (tried.isSettled 1) (List.cons_ne_nil _ _) combines
  rw [← stepEnv, guards_step hm hk (h.positive consistent (tried.isSettled 0) hd), if_pos atMost]
    at failed
  cases failed

lemma State.eq_of_live (h : State g s.store) (consistent : Consistent (base body) s chronicle)
    (tried : HasTriedAll (base body) s chronicle) (hc : s.store.isLive c = true)
    (hd : s.store.isLive d = true) : c = d := by
  by_contra hcd
  obtain ⟨m, hm, hc⟩ := h.holds.hasLive hc
  obtain ⟨k, hk, hd⟩ := h.holds.hasLive hd
  obtain atMost | atMost := le_total k m
  · exact h.not_atMost consistent tried hcd hm hk hc hd atMost
  · exact h.not_atMost consistent tried (Ne.symm hcd) hk hm hd hc atMost

/-- When nothing is left to try, one number is left. -/
theorem State.complete (h : State g s.store) (positive : 0 < g)
    (consistent : Consistent (base body) s chronicle)
    (tried : HasTriedAll (base body) s chronicle) : s.store.liveTerms .ordinary = [held g] := by
  have divisor := h.gcd
  have nodup := h.holds.nodup_live .ordinary
  rw [Store.numbers, Store.liveTerms] at divisor
  rw [Store.liveTerms]
  cases hlive : s.store.live .ordinary with
  | nil =>
    rw [hlive] at divisor
    exact absurd divisor positive.ne
  | cons first rest =>
    rw [hlive] at divisor nodup
    obtain ⟨c, t⟩ := first
    obtain ⟨hget, hc, -⟩ := h.holds.mem_live.mp (hlive ▸ List.mem_cons_self)
    obtain rfl : rest = [] := by
      rw [List.eq_nil_iff_forall_not_mem]
      rintro ⟨d, u⟩ hmem
      obtain ⟨hget', hd, -⟩ := h.holds.mem_live.mp (hlive ▸ List.mem_cons_of_mem _ hmem)
      obtain rfl := h.eq_of_live consistent tried hc hd
      obtain rfl := Option.some.inj (hget.symm.trans hget')
      exact (List.nodup_cons.mp nodup).1 hmem
    obtain ⟨k, hk, rfl⟩ := h.holds.number c t hget
    obtain rfl : k = g := by
      rw [List.map_singleton, List.map_singleton, Term.heldNumber_number "gcd" hk,
        Multiset.coe_singleton, Multiset.gcd_singleton, normalize_eq] at divisor
      exact divisor
    rfl

end Run

section Numbers
variable {ints : List Int64}

/-- The numbers that are not negative, as natural ones. -/
def naturals (is : List Int64) : List Nat :=
  is.map fun i => i.toInt.toNat

lemma sum_naturals (nonneg : ∀ i ∈ ints, 0 ≤ i) :
    ((naturals ints).sum : Int) = (ints.map Int64.toInt).sum := by
  rw [naturals, Nat.cast_list_sum, List.map_map]
  refine congrArg List.sum (List.map_congr_left fun i hi => ?_)
  exact Int.toNat_of_nonneg (Int64.le_iff_toInt_le.mp (nonneg i hi))

lemma map_held_naturals (nonneg : ∀ i ∈ ints, 0 ≤ i) :
    (naturals ints).map (Term.number "gcd") = ints.map fun i => .ordinary "gcd" [.int i] := by
  rw [naturals, List.map_map]
  refine List.map_congr_left fun i hi => ?_
  rw [Function.comp_apply, Term.number, (ofNat_toNat (nonneg i hi)).2]

lemma gcd_naturals_pos (positive : ∃ i ∈ ints, 0 < i) :
    0 < Multiset.gcd (naturals ints : Multiset Nat) := by
  obtain ⟨i, hi, positive⟩ := positive
  refine Nat.pos_of_ne_zero ((Multiset.gcd_ne_zero_iff _).mpr ⟨_, List.mem_map_of_mem hi, ?_⟩)
  have : (0 : Int) < i.toInt := Int64.lt_iff_toInt_lt.mp positive
  omega

lemma state_start (nonneg : ∀ i ∈ ints, 0 ≤ i) :
    State (Multiset.gcd (naturals ints : Multiset Nat))
        (Store.empty.insertNumbers "gcd" (naturals ints)) ∧
      (measure (Store.empty.insertNumbers "gcd" (naturals ints)) : Int) =
        (ints.map Int64.toInt).sum + ints.length := by
  have small : ∀ k ∈ naturals ints, k < wordLimit := by
    intro k hk
    obtain ⟨i, hi, rfl⟩ := List.mem_map.mp hk
    exact (ofNat_toNat (nonneg i hi)).1
  have empty : Store.empty.HoldsNumbers "gcd" := ⟨Store.inStep_empty, fun c t ht => by cases ht⟩
  obtain ⟨holds, numbers⟩ := empty.insertNumbers small
  have numbers : (Store.empty.insertNumbers "gcd" (naturals ints)).numbers = naturals ints := numbers
  have length : (naturals ints).length = ints.length := List.length_map _
  refine ⟨⟨holds, by rw [numbers]⟩, ?_⟩
  rw [measure, numbers, Nat.cast_add, sum_naturals nonneg, length]

lemma store_obeyAll_held (j : Journal) {conjunctions : List (List Int64)}
    (nonneg : ∀ i ∈ conjunctions.flatten, 0 ≤ i) :
    (j.obeyAll (conjunctions.map fun is =>
        .goals (is.map fun i => .ordinary "gcd" [.int i]))).session.store =
      j.session.store.insertNumbers "gcd" (naturals conjunctions.flatten) := by
  have commands : (conjunctions.map fun is => Command.goals (is.map fun i => .ordinary "gcd" [.int i]))
      = (conjunctions.map naturals).map fun ks => .goals (ks.map (Term.number "gcd")) := by
    rw [List.map_map]
    refine List.map_congr_left fun is his => congrArg Command.goals ?_
    exact (map_held_naturals fun i hi => nonneg i (List.mem_flatten_of_mem his hi)).symm
  rw [commands, store_obeyAll_numbers, naturals, List.map_flatten]
  rfl

end Numbers

/-- The program computes the greatest common divisor of numbers that are not all zero, however they
are spread over conjunctions of goals: with enough passes it reaches a fixpoint, at which the divisor is
left, and no built-in constraint. -/
theorem solve_gcd {body : List Term} (trivial : ∀ t ∈ body, t = .bool true)
    {conjunctions : List (List Int64)} (nonneg : ∀ i ∈ conjunctions.flatten, 0 ≤ i)
    (positive : ∃ i ∈ conjunctions.flatten, 0 < i) {cap : Nat}
    (hcap : (conjunctions.flatten.map Int64.toInt).sum + conjunctions.flatten.length ≤ cap) :
    let j := (Journal.begin (base body)).obeyAll
      (conjunctions.map (fun is => .goals (is.map fun i => .ordinary "gcd" [.int i])) ++ [.limit cap])
    let final := j.session.solve
    final.verdict = .fixpoint ∧ final.session.store.liveTerms .builtin = [] ∧
      final.session.store.liveTerms .ordinary =
        [held (Multiset.gcd (naturals conjunctions.flatten : Multiset Nat))] := by
  intro j final
  obtain ⟨state, total⟩ := state_start nonneg
  have limited : j = ((Journal.begin (base body)).obeyAll (conjunctions.map fun is =>
      .goals (is.map fun i => .ordinary "gcd" [.int i]))).obey (.limit cap) := List.foldl_append
  have stored : j.session.store = Store.empty.insertNumbers "gcd" (naturals conjunctions.flatten) := by
    rw [limited]
    exact store_obeyAll_held (.begin (base body)) nonneg
  have passes : j.session.maxPasses = cap := by
    rw [limited]
    rfl
  have hheads : (base body).HasHeads := RuleBase.hasHeads_ofRules _
  have consistent : Consistent (base body) j.session j.chronicle := consistent_obeyAll hheads _
  rw [← stored] at state total
  obtain ⟨verdict, chronicle, consistent, tried, state⟩ :=
    consistent.solve_progresses hheads (progresses trivial) state (by omega)
  exact ⟨verdict, state.holds.liveTerms_builtin,
    state.complete (gcd_naturals_pos positive) consistent tried⟩

/-- The greatest common divisor of 12, 0 and 18. -/
theorem solve_gcd_six :
    let j := (Journal.begin (base [])).obeyAll
      [.goals [.ordinary "gcd" [.int 12], .ordinary "gcd" [.int 0]],
        .goals [.ordinary "gcd" [.int 18]], .limit 33]
    j.session.solve.verdict = .fixpoint ∧
      j.session.solve.session.store.liveTerms .builtin = [] ∧
      j.session.solve.session.store.liveTerms .ordinary = [held 6] := by
  have trivial : ∀ t ∈ ([] : List Term), t = .bool true := by simp
  have nonneg : ∀ i ∈ ([[12, 0], [18]] : List (List Int64)).flatten, 0 ≤ i := by simp
  have positive : ∃ i ∈ ([[12, 0], [18]] : List (List Int64)).flatten, 0 < i := by simp
  have bound : (([[12, 0], [18]] : List (List Int64)).flatten.map Int64.toInt).sum +
      ([[12, 0], [18]] : List (List Int64)).flatten.length ≤ (33 : Nat) := by decide
  have values : naturals [12, 0, 18] = [12, 0, 18] := rfl
  have divisor : Multiset.gcd (naturals [12, 0, 18] : Multiset Nat) = 6 := by
    rw [values]
    decide
  have result := solve_gcd trivial nonneg positive bound
  simp only [List.map_cons, List.map_nil, List.cons_append, List.nil_append] at result
  rw [← divisor]
  exact result

end Euclid
end ConstraintHandling
