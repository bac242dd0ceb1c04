import ConstraintHandling.Proofs.Programs.Numbers
import ConstraintHandling.Proofs.Session.Firings
import Mathlib.Data.Nat.Prime.Basic

/-! The sieve. From one goal the first rule makes candidates in descending order, and the second one
removes the candidates that others divide. The candidates are known at any time from their count, and
only composite ones are ever removed; so at the fixpoint the primes are left. -/
namespace ConstraintHandling
namespace Sieve

def prime (k : Nat) : Term :=
  .number "prime" k

/-- `candidate @ prime(N) ==> N > 2 | prime(N - 1).` -/
def candidate : Rule where
  name := "candidate"
  keepHeads := [.slot "prime" ⟨"N", 0⟩]
  deleteHeads := []
  guards := [.relation ">" (.var ⟨"N", 0⟩) (.int 2)]
  body := [.ordinary "prime" [.compound "-" [.var ⟨"N", 0⟩, .int 1] 500]]

/-- `sieve @ prime(A) \ prime(B) <=> B mod A == 0 | true.` -/
def sieve (body : List Term) : Rule where
  name := "sieve"
  keepHeads := [.slot "prime" ⟨"A", 0⟩]
  deleteHeads := [.slot "prime" ⟨"B", 0⟩]
  guards := [.equation (.compound "mod" [.var ⟨"B", 0⟩, .var ⟨"A", 0⟩] 400) (.int 0)]
  body := body

/-- The two rules in this order. The body of the second one is `true`, which may be left out. -/
def base (body : List Term) : RuleBase :=
  (RuleBase.ofRules [candidate, sieve body]).1

def candidateEnv (k : Nat) : Environment :=
  Environment.empty.bind ⟨"N", 0⟩ (.int (.ofNat k))

def sieveEnv (k l : Nat) : Environment :=
  (Environment.empty.bind ⟨"B", 0⟩ (.int (.ofNat k))).bind ⟨"A", 0⟩ (.int (.ofNat l))

section Rules
variable {known : Oracle} {k l : Nat} {body : List Term}

lemma guards_candidate (hk : k < wordLimit) :
    Search.checkGuards known candidate.guards (candidateEnv k) =
      if 2 < k then some (candidateEnv k) else none := by
  have value : evaluate known (.var ⟨"N", 0⟩) (candidateEnv k) = .int (.ofNat k) :=
    evaluate_var known rfl rfl
  have test : evaluate known (.relation ">" (.var ⟨"N", 0⟩) (.int 2)) (candidateEnv k) =
      .bool (decide (2 < k)) :=
    evaluate_binary known _ (by decide) value (evaluate_int known _ 2)
      (congrArg (Option.map Term.bool) (greater_ofNat hk (by decide)))
  rw [candidate, Search.checkGuards_singleton, Search.checkGuard_test rfl test]
  simp

lemma guards_sieve (hk : k < wordLimit) (hl : l < wordLimit) (positive : 0 < l) :
    Search.checkGuards known (sieve body).guards (sieveEnv k l) =
      if l ∣ k then some (sieveEnv k l) else none := by
  have left : evaluate known (.var ⟨"B", 0⟩) (sieveEnv k l) = .int (.ofNat k) :=
    evaluate_var known rfl rfl
  have right : evaluate known (.var ⟨"A", 0⟩) (sieveEnv k l) = .int (.ofNat l) :=
    evaluate_var known rfl rfl
  have remainder : evaluate known (.compound "mod" [.var ⟨"B", 0⟩, .var ⟨"A", 0⟩] 400)
      (sieveEnv k l) = .int (.ofNat (k % l)) :=
    evaluate_binary known _ (by decide) left right (modulo_ofNat hk hl positive)
  have test : evaluate known (.equation (.compound "mod" [.var ⟨"B", 0⟩, .var ⟨"A", 0⟩] 400)
      (.int 0)) (sieveEnv k l) = .bool (decide (k % l = 0)) := by
    have small : k % l < wordLimit := (Nat.mod_le k l).trans_lt hk
    exact evaluate_binary known _ (by decide) remainder (evaluate_int known _ 0)
      (congrArg (Option.map Term.bool) (settledEqual?_ofNat small (by decide)))
  rw [sieve, Search.checkGuards_singleton, Search.checkGuard_test rfl test]
  simp [Nat.dvd_iff_mod_eq_zero]

lemma fire_candidate {m : Match} {scope : Nat} {s : Store} (hk : k < wordLimit) (positive : 0 < k)
    (henv : m.env = candidateEnv k) :
    (candidate.fire m scope s).1 = s.insert "prime" (prime (k - 1)) := by
  have bound : (candidateEnv k).substitute (.var ⟨"N", 0⟩) = .int (.ofNat k) :=
    Environment.substitute_var rfl rfl
  have value : evaluate s.holds (.compound "-" [.int (.ofNat k), .int 1] 500) .empty =
      .int (.ofNat (k - 1)) :=
    evaluate_binary _ _ (by decide) (evaluate_int _ _ _) (evaluate_int _ _ 1)
      (subtract_one_ofNat hk positive)
  have kept : s.consumeAll (m.constraints.take candidate.deleteHeads.length) = s := by
    simp [candidate, Store.consumeAll]
  rw [Rule.fire_ordinary rfl, kept, henv]
  simp only [List.map_cons, List.map_nil, Environment.substitute_compound, bound,
    Environment.substitute_int, Term.rename_compound, Term.rename_int, value]
  rfl

lemma fire_sieve (trivial : ∀ t ∈ body, t = .bool true) {m : Match} {scope : Nat} {s : Store}
    {c d : Nat} (hcs : m.constraints = [c, d]) :
    ((sieve body).fire m scope s).1 = s.consume c := by
  rw [Rule.fire_trivial trivial, hcs]
  rfl

end Rules

/-- What holds of the candidates from `n` on and of the firings that have led to them. The first rule
has fired on all candidates but the last one. -/
structure State (n : Nat) (s : Store) (firings : List Combination) : Prop extends s.InStep where
  started : 0 < s.size
  bounded : s.size < n
  get : ∀ c < s.size, s.get? c = some (prime (n - c))
  descended : ∀ c, ⟨0, [c]⟩ ∈ firings ↔ c + 1 < s.size
  sieved : ∀ c < s.size, s.isLive c = false → ¬ (n - c).Prime
  last : s.isLive (s.size - 1) = true

/-- The candidates still to come count twice: each is added by one firing and may be removed by
another. -/
def measure (n : Nat) (s : Store) : Nat :=
  2 * (n - s.size) + (s.live .ordinary).length

section State
variable {n : Nat} {s : Store} {firings : List Combination} (h : State n s firings)
include h

lemma State.holdsNumbers (hn : n < wordLimit) : s.HoldsNumbers "prime" where
  toInStep := h.toInStep
  number c t ht := by
    have hc := Store.lt_size_of_get? ht
    rw [h.get c hc] at ht
    exact ⟨n - c, by omega, (Option.some.inj ht).symm⟩

lemma State.hasLive {c : Nat} (hc : s.isLive c = true) : s.HasLive "prime" c (n - c) :=
  ⟨h.get c (h.lt_size_of_isLive hc), hc⟩

lemma State.value (hn : n < wordLimit) {c : Nat} {k : Nat} (hk : k < wordLimit)
    (hc : s.HasLive "prime" c k) : c < s.size ∧ k = n - c := by
  have known := h.lt_size_of_isLive hc.live
  have same := (h.get c known).symm.trans hc.get
  exact ⟨known, ((Term.number_inj (by omega) hk).mp (Option.some.inj same)).symm⟩

lemma State.combines_candidate (hn : n < wordLimit) {c : Nat} (hc : s.isLive c = true) :
    Search.Combines s s.canMatch candidate.heads [c] (candidateEnv (n - c)) :=
  (Search.combines_slot (h.holdsNumbers hn)).mpr
    ⟨c, n - c, by omega, h.hasLive hc, rfl, rfl⟩

lemma State.combines_sieve (hn : n < wordLimit) (body : List Term) {c d : Nat} (hcd : c ≠ d)
    (hc : s.isLive c = true) (hd : s.isLive d = true) :
    Search.Combines s s.canMatch (sieve body).heads [c, d] (sieveEnv (n - c) (n - d)) :=
  (Search.combines_slots (h.holdsNumbers hn) (by decide)).mpr
    ⟨c, d, n - c, n - d, hcd, ⟨by omega, h.hasLive hc⟩, ⟨by omega, h.hasLive hd⟩, rfl, rfl⟩

lemma State.eq_last {c : Nat} (new : ⟨0, [c]⟩ ∉ firings) (hc : c < s.size) : c = s.size - 1 := by
  rw [h.descended, Nat.not_lt] at new
  omega

lemma State.descend (more : 2 < n - (s.size - 1)) :
    State n (s.insert "prime" (prime (n - s.size))) (firings ++ [⟨0, [s.size - 1]⟩]) where
  toInStep := h.toInStep.insert ..
  started := by simp
  bounded := by
    rw [Store.size_insert]
    omega
  get c hc := by
    rw [Store.get?_insert]
    split
    · next heq => rw [heq]
    · next hne =>
      rw [Store.size_insert] at hc
      exact h.get c (Nat.lt_of_le_of_ne (Nat.le_of_lt_succ hc) hne)
  descended c := by
    have started := h.started
    rw [Store.size_insert, List.mem_append, h.descended, List.mem_singleton]
    simp only [Combination.mk.injEq, true_and, List.cons.injEq, and_true]
    change (c + 1 < s.size ∨ (c : Nat) = s.size - 1) ↔ _
    omega
  sieved c hc dead := by
    rw [h.isLive_insert, Bool.or_eq_false_iff, beq_eq_false_iff_ne] at dead
    rw [Store.size_insert] at hc
    exact h.sieved c (Nat.lt_of_le_of_ne (Nat.le_of_lt_succ hc) dead.1) dead.2
  last := by simp [h.isLive_insert]

lemma State.measure_insert (k : Nat) :
    measure n (s.insert "prime" (prime k)) < measure n s := by
  have bounded := h.bounded
  rw [measure, measure, Store.size_insert, h.live_insert, prime, Term.of_number, if_pos rfl,
    List.length_append, List.length_singleton]
  omega

lemma State.remove {c d : Nat} (hcd : c ≠ d) (hc : s.isLive c = true) (hd : s.isLive d = true)
    (divides : n - d ∣ n - c) : State n (s.consume c) (firings ++ [⟨1, [c, d]⟩]) := by
  have hcs : c < s.size := h.lt_size_of_isLive hc
  have hds : d < s.size := h.lt_size_of_isLive hd
  have bounded := h.bounded
  have smaller : n - d < n - c := by
    have := Nat.le_of_dvd (by omega) divides
    omega
  refine ⟨h.toInStep.consume c, ?started, ?bounded, ?get, ?descended, ?sieved, ?last⟩
  case started =>
    rw [Store.size_consume]
    exact h.started
  case bounded =>
    rw [Store.size_consume]
    exact h.bounded
  case get =>
    intro e he
    rw [Store.get?_consume]
    exact h.get e (by simpa using he)
  case descended =>
    intro e
    simp [h.descended]
  case sieved =>
    intro e he dead
    rw [Store.size_consume] at he
    rw [Store.isLive_consume, Bool.and_eq_false_iff, bne_eq_false_iff_eq] at dead
    obtain dead | rfl := dead
    · exact h.sieved e he dead
    · exact Nat.not_prime_of_dvd_of_lt divides (by omega) smaller
  case last =>
    rw [Store.size_consume, Store.isLive_consume, h.last, Bool.true_and, bne_iff_ne]
    change (c : Nat) ≠ s.size - 1
    omega

lemma State.measure_consume {c : Nat} (hc : s.isLive c = true) :
    measure n (s.consume c) < measure n s := by
  have length := (h.perm_live_consume ((h.hasLive hc).mem_live h.toInStep)).length_eq
  rw [List.length_cons] at length
  rw [measure, measure, Store.size_consume]
  omega

end State
section Run
variable {n : Nat} {body : List Term} {s : Session} {chronicle : Chronicle}

theorem progresses (hn : n < wordLimit) (trivial : ∀ t ∈ body, t = .bool true) :
    Progresses (base body) (State n) (fun s _ => measure n s) := by
  intro s chronicle r id m fires h
  obtain ⟨env, matched⟩ := fires.matches (RuleBase.hasHeads_ofRules _)
  have numbers := h.holdsNumbers hn
  have guards := matched.guards
  obtain ⟨rfl, rfl⟩ | ⟨rfl, rfl⟩ := RuleBase.of_get?_pair rfl fires.registered
  · obtain ⟨c, k, hk, hc, hcs, rfl⟩ := (Search.combines_slot numbers).mp matched.combines
    obtain ⟨known, rfl⟩ := h.value hn hk hc
    rw [← candidateEnv, guards_candidate hk, Option.ite_none_right_eq_some] at guards
    obtain ⟨more, henv⟩ := guards
    have new : ⟨0, [c]⟩ ∉ chronicle.firings := fun fired =>
      matched.untried (hcs ▸ fires.consistent.tried_of_fired fired)
    obtain rfl := h.eq_last new known
    have next : n - (s.store.size - 1) - 1 = n - s.store.size := by
      have := h.started
      omega
    rw [fire_candidate hk (by omega) (Option.some.inj henv).symm, hcs, next]
    exact ⟨h.descend more, h.measure_insert _⟩
  · obtain ⟨c, d, k, l, hcd, ⟨hk, hc⟩, ⟨hl, hd⟩, hcs, rfl⟩ :=
      (Search.combines_slots numbers (by decide)).mp matched.combines
    obtain ⟨-, rfl⟩ := h.value hn hk hc
    obtain ⟨known, rfl⟩ := h.value hn hl hd
    have bounded := h.bounded
    rw [← sieveEnv, guards_sieve hk hl (by omega), Option.ite_none_right_eq_some] at guards
    rw [fire_sieve trivial hcs, hcs]
    exact ⟨h.remove hcd hc.live hd.live guards.1, h.measure_consume hc.live⟩

lemma State.size_eq (h : State n s.store chronicle.firings) (hn : n < wordLimit)
    (consistent : Consistent (base body) s chronicle)
    (settled : IsSettled (base body) s chronicle 0) : s.store.size = n - 1 := by
  -- Otherwise the first rule would have fired on the last candidate.
  have started := h.started
  have bounded := h.bounded
  by_contra short
  have combines := h.combines_candidate hn h.last
  have registered : (base body).get? 0 = some candidate := rfl
  obtain ⟨t, ht⟩ := consistent.triedOnce registered combines (settled _ registered _ _ combines)
  have passed := ht.outcome
  rw [guards_candidate (by omega), if_pos (by omega)] at passed
  have fired := (h.descended _).mp (ht.fired.mpr passed)
  omega

lemma State.prime_of_live (h : State n s.store chronicle.firings) (hn : n < wordLimit)
    (consistent : Consistent (base body) s chronicle) (size : s.store.size = n - 1)
    (settled : IsSettled (base body) s chronicle 1) {c : Nat} (live : s.store.isLive c = true) :
    (n - c).Prime := by
  -- Otherwise the candidate would have been removed for its least prime factor.
  have hc : c < s.store.size := h.lt_size_of_isLive live
  by_contra composite
  have factor : (n - c).minFac.Prime := Nat.minFac_prime (by omega)
  have two := factor.two_le
  have smaller : (n - c).minFac < n - c := (Nat.not_prime_iff_minFac_lt (by omega)).mp composite
  obtain ⟨d, hd, place⟩ : ∃ d < s.store.size, n - d = (n - c).minFac :=
    ⟨n - (n - c).minFac, by omega, by omega⟩
  have divisor : s.store.isLive d = true := by
    by_contra dead
    exact h.sieved d hd (by simpa using dead) (place ▸ factor)
  have combines := h.combines_sieve hn body (show c ≠ d by omega) live divisor
  have registered : (base body).get? 1 = some (sieve body) := rfl
  obtain ⟨known, failed⟩ :=
    consistent.guards_fail registered settled (List.cons_ne_nil _ _) combines
  rw [guards_sieve (by omega) (by omega) (by omega), if_pos (place ▸ Nat.minFac_dvd _)] at failed
  cases failed

/-- When nothing is left to try, all candidates have been made, and those left are the primes. -/
theorem State.complete (h : State n s.store chronicle.firings) (hn : n < wordLimit)
    (consistent : Consistent (base body) s chronicle)
    (tried : HasTriedAll (base body) s chronicle) :
    s.store.size = n - 1 ∧ ∀ c < s.store.size, s.store.isLive c = true ↔ (n - c).Prime := by
  have size := h.size_eq hn consistent (tried.isSettled 0)
  refine ⟨size, fun c hc => ⟨h.prime_of_live hn consistent size (tried.isSettled 1), fun prime => ?_⟩⟩
  by_contra dead
  exact h.sieved c hc (by simpa using dead) prime

end Run
section Solution
variable {n : Nat} {s : Store} {firings : List Combination}

lemma state_start (hn : 2 ≤ n) : State n (Store.empty.insert "prime" (prime n)) [] where
  toInStep := Store.inStep_empty.insert ..
  started := by simp
  bounded := by simpa using Nat.lt_of_succ_le hn
  get c hc := by
    obtain rfl : c = 0 := by simpa using hc
    rfl
  descended c := by simp
  sieved c hc dead := by
    obtain rfl : c = 0 := by simpa using hc
    cases dead
  last := rfl

lemma reverse_range (hn : 2 ≤ n) :
    (List.range (n + 1)).reverse = (List.range (n - 1)).map (n - ·) ++ [1, 0] := by
  induction n, hn using Nat.le_induction with
  | base => rfl
  | succ n hn ih =>
    obtain ⟨m, rfl⟩ : ∃ m, n = m + 1 := ⟨n - 1, by omega⟩
    have first : m + 1 + 1 - 1 = m + 1 := rfl
    rw [List.range_succ, List.reverse_append, ih, first, List.range_succ_eq_map, List.map_cons,
      List.map_map]
    simp [Function.comp_def]

lemma State.liveTerms_ordinary (h : State n s firings) (size : s.size = n - 1)
    (primes : ∀ c < s.size, s.isLive c = true ↔ (n - c).Prime) :
    s.liveTerms .ordinary = ((List.range (n + 1)).filter Nat.Prime).reverse.map prime := by
  have bounded := h.bounded
  have started := h.started
  have place : ∀ c ∈ List.range s.size, (s.liveAt .ordinary c).map Prod.snd =
      (Option.guard (fun c => (n - c).Prime) c).map fun c => prime (n - c) := by
    intro c hc
    have hc : c < s.size := List.mem_range.mp hc
    by_cases live : s.isLive c = true
    · have p := (primes c hc).mp live
      rw [Store.liveAt, h.get c hc]
      simp [live, p, Option.guard, prime, Term.of_number]
    · have p := mt (primes c hc).mpr live
      rw [Store.liveAt, h.get c hc]
      simp [live, p, Option.guard]
  rw [Store.liveTerms, h.live_eq, List.map_filterMap, List.filterMap_congr place,
    ← List.map_filterMap, List.filterMap_eq_filter, ← List.filter_reverse, reverse_range (by omega),
    size, List.filter_append, List.filter_map]
  have none : [1, 0].filter (fun k => decide (Nat.Prime k)) = [] := by decide
  rw [none, List.append_nil, List.map_map]
  rfl

end Solution

/-- The program computes the primes: with enough passes it reaches a fixpoint, at which the primes up
to the goal are left in decreasing order, and no built-in constraint. -/
theorem solve_primes {body : List Term} (trivial : ∀ t ∈ body, t = .bool true) {n : Int64}
    (hn : 2 ≤ n) {cap : Nat} (hcap : 2 * n.toInt ≤ cap) :
    let j := (Journal.begin (base body)).obeyAll [.goals [.ordinary "prime" [.int n]], .limit cap]
    let final := j.session.solve
    final.verdict = .fixpoint ∧ final.session.store.liveTerms .builtin = [] ∧
      final.session.store.liveTerms .ordinary =
        ((List.range (n.toInt.toNat + 1)).filter Nat.Prime).reverse.map prime := by
  intro j final
  obtain ⟨k, hk, rfl⟩ : ∃ k < wordLimit, n = .ofNat k :=
    have ⟨small, same⟩ := ofNat_toNat (Int64.le_trans (by decide) hn)
    ⟨_, small, same.symm⟩
  rw [toInt_ofNat hk] at hcap ⊢
  have two : 2 ≤ k := (ofNat_le_ofNat (by decide) hk).mp hn
  have stored : j.session.store = Store.empty.insert "prime" (prime k) :=
    store_addGoals_numbers (.start (base body)) "prime" [k]
  have hheads : (base body).HasHeads := RuleBase.hasHeads_ofRules _
  have start : State k j.session.store j.chronicle.firings := stored ▸ state_start two
  have bound : measure k j.session.store ≤ j.session.maxPasses := by
    have single : ((Store.empty.insert "prime" (prime k)).live .ordinary).length = 1 := by
      rw [Store.inStep_empty.live_insert, prime, Term.of_number]
      rfl
    change measure k j.session.store ≤ cap
    rw [stored, measure, single, Store.size_insert, Store.size_empty]
    omega
  obtain ⟨verdict, chronicle, consistent, tried, state⟩ :=
    (consistent_obeyAll hheads _).solve_progresses hheads (progresses hk trivial) start bound
  obtain ⟨size, primes⟩ := state.complete hk consistent tried
  exact ⟨verdict, (state.holdsNumbers hk).liveTerms_builtin, state.liveTerms_ordinary size primes⟩

/-- The primes up to 20. -/
theorem solve_primes_twenty :
    let j := (Journal.begin (base [.bool true])).obeyAll
      [.goals [.ordinary "prime" [.int 20]], .limit 40]
    j.session.solve.verdict = .fixpoint ∧
      j.session.solve.session.store.liveTerms .builtin = [] ∧
      j.session.solve.session.store.liveTerms .ordinary =
        [prime 19, prime 17, prime 13, prime 11, prime 7, prime 5, prime 3, prime 2] := by
  have values : ((List.range 21).filter Nat.Prime).reverse = [19, 17, 13, 11, 7, 5, 3, 2] := by
    decide
  have trivial : ∀ t ∈ [Term.bool true], t = .bool true := by simp
  have bound : 2 * (20 : Int64).toInt ≤ (40 : Nat) := by decide
  have two : (2 : Int64) ≤ 20 := by decide
  have upTo : (20 : Int64).toInt.toNat + 1 = 21 := rfl
  have result := solve_primes trivial two bound
  rw [upTo, values] at result
  exact ⟨result.1, result.2.1, result.2.2.trans rfl⟩

end Sieve
end ConstraintHandling
