import ConstraintHandling.Proofs.Propagation
import ConstraintHandling.Proofs.Session.Invariant

/-! What a firing does to the store, exactly. It takes distinct live constraints; those of the heads to
delete are consumed in any case, and nothing else happens when the body fails. Otherwise the other
constraints live on unless equalities have changed them, and what is new comes behind all that was
there. -/
namespace ConstraintHandling

namespace Search
variable {store : Store} {claimed : List ConstraintId} {c : ConstraintId} {n : Nat} {m : Match}
  {next : Continuation} {memo : Memo}

/-- The constraints of a match are distinct and live, as many as there are heads, and none of them had
been claimed before. -/
structure Takes (store : Store) (claimed : List ConstraintId) (n : Nat) (m : Match) : Prop where
  length : m.constraints.length = n
  distinct : m.constraints.Nodup
  live : ∀ c ∈ m.constraints, store.isLive c = true
  unclaimed : ∀ c ∈ m.constraints, c ∉ claimed

lemma Takes.after (h : Takes store (c :: claimed) n m) (available : isAvailable store claimed c = true) :
    Takes store claimed (n + 1) (after c m) := by
  obtain ⟨live, unclaimed⟩ := isAvailable_iff.mp available
  exact {
    length := congrArg (· + 1) h.length
    distinct := List.nodup_cons.mpr
      ⟨fun mem => h.unclaimed c mem List.mem_cons_self, h.distinct⟩
    live := List.forall_mem_cons.mpr ⟨live, h.live⟩
    unclaimed := List.forall_mem_cons.mpr
      ⟨unclaimed, fun d hd claimed => h.unclaimed d hd (List.mem_cons_of_mem c claimed)⟩ }

/-- Behind a constraint that it claims, the continuation takes constraints for the other heads. -/
def TakesBehind (store : Store) (claimed : List ConstraintId) (n : Nat) (next : Continuation) : Prop :=
  ∀ c id env memo m, (next c id env memo).1 = some m → Takes store (c :: claimed) n m

lemma takes_revisit (behind : TakesBehind store claimed n next)
    {known : List (ConstraintId × Slot)} (found : (revisit store claimed next known memo).1 = some m) :
    Takes store claimed (n + 1) m := by
  induction known generalizing memo with
  | nil => cases found
  | cons pair rest ih =>
    obtain ⟨c, _ | id⟩ := pair
    · exact ih found
    · rw [revisit] at found
      split at found
      · next available =>
        dsimp only at found
        split at found
        · next m' memo' step =>
          cases found
          exact (behind _ _ _ _ m' (congrArg Prod.fst step)).after available
        · exact ih found
      · exact ih found

lemma takes_scan (behind : TakesBehind store claimed n next) {head : Term} {env : Environment}
    {stage : Stage} {cs : List ConstraintId}
    (found : (scan store claimed head env stage next cs memo).1 = some m) :
    Takes store claimed (n + 1) m := by
  induction cs generalizing memo with
  | nil => cases found
  | cons c rest ih =>
    rw [scan] at found
    split at found
    · exact ih found
    · next env' unified =>
      dsimp only at found
      split at found
      · next m' memo' step =>
        cases found
        have taken := behind _ _ _ _ m' (congrArg Prod.fst step)
        exact taken.after (isAvailable_of_unifyAvailable unified)
      · exact ih found

theorem takes_matchHeads {rule : RuleId} {guards heads : List Term} {place : Nat}
    {claimed : List ConstraintId} {parent : EnvironmentId} {env : Environment} {memo : Memo} {m : Match}
    (found : (matchHeads store rule guards heads place claimed parent env memo).1 = some m) :
    Takes store claimed heads.length m := by
  match heads with
  | [] => cases found
  | [head] =>
    rw [matchHeads] at found
    refine takes_scan (fun c id env memo m' last => ?_) found
    obtain ⟨env', -, rfl⟩ := Option.map_eq_some_iff.mp last
    exact ⟨rfl, List.nodup_nil, List.forall_mem_nil _, List.forall_mem_nil _⟩
  | head :: following :: heads =>
    rw [matchHeads] at found
    have behind : TakesBehind store claimed (following :: heads).length
        fun c id env memo =>
          matchHeads store rule guards (following :: heads) (place + 1) (c :: claimed) id env memo :=
      fun c id env memo m' later => takes_matchHeads later
    split at found
    · next m' memo' step =>
      cases found
      exact takes_revisit behind (congrArg Prod.fst step)
    · exact takes_scan behind found

end Search

namespace Store
variable {s s' : Store}

/-- The second store is the first one with some constraints consumed. -/
structure Loses (s s' : Store) (ids : List ConstraintId) : Prop where
  terms : ∀ id, s'.get? id = s.get? id
  live : ∀ id, s'.isLive id = true ↔ s.isLive id = true ∧ id ∉ ids
  byFunctor : s'.byFunctor = s.byFunctor
  byFirst : s'.byFirst = s.byFirst
  lists : ∀ partition, s'.ids partition = s.ids partition

lemma lists_consumeAll (s : Store) (ids : List ConstraintId) :
    (s.consumeAll ids).byFunctor = s.byFunctor ∧ (s.consumeAll ids).byFirst = s.byFirst ∧
      ∀ partition, (s.consumeAll ids).ids partition = s.ids partition := by
  induction ids generalizing s with
  | nil => exact ⟨rfl, rfl, fun _ => rfl⟩
  | cons id ids ih => exact ih (s.consume id)

lemma loses_consumeAll (s : Store) (ids : List ConstraintId) : s.Loses (s.consumeAll ids) ids where
  terms := get?_consumeAll s ids
  live id := by simp [isLive_consumeAll]
  byFunctor := (lists_consumeAll s ids).1
  byFirst := (lists_consumeAll s ids).2.1
  lists := (lists_consumeAll s ids).2.2

/-- The second store is what the effects make of the first one, from which some constraints are deleted.
Of the others those live on that the replacements do not change. -/
structure Evolves (s s' : Store) (deleted : List ConstraintId) (e : Effects) : Prop where
  live : ∀ id t, s.isLive id = true → s.get? id = some t →
    (s'.isLive id = true ↔ id ∉ deleted ∧ (e.replacements ≠ [] → (e.apply t == t) = true))
  dead : ∀ id < s.size, s.isLive id = false → s'.isLive id = false
  extended : s.terms.toList <+: s'.terms.toList

end Store

namespace Rule
variable {r : Rule} {m : Match} {scope : Nat} {s : Store} {e : Effects} {events : List Event}

lemma loses_fire (failed : r.performs m scope s = (none, events)) :
    s.Loses (r.fire m scope s).1 (m.constraints.take r.deleteHeads.length) := by
  rw [fire_of_fails failed]
  exact s.loses_consumeAll _

lemma evolves_fire (inStep : s.InStep) (performed : r.performs m scope s = (some e, events)) :
    s.Evolves (r.fire m scope s).1 (m.constraints.take r.deleteHeads.length) e := by
  have propagates := propagates_fire inStep performed
  have consumed : (r.consumed m s).InStep := (s.reaches_consumeAll _).inStep inStep
  have size : (r.consumed m s).size = s.size := s.size_consumeAll _
  have grown : s.size ≤ ((r.consumed m s).addAll e.asserted).1.size := by
    rw [Store.size_addAll, size]
    exact Nat.le_add_right ..
  -- A number that was there is not one of those that asserted constraints get.
  have staged (id : ConstraintId) (hid : id < s.size) :
      ((r.consumed m s).addAll e.asserted).1.get? id = s.get? id ∧
        (((r.consumed m s).addAll e.asserted).1.isLive id = true ↔
          s.isLive id = true ∧ id ∉ m.constraints.take r.deleteHeads.length) := by
    have lost := s.loses_consumeAll (m.constraints.take r.deleteHeads.length)
    rw [← size] at hid
    rw [Store.get?_addAll_of_lt hid, consumed.isLive_addAll_of_lt hid]
    exact ⟨lost.terms id, lost.live id⟩
  refine ⟨fun id t live stored => ?_, fun id hid gone => ?_, ?_⟩
  · have hid := inStep.lt_size_of_isLive live
    obtain ⟨same, alive⟩ := staged id hid
    rw [(propagates.old (hid.trans_le grown)).2, alive, and_iff_right live]
    refine and_congr_right fun spared => ?_
    exact propagates.kept_iff (alive.mpr ⟨live, spared⟩) (same.trans stored)
  · rw [Bool.eq_false_iff, ne_eq, (propagates.old (hid.trans_le grown)).2, (staged id hid).2, gone]
    simp
  · have kept : (r.consumed m s).terms = s.terms := s.terms_consumeAll _
    rw [propagates.terms, Store.terms_addAll, kept, List.append_assoc]
    exact List.prefix_append ..

end Rule

namespace Session

/-- Exactly what a firing does to the store, in every state that a session reaches (`isInvariant_inStep`)
and in any other whose containers are in step. The match consists of distinct live constraints, one for
each head. When the body fails, those of the heads to delete are consumed and nothing else happens. When
it does not, they are consumed as well, the other live constraints live on just if the replacements make
an equal term of theirs, no consumed constraint comes back, and new constraints come behind all that
were there. -/
theorem tryRule_effect {s : Session} {r : Rule} {id : RuleId} (inStep : s.store.InStep)
    (fired : (s.tryRule r id).fired = true) :
    ∃ m, (r.nextMatch id s.store s.memo).1 = some m ∧
      (m.constraints.length = r.heads.length ∧ m.constraints.Nodup ∧
        ∀ c ∈ m.constraints, s.store.isLive c = true) ∧
      let deleted := m.constraints.take r.deleteHeads.length
      let after := (s.tryRule r id).session.store
      match (r.performs m (s.lastScope + 1) s.store).1 with
      | none => s.store.Loses after deleted
      | some e => s.store.Evolves after deleted e := by
  cases found : (r.nextMatch id s.store s.memo).1 with
  | none =>
    rw [(tryRule_of_none found).1] at fired
    cases fired
  | some m =>
    have taken : Search.Takes s.store [] r.heads.length m := Search.takes_matchHeads found
    refine ⟨m, rfl, ⟨taken.length, taken.distinct, taken.live⟩, ?_⟩
    rw [(tryRule_of_some found).2]
    dsimp only
    split
    · next failed => exact Rule.loses_fire (Prod.ext failed rfl)
    · next e performed => exact Rule.evolves_fire inStep (Prod.ext performed rfl)

/-- An equality changes one of two constraints that a rule leaves alone. -/
theorem tryRule_effect_equality :
    let r := Rule.onGo [.equation (.atom "a") (.atom "b")]
    let s := posed [r] [.ordinary "p" [.atom "a"], .atom "q", .atom "go"]
    (s.tryRule r 0).fired = true ∧
      ∃ m, (r.nextMatch 0 s.store s.memo).1 = some m ∧
        (m.constraints.length = r.heads.length ∧ m.constraints.Nodup ∧
          ∀ c ∈ m.constraints, s.store.isLive c = true) ∧
        let deleted := m.constraints.take r.deleteHeads.length
        let after := (s.tryRule r 0).session.store
        match (r.performs m (s.lastScope + 1) s.store).1 with
        | none => s.store.Loses after deleted
        | some e => s.store.Evolves after deleted e := by
  intro r s
  have fired : (s.tryRule r 0).fired = true := by rfl
  have inStep : s.store.InStep := (isInvariant_inStep _).obeyAll fun _ _ => trivial
  exact ⟨fired, tryRule_effect inStep fired⟩

/-- A constraint that holds a NaN does not equal itself. Where there are equalities it is consumed although
they make the very same term of it, and where there are none it lives on although it differs from
what they make of it. -/
theorem nan_changes :
    let t := Term.ordinary "p" [.float ⟨0x7FF8000000000000⟩]
    (let r := Rule.onGo [.equation (.atom "a") (.atom "b")]
      let s := posed [r] [t, .atom "go"]
      let e : Effects := ⟨[], [⟨.atom "a", .atom "b"⟩]⟩
      (r.nextMatch 0 s.store s.memo).1 = some ⟨[1], .empty⟩ ∧
        (r.performs ⟨[1], .empty⟩ (s.lastScope + 1) s.store).1 = some e ∧
        (s.store.isLive 0 = true ∧ s.store.get? 0 = some t ∧ e.apply t = t) ∧
        (s.tryRule r 0).session.store.isLive 0 = false) ∧
    (let r := Rule.onGo []
      let s := posed [r] [t, .atom "go"]
      (r.nextMatch 0 s.store s.memo).1 = some ⟨[1], .empty⟩ ∧
        (r.performs ⟨[1], .empty⟩ (s.lastScope + 1) s.store).1 = some .none ∧
        (s.store.isLive 0 = true ∧ s.store.get? 0 = some t ∧ (Effects.none.apply t == t) = false) ∧
        (s.tryRule r 0).session.store.isLive 0 = true) := by
  refine ⟨⟨rfl, rfl, ⟨?_, rfl, rfl⟩, ?_⟩, ⟨rfl, rfl, ⟨?_, rfl, ?_⟩, ?_⟩⟩ <;> decide +kernel

end Session
end ConstraintHandling
