import ConstraintHandling.Proofs.Firing
import ConstraintHandling.Proofs.Session.Invariant
import ConstraintHandling.Proofs.Store.Live

/-! Equality propagation. What a body has collected is committed by asserting constraints, by consuming
those that the replacements change, and by asserting their new terms and the equations behind them. A
new term that is neither an atom nor a compound term is refused and reported, and the constraint is
lost. -/
namespace ConstraintHandling

/-- The store takes the term as a constraint: it is an atom or a compound term. -/
def Term.isAssertable (t : Term) : Bool :=
  t.functor?.isSome

/-- The equations that the replacements stand for. -/
def Effects.equations (e : Effects) : List Term :=
  e.replacements.map fun r => .equation r.old r.new

lemma Effects.assertable_equations (e : Effects) : ∀ t ∈ e.equations, t.isAssertable = true := by
  intro t ht
  obtain ⟨r, -, rfl⟩ := List.mem_map.mp ht
  rfl

def refusals (ts : List Term) : List Event :=
  (ts.filter fun t => !t.isAssertable).map fun t => .refused ⟨t⟩

lemma refusals_append (ts us : List Term) : refusals (ts ++ us) = refusals ts ++ refusals us := by
  rw [refusals, List.filter_append, List.map_append]
  rfl

lemma refusals_of_assertable {ts : List Term} (h : ∀ t ∈ ts, t.isAssertable = true) :
    refusals ts = [] := by
  rw [refusals, List.map_eq_nil_iff, List.filter_eq_nil_iff]
  exact fun t ht => by simp [h t ht]

namespace Store
variable {s : Store} {id : ConstraintId} {ids : List ConstraintId} {ts : List Term}

section Additions

lemma addOrReport_cases (s : Store) (t : Term) :
    (t.isAssertable = true ∧
        ∃ f, t.functor? = some f ∧ s.addOrReport t = (s.insert f t, refusals [t])) ∨
      t.isAssertable = false ∧ s.addOrReport t = (s, refusals [t]) := by
  unfold addOrReport add refusals Term.isAssertable
  cases h : t.functor? with
  | some f => exact .inl ⟨rfl, f, rfl, by simp [h]⟩
  | none => exact .inr ⟨rfl, by simp [h]⟩

lemma size_le_addOrReport (s : Store) (t : Term) : s.size ≤ (s.addOrReport t).1.size := by
  obtain ⟨-, f, -, h⟩ | ⟨-, h⟩ := s.addOrReport_cases t
  · rw [h, size_insert]
    exact Nat.le_succ _
  · rw [h]

lemma addAll_cons (s : Store) (t : Term) (ts : List Term) :
    s.addAll (t :: ts) =
      (((s.addOrReport t).1.addAll ts).1,
        (s.addOrReport t).2 ++ ((s.addOrReport t).1.addAll ts).2) := rfl

lemma addAll_append (s : Store) (ts us : List Term) :
    s.addAll (ts ++ us) =
      (((s.addAll ts).1.addAll us).1, (s.addAll ts).2 ++ ((s.addAll ts).1.addAll us).2) := by
  induction ts generalizing s with
  | nil => rfl
  | cons t ts ih =>
    rw [List.cons_append, addAll_cons, ih, addAll_cons, List.append_assoc]

lemma addAll_spec (s : Store) (ts : List Term) :
    (s.addAll ts).1.terms.toList = s.terms.toList ++ ts.filter Term.isAssertable ∧
      (s.addAll ts).1.consumed.toList =
        s.consumed.toList ++ (ts.filter Term.isAssertable).map (fun _ => false) ∧
      (s.addAll ts).2 = refusals ts := by
  induction ts generalizing s with
  | nil => exact ⟨(List.append_nil _).symm, (List.append_nil _).symm, rfl⟩
  | cons t ts ih =>
    obtain ⟨terms, flags, events⟩ := ih (s.addOrReport t).1
    rw [addAll_cons, terms, flags, events, ← List.singleton_append, refusals_append,
      List.filter_append, List.map_append, ← List.append_assoc, ← List.append_assoc]
    obtain ⟨taken, f, -, h⟩ | ⟨refused, h⟩ := s.addOrReport_cases t
    · rw [h, terms_insert, consumed_insert, Array.toList_push, Array.toList_push,
        List.filter_cons_of_pos taken]
      exact ⟨rfl, rfl, rfl⟩
    · rw [h, List.filter_cons_of_neg (by simp [refused])]
      exact ⟨by simp, by simp, rfl⟩

lemma terms_addAll (s : Store) (ts : List Term) :
    (s.addAll ts).1.terms.toList = s.terms.toList ++ ts.filter Term.isAssertable :=
  (s.addAll_spec ts).1

lemma consumed_addAll (s : Store) (ts : List Term) :
    (s.addAll ts).1.consumed.toList =
      s.consumed.toList ++ (ts.filter Term.isAssertable).map fun _ => false :=
  (s.addAll_spec ts).2.1

lemma events_addAll (s : Store) (ts : List Term) : (s.addAll ts).2 = refusals ts :=
  (s.addAll_spec ts).2.2

lemma size_addAll (s : Store) (ts : List Term) :
    (s.addAll ts).1.size = s.size + (ts.filter Term.isAssertable).length := by
  rw [size, ← Array.length_toList, terms_addAll, List.length_append]
  rfl

lemma get?_addAll_add (s : Store) (ts : List Term) (k : Nat) :
    (s.addAll ts).1.get? (s.size + k) = (ts.filter Term.isAssertable)[k]? := by
  have size : s.size = s.terms.toList.length := Array.length_toList.symm
  rw [get?, ← Array.getElem?_toList, terms_addAll, size,
    List.getElem?_append_right (Nat.le_add_right ..), Nat.add_sub_cancel_left]

lemma get?_addAll_of_lt (h : id < s.size) : (s.addAll ts).1.get? id = s.get? id := by
  rw [get?, ← Array.getElem?_toList, terms_addAll, List.getElem?_append_left h,
    Array.getElem?_toList, get?]

lemma InStep.isLive_addAll (h : s.InStep) (ts : List Term) (id : ConstraintId) :
    (s.addAll ts).1.isLive id = true ↔
      s.isLive id = true ∨ s.size ≤ id ∧ id < (s.addAll ts).1.size := by
  have flags : s.size = s.consumed.toList.length := h.flags.symm.trans Array.length_toList.symm
  have dead {id : ConstraintId} (new : s.size ≤ id) : ¬s.isLive id = true :=
    fun live => absurd (h.lt_size_of_isLive live) (Nat.not_lt.mpr new)
  rw [isLive, ← Array.getElem?_toList, consumed_addAll, size_addAll]
  obtain old | ⟨k, rfl⟩ := (Nat.lt_or_ge id s.size).imp_right Nat.exists_eq_add_of_le
  · rw [List.getElem?_append_left (flags ▸ old), Array.getElem?_toList, ← isLive]
    simp [Nat.not_le.mpr old]
  · rw [or_iff_right (dead (Nat.le_add_right ..)), flags,
      List.getElem?_append_right (Nat.le_add_right ..), Nat.add_sub_cancel_left, List.getElem?_map]
    by_cases taken : k < (ts.filter Term.isAssertable).length <;> simp [taken]

lemma InStep.isLive_addAll_of_lt (h : s.InStep) (old : id < s.size) :
    (s.addAll ts).1.isLive id = s.isLive id := by
  rw [Bool.eq_iff_iff, h.isLive_addAll]
  simp [Nat.not_le.mpr old]

end Additions

section Superseding

lemma InStep.consume_insert (h : s.InStep) (old : id < s.size) (f : String) (t : Term) :
    (s.insert f t).consume id = (s.consume id).insert f t := by
  rw [← h.flags] at old
  obtain ⟨terms, consumed, byFunctor, byFirst, ordinary, builtin⟩ := s
  have same : (consumed.push false).setIfInBounds id true =
      (consumed.setIfInBounds id true).push false := by
    refine Array.ext_getElem? fun i => ?_
    rw [Array.getElem?_setIfInBounds, Array.getElem?_push, Array.getElem?_push,
      Array.getElem?_setIfInBounds, Array.size_push, Array.size_setIfInBounds]
    dsimp only at old
    grind
  simp only [Store.insert, Store.consume, same]

lemma consumeAll_cons (s : Store) (id : ConstraintId) (ids : List ConstraintId) :
    s.consumeAll (id :: ids) = (s.consume id).consumeAll ids := rfl

lemma size_consumeAll (s : Store) (ids : List ConstraintId) : (s.consumeAll ids).size = s.size := by
  induction ids generalizing s with
  | nil => rfl
  | cons id ids ih => rw [consumeAll_cons, ih, size_consume]

lemma terms_consumeAll (s : Store) (ids : List ConstraintId) :
    (s.consumeAll ids).terms = s.terms := by
  induction ids generalizing s with
  | nil => rfl
  | cons id ids ih => rw [consumeAll_cons, ih, terms_consume]

lemma get?_consumeAll (s : Store) (ids : List ConstraintId) (id : ConstraintId) :
    (s.consumeAll ids).get? id = s.get? id := by
  induction ids generalizing s with
  | nil => rfl
  | cons first ids ih => rw [consumeAll_cons, ih, get?_consume]

lemma InStep.consumeAll_insert (h : s.InStep) (old : ∀ id ∈ ids, id < s.size) (f : String)
    (t : Term) : (s.insert f t).consumeAll ids = (s.consumeAll ids).insert f t := by
  induction ids generalizing s with
  | nil => rfl
  | cons id ids ih =>
    obtain ⟨hid, hids⟩ := List.forall_mem_cons.mp old
    rw [consumeAll_cons, consumeAll_cons, h.consume_insert hid]
    exact ih (h.consume id) fun other hother => by rw [size_consume]; exact hids other hother

lemma InStep.addOrReport_consumeAll (h : s.InStep) (old : ∀ id ∈ ids, id < s.size) (t : Term) :
    (s.consumeAll ids).addOrReport t =
      ((s.addOrReport t).1.consumeAll ids, (s.addOrReport t).2) := by
  unfold addOrReport add
  cases t.functor? with
  | some f => simp [h.consumeAll_insert old]
  | none => simp

lemma supersede_cons (s : Store) (id : ConstraintId) (t : Term)
    (changes : List (ConstraintId × Term)) :
    s.supersede ((id, t) :: changes) =
      (((s.consume id).addOrReport t).1.supersede changes |>.1,
        ((s.consume id).addOrReport t).2 ++
          (((s.consume id).addOrReport t).1.supersede changes).2) := rfl

lemma InStep.supersede_eq (h : s.InStep) {changes : List (ConstraintId × Term)}
    (old : ∀ id ∈ changes.map Prod.fst, id < s.size) :
    s.supersede changes =
      (s.consumeAll (changes.map Prod.fst)).addAll (changes.map Prod.snd) := by
  induction changes generalizing s with
  | nil => rfl
  | cons change changes ih =>
    obtain ⟨id, t⟩ := change
    obtain ⟨-, old⟩ := List.forall_mem_cons.mp old
    have old : ∀ id' ∈ changes.map Prod.fst, id' < (s.consume id).size := by
      rwa [size_consume]
    have grown := fun id' hid' => (old id' hid').trans_le (size_le_addOrReport (s.consume id) t)
    have inStep := (reaches_addOrReport (s.consume id) t).inStep (h.consume id)
    rw [supersede_cons, ih inStep grown, List.map_cons, List.map_cons, consumeAll_cons, addAll_cons,
      (h.consume id).addOrReport_consumeAll old]

/-- The live constraints that effects change, with their new terms. Without replacements there are
none; with some, a constraint that differs from itself counts as changed. -/
def successions (s : Store) (e : Effects) : List (ConstraintId × Term) :=
  if e.replacements.isEmpty then [] else s.changedBy e

lemma InStep.mem_live_both (h : s.InStep) {c : ConstraintId × Term} :
    c ∈ s.live .ordinary ++ s.live .builtin ↔ s.get? c.1 = some c.2 ∧ s.isLive c.1 = true := by
  rw [List.mem_append, h.mem_live, h.mem_live]
  cases Partition.of c.2 <;> simp

lemma InStep.mem_successions (h : s.InStep) {e : Effects} {t' : Term} :
    (id, t') ∈ s.successions e ↔
      e.replacements ≠ [] ∧ s.isLive id = true ∧
        ∃ t, s.get? id = some t ∧ e.apply t = t' ∧ (t' == t) = false := by
  unfold successions
  split
  · next none => simp [List.isEmpty_iff.mp none]
  · next some =>
    rw [List.isEmpty_iff] at some
    simp only [changedBy, List.mem_filterMap, h.mem_live_both]
    constructor
    · rintro ⟨⟨other, t⟩, ⟨known, live⟩, heq⟩
      dsimp only at heq
      split at heq
      · cases heq
      · next differs =>
        cases heq
        exact ⟨some, live, t, known, rfl, Bool.eq_false_iff.mpr differs⟩
    · rintro ⟨-, live, t, known, rfl, differs⟩
      exact ⟨(id, t), ⟨known, live⟩, by simp [differs]⟩

/-- The first constraint comes before the second one when equalities are propagated: it is ordinary and
the second one is not, or they are of one partition and its number is less. -/
def Precedes (s : Store) (id other : ConstraintId) : Prop :=
  ∃ t u, s.get? id = some t ∧ s.get? other = some u ∧
    (Partition.of t = .ordinary ∧ Partition.of u = .builtin ∨
      Partition.of t = Partition.of u ∧ id < other)

lemma Precedes.ne {other : ConstraintId} (h : s.Precedes id other) : id ≠ other := by
  rintro rfl
  obtain ⟨t, u, known, same, ⟨ordinary, builtin⟩ | ⟨-, less⟩⟩ := h
  · obtain rfl : t = u := Option.some.inj (known.symm.trans same)
    rw [ordinary] at builtin
    cases builtin
  · exact Nat.lt_irrefl _ less

lemma InStep.pairwise_live_both (h : s.InStep) :
    (s.live .ordinary ++ s.live .builtin).Pairwise fun c d => s.Precedes c.1 d.1 := by
  have within (partition : Partition) :
      (s.live partition).Pairwise fun c d => s.Precedes c.1 d.1 := by
    refine List.Pairwise.imp_of_mem (fun {c d} hc hd less => ?_)
      (List.pairwise_map.mp (h.pairwise_live partition))
    obtain ⟨known, -, hc⟩ := h.mem_live.mp hc
    obtain ⟨known', -, hd⟩ := h.mem_live.mp hd
    exact ⟨c.2, d.2, known, known', .inr ⟨hc.trans hd.symm, less⟩⟩
  refine List.pairwise_append.mpr ⟨within .ordinary, within .builtin, fun c hc d hd => ?_⟩
  obtain ⟨known, -, hc⟩ := h.mem_live.mp hc
  obtain ⟨known', -, hd⟩ := h.mem_live.mp hd
  exact ⟨c.2, d.2, known, known', .inl ⟨hc, hd⟩⟩

lemma InStep.pairwise_successions (h : s.InStep) (e : Effects) :
    ((s.successions e).map Prod.fst).Pairwise s.Precedes := by
  unfold successions
  split
  · exact List.Pairwise.nil
  · refine List.pairwise_map.mpr
      (List.Pairwise.filterMap _ (fun c d before => ?_) h.pairwise_live_both)
    dsimp only
    grind

lemma InStep.nodup_successions (h : s.InStep) (e : Effects) :
    ((s.successions e).map Prod.fst).Nodup :=
  (h.pairwise_successions e).imp Precedes.ne

lemma InStep.isLive_successions (h : s.InStep) (e : Effects) :
    ∀ id ∈ (s.successions e).map Prod.fst, s.isLive id = true := by
  rw [List.forall_mem_map]
  exact fun change mem => (h.mem_successions.mp mem).2.1

/-- Effects are committed in three strokes: what is asserted is added, the constraints that change are
consumed, and their new terms and the equations are added. -/
theorem InStep.commit_eq (h : s.InStep) (e : Effects) :
    s.commit e =
      let (staged, asserting) := s.addAll e.asserted
      let changes := staged.successions e
      let (final, propagating) := (staged.consumeAll (changes.map Prod.fst)).addAll
        (changes.map Prod.snd ++ e.equations)
      (final, asserting ++ propagating) := by
  unfold commit
  have inStep := (s.reaches_addAll e.asserted).inStep h
  dsimp only
  generalize s.addAll e.asserted = added at inStep ⊢
  obtain ⟨staged, asserting⟩ := added
  have superseding := inStep.supersede_eq fun id hid =>
    inStep.lt_size_of_isLive (inStep.isLive_successions e id hid)
  rw [addAll_append, ← superseding]
  unfold successions at superseding ⊢
  split
  · next none =>
    rw [Effects.equations, List.isEmpty_iff.mp none]
    simp [addAll, supersede]
  · rw [List.append_assoc]
    rfl

end Superseding

section Counting

lemma liveCount_addAll (s : Store) (ts : List Term) :
    (s.addAll ts).1.liveCount = s.liveCount + (ts.filter Term.isAssertable).length := by
  rw [liveCount, ← Array.countP_toList, consumed_addAll, List.countP_append, List.countP_map,
    Array.countP_toList, liveCount]
  congr 1
  exact List.countP_eq_length.mpr fun _ _ => rfl

lemma liveCount_consume (h : s.isLive id = true) : (s.consume id).liveCount + 1 = s.liveCount := by
  have flag : s.consumed[id]? = some false := by
    rw [isLive] at h
    split at h <;> simp_all
  obtain ⟨known, flag⟩ := Array.getElem?_eq_some_iff.mp flag
  have counted : 0 < s.consumed.countP (!·) :=
    Array.countP_pos_iff.mpr ⟨false, Array.mem_of_getElem flag, rfl⟩
  rw [liveCount, liveCount, consumed_consume, Array.setIfInBounds, dif_pos known, Array.countP_set,
    flag]
  simp only [Bool.not_false, Bool.not_true, Bool.false_eq_true, if_true, if_false]
  omega

lemma liveCount_consumeAll (live : ∀ id ∈ ids, s.isLive id = true) (once : ids.Nodup) :
    (s.consumeAll ids).liveCount + ids.length = s.liveCount := by
  induction ids generalizing s with
  | nil => rfl
  | cons id ids ih =>
    obtain ⟨hid, hids⟩ := List.forall_mem_cons.mp live
    obtain ⟨new, once⟩ := List.nodup_cons.mp once
    have others : ∀ other ∈ ids, (s.consume id).isLive other = true := by
      intro other hother
      have differs : id ≠ other := fun same => new (same ▸ hother)
      rw [isLive_consume, hids other hother, bne_iff_ne.mpr differs]
      rfl
    rw [consumeAll_cons, List.length_cons, ← Nat.add_assoc, ih others once, liveCount_consume hid]

end Counting

/-- What propagating equalities makes of a store in which everything else has been asserted: the
constraints that the replacements change are superseded, the ordinary ones first and in the order of
their numbers, and the equations come behind. -/
structure Propagates (s : Store) (e : Effects) (s' : Store) : Prop where
  changed : ∀ id t', (id, t') ∈ s.successions e ↔
    e.replacements ≠ [] ∧ s.isLive id = true ∧
      ∃ t, s.get? id = some t ∧ e.apply t = t' ∧ (t' == t) = false
  ordered : ((s.successions e).map Prod.fst).Pairwise s.Precedes
  once : ((s.successions e).map Prod.fst).Nodup
  terms : s'.terms.toList = s.terms.toList ++
    (((s.successions e).map Prod.snd).filter Term.isAssertable ++ e.equations)
  live : ∀ id, s'.isLive id = true ↔
    s.isLive id = true ∧ id ∉ (s.successions e).map Prod.fst ∨ s.size ≤ id ∧ id < s'.size
  inStep : s'.InStep
  indexes : s.IndexesGrow s'
  count : s'.liveCount + ((s.successions e).filter fun c => !c.2.isAssertable).length =
    s.liveCount + e.replacements.length

lemma InStep.propagates (h : s.InStep) (e : Effects) :
    s.Propagates e
      ((s.consumeAll ((s.successions e).map Prod.fst)).addAll
        ((s.successions e).map Prod.snd ++ e.equations)).1 := by
  have consumes := s.reaches_consumeAll ((s.successions e).map Prod.fst)
  have adds := reaches_addAll (s.consumeAll ((s.successions e).map Prod.fst))
    ((s.successions e).map Prod.snd ++ e.equations)
  exact {
    changed id t' := h.mem_successions
    ordered := h.pairwise_successions e
    once := h.nodup_successions e
    terms := by
      rw [terms_addAll, terms_consumeAll, List.filter_append,
        List.filter_eq_self.mpr e.assertable_equations]
    live id := by
      rw [(consumes.inStep h).isLive_addAll, isLive_consumeAll, size_consumeAll]
      simp
    inStep := (consumes.trans adds).inStep h
    indexes := (consumes.trans adds).indexesGrow
    count := by
      have consumed := liveCount_consumeAll (h.isLive_successions e) (h.nodup_successions e)
      have parts : (((s.successions e).map Prod.snd).filter Term.isAssertable).length +
          ((s.successions e).filter fun c => !c.2.isAssertable).length =
            (s.successions e).length := by
        rw [List.filter_map, List.length_map]
        exact (List.length_eq_length_filter_add _).symm
      rw [liveCount_addAll, List.filter_append, List.length_append,
        List.filter_eq_self.mpr e.assertable_equations, Effects.equations, List.length_map]
      rw [List.length_map] at consumed
      omega }

lemma Propagates.size_eq {e : Effects} {s' : Store} (h : s.Propagates e s') :
    s'.size = s.size +
      (((s.successions e).map Prod.snd).filter Term.isAssertable ++ e.equations).length := by
  rw [size, ← Array.length_toList, h.terms, List.length_append]
  rfl

lemma Propagates.old {e : Effects} {s' : Store} (h : s.Propagates e s') (known : id < s.size) :
    s'.get? id = s.get? id ∧
      (s'.isLive id = true ↔ s.isLive id = true ∧ id ∉ (s.successions e).map Prod.fst) := by
  constructor
  · rw [get?, ← Array.getElem?_toList, h.terms, List.getElem?_append_left known,
      Array.getElem?_toList, get?]
  · rw [h.live, or_iff_left fun new => absurd known (Nat.not_lt.mpr new.1)]

lemma Propagates.kept_iff {e : Effects} {s' : Store} {t : Term} (h : s.Propagates e s')
    (live : s.isLive id = true) (stored : s.get? id = some t) :
    id ∉ (s.successions e).map Prod.fst ↔ (e.replacements ≠ [] → (e.apply t == t) = true) := by
  constructor
  · intro kept some
    by_contra differs
    have changed : (id, e.apply t) ∈ s.successions e :=
      (h.changed id (e.apply t)).mpr ⟨some, live, t, stored, rfl, by simpa using differs⟩
    exact kept (List.mem_map.mpr ⟨_, changed, rfl⟩)
  · intro same changed
    obtain ⟨⟨id, t'⟩, mem, rfl⟩ := List.mem_map.mp changed
    obtain ⟨some, -, u, known, rfl, differs⟩ := (h.changed id t').mp mem
    obtain rfl : t = u := Option.some.inj (stored.symm.trans known)
    rw [same some] at differs
    cases differs

end Store

lemma Effects.asserted_addEquation {known : Oracle} {e e' : Effects} {left right : Term}
    (h : e.addEquation known left right = some e') : e'.asserted = e.asserted := by
  unfold addEquation at h
  dsimp only at h
  split at h
  · split at h
    · cases h
      rfl
    · cases h
  · split at h <;> (cases h; rfl)

namespace Progress
variable {known : Oracle} {rule : Rule} {scope : Nat} {p p' : Progress} {events : List Event}

lemma effects_assign {left right : Term}
    (h : p.assign known rule scope left right = some (p', events)) : p'.effects = p.effects := by
  unfold assign at h
  split at h
  · cases h
    rfl
  · split at h <;> cases h <;> rfl

/-- The term is the value of a literal, and the store takes it. -/
def IsStaged (known : Oracle) (t : Term) : Prop :=
  t.isAssertable = true ∧ ∃ literal, evaluate known literal .empty = t

lemma staged_assert {literal : Term} (before : ∀ t ∈ p.effects.asserted, IsStaged known t)
    (h : p.assert known rule literal = some (p', events)) :
    ∀ t ∈ p'.effects.asserted, IsStaged known t := by
  have collect : ∀ t, IsStaged known t → ∀ u ∈ p.effects.asserted ++ [t], IsStaged known u :=
    fun t ht => List.forall_mem_append.mpr ⟨before, List.forall_mem_singleton.mpr ht⟩
  unfold assert at h
  split at h
  · cases h
    exact before
  · cases h
  · next value =>
    cases h
    exact collect _ ⟨rfl, literal, value⟩
  · next value =>
    cases h
    exact collect _ ⟨rfl, literal, value⟩
  · cases h
    exact before

lemma staged_perform {literal : Term} (before : ∀ t ∈ p.effects.asserted, IsStaged known t)
    (h : p.perform known rule scope literal = some (p', events)) :
    ∀ t ∈ p'.effects.asserted, IsStaged known t := by
  unfold perform at h
  dsimp only at h
  split at h
  · rwa [effects_assign h]
  · split at h
    · split at h
      · obtain ⟨effects, hadd, h⟩ := Option.map_eq_some_iff.mp h
        cases h
        rwa [Effects.asserted_addEquation hadd]
      · cases h
    · exact staged_assert before h

lemma staged_performAll {body : List Term} {e : Effects}
    (before : ∀ t ∈ p.effects.asserted, IsStaged known t)
    (h : performAll known rule scope body p = (some e, events)) :
    ∀ t ∈ e.asserted, IsStaged known t := by
  induction body generalizing p events with
  | nil =>
    cases h
    exact before
  | cons literal rest ih =>
    rw [performAll] at h
    split at h
    · cases h
    · next p' new hperform =>
      obtain ⟨hrest, -⟩ := Prod.mk.inj h
      exact ih (staged_perform before hperform) (Prod.ext hrest rfl)

end Progress

namespace Rule
variable {r : Rule} {m : Match} {scope : Nat} {s : Store} {e : Effects} {events : List Event}

def consumed (r : Rule) (m : Match) (s : Store) : Store :=
  s.consumeAll (m.constraints.take r.deleteHeads.length)

/-- What the body collects when the rule fires, if no literal is false, and the events on the way. -/
def performs (r : Rule) (m : Match) (scope : Nat) (s : Store) : Option Effects × List Event :=
  Progress.performAll (r.consumed m s).holds r scope r.body ⟨m.env, .none⟩

lemma fire_of_performs (h : r.performs m scope s = (some e, events)) :
    r.fire m scope s = (((r.consumed m s).commit e).1, events ++ ((r.consumed m s).commit e).2) := by
  rw [performs] at h
  rw [fire]
  dsimp only
  rw [← consumed, h]

lemma fire_of_fails (h : r.performs m scope s = (none, events)) :
    r.fire m scope s = (r.consumed m s, events ++ [.bodyFailed r]) := by
  rw [performs] at h
  rw [fire]
  dsimp only
  rw [← consumed, h]

lemma staged_performs (h : r.performs m scope s = (some e, events)) :
    ∀ t ∈ e.asserted, Progress.IsStaged (r.consumed m s).holds t :=
  Progress.staged_performAll (List.forall_mem_nil _) h

lemma inStep_staged (inStep : s.InStep) (e : Effects) :
    ((r.consumed m s).addAll e.asserted).1.InStep :=
  (Store.reaches_addAll _ e.asserted).inStep ((s.reaches_consumeAll _).inStep inStep)

lemma propagates_fire (inStep : s.InStep) (performed : r.performs m scope s = (some e, events)) :
    ((r.consumed m s).addAll e.asserted).1.Propagates e (r.fire m scope s).1 := by
  have consumed : (r.consumed m s).InStep := (s.reaches_consumeAll _).inStep inStep
  rw [fire_of_performs performed, consumed.commit_eq]
  exact (inStep_staged inStep e).propagates e

/-- Equality propagation loses a constraint exactly when its new term is neither an atom nor a compound
term: every live constraint that the replacements change is consumed, once, and the new terms that the
store takes are added in the order of the constraints, the ordinary ones first, behind what the body has
asserted and before the equations. What the store does not take is reported. -/
theorem fire_propagates (inStep : s.InStep) (performed : r.performs m scope s = (some e, events)) :
    let staged := ((r.consumed m s).addAll e.asserted).1
    staged.Propagates e (r.fire m scope s).1 ∧
      (r.fire m scope s).2 = events ++ refusals ((staged.successions e).map Prod.snd) := by
  refine ⟨propagates_fire inStep performed, ?_⟩
  have consumed : (r.consumed m s).InStep := (s.reaches_consumeAll _).inStep inStep
  rw [fire_of_performs performed, consumed.commit_eq]
  dsimp only
  rw [Store.events_addAll, Store.events_addAll, refusals_append,
    refusals_of_assertable fun t ht => (staged_performs performed t ht).1,
    refusals_of_assertable e.assertable_equations, List.append_nil, List.nil_append]

def onGo (body : List Term) : Rule where
  name := "clash"
  keepHeads := []
  deleteHeads := [.atom "go"]
  guards := []
  body := body

end Rule

def equating : Rule where
  name := "equate"
  keepHeads := []
  deleteHeads := [.atom "go"]
  guards := []
  body := [.equation (.atom "p") (.str "s")]

def aboutToEquate : Session :=
  ((Journal.begin (RuleBase.ofRules [equating]).1).obeyAll [.goals [.atom "p", .atom "go"]]).session

theorem fire_propagates_equating :
    let e : Effects := ⟨[], [⟨.atom "p", .str "s"⟩]⟩
    let s := aboutToEquate.store
    let staged := ((equating.consumed ⟨[1], .empty⟩ s).addAll []).1
    staged.Propagates e (equating.fire ⟨[1], .empty⟩ 2 s).1 ∧
      (equating.fire ⟨[1], .empty⟩ 2 s).2 = [] ++ refusals ((staged.successions e).map Prod.snd) := by
  intro e s staged
  have performed : equating.performs ⟨[1], .empty⟩ 2 s = (some e, []) := by rfl
  have inStep : s.InStep := (isInvariant_inStep _).obeyAll fun _ _ => trivial
  exact Rule.fire_propagates inStep performed

/-- The constraint that is equated with a string is consumed, and nothing comes in its stead. -/
theorem equating_loses :
    let s := aboutToEquate
    let e : Effects := ⟨[], [⟨.atom "p", .str "s"⟩]⟩
    let staged := ((equating.consumed ⟨[1], .empty⟩ s.store).addAll []).1
    let final := s.step.session.store
    (equating.nextMatch 0 s.store s.memo).1 = some ⟨[1], .empty⟩ ∧
      equating.performs ⟨[1], .empty⟩ (s.lastScope + 1) s.store = (some e, []) ∧
      (staged.isLive 0 = true ∧ staged.get? 0 = some (.atom "p") ∧
        (e.apply (.atom "p") == .atom "p") = false ∧ final.isLive 0 = false) ∧
      (final.liveTerms .ordinary ++ final.liveTerms .builtin).contains (e.apply (.atom "p")) = false ∧
      final.liveCount ≠ staged.liveCount + e.replacements.length := by
  refine ⟨rfl, rfl, ⟨?_, rfl, ?_, ?_⟩, ?_, ?_⟩ <;> decide +kernel

end ConstraintHandling
