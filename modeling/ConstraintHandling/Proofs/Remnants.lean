import ConstraintHandling.Proofs.Propagation
import ConstraintHandling.Proofs.Term.Replacement

/-! What is left of replaced terms. The replacements of a firing are made in every constraint once, in
their order. So a term that has been replaced can be there again: what is put in may contain it, or it
may arise around what is put in. In no other way does it stay in the store. -/
namespace ConstraintHandling

namespace Effects
variable {e : Effects} {r : Replacement} {t : Term} {i : Nat}

def applyFirst (e : Effects) (n : Nat) (t : Term) : Term :=
  (e.replacements.take n).foldl (fun t r => Term.replace r.old r.new t) t

/-- A replacement from place `i` on is made in the term, and what it puts in contains the old term or is
a part of it. -/
def BringsBack (e : Effects) (t : Term) (i : Nat) (old : Term) : Prop :=
  ∃ j r, i ≤ j ∧ e.replacements[j]? = some r ∧ (e.applyFirst j t).Contains r.old ∧
    (r.new.Contains old ∨ old.Contains r.new)

lemma apply_eq_applyFirst (e : Effects) (t : Term) :
    e.apply t = e.applyFirst e.replacements.length t := by
  rw [applyFirst, List.take_length, apply]

lemma applyFirst_succ {n : Nat} (h : e.replacements[n]? = some r) (t : Term) :
    e.applyFirst (n + 1) t = Term.replace r.old r.new (e.applyFirst n t) := by
  rw [applyFirst, List.take_add_one, h, List.foldl_append]
  rfl

lemma bringsBack_of_applyFirst (place : e.replacements[i]? = some r) {n : Nat} (behind : i < n)
    (within : n ≤ e.replacements.length) (h : (e.applyFirst n t).Contains r.old) :
    e.BringsBack t i r.old := by
  induction n with
  | zero => cases behind
  | succ n ih =>
    obtain ⟨last, hlast⟩ : ∃ last, e.replacements[n]? = some last :=
      ⟨_, List.getElem?_eq_getElem within⟩
    rw [applyFirst_succ hlast] at h
    obtain ⟨kept, free⟩ | ⟨made, overlap⟩ := Term.contains_of_replace h
    · obtain before | rfl := Nat.lt_succ_iff_lt_or_eq.mp behind
      · exact ih before (Nat.le_of_succ_le within) kept
      · obtain rfl : r = last := Option.some.inj (place.symm.trans hlast)
        exact absurd (Term.contains_iff.mpr (.inl kept.beq_self)) free
    · exact ⟨n, last, Nat.le_of_lt_succ behind, hlast, made, overlap⟩

theorem bringsBack_of_contains (place : e.replacements[i]? = some r)
    (h : (e.apply t).Contains r.old) : e.BringsBack t i r.old := by
  rw [apply_eq_applyFirst] at h
  exact bringsBack_of_applyFirst place (List.getElem?_eq_some_iff.mp place).1 le_rfl h

end Effects

namespace Store
variable {s s' : Store} {e : Effects} {id : ConstraintId} {t : Term}

/-- The new terms of the constraints that are superseded, as far as the store takes them. -/
def reasserted (s : Store) (e : Effects) : List Term :=
  ((s.successions e).map Prod.snd).filter Term.isAssertable

lemma Propagates.get?_add (h : s.Propagates e s') (k : Nat) :
    s'.get? (s.size + k) = (s.reasserted e ++ e.equations)[k]? := by
  have size : s.size = s.terms.toList.length := Array.length_toList.symm
  rw [get?, ← Array.getElem?_toList, h.terms, size, List.getElem?_append_right (Nat.le_add_right ..),
    Nat.add_sub_cancel_left]
  rfl

/-- The second constraint stands for the first one when equalities have been propagated: it is the same
and is not changed by the replacements, or it is new and what they make of the other. -/
def Becomes (s : Store) (e : Effects) (old new : ConstraintId × Term) : Prop :=
  s.isLive old.1 = true ∧ s.get? old.1 = some old.2 ∧
    (new = old ∧ (e.replacements ≠ [] → (e.apply old.2 == old.2) = true) ∨
      s.size ≤ new.1 ∧ new.2 = e.apply old.2)

lemma Propagates.get?_equation (h : s.Propagates e s') (k : Nat) :
    s'.get? (s.size + (s.reasserted e).length + k) = e.equations[k]? := by
  rw [Nat.add_assoc, h.get?_add, List.getElem?_append_right (Nat.le_add_right ..),
    Nat.add_sub_cancel_left]

lemma Propagates.exists_becomes (h : s.Propagates e s')
    (other : id < s.size + (s.reasserted e).length) (live : s'.isLive id = true)
    (stored : s'.get? id = some t) : ∃ old, s.Becomes e old (id, t) := by
  obtain old | ⟨k, rfl⟩ := (Nat.lt_or_ge id s.size).imp_right Nat.exists_eq_add_of_le
  · obtain ⟨same, kept⟩ := h.old old
    obtain ⟨live, kept⟩ := kept.mp live
    rw [same] at stored
    exact ⟨(id, t), live, stored, .inl ⟨rfl, (h.kept_iff live stored).mp kept⟩⟩
  · rw [h.get?_add, List.getElem?_append_left (Nat.add_lt_add_iff_left.mp other)] at stored
    obtain ⟨mem, -⟩ := List.mem_filter.mp (List.mem_of_getElem? stored)
    obtain ⟨⟨old, t⟩, change, rfl⟩ := List.mem_map.mp mem
    obtain ⟨-, live, u, known, made, -⟩ := (h.changed old t).mp change
    exact ⟨(old, u), live, known, .inr ⟨Nat.le_add_right .., made.symm⟩⟩

end Store

/-- A term that was to be replaced is contained in a live constraint behind the firing, the equations apart,
only if a replacement has brought it back there. In particular it has disappeared when no replacement
from its own on puts in a term that contains it or is a part of it. -/
theorem Rule.fire_remnants {r : Rule} {m : Match} {scope : Nat} {s : Store} {e : Effects}
    {events : List Event} (inStep : s.InStep) (performed : r.performs m scope s = (some e, events)) :
    let staged := ((r.consumed m s).addAll e.asserted).1
    let final := (r.fire m scope s).1
    ∃ first, (∀ k, final.get? (first + k) = e.equations[k]?) ∧
      ∀ id < first, ∀ t, final.isLive id = true → final.get? id = some t →
        ∃ old, staged.Becomes e old (id, t) ∧
          ∀ i replaced, e.replacements[i]? = some replaced → t.Contains replaced.old →
            e.BringsBack old.2 i replaced.old := by
  intro staged final
  have propagates := propagates_fire inStep performed
  refine ⟨_, propagates.get?_equation, fun id other t live stored => ?_⟩
  obtain ⟨old, become⟩ := propagates.exists_becomes other live stored
  refine ⟨old, become, fun i replaced place inside => ?_⟩
  obtain ⟨-, -, ⟨rfl, same⟩ | ⟨-, rfl⟩⟩ := become
  · have some : e.replacements ≠ [] := List.ne_nil_of_mem (List.mem_of_getElem? place)
    exact Effects.bringsBack_of_contains place (inside.of_beq (Term.beq_symm (same some)))
  · exact Effects.bringsBack_of_contains place inside

/-- A rule with a replacement that builds up what the one before it has taken away. -/
def relaying : Rule :=
  .onGo [.equation (.ordinary "f" [.atom "b"]) (.ordinary "g" [.atom "c", .atom "d"]),
    .equation (.atom "a") (.atom "b")]

def relayed : Effects :=
  ⟨[], [⟨.ordinary "f" [.atom "b"], .ordinary "g" [.atom "c", .atom "d"]⟩, ⟨.atom "a", .atom "b"⟩]⟩

theorem fire_remnants_relay :
    let s := (Session.posed [relaying] [.ordinary "p" [.ordinary "f" [.atom "a"]], .atom "go"]).store
    let staged := ((relaying.consumed ⟨[1], .empty⟩ s).addAll []).1
    let final := (relaying.fire ⟨[1], .empty⟩ 2 s).1
    relaying.performs ⟨[1], .empty⟩ 2 s = (some relayed, []) ∧
      ∃ first, (∀ k, final.get? (first + k) = relayed.equations[k]?) ∧
        ∀ id < first, ∀ t, final.isLive id = true → final.get? id = some t →
          ∃ old, staged.Becomes relayed old (id, t) ∧
            ∀ i replaced, relayed.replacements[i]? = some replaced → t.Contains replaced.old →
              relayed.BringsBack old.2 i replaced.old := by
  intro s staged final
  have performed : relaying.performs ⟨[1], .empty⟩ 2 s = (some relayed, []) := by rfl
  have inStep : s.InStep := (isInvariant_inStep _).obeyAll fun _ _ => trivial
  exact ⟨performed, Rule.fire_remnants inStep performed⟩

/-- Replaced terms that are contained in a live constraint behind the firing, which is no equation: one
that has arisen around what a later replacement puts in, and one inside what took its place. -/
theorem replaced_term_returns :
    (let s := Session.posed [relaying] [.ordinary "p" [.ordinary "f" [.atom "a"]], .atom "go"]
      let final := s.step.session.store
      (relaying.nextMatch 0 s.store s.memo).1 = some ⟨[1], .empty⟩ ∧
        relaying.performs ⟨[1], .empty⟩ (s.lastScope + 1) s.store = (some relayed, []) ∧
        final.isLive 2 = true ∧ final.get? 2 = some (.ordinary "p" [.ordinary "f" [.atom "b"]]) ∧
        Term.Contains (.ordinary "p" [.ordinary "f" [.atom "b"]]) (.ordinary "f" [.atom "b"]) ∧
        [final.get? 3, final.get? 4] = relayed.equations.map some ∧ final.size = 5) ∧
    (let r := Rule.onGo [.equation (.atom "a") (.ordinary "f" [.atom "a"])]
      let s := Session.posed [r] [.ordinary "p" [.atom "a"], .atom "go"]
      let e : Effects := ⟨[], [⟨.atom "a", .ordinary "f" [.atom "a"]⟩]⟩
      let final := s.step.session.store
      (r.nextMatch 0 s.store s.memo).1 = some ⟨[1], .empty⟩ ∧
        r.performs ⟨[1], .empty⟩ (s.lastScope + 1) s.store = (some e, []) ∧
        final.isLive 2 = true ∧ final.get? 2 = some (.ordinary "p" [.ordinary "f" [.atom "a"]]) ∧
        Term.Contains (.ordinary "p" [.ordinary "f" [.atom "a"]]) (.atom "a") ∧
        [final.get? 3] = e.equations.map some ∧ final.size = 4) := by
  refine ⟨⟨rfl, rfl, ?_, rfl, ?_, rfl, ?_⟩, ⟨rfl, rfl, ?_, rfl, ?_, rfl, ?_⟩⟩ <;> decide +kernel

end ConstraintHandling
