import ConstraintHandling.Firing
import ConstraintHandling.Proofs.Store.Growth

/-! What firing does to the store. All of it is done by adding and consuming constraints, and the
constraints of the heads to delete are gone afterwards. -/
namespace ConstraintHandling
namespace Store

lemma reaches_addOrReport (s : Store) (t : Term) : s.Reaches (s.addOrReport t).1 := by
  unfold addOrReport
  cases h : s.add t with
  | ok added => exact reaches_add h
  | error refusal => exact .refl s

lemma reaches_addAll (s : Store) (ts : List Term) : s.Reaches (s.addAll ts).1 := by
  induction ts generalizing s with
  | nil => exact .refl s
  | cons t ts ih => exact (reaches_addOrReport s t).trans (ih _)

lemma reaches_supersede (s : Store) (changes : List (ConstraintId × Term)) :
    s.Reaches (s.supersede changes).1 := by
  induction changes generalizing s with
  | nil => exact .refl s
  | cons change changes ih =>
    have consumed := s.reaches_consume change.1
    exact (consumed.trans (reaches_addOrReport _ change.2)).trans (ih _)

lemma reaches_consumeAll (s : Store) (ids : List ConstraintId) : s.Reaches (s.consumeAll ids) := by
  induction ids generalizing s with
  | nil => exact .refl s
  | cons id ids ih => exact (s.reaches_consume id).trans (ih _)

lemma isLive_consumeAll (s : Store) (ids : List ConstraintId) (c : ConstraintId) :
    (s.consumeAll ids).isLive c = (s.isLive c && !ids.contains c) := by
  induction ids generalizing s with
  | nil => simp [consumeAll]
  | cons id ids ih =>
    have step : s.consumeAll (id :: ids) = (s.consume id).consumeAll ids := rfl
    have swap : (id != c) = !(c == id) := by rw [Bool.beq_comm]; rfl
    rw [step, ih, isLive_consume, List.contains_cons, Bool.not_or, Bool.and_assoc, swap]

lemma reaches_commit (s : Store) (e : Effects) : s.Reaches (s.commit e).1 := by
  unfold commit
  have asserted := reaches_addAll s e.asserted
  dsimp only
  split
  · exact asserted
  · exact (asserted.trans (reaches_supersede _ _)).trans (reaches_addAll _ _)

end Store

namespace Rule

lemma reaches_fire_of_consumeAll (r : Rule) (m : Match) (scope : Nat) (s : Store) :
    (s.consumeAll (m.constraints.take r.deleteHeads.length)).Reaches (r.fire m scope s).1 := by
  unfold fire
  dsimp only
  split
  · exact Store.reaches_commit _ _
  · exact .refl _

theorem reaches_fire (r : Rule) (m : Match) (scope : Nat) (s : Store) :
    s.Reaches (r.fire m scope s).1 :=
  (s.reaches_consumeAll _).trans (r.reaches_fire_of_consumeAll m scope s)

theorem isLive_fire {r : Rule} {m : Match} {scope : Nat} {s : Store} (h : s.Indexed)
    {c : ConstraintId} (hc : c ∈ m.constraints.take r.deleteHeads.length) (known : c < s.size) :
    (r.fire m scope s).1.isLive c = false := by
  have consumed := s.reaches_consumeAll (m.constraints.take r.deleteHeads.length)
  have later := (r.reaches_fire_of_consumeAll m scope s).extends (consumed.indexed h)
  by_contra alive
  have alive := later.live c (known.trans_le (consumed.extends h).size_le) (by simpa using alive)
  rw [Store.isLive_consumeAll, List.contains_iff_mem.mpr hc] at alive
  simp at alive

end Rule
end ConstraintHandling
