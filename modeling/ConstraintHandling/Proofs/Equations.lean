import ConstraintHandling.Proofs.EarlyEvaluation
import ConstraintHandling.Proofs.Propagation

/-! Equations between terms without parts. Every one of them either joins two classes of terms, or
it is there already, or it is refused, since the two classes stand for different values. The
replacements, made one after the other, lead from a term to the representative of its class. -/
namespace ConstraintHandling

namespace Term
variable {s t : Term}

lemma FloatFree.of_isPlain (h : t.isPlain = true) : t.FloatFree := by
  cases t with
  | float | compound | list => cases h
  | var v => exact floatFree_var v
  | _ => exact floatFree_of_isConstant rfl rfl

lemma beq_iff_of_isPlain (h : s.isPlain = true) : (s == t) = true ↔ s = t := by
  constructor
  · exact (FloatFree.of_isPlain h).eq_of_beq
  · rintro rfl
    exact (FloatFree.of_isPlain h).beq_self

lemma replace_of_isPlain (old new : Term) (h : t.isPlain = true) :
    replace old new t = if t == old then new else t := by
  cases t with
  | compound | list => cases h
  | _ => simp [replace]

lemma rank_le_of_compareStandard (hs : s.isPlain = true) (ht : t.isPlain = true) :
    if s.compareStandard t = .gt then t.rank ≤ s.rank else s.rank ≤ t.rank := by
  cases s with
  | float | compound | list => cases hs
  | _ =>
    cases t with
    | float | compound | list => cases ht
    | _ => simp [compareStandard, rank, number?] <;> decide

lemma atom_of_later (value : s.isValue = true) (ht : t.isPlain = true) (other : ¬t.isValue = true)
    (later : s.rank ≤ t.rank) : ∃ a, t = .atom a ∧ s.rank < (atom a).rank := by
  cases t with
  | atom a =>
    refine ⟨a, rfl, lt_of_le_of_ne later fun same => ?_⟩
    cases s <;> simp_all [isValue, rank]
  | var v => cases s <;> simp_all [isValue, rank]
  | compound | list | float => cases ht
  | _ => exact absurd rfl other

lemma isGround_of_isValue (h : t.isValue = true) : t.isGround = true := by
  cases t with
  | atom | compound | list | var => cases h
  | _ => rfl

lemma reduce_of_isValue (known : Oracle) (h : t.isValue = true) : t.reduce known = t := by
  cases t with
  | atom | compound | list | var => cases h
  | _ => exact reduce_of_isConstant rfl

end Term

lemma settledEqual?_of_isValue {s t : Term} (hs : s.isPlain = true) (ht : t.isPlain = true)
    (vs : s.isValue = true) (vt : t.isValue = true) (differ : s ≠ t) :
    settledEqual? s t = some false := by
  have unequal : (s == t) = false := by
    rw [Bool.eq_false_iff, ne_eq, Term.beq_iff_of_isPlain hs]
    exact differ
  unfold settledEqual?
  split
  · cases s with
    | int i =>
      cases t with
      | int j =>
        have : i.toInt ≠ j.toInt := fun same => differ (congrArg Term.int (Int64.toInt_inj.mp same))
        simpa [Comparison.order?] using this
      | float => cases ht
      | _ => simp_all [Term.isNumber]
    | float => cases hs
    | _ => simp_all [Term.isNumber]
  · rw [unequal, Term.isGround_of_isValue vs, Term.isGround_of_isValue vt]
    rfl

lemma isTrue_equation {known : Oracle} {s t : Term} (hs : s.isPlain = true) (ht : t.isPlain = true)
    (vs : s.isValue = true) (vt : t.isValue = true) :
    isTrue known (.equation s t) .empty = true ↔ s = t := by
  have value : evaluate known (.equation s t) .empty =
      ((settledEqual? s t).map Term.bool).getD (.equation s t) := by
    rw [evaluate, Environment.substitute_empty, Term.equation, Term.relation, Term.reduce,
      Term.reduceAll_eq, List.map_cons, List.map_singleton, Term.reduce_of_isValue known vs,
      Term.reduce_of_isValue known vt]
    rfl
  rw [isTrue, value]
  constructor
  · intro holds
    by_contra differ
    rw [settledEqual?_of_isValue hs ht vs vt differ] at holds
    cases holds
  · rintro rfl
    rw [Evaluation.settledEqual?_self (.of_isPlain hs)]
    rfl

namespace Effects
variable {known : Oracle} {e e' : Effects} {left right s t : Term}

/-- What an equation between terms without parts does: it is there already, it is refused, or it
adds a replacement of one side by the other one, which does not come before it in the order of
shapes. -/
inductive Adds (e : Effects) (s t : Term) : Option Effects → Prop
  | present (same : s = t) : Adds e s t (some e)
  | refused (differ : s ≠ t) (left : s.isValue = true) (right : t.isValue = true) : Adds e s t .none
  | joined {old new : Term} (sides : s = old ∧ t = new ∨ t = old ∧ s = new) (differ : old ≠ new)
      (free : ¬(old.isValue = true ∧ new.isValue = true)) (later : old.rank ≤ new.rank) :
      Adds e s t (some ⟨e.asserted, e.replacements ++ [⟨old, new⟩]⟩)

lemma adds_addEquation (hs : (e.apply (evaluate known left .empty)).isPlain = true)
    (ht : (e.apply (evaluate known right .empty)).isPlain = true) :
    e.Adds (e.apply (evaluate known left .empty)) (e.apply (evaluate known right .empty))
      (e.addEquation known left right) := by
  unfold addEquation
  generalize e.apply (evaluate known left .empty) = s at hs ⊢
  generalize e.apply (evaluate known right .empty) = t at ht ⊢
  dsimp only
  split
  · next values =>
    rw [Bool.and_eq_true] at values
    split
    · next holds => exact .present ((isTrue_equation hs ht values.1 values.2).mp holds)
    · next fails =>
      exact .refused (fun same => fails ((isTrue_equation hs ht values.1 values.2).mpr same))
        values.1 values.2
  · next free =>
    rw [Bool.and_eq_true] at free
    split
    · next same => exact .present ((Term.beq_iff_of_isPlain hs).mp same)
    · next differ =>
      rw [Term.beq_iff_of_isPlain hs] at differ
      have ranks := Term.rank_le_of_compareStandard hs ht
      unfold orient
      split at ranks
      · next greater =>
        rw [if_pos greater]
        exact .joined (.inr ⟨rfl, rfl⟩) (Ne.symm differ) (fun h => free h.symm) ranks
      · next other =>
        rw [if_neg other]
        exact .joined (.inl ⟨rfl, rfl⟩) differ free ranks

lemma apply_of_isEmpty (h : e.replacements = []) (t : Term) : e.apply t = t := by
  rw [apply, h]
  rfl

lemma apply_joined (e : Effects) (old new t : Term) :
    apply ⟨e.asserted, e.replacements ++ [⟨old, new⟩]⟩ t = Term.replace old new (e.apply t) := by
  rw [apply, List.foldl_append]
  rfl

open Relation in
/-- The value is not the last member of its class: the class holds an atom, which comes later in the
order of shapes. -/
def IsHidden (R : Term → Term → Prop) (v : Term) : Prop :=
  ∃ a, EqvGen R v (.atom a) ∧ v.rank < (Term.atom a).rank

lemma IsHidden.mono {R R' : Term → Term → Prop} {v : Term} (h : IsHidden R v) (sub : R ≤ R') :
    IsHidden R' v := by
  obtain ⟨a, joined, earlier⟩ := h
  exact ⟨a, Relation.EqvGen.mono sub _ _ joined, earlier⟩

open Relation in
/-- The replacements lead from every term without parts to the representative of its class, which is
no earlier in the order of shapes; and a value that is not hidden represents its class. -/
structure Represents (e : Effects) (R : Term → Term → Prop) : Prop where
  plain {t : Term} (ht : t.isPlain = true) : (e.apply t).isPlain = true
  again {t : Term} (ht : t.isPlain = true) : e.apply (e.apply t) = e.apply t
  reach {t : Term} (ht : t.isPlain = true) : EqvGen R t (e.apply t)
  same {s t : Term} (h : EqvGen R s t) : e.apply s = e.apply t
  later {t : Term} (ht : t.isPlain = true) : t.rank ≤ (e.apply t).rank
  kept {v : Term} (hv : v.isPlain = true) (value : v.isValue = true) :
    e.apply v = v ∨ IsHidden R v

namespace Represents
open Relation
variable {R : Term → Term → Prop}

lemma same_iff (h : e.Represents R) (hs : s.isPlain = true) (ht : t.isPlain = true) :
    e.apply s = e.apply t ↔ EqvGen R s t := by
  refine ⟨fun same => ?_, h.same⟩
  have back : EqvGen R (e.apply t) t := (h.reach ht).symm
  exact (h.reach hs).trans _ _ _ (same ▸ back)

lemma of_isEmpty (h : e.replacements = []) (none : ∀ s t, ¬R s t) : e.Represents R where
  plain ht := by rwa [apply_of_isEmpty h]
  again _ := by rw [apply_of_isEmpty h, apply_of_isEmpty h]
  reach _ := by
    rw [apply_of_isEmpty h]
    exact .refl _
  same joined := by
    induction joined with
    | rel s t related => exact absurd related (none s t)
    | refl => rfl
    | symm _ _ _ ih => exact ih.symm
    | trans _ _ _ _ _ ih ih' => exact ih.trans ih'
  later _ := by rw [apply_of_isEmpty h]
  kept _ _ := .inl (apply_of_isEmpty h _)

lemma present (h : e.Represents R) (same : e.apply s = e.apply t) :
    e.Represents fun u w => R u w ∨ u = s ∧ w = t where
  plain := h.plain
  again := h.again
  reach hu := EqvGen.mono (fun _ _ => .inl) _ _ (h.reach hu)
  same joined := by
    induction joined with
    | rel u w related =>
      obtain old | ⟨rfl, rfl⟩ := related
      · exact h.same (.rel _ _ old)
      · exact same
    | refl => rfl
    | symm _ _ _ ih => exact ih.symm
    | trans _ _ _ _ _ ih ih' => exact ih.trans ih'
  later := h.later
  kept hv value := (h.kept hv value).imp_right fun hidden => hidden.mono fun _ _ => .inl

lemma apply_moved (h : e.Represents R) {old u : Term} (new : Term) (hu : u.isPlain = true)
    (here : e.apply u = old) : apply ⟨e.asserted, e.replacements ++ [⟨old, new⟩]⟩ u = new := by
  rw [apply_joined, Term.replace_of_isPlain _ _ (h.plain hu),
    if_pos ((Term.beq_iff_of_isPlain (h.plain hu)).mpr here)]

lemma apply_unmoved (h : e.Represents R) {old u : Term} (new : Term) (hu : u.isPlain = true)
    (elsewhere : e.apply u ≠ old) :
    apply ⟨e.asserted, e.replacements ++ [⟨old, new⟩]⟩ u = e.apply u := by
  rw [apply_joined, Term.replace_of_isPlain _ _ (h.plain hu),
    if_neg (mt (Term.beq_iff_of_isPlain (h.plain hu)).mp elsewhere)]

lemma apply_cases (h : e.Represents R) (old new : Term) {u : Term} (hu : u.isPlain = true) :
    e.apply u = old ∧ apply ⟨e.asserted, e.replacements ++ [⟨old, new⟩]⟩ u = new ∨
      e.apply u ≠ old ∧ apply ⟨e.asserted, e.replacements ++ [⟨old, new⟩]⟩ u = e.apply u := by
  by_cases here : e.apply u = old
  · exact .inl ⟨here, h.apply_moved new hu here⟩
  · exact .inr ⟨here, h.apply_unmoved new hu here⟩

section Joined
variable {old new : Term}

lemma link_of_sides (h : e.Represents R) (hs : s.isPlain = true) (ht : t.isPlain = true)
    (sides : e.apply s = old ∧ e.apply t = new ∨ e.apply t = old ∧ e.apply s = new) :
    EqvGen (fun u w => R u w ∨ u = s ∧ w = t) old new := by
  have older {u w : Term} (joined : EqvGen R u w) : EqvGen (fun u w => R u w ∨ u = s ∧ w = t) u w :=
    EqvGen.mono (fun _ _ => .inl) _ _ joined
  have between : EqvGen (fun u w => R u w ∨ u = s ∧ w = t) (e.apply s) (e.apply t) :=
    (older (h.reach hs)).symm.trans _ _ _
      (.trans _ _ _ (.rel _ _ (.inr ⟨rfl, rfl⟩)) (older (h.reach ht)))
  obtain ⟨rfl, rfl⟩ | ⟨rfl, rfl⟩ := sides
  · exact between
  · exact between.symm

lemma same_of_sides (h : e.Represents R) (hs : s.isPlain = true) (ht : t.isPlain = true)
    (sides : e.apply s = old ∧ e.apply t = new ∨ e.apply t = old ∧ e.apply s = new)
    (differ : old ≠ new) {u w : Term} (joined : EqvGen (fun u w => R u w ∨ u = s ∧ w = t) u w) :
    apply ⟨e.asserted, e.replacements ++ [⟨old, new⟩]⟩ u =
      apply ⟨e.asserted, e.replacements ++ [⟨old, new⟩]⟩ w := by
  induction joined with
  | rel u w related =>
    obtain older | ⟨rfl, rfl⟩ := related
    · rw [apply_joined, apply_joined, h.same (.rel _ _ older)]
    · obtain ⟨hold, hnew⟩ | ⟨hold, hnew⟩ := sides
      · rw [h.apply_moved new hs hold, h.apply_unmoved new ht (hnew ▸ differ.symm), hnew]
      · rw [h.apply_moved new ht hold, h.apply_unmoved new hs (hnew ▸ differ.symm), hnew]
  | refl => rfl
  | symm _ _ _ ih => exact ih.symm
  | trans _ _ _ _ _ ih ih' => exact ih.trans ih'

lemma isHidden_of_replaced {R : Term → Term → Prop} (link : EqvGen R old new)
    (plain : new.isPlain = true) (value : old.isValue = true)
    (free : ¬(old.isValue = true ∧ new.isValue = true)) (later : old.rank ≤ new.rank) :
    IsHidden R old := by
  -- No value is replaced by a value, so the new term is an atom, which comes later.
  obtain ⟨a, rfl, earlier⟩ := Term.atom_of_later value plain (fun new => free ⟨value, new⟩) later
  exact ⟨a, link, earlier⟩

lemma joined (h : e.Represents R) (hs : s.isPlain = true) (ht : t.isPlain = true)
    (sides : e.apply s = old ∧ e.apply t = new ∨ e.apply t = old ∧ e.apply s = new)
    (differ : old ≠ new) (free : ¬(old.isValue = true ∧ new.isValue = true))
    (later : old.rank ≤ new.rank) :
    Represents ⟨e.asserted, e.replacements ++ [⟨old, new⟩]⟩ fun u w => R u w ∨ u = s ∧ w = t := by
  have link := h.link_of_sides hs ht sides
  obtain ⟨plain, fixed⟩ : new.isPlain = true ∧ e.apply new = new := by
    obtain ⟨-, rfl⟩ | ⟨-, rfl⟩ := sides
    · exact ⟨h.plain ht, h.again ht⟩
    · exact ⟨h.plain hs, h.again hs⟩
  have reach {u : Term} (hu : u.isPlain = true) :
      EqvGen (fun u w => R u w ∨ u = s ∧ w = t) u (e.apply u) :=
    EqvGen.mono (fun _ _ => .inl) _ _ (h.reach hu)
  constructor
  case plain =>
    intro u hu
    obtain ⟨-, moved⟩ | ⟨-, stays⟩ := h.apply_cases old new hu
    · rwa [moved]
    · rw [stays]
      exact h.plain hu
  case again =>
    intro u hu
    obtain ⟨-, moved⟩ | ⟨elsewhere, stays⟩ := h.apply_cases old new hu
    · rw [moved, h.apply_unmoved new plain (fixed.symm ▸ differ.symm), fixed]
    · rw [stays, h.apply_unmoved new (h.plain hu) ((h.again hu).symm ▸ elsewhere), h.again hu]
  case reach =>
    intro u hu
    obtain ⟨here, moved⟩ | ⟨-, stays⟩ := h.apply_cases old new hu
    · rw [moved]
      exact .trans _ _ _ (reach hu) (here ▸ link)
    · rw [stays]
      exact reach hu
  case same => exact h.same_of_sides hs ht sides differ
  case later =>
    intro u hu
    obtain ⟨here, moved⟩ | ⟨-, stays⟩ := h.apply_cases old new hu
    · rw [moved]
      exact ((h.later hu).trans (here ▸ Nat.le_refl _)).trans later
    · rw [stays]
      exact h.later hu
  case kept =>
    intro v hv value
    obtain kept | hidden := h.kept hv value
    · obtain ⟨here, -⟩ | ⟨-, stays⟩ := h.apply_cases old new hv
      · obtain rfl : v = old := kept.symm.trans here
        exact .inr (isHidden_of_replaced link plain value free later)
      · exact .inl (stays.trans kept)
    · exact .inr (hidden.mono fun _ _ => .inl)

end Joined

lemma not_isHidden (h : e.Represents R) {v : Term} (fixed : e.apply v = v) : ¬IsHidden R v := by
  rintro ⟨a, joined, earlier⟩
  have later := h.later (t := .atom a) rfl
  rw [← h.same joined, fixed] at later
  omega

lemma eq_of_not_isHidden (h : e.Represents R) {v : Term} (hv : v.isPlain = true)
    (value : v.isValue = true) (visible : ¬IsHidden R v) : e.apply v = v :=
  (h.kept hv value).resolve_right visible

end Represents

section Run
open Relation

/-- Takes equations into account one after the other; nothing comes back when one of them is
refused. -/
def equate (known : Oracle) (e : Effects) (equations : List (Term × Term)) : Option Effects :=
  equations.foldlM (fun e q => e.addEquation known q.1 q.2) e

/-- The two terms are the values of the two sides of one of the equations. -/
def Equates (known : Oracle) (equations : List (Term × Term)) (s t : Term) : Prop :=
  ∃ q ∈ equations, evaluate known q.1 .empty = s ∧ evaluate known q.2 .empty = t

/-- The values of the sides are variables, atoms, booleans, integers or strings. -/
def AreFlat (known : Oracle) (equations : List (Term × Term)) : Prop :=
  ∀ q ∈ equations, (evaluate known q.1 .empty).isPlain = true ∧
    (evaluate known q.2 .empty).isPlain = true

/-- A boolean, an integer or a string. -/
def IsScalar (t : Term) : Prop :=
  t.isPlain = true ∧ t.isValue = true

/-- The class of the one side and the class of the other one, as the equations before have made
them, hold different values that are not hidden. -/
def Clashes (known : Oracle) (before : List (Term × Term)) (q : Term × Term) : Prop :=
  ∃ v w, IsScalar v ∧ IsScalar w ∧ v ≠ w ∧
    EqvGen (Equates known before) (evaluate known q.1 .empty) v ∧
    EqvGen (Equates known before) (evaluate known q.2 .empty) w ∧
    ¬IsHidden (Equates known before) v ∧ ¬IsHidden (Equates known before) w

variable {before equations : List (Term × Term)} {q : Term × Term}

lemma equates_append_singleton : Equates known (before ++ [q]) = fun s t =>
    Equates known before s t ∨ s = evaluate known q.1 .empty ∧ t = evaluate known q.2 .empty := by
  funext s t
  apply propext
  constructor
  · rintro ⟨q', mem, rfl, rfl⟩
    obtain old | new := List.mem_append.mp mem
    · exact .inl ⟨q', old, rfl, rfl⟩
    · rw [List.mem_singleton.mp new]
      exact .inr ⟨rfl, rfl⟩
  · rintro (⟨q', old, rfl, rfl⟩ | ⟨rfl, rfl⟩)
    · exact ⟨q', List.mem_append_left _ old, rfl, rfl⟩
    · exact ⟨q, by simp, rfl, rfl⟩

lemma equates_mono (sub : before ⊆ equations) : Equates known before ≤ Equates known equations := by
  rintro s t ⟨q, mem, sides⟩
  exact ⟨q, sub mem, sides⟩

lemma represents_addEquation (h : e.Represents (Equates known before))
    (hl : (evaluate known q.1 .empty).isPlain = true)
    (hr : (evaluate known q.2 .empty).isPlain = true)
    (added : e.addEquation known q.1 q.2 = some e') :
    e'.Represents (Equates known (before ++ [q])) := by
  have adds := adds_addEquation (h.plain hl) (h.plain hr)
  rw [added] at adds
  rw [equates_append_singleton]
  cases adds with
  | present same => exact h.present same
  | joined sides differ free later => exact h.joined hl hr sides differ free later

lemma addEquation_eq_none_iff (h : e.Represents (Equates known before))
    (hl : (evaluate known q.1 .empty).isPlain = true)
    (hr : (evaluate known q.2 .empty).isPlain = true) :
    e.addEquation known q.1 q.2 = .none ↔ Clashes known before q := by
  have adds := adds_addEquation (h.plain hl) (h.plain hr)
  constructor
  · intro refused
    rw [refused] at adds
    cases adds with
    | refused differ left right =>
      exact ⟨_, _, ⟨h.plain hl, left⟩, ⟨h.plain hr, right⟩, differ, h.reach hl, h.reach hr,
        h.not_isHidden (h.again hl), h.not_isHidden (h.again hr)⟩
  · rintro ⟨v, w, ⟨pv, vv⟩, ⟨pw, vw⟩, differ, joinedv, joinedw, visiblev, visiblew⟩
    rw [h.same joinedv, h.eq_of_not_isHidden pv vv visiblev, h.same joinedw,
      h.eq_of_not_isHidden pw vw visiblew] at adds
    generalize e.addEquation known q.1 q.2 = result at adds ⊢
    cases adds with
    | present same => exact absurd same differ
    | refused => rfl
    | joined sides _ free =>
      obtain ⟨rfl, rfl⟩ | ⟨rfl, rfl⟩ := sides
      · exact absurd ⟨vv, vw⟩ free
      · exact absurd ⟨vw, vv⟩ free

lemma equate_cons (known : Oracle) (e : Effects) (q : Term × Term) (equations : List (Term × Term)) :
    e.equate known (q :: equations) =
      (e.addEquation known q.1 q.2).bind fun e => e.equate known equations := rfl

lemma equate_of_added (equations : List (Term × Term)) (added : e.addEquation known s t = some e') :
    e.equate known ((s, t) :: equations) = e'.equate known equations := by
  rw [equate_cons, added]
  rfl

lemma represents_equate (h : e.Represents (Equates known before)) (flat : AreFlat known equations)
    (run : e.equate known equations = some e') :
    e'.Represents (Equates known (before ++ equations)) := by
  induction equations generalizing e before with
  | nil =>
    cases run
    rwa [List.append_nil]
  | cons q rest ih =>
    obtain ⟨⟨hl, hr⟩, flat⟩ := List.forall_mem_cons.mp flat
    rw [equate_cons] at run
    obtain ⟨e₁, added, run⟩ := Option.bind_eq_some_iff.mp run
    rw [List.append_cons]
    exact ih (represents_addEquation h hl hr added) flat run

lemma equate_eq_none_iff (h : e.Represents (Equates known before)) (flat : AreFlat known equations) :
    e.equate known equations = .none ↔
      ∃ first q rest, equations = first ++ q :: rest ∧ Clashes known (before ++ first) q := by
  induction equations generalizing e before with
  | nil => simp [equate]
  | cons q rest ih =>
    obtain ⟨⟨hl, hr⟩, flat⟩ := List.forall_mem_cons.mp flat
    have refused := addEquation_eq_none_iff h hl hr
    rw [equate_cons]
    cases added : e.addEquation known q.1 q.2 with
    | none =>
      refine ⟨fun _ => ⟨[], q, rest, rfl, ?_⟩, fun _ => rfl⟩
      rw [List.append_nil]
      exact refused.mp added
    | some e₁ =>
      rw [Option.bind_some, ih (represents_addEquation h hl hr added) flat]
      constructor
      · rintro ⟨first, q', rest, rfl, clashes⟩
        exact ⟨q :: first, q', rest, rfl, by rwa [List.append_cons]⟩
      · rintro ⟨first, q', rest', split, clashes⟩
        match first, split with
        | [], split =>
          obtain ⟨rfl, -⟩ := List.cons.inj split
          rw [List.append_nil] at clashes
          rw [refused.mpr clashes] at added
          cases added
        | _ :: first, split =>
          obtain ⟨rfl, rfl⟩ := List.cons.inj split
          exact ⟨first, q', rest', rfl, by rwa [List.append_cons] at clashes⟩

lemma represents_start (start : e.replacements = []) : e.Represents (Equates known []) :=
  .of_isEmpty start fun _ _ => by simp [Equates]

end Run

open Relation in
/-- Equations between terms without parts work like union and find: when none of them is refused, the
replacements that they leave behind give two terms the same representative just when the equations put
them into one class, and a representative represents itself. -/
theorem equate_joins {known : Oracle} {equations : List (Term × Term)} {e e' : Effects}
    (start : e.replacements = []) (flat : AreFlat known equations)
    (run : e.equate known equations = some e') :
    (∀ u w : Term, u.isPlain = true → w.isPlain = true →
      ((e'.apply u == e'.apply w) = true ↔ EqvGen (Equates known equations) u w)) ∧
      ∀ u : Term, u.isPlain = true → (e'.apply (e'.apply u) == e'.apply u) = true := by
  have represents := represents_equate (represents_start start) flat run
  rw [List.nil_append] at represents
  constructor
  · intro u w hu hw
    rw [Term.beq_iff_of_isPlain (represents.plain hu)]
    exact represents.same_iff hu hw
  · intro u hu
    rw [represents.again hu]
    exact (Term.FloatFree.of_isPlain (represents.plain hu)).beq_self

open Relation in
/-- Five equations, one of which holds already: a chain of variables with a sum at its end, which is
replaced by an atom, and a class of its own. -/
theorem equate_joins_chain :
    let x := Term.var ⟨"X", 1⟩
    let y := Term.var ⟨"Y", 1⟩
    let z := Term.var ⟨"Z", 1⟩
    let equations := [(x, y), (y, .compound "+" [.int 1, .int 2] 500), (.int 3, x), (y, .atom "a"),
      (z, .str "s")]
    let e : Effects := ⟨[], [⟨x, y⟩, ⟨y, .int 3⟩, ⟨.int 3, .atom "a"⟩, ⟨z, .str "s"⟩]⟩
    AreFlat .nothing equations ∧ none.equate .nothing equations = some e ∧
      ((e.apply x == e.apply (.int 3)) = true ↔ EqvGen (Equates .nothing equations) x (.int 3)) ∧
      ((e.apply x == e.apply z) = true ↔ EqvGen (Equates .nothing equations) x z) := by
  intro x y z equations e
  have flat : AreFlat .nothing equations := by
    unfold AreFlat
    decide
  -- Evaluated as a whole, the run would repeat the earlier steps in every later one.
  have first : none.addEquation .nothing x y = some ⟨[], [⟨x, y⟩]⟩ := by rfl
  have second : addEquation .nothing ⟨[], [⟨x, y⟩]⟩ y (.compound "+" [.int 1, .int 2] 500) =
      some ⟨[], [⟨x, y⟩, ⟨y, .int 3⟩]⟩ := by rfl
  have held : addEquation .nothing ⟨[], [⟨x, y⟩, ⟨y, .int 3⟩]⟩ (.int 3) x =
      some ⟨[], [⟨x, y⟩, ⟨y, .int 3⟩]⟩ := by rfl
  have third : addEquation .nothing ⟨[], [⟨x, y⟩, ⟨y, .int 3⟩]⟩ y (.atom "a") =
      some ⟨[], [⟨x, y⟩, ⟨y, .int 3⟩, ⟨.int 3, .atom "a"⟩]⟩ := by rfl
  have fourth : addEquation .nothing ⟨[], [⟨x, y⟩, ⟨y, .int 3⟩, ⟨.int 3, .atom "a"⟩]⟩ z (.str "s") =
      some e := by rfl
  have run : none.equate .nothing equations = some e :=
    calc none.equate .nothing equations
      _ = _ := equate_of_added _ first
      _ = _ := equate_of_added _ second
      _ = _ := equate_of_added _ held
      _ = _ := equate_of_added _ third
      _ = some e := equate_of_added _ fourth
  have joins := (equate_joins rfl flat run).1
  exact ⟨flat, run, joins x (.int 3) rfl rfl, joins x z rfl rfl⟩

end Effects

end ConstraintHandling
