import ConstraintHandling.Proofs.Binary64.Integers
import ConstraintHandling.Proofs.Term.Priorities
import ConstraintHandling.Proofs.Term.Reflexivity
import ConstraintHandling.Term.Order

/-! The standard order as a lexicographic order. Each node of a term is a symbol: its shape, its size,
its name and its value. Terms without a NaN are compared as the words which their symbols make in
prefix order, and so the standard order has the properties of an order of words. -/
namespace ConstraintHandling

/-- What one node of a term brings into the order. An integer has the place of the float nearest to it,
and its exact value counts last. -/
structure Symbol where
  rank : Nat
  size : Nat := 0
  name : String := ""
  scope : Nat := 0
  place : Int := 0
  isFloat : Bool := false
  integer : Int := 0

namespace Symbol

def compare : Symbol → Symbol → Ordering :=
  compareLex (compareOn rank) <| compareLex (compareOn size) <| compareLex (compareOn name) <|
  compareLex (compareOn scope) <| compareLex (compareOn place) <|
  compareLex (compareOn isFloat) (compareOn integer)

instance : Std.TransCmp compare :=
  inferInstanceAs (Std.TransCmp (compareLex _ _))

instance : Std.LawfulEqCmp compare where
  eq_of_compare {a b} h := by
    simp only [compare, compareLex, compareOn, Ordering.then_eq_eq, Std.compare_eq_iff_eq] at h
    cases a; cases b
    simp_all

lemma compare_eq (a b : Symbol) :
    a.compare b = (Ord.compare a.rank b.rank).then ((Ord.compare a.size b.size).then
      ((Ord.compare a.name b.name).then ((Ord.compare a.scope b.scope).then
      ((Ord.compare a.place b.place).then
      ((Ord.compare a.isFloat b.isFloat).then (Ord.compare a.integer b.integer)))))) :=
  rfl

end Symbol

namespace Term

def symbol : Term → Symbol
  | .var v => { rank := 0, name := v.name, scope := v.scope }
  | .bool b => { rank := 1, size := b.toNat }
  | .int i => { rank := 2, place := (Binary64.ofInt i.toInt).place, integer := i.toInt }
  | .float x => { rank := 2, place := x.place, isFloat := true }
  | .atom a => { rank := 3, name := a }
  | .str s => { rank := 4, name := s }
  | .list as => { rank := 5, size := as.length }
  | .compound f as _ => { rank := 6, size := as.length, name := f }

/-- The word of a term: its symbols in prefix order. -/
def word (t : Term) : List Symbol :=
  t.subterms.map symbol

variable {s t u : Term}

lemma word_eq (t : Term) : t.word = t.symbol :: t.children.flatMap word := by
  rw [word, subterms_eq, List.map_cons, List.map_flatMap]
  rfl

lemma symbol_rank (t : Term) : t.symbol.rank = t.rank := by
  cases t <;> rfl

lemma length_children (t : Term) :
    t.children.length = if t.symbol.rank < 5 then 0 else t.symbol.size := by
  cases t <;> rfl

lemma compare_integers (i j : Int64) :
    (compare (Binary64.ofInt i.toInt).place (Binary64.ofInt j.toInt).place).then
      (compare i.toInt j.toInt) = compare i.toInt j.toInt := by
  have low := i.le_toInt
  have low' := j.le_toInt
  have high := i.toInt_lt
  have high' := j.toInt_lt
  obtain lt | eq | gt := lt_trichotomy i.toInt j.toInt
  · have places := Binary64.place_ofInt_mono lt.le (by omega) (by omega)
    rw [compare_lt_iff_lt.mpr lt]
    obtain lt | eq := places.lt_or_eq
    · rw [compare_lt_iff_lt.mpr lt]
      rfl
    · rw [compare_eq_iff_eq.mpr eq]
      rfl
  · rw [eq, Std.compare_self, Std.compare_self]
    rfl
  · have places := Binary64.place_ofInt_mono gt.le (by omega) (by omega)
    rw [compare_gt_iff_gt.mpr gt]
    obtain lt | eq := places.lt_or_eq
    · rw [compare_gt_iff_gt.mpr lt]
      rfl
    · rw [compare_eq_iff_eq.mpr eq.symm]
      rfl

lemma isNaN_number? {x : Binary64} (h : s.isNaN = false) (hx : s.number? = some x) :
    x.isNaN = false := by
  cases s with
  | int i =>
    obtain rfl := Option.some.inj hx
    have low := i.le_toInt
    have high := i.toInt_lt
    exact Binary64.isNaN_ofInt (by omega) (by omega)
  | float y =>
    obtain rfl := Option.some.inj hx
    exact h
  | _ => cases hx

lemma compareNumbers_eq {x y : Binary64} (hx : x.isNaN = false) (hy : y.isNaN = false) :
    compareNumbers s t x y = (compare x.place y.place).then (compare s.isFloat t.isFloat) := by
  rw [compareNumbers, Binary64.compare?_eq hx hy, Option.getD_some]

lemma compareStandard_of_rank_ne (h : s.rank ≠ t.rank) :
    s.compareStandard t = compare s.rank t.rank := by
  cases s <;> cases t <;> first | exact absurd rfl h | rfl

lemma compareStandard_eq (hs : s.isNaN = false) (ht : t.isNaN = false) :
    s.compareStandard t = (s.symbol.compare t.symbol).then (compareAll s.children t.children) := by
  by_cases h : s.rank = t.rank
  · rw [Symbol.compare_eq]
    cases s <;> cases t <;> simp [rank] at h
    case bool.bool a b => cases a <;> cases b <;> rfl
    case int.int i j => simp [compareStandard, symbol, children, compareAll, compare_integers]
    case int.float i x =>
      simp [compareStandard, number?, compareNumbers_eq (isNaN_number? hs rfl) ht, symbol, children,
        compareAll]
      rfl
    case float.int x i =>
      simp [compareStandard, number?, compareNumbers_eq hs (isNaN_number? ht rfl), symbol, children,
        compareAll]
      rfl
    case float.float x y =>
      simp [compareStandard, number?, compareNumbers_eq hs ht, symbol, children, compareAll, isFloat]
    all_goals simp [compareStandard, symbol, children, compareAll, Ordering.then_assoc]
  · rw [compareStandard_of_rank_ne h, Symbol.compare_eq, symbol_rank, symbol_rank]
    obtain lt | gt := Nat.lt_or_gt_of_ne h
    · rw [compare_lt_iff_lt.mpr lt]
      rfl
    · rw [compare_gt_iff_gt.mpr gt]
      rfl

lemma compare_words (hs : s.NaNFree) (ht : t.NaNFree) (xs ys : List Symbol) :
    (s.compareStandard t).then (List.compareLex Symbol.compare xs ys) =
      List.compareLex Symbol.compare (s.word ++ xs) (t.word ++ ys) := by
  induction s using children_induction generalizing t xs ys with
  | step s ih =>
    have parts (as bs : List Term) (length : as.length = bs.length)
        (has : ∀ a ∈ as, a ∈ s.children) (hbs : ∀ b ∈ bs, b ∈ t.children) :
        (compareAll as bs).then (List.compareLex Symbol.compare xs ys) =
          List.compareLex Symbol.compare (as.flatMap word ++ xs) (bs.flatMap word ++ ys) := by
      induction as generalizing bs with
      | nil =>
        obtain rfl := List.length_eq_zero_iff.mp length.symm
        simp [compareAll]
      | cons a as later =>
        obtain _ | ⟨b, bs⟩ := bs
        · cases length
        · obtain ⟨ha, has⟩ := List.forall_mem_cons.mp has
          obtain ⟨hb, hbs⟩ := List.forall_mem_cons.mp hbs
          rw [compareAll, Ordering.then_assoc, later bs (Nat.succ.inj length) has hbs,
            ih a ha (hs.of_mem_children ha) (ht.of_mem_children hb), List.flatMap_cons,
            List.flatMap_cons, List.append_assoc, List.append_assoc]
    rw [compareStandard_eq (nanFree_iff.mp hs).1 (nanFree_iff.mp ht).1, word_eq, word_eq,
      List.cons_append, List.cons_append, List.compareLex_cons_cons, Ordering.then_assoc]
    by_cases h : s.symbol.compare t.symbol = .eq
    · have same := Std.LawfulEqCmp.eq_of_compare h
      rw [h, parts _ _ (by rw [length_children, length_children, same]) (fun _ h => h) fun _ h => h]
    · generalize s.symbol.compare t.symbol = o at h
      cases o with
      | eq => exact absurd rfl h
      | _ => rfl

/-- The standard order is the lexicographic order of words. -/
theorem compareStandard_eq_compare_words (hs : s.NaNFree) (ht : t.NaNFree) :
    s.compareStandard t = List.compareLex Symbol.compare s.word t.word := by
  have words := compare_words hs ht [] []
  rwa [List.append_nil, List.append_nil, List.compareLex_nil_nil, Ordering.then_eq] at words

lemma withoutPriorities_beq_iff (hs : s.isNaN = false) (ht : t.isNaN = false) :
    (s.withoutPriorities == t.withoutPriorities) = true ↔
      s.symbol = t.symbol ∧
        beqAll (s.children.map withoutPriorities) (t.children.map withoutPriorities) = true := by
  have length {as bs : List Term}
      (h : beqAll (as.map withoutPriorities) (bs.map withoutPriorities) = true) :
      as.length = bs.length := by
    simpa using length_eq_of_beqAll h
  change beq _ _ = true ↔ _
  cases s <;> cases t <;> simp [withoutPriorities, beq, symbol, children]
  case bool.bool a b => cases a <;> cases b <;> simp
  case int.int i j =>
    rw [Int64.toInt_inj]
    exact ⟨fun h => ⟨h ▸ rfl, h⟩, And.right⟩
  case float.float x y => exact Binary64.equal_iff_place_eq hs ht
  case compound.compound => exact fun h _ => length h
  case list.list => exact length
  case var.var v w => rw [Variable.mk.injEq]

theorem compareStandard_eq_eq_iff (hs : s.NaNFree) (ht : t.NaNFree) :
    s.compareStandard t = .eq ↔ (s.withoutPriorities == t.withoutPriorities) = true := by
  induction s using children_induction generalizing t with
  | step s ih =>
    have parts (as bs : List Term) (length : as.length = bs.length)
        (has : ∀ a ∈ as, a ∈ s.children) (hbs : ∀ b ∈ bs, b ∈ t.children) :
        compareAll as bs = .eq ↔
          beqAll (as.map withoutPriorities) (bs.map withoutPriorities) = true := by
      induction as generalizing bs with
      | nil =>
        obtain rfl := List.length_eq_zero_iff.mp length.symm
        simp [compareAll]
      | cons a as later =>
        obtain _ | ⟨b, bs⟩ := bs
        · cases length
        · obtain ⟨ha, has⟩ := List.forall_mem_cons.mp has
          obtain ⟨hb, hbs⟩ := List.forall_mem_cons.mp hbs
          rw [compareAll, Ordering.then_eq_eq, List.map_cons, List.map_cons, beqAll_cons,
            Bool.and_eq_true, ih a ha (hs.of_mem_children ha) (ht.of_mem_children hb),
            later bs (Nat.succ.inj length) has hbs]
    have number := (nanFree_iff.mp hs).1
    have number' := (nanFree_iff.mp ht).1
    rw [compareStandard_eq number number', Ordering.then_eq_eq, withoutPriorities_beq_iff number number',
      Std.LawfulEqCmp.compare_eq_iff_eq]
    exact and_congr_right fun same =>
      parts _ _ (by rw [length_children, length_children, same]) (fun _ h => h) fun _ h => h

/-- On terms without a NaN the standard order is total: comparing them the other way round gives the
reverse answer, the answers agree along a chain, and only terms that are equal but for their operator
priorities are the same to it. -/
theorem compareStandard_total (hs : s.NaNFree) (ht : t.NaNFree) (hu : u.NaNFree) :
    t.compareStandard s = (s.compareStandard t).swap ∧
    ((s.compareStandard t).isLE = true → (t.compareStandard u).isLE = true →
      (s.compareStandard u).isLE = true) ∧
    (s.compareStandard t = .eq ↔ (s.withoutPriorities == t.withoutPriorities) = true) := by
  refine ⟨?_, ?_, compareStandard_eq_eq_iff hs ht⟩
  · rw [compareStandard_eq_compare_words ht hs, compareStandard_eq_compare_words hs ht]
    exact Std.OrientedCmp.eq_swap
  · rw [compareStandard_eq_compare_words hs ht, compareStandard_eq_compare_words ht hu,
      compareStandard_eq_compare_words hs hu]
    exact Std.TransCmp.isLE_trans

/-- The larger of two integers is converted to the float of the smaller one, and comes between the
smaller one and the float. -/
theorem compareStandard_total_rounded :
    (int 9007199254740992).NaNFree ∧ (int 9007199254740993).NaNFree ∧
    (float ⟨0x4340000000000000⟩).NaNFree ∧
    (int 9007199254740992).compareStandard (int 9007199254740993) = .lt ∧
    (int 9007199254740993).compareStandard (float ⟨0x4340000000000000⟩) = .lt ∧
    (int 9007199254740993).compareStandard (int 9007199254740992) = .gt ∧
    ((int 9007199254740992).compareStandard (float ⟨0x4340000000000000⟩)).isLE = true := by
  have hs : (int 9007199254740992).NaNFree := by decide +kernel
  have ht : (int 9007199254740993).NaNFree := by decide +kernel
  have hu : (float ⟨0x4340000000000000⟩).NaNFree := by decide +kernel
  have below : (int 9007199254740992).compareStandard (int 9007199254740993) = .lt := by
    decide +kernel
  have above : (int 9007199254740993).compareStandard (float ⟨0x4340000000000000⟩) = .lt := by
    decide +kernel
  obtain ⟨reverse, chain, -⟩ := compareStandard_total hs ht hu
  rw [below] at reverse chain
  rw [above] at chain
  exact ⟨hs, ht, hu, below, above, reverse, chain rfl rfl⟩

end Term
end ConstraintHandling
