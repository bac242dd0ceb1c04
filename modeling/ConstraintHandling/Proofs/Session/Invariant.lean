import ConstraintHandling.Proofs.Session.Consistency

/-! Invariants of sessions. What holds of a session without constraints, and is kept when goals are
added, when the limit of passes is changed and when one rule is tried, holds whatever a user does. -/
namespace ConstraintHandling
namespace Session

/-- A property kept by all that a session does, as long as the user adds goals of one kind. -/
structure IsInvariant (base : RuleBase) (allowed : List Term → Prop) (P : Session → Prop) : Prop where
  start : P (.start base)
  goals : ∀ {s ts}, P s → allowed ts → P (s.addGoals ts).2
  limit : ∀ {s}, P s → ∀ passes, P { s with maxPasses := passes }
  tryRule : ∀ {s r id}, P s → base.get? id = some r → P (s.tryRule r id).session

namespace IsInvariant
variable {base : RuleBase} {allowed : List Term → Prop} {P : Session → Prop} {s : Session}

lemma tryRules (inv : IsInvariant base allowed P) (h : P s) (same : s.rules = base)
    {rules : List (Rule × RuleId)} (registered : ∀ pair ∈ rules, base.get? pair.2 = some pair.1) :
    P (s.tryRules rules).session ∧ (s.tryRules rules).session.rules = base := by
  induction rules generalizing s with
  | nil => exact ⟨h, same⟩
  | cons pair rules ih =>
    obtain ⟨r, id⟩ := pair
    obtain ⟨hr, hrules⟩ := List.forall_mem_cons.mp registered
    have tried := inv.tryRule h hr
    have kept := (tryRule_keeps s r id).1.trans same
    have hcons := congrArg Prod.snd (tryRules_cons s r id rules)
    dsimp only at hcons
    rw [hcons]
    split
    · exact ⟨tried, kept⟩
    · exact ih tried kept hrules

lemma step (inv : IsInvariant base allowed P) (h : P s) (same : s.rules = base) :
    P s.step.session ∧ s.step.session.rules = base := by
  refine inv.tryRules h same fun pair mem => ?_
  rw [same] at mem
  exact (mem_numbered base).mp mem

lemma run (inv : IsInvariant base allowed P) (h : P s) (same : s.rules = base) (passes : Nat)
    (events : Array Event) (more : Nat) :
    P (s.run passes events more).session ∧ (s.run passes events more).session.rules = base := by
  induction more generalizing s passes events with
  | zero => exact inv.step h same
  | succ more ih =>
    obtain ⟨kept, same⟩ := inv.step h same
    rw [Session.run]
    generalize s.step = attempt at kept same ⊢
    obtain ⟨_ | _, s', new⟩ := attempt
    · exact ⟨kept, same⟩
    · exact ih kept same (passes + 1) (events ++ new)

/-- An invariant holds after whatever a user does. -/
theorem obeyAll (inv : IsInvariant base allowed P) {commands : List Command}
    (goals : ∀ ts, .goals ts ∈ commands → allowed ts) :
    P ((Journal.begin base).obeyAll commands).session := by
  suffices kept : P ((Journal.begin base).obeyAll commands).session ∧
      ((Journal.begin base).obeyAll commands).session.rules = base from kept.1
  have start : P (Journal.begin base).session ∧ (Journal.begin base).session.rules = base :=
    ⟨inv.start, rfl⟩
  refine List.foldlRecOn commands Journal.obey
    (motive := fun j => P j.session ∧ j.session.rules = base) start ?_
  rintro j ⟨h, same⟩ command mem
  cases command with
  | goals ts => exact ⟨inv.goals h (goals ts mem), same⟩
  | limit passes => exact ⟨inv.limit h passes, same⟩
  | solve => exact inv.run h same 0 #[] j.session.maxPasses

end IsInvariant
end Session

lemma isInvariant_inStep (base : RuleBase) :
    Session.IsInvariant base (fun _ => True) fun s => s.store.InStep where
  start := Store.inStep_empty
  goals inStep _ := (reaches_assertGoals ..).inStep inStep
  limit inStep _ := inStep
  tryRule inStep _ := (reaches_tryRule ..).inStep inStep

lemma isInvariant_consistent {base : RuleBase} (hheads : base.HasHeads) :
    Session.IsInvariant base (fun _ => True) fun s => ∃ chronicle, Consistent base s chronicle where
  start := ⟨.empty, consistent_start base⟩
  goals := fun ⟨chronicle, h⟩ _ => ⟨chronicle, h.reach rfl rfl (reaches_assertGoals ..)⟩
  limit := fun ⟨chronicle, h⟩ _ => ⟨chronicle, h.reach rfl rfl (.refl _)⟩
  tryRule := fun ⟨_, h⟩ registered =>
    ⟨_, h.tryRule registered (hheads _ (List.mem_of_getElem? registered))⟩

end ConstraintHandling
