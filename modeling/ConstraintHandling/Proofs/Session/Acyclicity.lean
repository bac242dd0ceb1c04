import ConstraintHandling.Proofs.Scope.Course
import ConstraintHandling.Proofs.Search.Acyclicity
import ConstraintHandling.Proofs.Session.Provenance

/-! Cycles in the environments of matches. The search can return an environment in which a variable reaches
itself, since the occurs-check is limited and assignments have none. There are no other causes: the
environment is acyclic where heads and constraints have a common instance and no guard assigns a term
to a variable that occurs in it. -/
namespace ConstraintHandling

/-- Whatever a user does with a session, and at every point on the way, the environment of a match that
is found is acyclic, provided that the heads and their constraints have a common instance and that no
guard assigns to a variable a term in which it occurs. Conversely, where the environment is acyclic,
there is a common instance, guards have assigned terms with their variables in them only if these were
the variables themselves, and substitution leaves no bound variables. -/
theorem match_acyclic (rs : List Rule) :
    let base := (RuleBase.ofRules rs).1
    (∀ commands : List Command,
      ∃ os, Provenance base ((Journal.begin base).obeyAll commands).session os) ∧
    ∀ s os, Provenance base s os → ∀ r id m, base.get? id = some r →
      (r.nextMatch id s.store s.memo).1 = some m →
      ∃ env, Search.Combines s.store s.store.canMatch r.heads m.constraints env ∧
        Search.checkGuards s.store.holds r.guards env = some m.env ∧
        (Search.HaveInstance s.store r.heads m.constraints →
          Search.EachAssigned s.store.holds (fun v value => v ∉ value.occurrences) r.guards env →
          m.env.Acyclic) ∧
        (m.env.Acyclic →
          Search.HaveInstance s.store r.heads m.constraints ∧
          Search.EachAssigned s.store.holds (fun v value => v ∈ value.occurrences → value = .var v)
            r.guards env ∧
          ∀ t, ∀ v ∈ (m.env.substitute t).occurrences, m.env.lookup v = none) := by
  intro base
  refine ⟨fun commands => (isInvariant_provenance base).obeyAll fun _ _ => trivial, ?_⟩
  intro s os provenance r id m registered found
  have hheads : base.HasHeads := RuleBase.hasHeads_ofRules rs
  obtain ⟨chronicle, consistent⟩ := provenance.keeps (isInvariant_consistent hheads)
  obtain ⟨env, matched⟩ :=
    consistent.matches registered (hheads r (List.mem_of_getElem? registered)) found
  have instances := Search.acyclic_of_unifyAll_iff matched.combines.unified
  refine ⟨env, matched.combines, matched.guards, fun common assigned => ?_, fun acyclic => ?_⟩
  · exact Search.acyclic_of_checkGuards (instances.mpr common) assigned matched.guards
  · have ends := (Search.grows_of_unifyAll (Environment.ends_of_acyclic Environment.acyclic_empty)
      matched.combines.unified).2
    have loosened : ¬m.env.Knotted := fun knotted => knotted.not_acyclic acyclic
    have acyclic' : env.Acyclic := Environment.acyclic_of_not_knotted ends fun knotted =>
      loosened (Search.knotted_of_checkGuards knotted matched.guards)
    exact ⟨instances.mp acyclic', Search.assigned_of_not_knotted loosened matched.guards,
      Environment.unbound_of_substitute acyclic⟩

def successor : Rule where
  name := "successor"
  keepHeads := [.ordinary "p" [.var ⟨"X", 0⟩, .var ⟨"Y", 0⟩]]
  deleteHeads := []
  guards := [.compound "is" [.var ⟨"Z", 0⟩, .compound "+" [.var ⟨"Y", 0⟩, .int 1] 500] 700]
  body := [.ordinary "p" [.var ⟨"X", 0⟩, .var ⟨"Z", 0⟩]]

/-- A rule with a head on which the occurs-check stops short of a cycle. -/
def ring : Rule where
  name := "ring"
  keepHeads := []
  deleteHeads := [.ordinary "p" [.var ⟨"X", 0⟩, .var ⟨"Y", 0⟩, .var ⟨"X", 0⟩,
    .ordinary "g" [.var ⟨"Y", 0⟩]]]
  guards := []
  body := []

def increment : Rule where
  name := "increment"
  keepHeads := []
  deleteHeads := [.ordinary "q" [.var ⟨"X", 0⟩]]
  guards := [.compound "is" [.var ⟨"L", 0⟩, .compound "+" [.var ⟨"L", 0⟩, .int 1] 500] 700]
  body := []

def waiting (rs : List Rule) (goal : Term) : Session :=
  ((Journal.begin (RuleBase.ofRules rs).1).obeyAll [.goals [goal]]).session

/-- The guard computes a new value, and the bindings stay acyclic. -/
theorem match_acyclic_successor :
    let s := waiting [successor] (.ordinary "p" [.var ⟨"A", 0⟩, .int 2])
    ∃ m, (successor.nextMatch 0 s.store s.memo).1 = some m ∧ m.env.lookup ⟨"Z", 0⟩ = some (.int 3) ∧
      m.env.Acyclic ∧ ∀ t, ∀ v ∈ (m.env.substitute t).occurrences, m.env.lookup v = none := by
  intro s
  let matched := (Environment.empty.bind ⟨"X", 0⟩ (.var ⟨"A", 1⟩)).bind ⟨"Y", 0⟩ (.int 2)
  have found : (successor.nextMatch 0 s.store s.memo).1 =
      some ⟨[0], matched.bind ⟨"Z", 0⟩ (.int 3)⟩ := by rfl
  obtain ⟨provenances, all⟩ := match_acyclic [successor]
  obtain ⟨os, provenance⟩ := provenances [.goals [.ordinary "p" [.var ⟨"A", 0⟩, .int 2]]]
  obtain ⟨env, combines, -, acyclic, clean⟩ := all s os provenance successor 0 _ rfl found
  obtain rfl : env = matched := Option.some.inj (combines.unified.symm.trans rfl)
  have common : Search.HaveInstance s.store successor.heads [0] := by
    refine ⟨fun v => if v.name = "Y" then .int 2 else .var ⟨"A", 1⟩, ?_⟩
    exact List.forall_mem_cons.mpr ⟨⟨_, rfl, by decide⟩, by simp⟩
  have assigned : Search.EachAssigned s.store.holds (fun v value => v ∉ value.occurrences)
      successor.guards matched := by
    refine ⟨?_, fun _ _ => trivial⟩
    rintro left right v ⟨⟩ ⟨⟩
    exact List.not_mem_nil
  have result := acyclic common assigned
  exact ⟨_, found, rfl, result, (clean result).2.2⟩

/-- A head with a repeated variable closes a cycle through three bindings, and an assignment closes one
at once. -/
theorem match_cyclic :
    let s := waiting [ring] (.ordinary "p" [.var ⟨"U", 0⟩, .var ⟨"U", 0⟩, .var ⟨"V", 0⟩, .var ⟨"V", 0⟩])
    let s' := waiting [increment] (.ordinary "q" [.atom "a"])
    (∀ r ∈ [ring, increment], ∀ t ∈ r.terms, t.IsSource) ∧
      (∀ t ∈ s.store.terms.toList, ∀ v ∈ t.occurrences, 1 ≤ v.scope) ∧
      (∀ t ∈ s'.store.terms.toList, ∀ v ∈ t.occurrences, 1 ≤ v.scope) ∧
      (∃ m, (ring.nextMatch 0 s.store s.memo).1 = some m ∧ ¬m.env.Acyclic) ∧
      ∃ m, (increment.nextMatch 0 s'.store s'.memo).1 = some m ∧ ¬m.env.Acyclic := by
  intro s s'
  let u : Variable := ⟨"U", 1⟩
  let v : Variable := ⟨"V", 1⟩
  let x : Variable := ⟨"X", 0⟩
  let y : Variable := ⟨"Y", 0⟩
  let l : Variable := ⟨"L", 0⟩
  let linked := (((Environment.empty.bind x (.var u)).bind y (.var u)).bind u (.var v)).bind v
    (.ordinary "g" [.var y])
  let counted := (Environment.empty.bind x (.atom "a")).bind l (.compound "+" [.var l, .int 1] 500)
  refine ⟨?_, by decide +kernel, by decide +kernel,
    ⟨⟨[0], linked⟩, rfl, ?_⟩, ⟨[0], counted⟩, rfl, ?_⟩
  · have one : (Term.int 1).Within fun v => v.scope = 0 := Term.within_of_isConstant rfl
    simp [ring, increment, Rule.terms, Term.IsSource, Term.ordinary, one]
  · have yu : linked.Mentions y u := ⟨.var u, rfl, List.mem_singleton_self u⟩
    have uv : linked.Mentions u v := ⟨.var v, rfl, List.mem_singleton_self v⟩
    have vy : linked.Mentions v y := ⟨.ordinary "g" [.var y], rfl, List.mem_singleton_self y⟩
    exact fun acyclic => acyclic y (((Relation.TransGen.single yu).tail uv).tail vy)
  · have ll : counted.Mentions l l :=
      ⟨.compound "+" [.var l, .int 1] 500, rfl, List.mem_singleton_self l⟩
    exact fun acyclic => acyclic l (.single ll)

end ConstraintHandling
