import ConstraintHandling.Main
import ConstraintHandling.Matching
import ConstraintHandling.Proofs.Binary64
import ConstraintHandling.Proofs.Environment.Chase
import ConstraintHandling.Proofs.Store.Growth
import ConstraintHandling.Proofs.Store.Candidate
import ConstraintHandling.Proofs.Search.Combination
import ConstraintHandling.Proofs.Unification.Step
import ConstraintHandling.Proofs.Search.Trace
import ConstraintHandling.Proofs.Search.Coherence
import ConstraintHandling.Proofs.Search.Exploration
import ConstraintHandling.Proofs.Search.Memoised
import ConstraintHandling.Proofs.Firing
import ConstraintHandling.Proofs.Session.Chronicle
import ConstraintHandling.Proofs.Session.Consistency
import ConstraintHandling.Proofs.Session.Fixpoint
import ConstraintHandling.Proofs.Program.Grammar
import ConstraintHandling.Proofs.Program.Soundness
import ConstraintHandling.Proofs.Program.Completeness
import ConstraintHandling.Proofs.Program.Lexing
import ConstraintHandling.Proofs.Program.Spelling
import ConstraintHandling.Proofs.Program.RoundTrip
import ConstraintHandling.Proofs.Store.Live
import ConstraintHandling.Proofs.Session.Firings
import ConstraintHandling.Proofs.Scope.Variables
import ConstraintHandling.Proofs.Scope.Firing
import ConstraintHandling.Proofs.Scope.Course
import ConstraintHandling.Proofs.Evaluation
import ConstraintHandling.Proofs.Program.Clauses
import ConstraintHandling.Proofs.Session.Passes
import ConstraintHandling.Proofs.Session.Invariant
import ConstraintHandling.Proofs.Evaluated
import ConstraintHandling.Proofs.Session.Provenance
import ConstraintHandling.Proofs.Propagation
import ConstraintHandling.Proofs.Programs.Numbers
import ConstraintHandling.Proofs.Programs.Sieve
import ConstraintHandling.Proofs.Programs.Euclid
import ConstraintHandling.Proofs.Search.Exhaustion
import ConstraintHandling.Proofs.Environment.Links
import ConstraintHandling.Proofs.Session.Settled
import ConstraintHandling.Proofs.Term.Subterms
import ConstraintHandling.Proofs.Unification.Depth
import ConstraintHandling.Proofs.Term.Equality
import ConstraintHandling.Proofs.Unification.Solution
import ConstraintHandling.Proofs.Environment.Acyclic
import ConstraintHandling.Proofs.Unification.Soundness
import ConstraintHandling.Proofs.Term.Alike
import ConstraintHandling.Proofs.Term.FloatFree
import ConstraintHandling.Proofs.Environment.Cycles
import ConstraintHandling.Proofs.Unification.Ground
import ConstraintHandling.Proofs.Unification.Calls
import ConstraintHandling.Proofs.Unification.Instances
import ConstraintHandling.Proofs.Search.Acyclicity
import ConstraintHandling.Proofs.Session.Acyclicity
import ConstraintHandling.Proofs.EarlyEvaluation
import ConstraintHandling.Proofs.Logic.Formula
import ConstraintHandling.Proofs.Logic.Verdict
import ConstraintHandling.Proofs.Logic.Knowledge
import ConstraintHandling.Proofs.Equations
import ConstraintHandling.Proofs.Contradictions
import ConstraintHandling.Proofs.Store.Views
import ConstraintHandling.Proofs.Term.Replacement
import ConstraintHandling.Proofs.Remnants
import ConstraintHandling.Proofs.Session.Effect
import ConstraintHandling.Proofs.Store.Lookup
import ConstraintHandling.Proofs.Environment.Substitution
import ConstraintHandling.Proofs.Term.Reflexivity
import ConstraintHandling.Proofs.Matching
import ConstraintHandling.Proofs.Binary64.Order
import ConstraintHandling.Proofs.Binary64.Integers
import ConstraintHandling.Proofs.Term.Priorities
import ConstraintHandling.Proofs.Term.Order
import ConstraintHandling.Proofs.Program.WellFormed
import ConstraintHandling.Proofs.Program.Anonymous
import ConstraintHandling.Proofs.Program.RuleText
import ConstraintHandling.Proofs.Session.Goals
import ConstraintHandling.Proofs.Arithmetic
import ConstraintHandling.Proofs.Environment.Orbit
import ConstraintHandling.Proofs.Logic.Connective
import ConstraintHandling.Proofs.Search.Tree
import ConstraintHandling.Proofs.Search.Checked
import ConstraintHandling.Proofs.Session.Lookups
