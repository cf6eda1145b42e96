import TreeLang.Main
import TreeLang.Proofs.Term.Agreement
import TreeLang.Proofs.Term.Expansion
import TreeLang.Proofs.Term.Substitution
import TreeLang.Proofs.Typing.Soundness
import TreeLang.Proofs.Unification.Completeness
import TreeLang.Proofs.Unification.Divergence
import TreeLang.Proofs.Unification.Soundness
import TreeLang.Proofs.Unification.Termination
import TreeLang.Term.Codec
import TreeLang.Tree.Script
import TreeLang.Proofs.Scope.Lexical
import TreeLang.Proofs.Scope.Namespace
import TreeLang.Proofs.Scope.Simulation
import TreeLang.Proofs.Tree.Calls
import TreeLang.Proofs.Tree.Codec
import TreeLang.Proofs.Scope.Resolution
import TreeLang.Proofs.Library.Graph
import TreeLang.Proofs.Library.Sorting
import TreeLang.Proofs.Tree.Renumbering
import TreeLang.Proofs.Library.Gathering
import TreeLang.Proofs.Library.Recording
import TreeLang.Proofs.Library.Splicing
import TreeLang.Proofs.Library.Ids
import TreeLang.Proofs.Library.Reachability
import TreeLang.Proofs.Library.Cycles
import TreeLang.Proofs.Library.Failures
import TreeLang.Proofs.Library.Building
import TreeLang.Proofs.Evaluation.Recursion
import TreeLang.Proofs.Scope.Targets
import TreeLang.Proofs.Evaluation.Writing
import TreeLang.Proofs.Evaluation.Interpreter
import TreeLang.Proofs.Evaluation.Erasure
import TreeLang.Proofs.Evaluation.Comparisons
import TreeLang.Proofs.Term.Generics
import TreeLang.Proofs.Tree.Visits
import TreeLang.Proofs.Typing.Naming
import TreeLang.Proofs.Typing.Mentions
import TreeLang.Proofs.Typing.Settling
import TreeLang.Proofs.Typing.Lockstep
import TreeLang.Proofs.Typing.Uses
import TreeLang.Proofs.Term.Numbering
import TreeLang.Proofs.Typing.Parameters
import TreeLang.Proofs.Evaluation.Members
import TreeLang.Proofs.Evaluation.Arguments
import TreeLang.Proofs.Tree.Renaming
import TreeLang.Proofs.Scope.Renaming
import TreeLang.Proofs.Typing.Renaming
import TreeLang.Proofs.Tree.Reidentifying
import TreeLang.Proofs.Evaluation.Renaming
import TreeLang.Proofs.Evaluation.Skipping
import TreeLang.Proofs.Scope.Visible
import TreeLang.Proofs.Scope.Replacing
import TreeLang.Proofs.Scope.Suggestions
import TreeLang.Proofs.Tree.Replacing
import TreeLang.Proofs.Tree.Stopping
import TreeLang.Proofs.Scope.Actions
import TreeLang.Proofs.Scope.Keys
import TreeLang.Proofs.Scope.Noting
import TreeLang.Proofs.Scope.Registering
import TreeLang.Proofs.Scope.Containment
import TreeLang.Proofs.Scope.Loops
import TreeLang.Proofs.Scope.Mirroring
import TreeLang.Proofs.Typing.Rescoping
import TreeLang.Proofs.Typing.Appending
import TreeLang.Proofs.Scope.Beneath
import TreeLang.Proofs.Library.Capturing
import TreeLang.Proofs.Tree.Numbering
import TreeLang.Proofs.Tree.LocalEdits
import TreeLang.Proofs.Library.Ordering
import TreeLang.Proofs.Library.Iterating
import TreeLang.Proofs.Term.Freshness
import TreeLang.Proofs.Scope.History
import TreeLang.Proofs.Scope.Shadowing
import TreeLang.Proofs.Scope.Updates
import TreeLang.Proofs.Scope.Flattening
import TreeLang.Proofs.Typing.Enclosing
import TreeLang.Proofs.Typing.Provenance
import TreeLang.Proofs.Typing.WellScoped
import TreeLang.Proofs.Value.Hexadecimal
import TreeLang.Proofs.Scope.Places
import TreeLang.Proofs.Scope.Hiding
import TreeLang.Proofs.Scope.Bodies
import TreeLang.Proofs.Tree.Drawing
import TreeLang.Proofs.Tree.Steps
import TreeLang.Proofs.Tree.Assembly
import TreeLang.Proofs.Evaluation.Records
import TreeLang.Proofs.Evaluation.Effects
import TreeLang.Proofs.Evaluation.Constructing
import TreeLang.Proofs.Tree.Balance
import TreeLang.Proofs.Scope.Levels
import TreeLang.Proofs.Typing.Levels
