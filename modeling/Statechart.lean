import Statechart.Script.Bench
import Statechart.Script.Roster
import Statechart.Script.Session
import Statechart.Proofs.Queue
import Statechart.Proofs.Invariant
import Statechart.Proofs.Planning
import Statechart.Proofs.Construction
import Statechart.Proofs.Passes
import Statechart.Proofs.Depth
import Statechart.Proofs.Legality
import Statechart.Proofs.Crossings
import Statechart.Proofs.Identity
import Statechart.Proofs.Tracking
import Statechart.Proofs.Visits
import Statechart.Proofs.DryRun
import Statechart.Proofs.Completions
import Statechart.Proofs.Quiescence
import Statechart.Proofs.Compilation
import Statechart.Proofs.SimpleStates
import Statechart.Proofs.CompletionLoops
import Statechart.Proofs.Blame
import Statechart.Proofs.FailurePosition
import Statechart.Proofs.Bounds
import Statechart.Proofs.Sharing
import Statechart.Proofs.Rewrapping
import Statechart.Proofs.Orthogonality
import Statechart.Proofs.Lifecycle
import Statechart.Proofs.Validity
import Statechart.Proofs.Paths
import Statechart.Proofs.Limits
import Statechart.Proofs.Acceptance
import Statechart.Proofs.Brackets
import Statechart.Proofs.Routes
import Statechart.Proofs.Records
import Statechart.Proofs.Questions
import Statechart.Proofs.Unheeded
import Statechart.Proofs.Standstill
import Statechart.Proofs.Settling
import Statechart.Proofs.Queries
import Statechart.Proofs.Succession
import Statechart.Proofs.Selection
import Statechart.Proofs.Routing
import Statechart.Proofs.Poisoning
import Statechart.Proofs.ImplicitStates
import Statechart.Proofs.Drafts
import Statechart.Proofs.Building
import Statechart.Proofs.Negations
import Statechart.Proofs.Reachability
import Statechart.Proofs.FirstMatch
import Statechart.Proofs.CycleWalk
