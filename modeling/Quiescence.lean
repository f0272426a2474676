import Quiescence.Failure.Wire
import Quiescence.Token
import Quiescence.Raised
import Quiescence.Waiting
import Quiescence.Network.Pairwise
import Quiescence.Network.Mailroom
import Quiescence.World.Release
import Quiescence.Program.Run
import Quiescence.Cluster
import Quiescence.Proofs.Handles
import Quiescence.Proofs.Evaluations
import Quiescence.Proofs.Watch
import Quiescence.Proofs.Identities.Apart
import Quiescence.Proofs.Inbox
import Quiescence.Proofs.Refusal
import Quiescence.Proofs.Simulation.Refinement
import Quiescence.Proofs.Refusal.Exact
import Quiescence.Proofs.Refusal.Naming
import Quiescence.Proofs.Refusal.Recount
import Quiescence.Proofs.Consumption
import Quiescence.Proofs.Failure.Canonical
import Quiescence.Proofs.Tally.Reports
import Quiescence.Proofs.Failure.Capture
import Quiescence.Proofs.Activities.Seen
import Quiescence.Proofs.Token
