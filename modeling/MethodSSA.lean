import MethodSSA.Code.Listing
import MethodSSA.Program.Placeholder
import MethodSSA.Program.Registry
import MethodSSA.Proofs.Types.Built
import MethodSSA.Proofs.Promotion.Occurrence
import MethodSSA.Proofs.Promotion.Level
import MethodSSA.Proofs.Promotion.Covering
import MethodSSA.Proofs.KeyOrder
import MethodSSA.Proofs.Promotion.Membership
import MethodSSA.Proofs.Types.Growth
import MethodSSA.Proofs.Promotion.Stability
import MethodSSA.Proofs.Steps
import MethodSSA.Proofs.Draft.Forwarding
import MethodSSA.Proofs.Draft.TailCall
import MethodSSA.Proofs.Types.Texts
import MethodSSA.Proofs.Program.Promotion
import MethodSSA.Proofs.Program.Invocation
import MethodSSA.Proofs.Program.Resolution
import MethodSSA.Proofs.Machine.Execution
import MethodSSA.Proofs.Machine.Promotion
import MethodSSA.Proofs.Program.Entries
import MethodSSA.Proofs.Program.Registry
import MethodSSA.Proofs.Program.Runs
import MethodSSA.Proofs.Transitions
import MethodSSA.Proofs.Draft.Moves
import MethodSSA.Proofs.Draft.Edges
import MethodSSA.Proofs.Draft.Assignment
import MethodSSA.Proofs.Draft.Finishing
import MethodSSA.Proofs.Types.Extension
import MethodSSA.Proofs.Draft.Quiet
import MethodSSA.Proofs.Program.Making
import MethodSSA.Proofs.Program.Ledger
import MethodSSA.Proofs.Program.History
import MethodSSA.Proofs.Draft.Following
import MethodSSA.Proofs.Program.Completion
import MethodSSA.Proofs.Program.Failure
import MethodSSA.Proofs.Types.Course
import MethodSSA.Proofs.Types.Identity
import MethodSSA.Proofs.Types.Definition
import MethodSSA.Proofs.Draft.Frozen
import MethodSSA.Proofs.Draft.Typing
import MethodSSA.Proofs.Draft.Writing
import MethodSSA.Proofs.Draft.WellTyped
import MethodSSA.Proofs.Code.Verdict
import MethodSSA.Proofs.Code.Check
import MethodSSA.Proofs.Draft.Appending
import MethodSSA.Proofs.Draft.Selecting
import MethodSSA.Proofs.Draft.Relaying
import MethodSSA.Proofs.Program.Relays
import MethodSSA.Proofs.Draft.Boxing
import MethodSSA.Proofs.Program.Boxed
import MethodSSA.Proofs.Draft.Converting
import MethodSSA.Proofs.Draft.Recovery
import MethodSSA.Proofs.Draft.Reloading
import MethodSSA.Proofs.Draft.Comparing
import MethodSSA.Proofs.Promotion.Rounds
import MethodSSA.Proofs.Promotion.Indirection
import MethodSSA.Proofs.Types.Nesting
