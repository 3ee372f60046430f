import NexusOs.Audit.Verified
import NexusOs.Authority.Dialog
import NexusOs.CodingRun.Diff
import NexusOs.Evidence.Store.Verified
import NexusOs.Fuel.Capped
import NexusOs.Fuel.Conserved
import NexusOs.Fuel.Scheduled
import NexusOs.Fuel.Violated
import NexusOs.HostSession.Closed
import NexusOs.Kernel.TimeMachine
import NexusOs.Ledger.Acknowledgements
import NexusOs.Ledger.Closing
import NexusOs.Ledger.Constraints
import NexusOs.Ledger.Corrections
import NexusOs.Ledger.Refusals
import NexusOs.Ledger.Tokens
import NexusOs.Mother.Chain
import NexusOs.Mother.PageBuilder.Published
import NexusOs.Mother.Replay.Consent
import NexusOs.Mother.Replay.Hold
import NexusOs.Mother.Replay.Proof
import NexusOs.TypedDecision.Normalize
import NexusOs.TypedDecision.Slot
import NexusOs.Workspace.Delegation
