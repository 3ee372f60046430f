import NexusOs.InertPage.Codes

/-!
# The closed codes of Mother's records

The types of `evidence.rs`, `lane.rs`, `contract.rs` and `verifier.rs` that a journal entry
carries: roles, kinds of effects, the reasons a mission ends for, and what a settlement came
to. A code is a value of its type; only its serialized form is a text.
-/

namespace NexusOs.Mother

/-- `LaneRole`. -/
inductive LaneRole where
  | researcherA
  | researcherB
  | skeptic
  | builder
  | verifier
  | sentinel
  deriving DecidableEq

/-- `EffectKind`. -/
inductive EffectKind where
  | file
  | network
  | process
  | modelTool
  | spend
  deriving DecidableEq

/-- `BrokerClass`: a broker or port class; `unknown` is anything outside the registry. -/
inductive BrokerClass where
  | unknownCommitment
  | unknownRun
  | unknownGrant
  | unknownLease
  | wrongAgent
  | wrongRun
  | notPending
  | notAuthorized
  | expired
  | stale
  | grantNotLive
  | noCoveringGrant
  | runCancelled
  | runNotActive
  | emergencyStopped
  | resumeSuperseded
  | approvalRequired
  | approvalNotApplicable
  | approvalMismatch
  | declined
  | targetChanged
  | parametersChanged
  | evidenceUnavailable
  | capacity
  | notMember
  | halted
  | closed
  | invalidAction
  | unavailable
  | portFenced
  | noBrokerRoute
  | missionCancelled
  | actionNotHeld
  | approvalOutcomeUnknown
  | failed
  | cancelled
  | revoked
  | notAdmitted
  | noConsent
  | alreadyAdmitted
  | fileExists
  | changeTooLargeToShow
  | unsupportedMountTopology
  | recoveryRequired
  | factsInvalid
  | fileTypeNotAllowed
  | pageNotInert
  | pageFactMissing
  | modelNotRegistered
  | modelIdentityMismatch
  | modelNotLocal
  | modelInvalidAddress
  | modelInvalidModelName
  | modelCloudName
  | modelCloudEnabled
  | modelNotInstalled
  | modelDigestMismatch
  | modelRuntimeMismatch
  | modelRemote
  | modelConfigMismatch
  | modelUnavailable
  | modelTimeout
  | modelRequestTooLarge
  | modelResponseTooLarge
  | modelMalformed
  | modelTruncated
  | modelToolCalls
  | modelThinkingLeaked
  | modelEmptyContent
  | modelOverBudget
  | modelStopped
  | modelCancelled
  | modelLate
  | modelUnsafeDelimiter
  | unknown
  deriving DecidableEq

/-- `MotherRefusal`: Mother's own refusal of a lane's effect, before any port call. -/
inductive MotherRefusal where
  | forbiddenEffect (kind : EffectKind)
  | budgetMoneyZero
  | spendNotSupported
  | noRequestedFolder
  | fileRequestNotRelative
  | fileNameInvalid
  | fileNotText
  | fileTooLarge
  | fileTooManyLines
  | fileFolderNotWorkspace
  deriving DecidableEq

/-- `PublicationCause`: what ended a publication's authority after the broker's final check. -/
inductive PublicationCause where
  | emergencyStop
  | cancelled
  | revoked
  | expired
  | commitmentExpired
  | writeGrantRevoked
  | writeGrantExpired
  | unknown
  deriving DecidableEq

/-- `BlockReason`: why a mission was blocked. -/
inductive BlockReason where
  | waitUnknown
  | approvalNotClosed
  | waitedRestUnreadable
  | budgetTime
  | budgetModelCalls
  | laneIdentityChanged
  | tooManyEffects
  | journalFailed
  | awaitingOwnerApproval
  | effectOutcomeUnknown
  | phaseInterrupted
  | laneHalt (role : LaneRole)
  | refused (refusal : MotherRefusal)
  | brokerRefused (class_ : BrokerClass)
  | filesConsentUnverifiable
  | filePublicationInterrupted (cause : PublicationCause)
  | filePublicationTimeBudget
  | filePublicationOwnerStop
  | filePublicationRecoveryRequired
  | filePublicationUncertain
  | filePublicationDoorHalted
  | filePublicationApprovalDeadline
  | modelNotPinned
  | modelIdentityChanged
  | modelAdmissionRefused
  | receiptMissing
  deriving DecidableEq

/-- `StopReason`: why a mission was stopped. -/
inductive StopReason where
  | owner
  | emergencyStop
  | privateContentUnavailable
  | doorHalted
  | ended (reason : BlockReason)
  deriving DecidableEq

/-- `HeldReason`: why a mission is held. -/
inductive HeldReason where
  | uncleanShutdown
  deriving DecidableEq

/-- `CheckCode`: why a check of the page Verifier failed. -/
inductive CheckCode where
  | noPublication
  | publishedMismatch
  | pageNotInert (code : InertPage.RefusalCode)
  | policyChanged
  | factMissing (code : InertPage.FactCode)
  | nameNotVisible
  | hoursLineNotVisible (index : Nat)
  | phoneNotVisible
  | readerUnsupported
  | emailNotSupported
  deriving DecidableEq

/-- `VerifyCode`: a page verification's failure. -/
inductive VerifyCode where
  | identity
  | check (code : CheckCode)
  deriving DecidableEq

/-- `VerifyFailReason`: why the Verifier failed a mission. -/
inductive VerifyFailReason where
  | verifierFailed
  | verifierGaveNoVerdict
  | check (code : VerifyCode)
  deriving DecidableEq

/-- `FailReason`: why a lane failed a mission, or why a page's proof could not be recorded. -/
inductive FailReason where
  | laneFail (role : LaneRole)
  | receiptMissing
  | receiptPolicyMissing
  | deliverableInvalid
  deriving DecidableEq

/-- `LapseReason`: why a waited action will not run. -/
inductive LapseReason where
  | approvalExpired
  | approvalLapsed (class_ : BrokerClass)
  | ended (reason : BlockReason)
  deriving DecidableEq

/-- `ConsentRefusedReason`: why a consent answer was not taken. -/
inductive ConsentRefusedReason where
  | missionChanged
  | anotherRequest
  | brokerRefused (class_ : BrokerClass)
  deriving DecidableEq

/-- `SettledOutcome`: what the port said of a dispatched effect. -/
inductive SettledOutcome where
  | done
  | awaitingApproval
  | refused (class_ : BrokerClass)
  deriving DecidableEq

/-- `SettlementOutcome`: what a File's settlement found. -/
inductive SettlementOutcome where
  | published (recoveryRequired : Bool) (interrupted : List PublicationCause)
  | notPublished
  | uncertain
  deriving DecidableEq

/-- `SettlementEnd`: the mission's end in a settlement's terminal line. -/
inductive SettlementEnd where
  | block (reason : BlockReason)
  | stop (reason : StopReason)
  deriving DecidableEq

/-- `SettleCause`: why a File's settlement began, kept as its first cause. -/
inductive SettleCause where
  | stop (reason : StopReason)
  | timeBudget
  | ended (reason : BlockReason)
  deriving DecidableEq

/-- `SettlementOutcome::conclusive`: published, or confirmed not published. -/
def SettlementOutcome.conclusive : SettlementOutcome → Bool
  | .uncertain => false
  | _ => true

/-- `SettlementOutcome::ordinary_end`: how a File that may not simply continue ends on the
ordinary path. -/
def SettlementOutcome.ordinaryEnd : SettlementOutcome → Option SettlementEnd
  | .uncertain => some (.block .filePublicationUncertain)
  | .published true _ => some (.block .filePublicationRecoveryRequired)
  | .published false interrupted =>
    interrupted.head?.map fun cause => .block (.filePublicationInterrupted cause)
  | .notPublished => none

/-- `SettlementOutcome::deadline_end`: as on the ordinary path, a clean publication ending
`approval_deadline`. -/
def SettlementOutcome.deadlineEnd : SettlementOutcome → Option SettlementEnd
  | .published false [] => some (.block .filePublicationApprovalDeadline)
  | other => other.ordinaryEnd

/-- The block a published File ends with, by the settlement's first cause. -/
def SettleCause.publishedBlock : SettleCause → BlockReason
  | .stop .owner => .filePublicationOwnerStop
  | .stop .emergencyStop => .filePublicationInterrupted .emergencyStop
  | .stop .doorHalted => .filePublicationDoorHalted
  | .stop .privateContentUnavailable => .filePublicationInterrupted .unknown
  | .timeBudget => .filePublicationTimeBudget
  | .stop (.ended .budgetTime) => .filePublicationTimeBudget
  | .ended reason => reason
  | .stop (.ended reason) => reason

/-- `SettleCause::end`: how a settlement with this first cause ends, given its outcome. -/
def SettleCause.end (cause : SettleCause) : SettlementOutcome → SettlementEnd
  | .uncertain => .block .filePublicationUncertain
  | .published true _ => .block .filePublicationRecoveryRequired
  | .published false _ => .block cause.publishedBlock
  | .notPublished =>
    match cause with
    | .stop reason => .stop reason
    | .timeBudget => .block .budgetTime
    | .ended reason => .block reason

end NexusOs.Mother
