import NexusOs.Lib.Utf8

/-!
# Evidence records

The phases of `authority/evidence.rs`, and a record as the evidence store takes it: its phase, its
commitment and its canonical JSON, into which every other field goes.
-/

namespace NexusOs.Evidence

open Utf8

/-- `EvidencePhase`. -/
inductive EvidencePhase where
  | runOpened
  | runCancelled
  | emergencyStop
  | resumed
  | grantIssued
  | grantDeclined
  | grantRevoked
  | prepared
  | denied
  | approvalDeclined
  | approved
  | authorized
  | started
  | finished
  | expired
  | revoked
  | leaseIssued
  | credentialReleased
  | displayStarted
  | displayStopped
  | kernelHalt
  | missionConsented
  | missionDeclined
  | agentDoorOpened
  | agentDoorDeclined
  | missionResumeConfirmed
  | missionResumeDeclined
  | doorHalted
  | modelRegistered
  | modelCall
  deriving DecidableEq

/-- `EvidencePhase::as_str`. -/
def EvidencePhase.asStr : EvidencePhase → Text
  | .runOpened => "run_opened"
  | .runCancelled => "run_cancelled"
  | .emergencyStop => "emergency_stop"
  | .resumed => "resumed"
  | .grantIssued => "grant_issued"
  | .grantDeclined => "grant_declined"
  | .grantRevoked => "grant_revoked"
  | .prepared => "prepared"
  | .denied => "denied"
  | .approvalDeclined => "approval_declined"
  | .approved => "approved"
  | .authorized => "authorized"
  | .started => "started"
  | .finished => "finished"
  | .expired => "expired"
  | .revoked => "revoked"
  | .leaseIssued => "lease_issued"
  | .credentialReleased => "credential_released"
  | .displayStarted => "display_started"
  | .displayStopped => "display_stopped"
  | .kernelHalt => "kernel_halt"
  | .missionConsented => "mission_consented"
  | .missionDeclined => "mission_declined"
  | .agentDoorOpened => "agent_door_opened"
  | .agentDoorDeclined => "agent_door_declined"
  | .missionResumeConfirmed => "mission_resume_confirmed"
  | .missionResumeDeclined => "mission_resume_declined"
  | .doorHalted => "door_halted"
  | .modelRegistered => "model_registered"
  | .modelCall => "model_call"

/-- `EvidenceRecord`, sealed, with the text of its `to_json`. -/
structure EvidenceRecord where
  phase : EvidencePhase
  commitment : Option Text
  json : Text
  deriving DecidableEq

/-- `EndStatus`. -/
inductive EndStatus where
  | recorded (seq : Nat)
  | owed
  | uncertain
  deriving DecidableEq

end NexusOs.Evidence
