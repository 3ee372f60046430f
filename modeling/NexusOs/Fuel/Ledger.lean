import NexusOs.Lib.Table
import NexusOs.Lib.Utf8

/-!
# The fuel ledger of an agent

`fuel_hardening.rs`: the monthly budget, the detector of burn anomalies, and the ledger of what an
agent spends, in total and by model. Its audit events are best effort and left out, and with them
the name of the budget period.
-/

namespace NexusOs.Fuel

open Utf8

/-- `u64::MAX`. -/
def maxU64 : UInt64 := 0xFFFFFFFFFFFFFFFF

/-- `u64::saturating_add`. -/
def saturatingAdd (a b : UInt64) : UInt64 := if a.toNat + b.toNat < 2 ^ 64 then a + b else maxU64

/-- `u64::saturating_mul`. -/
def saturatingMul (a b : UInt64) : UInt64 := if a.toNat * b.toNat < 2 ^ 64 then a * b else maxU64

/-- `u64::saturating_sub`. -/
def saturatingSub (a b : UInt64) : UInt64 := if b ≤ a then a - b else 0

theorem toNat_add_of_lt {a b : UInt64} (h : a.toNat + b.toNat < 2 ^ 64) :
    (a + b).toNat = a.toNat + b.toNat := by
  exact Nat.mod_eq_of_lt h

theorem toNat_saturatingAdd_of_lt {a b : UInt64} (h : a.toNat + b.toNat < 2 ^ 64) :
    (saturatingAdd a b).toNat = a.toNat + b.toNat := by
  rw [saturatingAdd, if_pos h, toNat_add_of_lt h]

theorem toNat_saturatingSub (a b : UInt64) : (saturatingSub a b).toNat = a.toNat - b.toNat := by
  by_cases h : b ≤ a
  · rw [saturatingSub, if_pos h, UInt64.toNat_sub_of_le _ _ h]
  rw [saturatingSub, if_neg h]
  have hlt := UInt64.le_iff_toNat_le.not.mp h
  simp only [UInt64.toNat_zero]
  omega

/-- `ALERT_THRESHOLDS`. -/
def alertThresholds : List UInt64 := [70, 100, 120]

/-- `percent_ceiling`. -/
def percentCeiling (value percent : UInt64) : UInt64 :=
  saturatingAdd (saturatingMul value percent) 99 / 100

/-- `MonthlyBudget`. -/
structure MonthlyBudget where
  capUnits : UInt64
  spentUnits : UInt64
  alertsEmitted : List UInt64

/-- `MonthlyBudget::new`. -/
def MonthlyBudget.new (capUnits : UInt64) : MonthlyBudget where
  capUnits := if capUnits < 1 then 1 else capUnits
  spentUnits := 0
  alertsEmitted := []

/-- `MonthlyBudget::record_spend`. -/
def MonthlyBudget.recordSpend (b : MonthlyBudget) (units : UInt64) : MonthlyBudget :=
  let spent := saturatingAdd b.spentUnits units
  let crossed := alertThresholds.filter fun threshold =>
    !b.alertsEmitted.contains threshold && percentCeiling b.capUnits threshold ≤ spent
  { b with spentUnits := spent, alertsEmitted := b.alertsEmitted ++ crossed }

/-- `MonthlyBudget::exceeds_cap`. -/
def MonthlyBudget.exceedsCap (b : MonthlyBudget) : Bool := b.capUnits < b.spentUnits

/-- `AnomalyKind`. -/
inductive AnomalyKind where
  | spike
  | slope
  deriving DecidableEq

/-- `AnomalyEvent`. -/
structure AnomalyEvent where
  kind : AnomalyKind
  costUnits : UInt64
  baselineCostPerCall : UInt64
  spikeFactorX100 : UInt64
  windowTotalUnits : UInt64
  windowCalls : Nat

/-- `BurnAnomalyDetector`. -/
structure BurnAnomalyDetector where
  baselineCostPerCall : UInt64 := 100
  spikeFactorX100 : UInt64 := 500
  slopeThreshold : UInt64 := 1200
  windowCalls : Nat := 4
  history : List UInt64 := []

/-- `BurnAnomalyDetector::observe`. -/
def BurnAnomalyDetector.observe (d : BurnAnomalyDetector) (costUnits : UInt64) :
    Option AnomalyEvent × BurnAnomalyDetector :=
  let pushed := d.history ++ [costUnits]
  let history := pushed.drop (pushed.length - d.windowCalls)
  let windowTotal := history.foldl saturatingAdd 0
  let event (kind : AnomalyKind) : AnomalyEvent :=
    { kind, costUnits, baselineCostPerCall := d.baselineCostPerCall
      spikeFactorX100 := d.spikeFactorX100, windowTotalUnits := windowTotal
      windowCalls := history.length }
  let spike := 0 < d.baselineCostPerCall ∧ 0 < d.spikeFactorX100 ∧
    saturatingMul d.baselineCostPerCall d.spikeFactorX100 ≤ saturatingMul costUnits 100
  let slope := 0 < d.windowCalls ∧ history.length = d.windowCalls ∧ d.slopeThreshold ≤ windowTotal
  let found := if spike then some (event .spike) else if slope then some (event .slope) else none
  (found, { d with history })

/-- `FuelViolation`. -/
inductive FuelViolation where
  | overMonthlyCap
  | anomalyDetected
  | providerTokenMismatch
  deriving DecidableEq

/-- `ModelSpend`, under its model. -/
structure ModelSpend where
  inputTokens : UInt64 := 0
  outputTokens : UInt64 := 0
  spentUnits : UInt64 := 0
  calls : UInt64 := 0

/-- The entry of a model after one more call. -/
def ModelSpend.add (entry : ModelSpend) (inputTokens outputTokens : UInt32) (costUnits : UInt64) :
    ModelSpend where
  inputTokens := saturatingAdd entry.inputTokens inputTokens.toUInt64
  outputTokens := saturatingAdd entry.outputTokens outputTokens.toUInt64
  spentUnits := saturatingAdd entry.spentUnits costUnits
  calls := saturatingAdd entry.calls 1

/-- `AgentFuelLedger`. -/
structure AgentFuelLedger where
  budget : MonthlyBudget
  detector : BurnAnomalyDetector := {}
  anomalies : List AnomalyEvent := []
  halts : Nat := 0
  modelBreakdown : Table Text ModelSpend := Table.empty

/-- `halts.saturating_add(1)` of a `u32`. -/
def addHalt (halts : Nat) : Nat := min (halts + 1) (2 ^ 32 - 1)

/-- `AgentFuelLedger::new` with the default detector. -/
def AgentFuelLedger.new (capUnits : UInt64) : AgentFuelLedger := { budget := .new capUnits }

/-- `record_llm_spend` of a counted spend: what the detector and the cap say. -/
def AgentFuelLedger.judge (l : AgentFuelLedger) (costUnits : UInt64) :
    Except FuelViolation Unit × AgentFuelLedger :=
  let (found, detector) := l.detector.observe costUnits
  match found with
  | some anomaly =>
    (.error .anomalyDetected,
      { l with detector, anomalies := l.anomalies ++ [anomaly], halts := addHalt l.halts })
  | none =>
    if l.budget.exceedsCap then
      (.error .overMonthlyCap, { l with detector, halts := addHalt l.halts })
    else (.ok (), { l with detector })

/-- `AgentFuelLedger::record_llm_spend`. -/
def AgentFuelLedger.recordLlmSpend (l : AgentFuelLedger) (model : Text)
    (inputTokens outputTokens : UInt32) (costUnits : UInt64) :
    Except FuelViolation Unit × AgentFuelLedger :=
  let entry := (l.modelBreakdown.get? model).getD {}
  { l with
    budget := l.budget.recordSpend costUnits
    modelBreakdown :=
      l.modelBreakdown.insert model (entry.add inputTokens outputTokens costUnits) }.judge costUnits

/-- `AgentFuelLedger::register_violation`. -/
def AgentFuelLedger.registerViolation (l : AgentFuelLedger) : AgentFuelLedger :=
  { l with halts := addHalt l.halts }

/-- `FuelAuditReport`, as far as a ledger is made from it. -/
structure FuelAuditReport where
  capUnits : UInt64
  spentUnits : UInt64
  anomalies : List AnomalyEvent
  halts : Nat
  modelBreakdown : List (Text × ModelSpend)

/-- `AgentFuelLedger::from_report`. -/
def AgentFuelLedger.fromReport (report : FuelAuditReport) : AgentFuelLedger where
  budget :=
    let cap := if report.capUnits < 1 then 1 else report.capUnits
    { capUnits := cap
      spentUnits := report.spentUnits
      alertsEmitted := alertThresholds.filter fun threshold =>
        percentCeiling cap threshold ≤ report.spentUnits }
  anomalies := report.anomalies
  halts := report.halts
  modelBreakdown := report.modelBreakdown.foldl (fun t e => t.insert e.1 e.2) Table.empty

/-- The units spent by all models. -/
def AgentFuelLedger.unitsByModel (l : AgentFuelLedger) : Nat :=
  l.modelBreakdown.sum fun entry => entry.spentUnits.toNat

end NexusOs.Fuel
