import Zeroship.Workflow.Job

/-! The policy of an app: what it may do, and the limits it is held to.

A policy is complete: every limit is given. It is checked whole before it grants anything. -/
namespace Zeroship.Authority
open Workflow

def maxInputBytesCeiling : Nat := 1024 * 1024
def maxJournalBytesCeiling : Nat := 16 * 1024 * 1024
def maxPayloadBytesCeiling : Nat := 64 * 1024 * 1024
def maxChildOutputBytesCeiling : Nat := 8 * 1024 * 1024
def signalCapabilityMaxLifetimeSeconds : Int := 604800

structure AppPolicy where
  admission : Bool := true
  dispatch : Bool := true
  ingress : Bool := true
  maxLiveRuns : Int := 10000
  maxChildDepth : Int := 16
  maxRunning : Int := 16
  maxInputBytes : Nat := 1024 * 1024
  maxFrontier : Nat := 256
  maxJournalBytes : Nat := 16 * 1024 * 1024
  maxChildOutputBytes : Nat := maxChildOutputBytesCeiling
  maxPayloadBytes : Int := 64 * 1024 * 1024
  maxPayloadObjects : Int := 100000
  maxPayloadStorageBytes : Int := 1024 * 1024 * 1024
  payloadStagingRetentionMs : Int := 86400000
  maxStepAttempts : Int := 8
  retryDelayMs : Int := 1000
  maxDeliveryAttempts : Int := 8
  maxStuckDispatches : Int := 4
  maxSchedules : Nat := 64
  maxScheduleBackfill : Nat := 32
  minScheduleIntervalMs : Int := 1000
  maxSignalTokenLifetimeSeconds : Int := 86400
  leaseMs : Int := 60000
deriving DecidableEq

namespace AppPolicy

def validate (p : AppPolicy) : Bool :=
  !(p.maxLiveRuns < 0
    || p.maxChildDepth < 0
    || p.maxRunning < 0
    || p.maxInputBytes = 0
    || p.maxInputBytes > maxInputBytesCeiling
    || p.maxFrontier = 0
    || p.maxJournalBytes = 0
    || p.maxJournalBytes > maxJournalBytesCeiling
    || p.maxChildOutputBytes = 0
    || p.maxChildOutputBytes > maxChildOutputBytesCeiling
    || p.maxPayloadBytes ≤ 0
    || p.maxPayloadBytes > maxPayloadBytesCeiling
    || p.maxPayloadObjects ≤ 0
    || p.maxPayloadStorageBytes < p.maxPayloadBytes
    || p.payloadStagingRetentionMs ≤ 0
    || p.maxStepAttempts ≤ 0
    || p.retryDelayMs ≤ 0
    || p.maxDeliveryAttempts ≤ 0
    || p.maxStuckDispatches ≤ 0
    || p.maxStuckDispatches ≥ p.maxDeliveryAttempts
    || p.maxScheduleBackfill = 0
    || p.minScheduleIntervalMs ≤ 0
    || p.maxSignalTokenLifetimeSeconds ≤ 0
    || p.maxSignalTokenLifetimeSeconds > signalCapabilityMaxLifetimeSeconds
    || p.leaseMs ≤ 0)

/-- The limits a policy has when none is given pass its own check. -/
theorem validate_default : validate {} := by decide

end AppPolicy

end Zeroship.Authority
