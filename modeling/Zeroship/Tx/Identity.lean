import Mathlib.Data.Finset.Basic
import Mathlib.Data.String.Basic

/-! Authority: who a transaction was admitted for, and the classifier.

Every observation of the authority record runs through one total function,
`classify`, which compares identity before lifecycle and lifecycle before epoch. -/
namespace Zeroship.Tx

/-- The subject a binding's authority is about; only ever compared for equality. -/
structure AuthorityIdentity where
  key : String
  incarnation : UInt64
deriving DecidableEq

/-- The cluster and recovery timeline answering. -/
structure AuthorityDomain where
  systemIdentifier : UInt64
  timelineId : UInt32
deriving DecidableEq

structure SchemaEpoch where
  value : UInt64
deriving DecidableEq

inductive LifecycleState
  | stable | changing | deprovisioned

/-- A mask ceiling: the unmask actor kinds it permits. -/
structure MaskCeiling where
  allowed : Finset String

/-- The greatest lower bound of two ceilings. -/
def MaskCeiling.meet (a b : MaskCeiling) : MaskCeiling := ⟨a.allowed ∩ b.allowed⟩

structure ExpectedAuthority where
  identity : AuthorityIdentity
  domain : AuthorityDomain
  epoch : SchemaEpoch

structure ObservedAuthority where
  identity : AuthorityIdentity
  domain : AuthorityDomain
  epoch : SchemaEpoch
  lifecycle : LifecycleState
  ceiling : MaskCeiling

inductive DenyReason
  | appDeprovisioned | staleAppIncarnation | authorityDomainMismatch | grantRevoked
deriving DecidableEq

inductive Verdict
  | current (ceiling : MaskCeiling)
  | reResolve
  | deny (reason : DenyReason)

/-- Classify one observation against what the binding captured. -/
def classify (observed : ObservedAuthority) (expected : ExpectedAuthority) : Verdict :=
  if observed.domain ≠ expected.domain then .deny .authorityDomainMismatch
  else if observed.identity ≠ expected.identity then .deny .staleAppIncarnation
  else match observed.lifecycle with
    | .deprovisioned => .deny .appDeprovisioned
    | .changing => .reResolve
    | .stable => if observed.epoch ≠ expected.epoch then .reResolve else .current observed.ceiling

/-- The routed authority an event carries. -/
structure EventAuthority where
  identity : AuthorityIdentity
  domain : AuthorityDomain

end Zeroship.Tx
