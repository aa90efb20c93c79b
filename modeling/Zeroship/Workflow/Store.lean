import Zeroship.Workflow.Job

/-! The tables of the workflow manager, and what its transactions share.

Every transaction on an app holds the lock of its scope. A job gets a ticket of the scope's
dispatch cursor when it is published and a new one whenever it is claimed. -/
namespace Zeroship.Workflow

open Base

structure Scope where
  id : AppId
  executionZoneId : ZoneId
  dispatchCursor : Int

inductive ScopeState
  | opened | closing | retired | abandoned
deriving DecidableEq

/-- Who answers for the recovery of an app, and how far its closing has come. -/
structure Responsibility where
  id : AppId
  deploymentId : DeploymentId
  (activationRevision ingressEpoch : Int)
  state : ScopeState
  closingWatermark : Option Int
  closeJobId : Option JobId
  activeAt : Int
  closeAfter : Option Int
  closeAttempts : Int

inductive DutyKind
  | reconcile | collect
deriving DecidableEq

def DutyKind.operation : DutyKind → JobOperation
  | .reconcile => .reconcile
  | .collect => .collect

structure Duty where
  appId : AppId
  kind : DutyKind
  nextDueAt : Int
  pendingJobId : Option JobId

structure Store where
  jobs : List Job
  scopes : List Scope
  responsibilities : List Responsibility
  duties : List Duty

def Store.empty : Store := ⟨[], [], [], []⟩

/-- What a transaction learns from the tables that no operation here writes: holds on
deployments, management commands and their barriers, the calendar. -/
structure Guards where
  requireHeld : AppId → DeploymentId → Except Error Unit
  prepared : AppId → DeploymentId → Except Error Bool
  validatePending : AppId → Except Error Unit
  validateDelivery : Job → Except Error Unit
  validateJob : JobSpec → Except Error Unit
  settleManagement : JobSpec → JobOutcome → Bool → Except Error Unit
  /-- No unfinished activation and no management command stands before the job. -/
  eligible : Job → Bool
  archived : AppId → Except Error Bool

/-- The deployment of a job, if it needs one, is held. -/
def Guards.requireDeployment (guards : Guards) (spec : JobSpec) : Except Error Unit :=
  match spec.deploymentId with
  | some deployment => guards.requireHeld spec.appId deployment
  | none => .ok ()

/-- The sizes and the digest of what is encoded. -/
structure Codec where
  specBytes : JobSpec → Nat
  settlementBytes : Delivery → JobOutcome → Nat
  settlementDigest : JobSpec → WorkerId → Int → JobOutcome → String

/-- Bounds of the queue, the durations in milliseconds. -/
structure Options where
  (lease maxAttempt maxMetadataBytes deferBackoff deferBackoffMax : Nat)

structure Queue where
  options : Options
  codec : Codec

/-- A duration as a 64-bit integer. -/
def millis (e : Error) (d : Nat) : Except Error Int := if d < 2 ^ 63 then .ok d else .error e

namespace Queue

def encode (q : Queue) (bytes : Nat) : Except Error Unit := demand (bytes ≤ q.options.maxMetadataBytes) .capacity

end Queue

namespace Store

variable (s : Store) (app : AppId)

/-- A scope that exists keeps its zone, and the call fails if that is another one. -/
def registerScope (zone : ZoneId) : Except Error Store :=
  let s := if s.scopes.any (·.id = app) then s else {s with scopes := s.scopes ++ [⟨app, zone, 0⟩]}
  match s.scopes.find? (·.id = app) with
  | none => .error .storage
  | some scope => if scope.executionZoneId = zone then .ok s else .error .conflict

def lockScope : Except Error Unit :=
  match s.scopes.countP (·.id = app) with
  | 1 => .ok ()
  | 0 => .error .denied
  | _ => .error .storage

def dispatchCursor (s : Store) (app : AppId) : Except Error Int := do
  let scope ← orElse .storage (s.scopes.find? (·.id = app))
  demand (0 ≤ scope.dispatchCursor) .storage
  pure scope.dispatchCursor

/-- The next ticket of the app. A claim gives up the one that the job had. -/
def nextDispatchOrder (previous : Option Int) : Except Error (Int × Store) := do
  let cursor ← s.dispatchCursor app
  demand (previous.all fun order => 0 < order && order ≤ cursor) .storage
  let next ← orElse .capacity (checkedAdd cursor 1)
  let bump (scope : Scope) : Scope :=
    if scope.id = app ∧ scope.dispatchCursor = cursor then {scope with dispatchCursor := next} else scope
  demand (s.scopes.countP (fun scope => scope.id = app ∧ scope.dispatchCursor = cursor) = 1) .storage
  pure (next, {s with scopes := s.scopes.map bump})

def load (id : JobId) : Option Job :=
  s.jobs.find? fun job => job.id = id && job.appId = app

/-- Changes the one row that a filter selects. -/
def update (filter : Job → Bool) (patch : Job → Job) : Except Error Store :=
  match s.jobs.countP filter with
  | 1 => .ok {s with jobs := s.jobs.map fun job => if filter job then patch job else job}
  | 0 => .error .conflict
  | _ => .error .storage

/-- The row of a delivery that is still held by its worker. -/
def fence (delivery : Delivery) (job : Job) : Bool :=
  job.id = delivery.job.id && job.appId = delivery.job.appId && job.state = .leased &&
    job.workerId = some delivery.workerId && job.attempt = delivery.attempt

variable (q : Queue) (guards : Guards) (spec : JobSpec)

/-- The job was published before, with this content. -/
def existing : Except Error Bool := do
  q.encode (q.codec.specBytes spec)
  match s.load spec.appId spec.id with
  | none => pure false
  | some job =>
    demand (job.spec = spec) .conflict
    if job.state ≠ .settled then guards.requireDeployment spec
    pure true

def insert (now : Int) : Except Error Store := do
  if ← s.existing q guards spec then return s
  guards.requireDeployment spec
  let (order, s) ← s.nextDispatchOrder spec.appId none
  -- the identity is the primary key of the table
  demand (¬ s.jobs.any (·.id = spec.id)) .conflict
  pure {s with jobs := s.jobs ++ [Job.published spec order now]}

end Store

end Zeroship.Workflow
