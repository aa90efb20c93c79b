import Mathlib
import Zeroship.Base.Fallible

/-! Jobs of the workflow manager: what they ask for, how they end, and the row of a job.

A job belongs to an app. Workers take the jobs that run creator code, and the process that
owns the journal takes the others. -/
namespace Zeroship.Workflow

open Base

inductive Error
  | invalid | denied | conflict | contended | capacity | timeout | unavailable | storage

abbrev AppId := String
abbrev ZoneId := String
abbrev JobId := String
abbrev WorkerId := String
abbrev DeploymentId := String
abbrev RunId := String
abbrev RequestId := String

/-- Addition of 64-bit integers, if the sum is one. -/
def checkedAdd (a b : Int) : Option Int :=
  if -2 ^ 63 ≤ a + b ∧ a + b < 2 ^ 63 then some (a + b) else none

def orElse {α : Type} (e : Error) : Option α → Except Error α
  | some a => .ok a
  | none => .error e

inductive RunOperation
  | pause | resume | cancel
deriving DecidableEq

structure RestartTarget where
  name : String
  occurrence : Option Nat
deriving DecidableEq

inductive ManagementCommand
  | transition (operation : RunOperation)
  | restartStarted (start : Option RestartTarget)
  | restartLatest (deploymentId : DeploymentId)
deriving DecidableEq

inductive JobOperation
  | activate (deploymentId : DeploymentId) (revision : Int)
  | advance (deploymentId : DeploymentId) (runId : RunId) (generation : Nat) (revision : Int)
  | cron (deploymentId : DeploymentId) (scheduleId scheduleName : String) (requestId : RequestId) (runId : RunId)
      (revision scheduledAt : Int)
  | management (requestId : RequestId) (runId : RunId) (revision : Int) (command : ManagementCommand)
  | fanout (broadcastId : String) (revision : Int)
  | propagate (propagationId : String) (revision : Int)
  | releaseHold (deploymentId : DeploymentId)
  | close (epoch : Int)
  | reconcile | collect
deriving DecidableEq

/-- How a command on a run ended. The state of a run is written as it is on the wire. -/
inductive ManagementOutcome
  | applied (state : String)
  | restarted (state : String) (restartedFromOrdinal : Option Nat) (pinnedTo : DeploymentId)
  | notFound | conflict | denied
deriving DecidableEq

inductive JobOutcome
  | completed | waiting | rejected
  | management (outcome : ManagementOutcome)
  | closed (drained : Bool)
deriving DecidableEq

def ManagementCommand.answeredBy (command : ManagementCommand) : ManagementOutcome → Bool
  | .applied _ => match command with
    | .transition _ => true
    | .restartStarted _ | .restartLatest _ => false
  | .restarted .. => match command with
    | .transition _ => false
    | .restartStarted _ | .restartLatest _ => true
  | .notFound | .conflict | .denied => true

def JobOutcome.validFor : JobOutcome → JobOperation → Bool
  | .management outcome, .management _ _ _ command => command.answeredBy outcome
  | .closed _, .close _ => true
  | .management _, _ | .closed _, _ => false
  | _, .management .. | _, .close _ => false
  | .completed, _ | .waiting, _ | .rejected, _ => true

/-- The outcomes that a journal can commit for an operation. -/
def validOutcome (operation : JobOperation) (outcome : JobOutcome) : Bool :=
  outcome.validFor operation && match operation with
    | .activate .. => outcome = .completed
    | .advance .. | .management .. => true
    | .cron .. => outcome = .completed || outcome = .rejected
    | .close _ => match outcome with
      | .closed _ => true
      | _ => false
    | .reconcile | .collect | .fanout .. | .propagate .. | .releaseHold _ =>
      outcome = .completed || outcome = .waiting

structure JobSpec where
  id : JobId
  appId : AppId
  operation : JobOperation
  availableAt : Int
deriving DecidableEq

namespace JobSpec

/-- The deployment that must be held while the job can run. -/
def deploymentId (spec : JobSpec) : Option DeploymentId :=
  match spec.operation with
  | .activate d _ | .advance d .. | .cron d .. | .management _ _ _ (.restartLatest d) => some d
  | _ => none

/-- Running the job can commit new intents of the creator. -/
def producesIntents (spec : JobSpec) : Bool :=
  match spec.operation with
  | .activate .. | .advance .. | .cron .. | .management .. | .fanout .. | .propagate .. => true
  | .releaseHold _ | .close _ | .reconcile | .collect => false

end JobSpec

inductive Work
  | maintenance | creator

def JobOperation.work : JobOperation → Work
  | .advance .. => .creator
  | _ => .maintenance

/-- An enrolled worker, or a lane of the process that owns the journal. -/
inductive Claimant
  | worker | maintenance

def Claimant.admits : Claimant → Work → Bool
  | .worker, .creator | .maintenance, .maintenance => true
  | .worker, .maintenance | .maintenance, .creator => false

/-- A job handed to a worker. -/
structure Delivery where
  job : JobSpec
  workerId : WorkerId
  (attempt deadline : Int)

structure SettlementReceipt where
  jobId : JobId
  appId : AppId
  attempt : Int
  outcome : JobOutcome

inductive JobState
  | ready | leased | settled
deriving DecidableEq

/-- The row of a job. The columns that repeat parts of the specification are read off it. -/
structure Job where
  spec : JobSpec
  dispatchOrder : Int
  state : JobState
  attempt : Int
  /-- How many attempts have begun to execute, and the last of them. -/
  executionAttempts : Int
  executedAttempt : Option Int
  workerId : Option WorkerId
  (leaseDeadline leasedAt deferredUntil : Option Int)
  deferrals : Int
  outcome : Option JobOutcome
  settlementDigest : Option String
  createdAt : Int
deriving DecidableEq

namespace Job

def published (spec : JobSpec) (order now : Int) : Job :=
  { spec, dispatchOrder := order, state := .ready, attempt := 0, executionAttempts := 0, executedAttempt := none
    workerId := none, leaseDeadline := none, leasedAt := none, deferredUntil := none, deferrals := 0
    outcome := none, settlementDigest := none, createdAt := now }

def id (job : Job) : JobId := job.spec.id

def appId (job : Job) : AppId := job.spec.appId

/-- The lease has passed, in the sense of SQL: a lease without deadline has not. -/
def lapsed (job : Job) (now : Int) : Bool := job.leaseDeadline.any (· ≤ now)

def leasedAfter (job : Job) (now : Int) : Bool := job.state = .leased && job.leaseDeadline.any (now < ·)

def matchesDelivery (job : Job) (delivery : Delivery) : Except Error Unit :=
  demand (job.spec = delivery.job ∧ job.workerId = some delivery.workerId ∧ job.attempt = delivery.attempt) .conflict

def live (job : Job) (now : Int) : Except Error Unit := demand (job.leasedAfter now) .conflict

def leasedTo (job : Job) (worker : WorkerId) (attempt deadline leasedAt order : Int) : Job :=
  {job with
    state := .leased, attempt, workerId := some worker, leaseDeadline := some deadline, leasedAt := some leasedAt
    deferredUntil := none, dispatchOrder := order}

/-- The attempt counts toward the delivery budget once, and ends a run of deferrals. -/
def counted (job : Job) (delivery : Delivery) : Except Error Job :=
  if job.executedAttempt = some delivery.attempt then .ok {job with deferrals := 0}
  else do
    let attempts ← orElse .capacity (checkedAdd job.executionAttempts 1)
    pure {job with executionAttempts := attempts, deferrals := 0, executedAttempt := some delivery.attempt}

def renewal (job : Job) (delivery : Delivery) (deadline : Int) : Except Error Job := do
  pure {← job.counted delivery with leaseDeadline := some deadline}

/-- Ready again and held by nobody. -/
def released (job : Job) (deferredUntil : Option Int) : Job :=
  {job with state := .ready, workerId := none, leaseDeadline := none, leasedAt := none, deferredUntil}

def interrupted (job : Job) (delivery : Delivery) : Except Error Job := do
  pure ((← job.counted delivery).released none)

end Job

end Zeroship.Workflow
