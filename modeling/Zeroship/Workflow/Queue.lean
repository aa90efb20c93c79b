import Zeroship.Workflow.Recovery

/-! The queue of jobs: how they are submitted, claimed, renewed, given back and settled.

Each operation is one transaction under the lock of the app. A claim leases a job until a
deadline on the clock of the database, and hands out the part of it that is left on the
clock of the manager. -/
namespace Zeroship.Workflow

open Base

/-- A reading of the database's clock, and the time of the manager before it was asked for. -/
structure Sample where
  millis : Int
  started : ℚ
deriving DecidableEq

/-- What the clocks show during an operation. The manager's clock counts milliseconds from
some start, and is read again and again. -/
structure Reading where
  (first second third : Sample)
  ordered : first.millis ≤ second.millis ∧ second.millis ≤ third.millis
  /-- When the caller stops waiting. -/
  budget : ℚ
  instant : Nat → ℚ

def resolutionMillis : Int := 1

/-- A deadline of the database on the manager's clock. The sample is rounded down, so its
resolution is taken off. -/
def localDeadline (sample : Sample) (deadline : Int) : Except Error ℚ :=
  match (checkedAdd deadline (-sample.millis)).bind (checkedAdd · (-resolutionMillis)) with
  | none => .error .denied
  | some remaining => if 0 < remaining then .ok (sample.started + remaining) else .error .denied

/-- The wait may only get shorter. -/
def capBudget (budget : ℚ) (sample : Sample) (deadline : Int) (now : ℚ) : Except Error ℚ := do
  let capped := min budget (← localDeadline sample deadline)
  demand (now < capped) .timeout
  pure capped

/-- A delivery with the time that is left of its lease on the manager's clock. -/
structure DeliveryGrant where
  delivery : Delivery
  (expiresAt attemptExpiresAt : ℚ)

namespace DeliveryGrant

variable (g : DeliveryGrant)

def remaining (now : ℚ) : Option ℚ := if now < g.expiresAt then some (g.expiresAt - now) else none

def new (delivery : Delivery) (sample : Sample) (attemptDeadline : Int) (now : ℚ) : Except Error DeliveryGrant := do
  let expiresAt ← localDeadline sample delivery.deadline
  let attemptExpiresAt ← localDeadline sample attemptDeadline
  demand (now < expiresAt) .timeout
  pure ⟨delivery, expiresAt, attemptExpiresAt⟩

def cap (sample : Sample) (now : ℚ) : Except Error DeliveryGrant := do
  let expiresAt := min (min g.expiresAt (← localDeadline sample g.delivery.deadline)) g.attemptExpiresAt
  demand (now < expiresAt) .timeout
  pure {g with expiresAt}

end DeliveryGrant

namespace Queue

def attemptDeadline (q : Queue) (leasedAt : Int) : Except Error Int := do
  orElse .capacity (checkedAdd leasedAt (← millis .invalid q.options.maxAttempt))

def deadline (q : Queue) (now attemptDeadline : Int) : Except Error Int := do
  let deadline := min (← orElse .capacity (checkedAdd now (← millis .invalid q.options.lease))) attemptDeadline
  demand (now < deadline) .denied
  pure deadline

end Queue

/-- The host's answers when an operation asks who the worker is, one after the other. -/
structure Host where
  authorize : Nat → Except Error WorkerId
  authorizeReplay : Except Error WorkerId

def Host.requireWorker (host : Host) (n : Nat) (worker : WorkerId) : Except Error Unit := do
  demand ((← host.authorize n) = worker) .denied

def bound (worker : WorkerId) (delivery : Delivery) : Except Error Unit := demand (worker = delivery.workerId) .denied

namespace Store

/-- Ready and available, or past its lease, of a kind that the claimant takes. -/
def claimable (job : Job) (now : Int) (claimant : Claimant) : Bool :=
  ((job.state = .ready && job.spec.availableAt ≤ now) || (job.state = .leased && job.lapsed now)) &&
    claimant.admits job.spec.operation.work && job.deferredUntil.all (· ≤ now)

def dispatchLe (a b : Job) : Bool :=
  a.dispatchOrder < b.dispatchOrder || (a.dispatchOrder = b.dispatchOrder && a.id ≤ b.id)

variable (s : Store) (q : Queue) (guards : Guards) (host : Host) (reading : Reading) (r : ClaimRequest) (app : AppId)

/-- The rows that a candidate is chosen from. -/
def candidates (now : Int) (claimant : Claimant) (ceiling : Int) (job : Job) : Bool :=
  job.appId = app && claimable job now claimant && job.executionAttempts < ceiling && guards.eligible job

/-- The first job in dispatch order that the claimant may take. -/
def candidate (now : Int) (claimant : Claimant) (ceiling : Int) : Option Job :=
  ((s.jobs.filter (candidates guards app now claimant ceiling)).insertionSort fun a b => dispatchLe a b).head?

def isAdvance : JobOperation → Bool
  | .advance .. => true
  | _ => false

def liveAdvanceCount (now : Int) : Nat :=
  s.jobs.countP fun job => job.appId = app && isAdvance job.spec.operation && job.leasedAfter now

inductive Claimed
  | granted (grant : DeliveryGrant)
  | empty | atCap

structure ClaimRequest where
  app : AppId
  worker : WorkerId
  claimant : Claimant
  maxDeliveryAttempts : Except Error Int
  maxRunning : Option Int

def lease (job : Job) :
    Except Error (Claimed × Store) := do
  guards.requireDeployment job.spec
  guards.validateDelivery job
  guards.validateJob job.spec
  let attempt ← orElse .capacity ((checkedAdd job.attempt 1).filter (0 < ·))
  let leasedAt := reading.second.millis
  let attemptDeadline ← q.attemptDeadline leasedAt
  let deadline ← q.deadline leasedAt attemptDeadline
  let budget ← capBudget reading.budget reading.second deadline (reading.instant 0)
  demand (0 ≤ deadline) .storage
  let grant ← DeliveryGrant.new ⟨job.spec, r.worker, attempt, deadline⟩ reading.second attemptDeadline (reading.instant 1)
  let (order, s) ← s.nextDispatchOrder r.app (some job.dispatchOrder)
  let s ← s.update (fun j => j.id = job.id && j.appId = r.app && j.state = job.state && j.attempt = job.attempt)
    fun j => j.leasedTo r.worker attempt deadline leasedAt order
  let s ← s.claimedIn job.spec reading.first.millis
  host.requireWorker 1 r.worker
  demand (reading.third.millis < deadline) .denied
  discard (capBudget budget reading.third deadline (reading.instant 2))
  let grant ← grant.cap reading.third (reading.instant 3)
  pure (.granted grant, s)

def claim :
    Except Error (Claimed × Store) := do
  s.lockScope r.app
  host.requireWorker 0 r.worker
  let ceiling ← r.maxDeliveryAttempts
  demand (0 < ceiling) .invalid
  let now := reading.first.millis
  guards.validatePending r.app
  if r.maxRunning.any (· ≤ (s.liveAdvanceCount r.app now : Int)) then
    host.requireWorker 1 r.worker
    return (.atCap, s)
  match s.candidate guards r.app now r.claimant ceiling with
  | none =>
    host.requireWorker 1 r.worker
    pure (.empty, s)
  | some job => s.lease q guards host reading r job

/-- The row of a delivery, which must be the last one that was handed out. -/
def deliveredRow (delivery : Delivery) : Except Error Job := do
  let job ← orElse .conflict (s.load delivery.job.appId delivery.job.id)
  job.matchesDelivery delivery
  pure job

/-- A live delivery shortens the wait to its lease. -/
def capLiveDelivery (budget : ℚ) (job : Job) (sample : Sample) (now : ℚ) : Except Error ℚ := do
  job.live sample.millis
  capBudget budget sample (← orElse .storage job.leaseDeadline) now

def heartbeat (worker : WorkerId)
    (delivery : Delivery) : Except Error (DeliveryGrant × Store) := do
  bound worker delivery
  s.lockScope delivery.job.appId
  host.requireWorker 0 worker
  let job ← s.deliveredRow delivery
  guards.validateJob delivery.job
  guards.requireDeployment delivery.job
  let budget ← capLiveDelivery reading.budget job reading.first (reading.instant 0)
  let leasedAt ← orElse .storage job.leasedAt
  let attemptDeadline ← q.attemptDeadline leasedAt
  let deadline ← q.deadline reading.first.millis attemptDeadline
  demand (0 ≤ deadline) .storage
  let grant ← DeliveryGrant.new {delivery with deadline} reading.first attemptDeadline (reading.instant 1)
  let renewed ← job.renewal delivery deadline
  let s ← s.update (fence delivery) fun _ => renewed
  host.requireWorker 1 worker
  demand (reading.second.millis < deadline) .denied
  discard (capLiveDelivery budget job reading.second (reading.instant 2))
  let grant ← grant.cap reading.second (reading.instant 3)
  pure (grant, s)

/-- How a delivery returns to the queue. -/
inductive GiveBack
  | exact (until_ : Int)
  | after (delay : Nat)
  | backoff | interrupted | unsent

/-- Until when the job is not claimed again, and the deferrals that are counted. -/
def deferral (job : Job) (now : Int) : GiveBack → Except Error (Int × Int)
  | .exact until_ => .ok (until_, job.deferrals)
  | .after delay => do pure (← orElse .capacity (checkedAdd now (← millis .invalid delay)), job.deferrals)
  | .backoff => do
    let shift := if 0 ≤ job.deferrals ∧ job.deferrals < 2 ^ 32 then min job.deferrals.toNat 62 else 62
    let delay := min (min (q.options.deferBackoff * 2 ^ shift) (2 ^ 128 - 1)) q.options.deferBackoffMax
    let until_ ← orElse .capacity (checkedAdd now (← millis .capacity delay))
    pure (until_, ← orElse .capacity (checkedAdd job.deferrals 1))
  | .interrupted | .unsent => .error .invalid

def givenBack (job : Job) (delivery : Delivery) (defer : GiveBack) (now : Int) : Except Error Job :=
  match defer with
  | .interrupted => job.interrupted delivery
  | .unsent => .ok (job.released none)
  | .exact _ | .after _ | .backoff => do
    let (until_, deferrals) ← deferral q job now defer
    pure {job.released (if now < until_ then some until_ else none) with deferrals}

def giveBack (worker : WorkerId) (delivery : Delivery)
    (defer : GiveBack) : Except Error Store := do
  bound worker delivery
  s.lockScope delivery.job.appId
  host.requireWorker 0 worker
  let job ← s.deliveredRow delivery
  job.live reading.first.millis
  let row ← givenBack q job delivery defer reading.first.millis
  s.update (fence delivery) fun _ => row

/-- The outcome of a delivered job, as the journal decided it. -/
structure JournalSettlement where
  delivery : Delivery
  outcome : JobOutcome
  valid : validOutcome delivery.job.operation outcome

def receiptOf (settlement : JournalSettlement) : SettlementReceipt :=
  ⟨settlement.delivery.job.id, settlement.delivery.job.appId, settlement.delivery.attempt, settlement.outcome⟩

def prepareSettlement (worker : WorkerId) (settlement : JournalSettlement) : Except Error String := do
  bound worker settlement.delivery
  q.encode (q.codec.settlementBytes settlement.delivery settlement.outcome)
  pure (q.codec.settlementDigest settlement.delivery.job settlement.delivery.workerId settlement.delivery.attempt
    settlement.outcome)

/-- A job that was settled before gives the same receipt again, and only to the same request. -/
def replay (job : Job) (settlement : JournalSettlement) (digest : String) :
    Except Error (SettlementReceipt × Store) := do
  demand (job.settlementDigest = some digest ∧ job.outcome = some settlement.outcome) .conflict
  guards.settleManagement settlement.delivery.job settlement.outcome true
  demand ((← host.authorizeReplay) = settlement.delivery.workerId) .denied
  pure (receiptOf settlement, s)

def settleFirst (worker : WorkerId) (job : Job)
    (settlement : JournalSettlement) (digest : String) : Except Error (SettlementReceipt × Store) := do
  let delivery := settlement.delivery
  host.requireWorker 0 worker
  let budget ← capLiveDelivery reading.budget job reading.first (reading.instant 0)
  guards.validateJob delivery.job
  guards.requireDeployment delivery.job
  guards.settleManagement delivery.job settlement.outcome false
  let s ← s.update (fence delivery) fun j =>
    {j with state := .settled, outcome := some settlement.outcome, settlementDigest := some digest}
  let s ← s.settledPage delivery.job settlement.outcome reading.first.millis
  let s ← s.settledClose delivery.job settlement.outcome reading.first.millis
  host.requireWorker 1 worker
  discard (capLiveDelivery budget job reading.second (reading.instant 1))
  pure (receiptOf settlement, s)

def settle (worker : WorkerId)
    (settlement : JournalSettlement) : Except Error (SettlementReceipt × Store) := do
  let digest ← prepareSettlement q worker settlement
  s.lockScope settlement.delivery.job.appId
  let job ← s.deliveredRow settlement.delivery
  if job.state = .settled then s.replay guards host job settlement digest
  else s.settleFirst guards host reading worker job settlement digest

/-- What a submission comes to: the job is there, or its deployment has to be held first. -/
inductive Retention
  | ready (job : JobSpec)
  | acquire (deployment : DeploymentId)

def isManagerOrigin : JobOperation → Bool
  | .management .. | .close _ => true
  | _ => false

/-- The deployment that a new job needs and that is not held. -/
def unheld (job : JobSpec) : Except Error (Option DeploymentId) := do
  if ← s.existing q guards job then return none
  let some deployment := job.deploymentId | return none
  pure (if ← guards.prepared job.appId deployment then none else some deployment)

def submit (job : JobSpec) :
    Except Error (Retention × Store) := do
  demand (¬ isManagerOrigin job.operation) .invalid
  q.encode (q.codec.specBytes job)
  s.lockScope job.appId
  match ← s.unheld q guards job with
  | some deployment => pure (.acquire deployment, s)
  | none => pure (.ready job, ← s.insert q guards job reading.first.millis)

/-- The manager publishes a job of its own: a command on a run, an activation or an occurrence
of the calendar, the release of a hold. What else such a transaction writes is not modelled. -/
def publish (job : JobSpec) (now : Int) : Except Error Store := do
  s.lockScope job.appId
  s.insert q guards job now

end Store

end Zeroship.Workflow
