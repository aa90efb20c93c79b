import Zeroship.Workflow.Store

/-! The responsibility for recovering an app, and the closing of its scope.

An open scope dispatches two periodic duties. Closing one records how far the dispatch
cursor has come and publishes a job that asks the creator whether anything is left. The
scope is retired when that job settles with nothing left, and no other job was published or
claimed meanwhile. A retired scope may be opened at the next epoch; an abandoned one stays. -/
namespace Zeroship.Workflow

open Base

/-- The pacing of duties and of closing attempts, in milliseconds. -/
structure Pacing where
  (interval idle timeout backoff backoffMax : Int)

/-- The delay that follows a closing attempt doubles with each one, up to a bound. -/
def Pacing.delay (p : Pacing) (attempt : Int) : Int :=
  let doublings := if 0 ≤ attempt - 1 ∧ attempt - 1 < 2 ^ 32 then min (attempt - 1).toNat 62 else 62
  let delay := p.backoff * 2 ^ doublings
  min (if delay < 2 ^ 63 then delay else 2 ^ 63 - 1) p.backoffMax

namespace Responsibility

variable (r : Responsibility)

/-- The row is one that the manager can have written. -/
def consistent : Bool :=
  let unattempted := r.closingWatermark.isNone && r.closeJobId.isNone
  (match r.state with
    | .closing => r.closingWatermark.any (0 ≤ ·) && r.closeJobId.isSome && r.closeAfter.isSome && 0 < r.closeAttempts
    | .opened => unattempted
    | .retired | .abandoned => unattempted && r.closeAfter.isNone && r.closeAttempts = 0) &&
  0 < r.activationRevision && 0 < r.ingressEpoch && 0 ≤ r.activeAt && r.closeAfter.all (0 ≤ ·) && 0 ≤ r.closeAttempts

/-- Back to open, with the backoff that the attempt recorded. -/
def reopenedAttempt : Responsibility :=
  {r with state := .opened, closingWatermark := none, closeJobId := none}

/-- Retired or abandoned, with nothing left of closing. -/
def settled (state : ScopeState) : Responsibility :=
  {r with state, closingWatermark := none, closeJobId := none, closeAfter := none, closeAttempts := 0}

end Responsibility

namespace Store

variable (s : Store) (current : Responsibility) (app : AppId)

/-- The responsibility of an app, checked. -/
def responsibility : Except Error (Option Responsibility) :=
  match s.responsibilities.find? (·.id = app) with
  | none => .ok none
  | some r => do
    demand r.consistent .storage
    pure (some r)

/-- A change to exactly the state and the epoch that were read. -/
def transition (patch : Responsibility → Responsibility) : Except Error Store := do
  let observed (r : Responsibility) : Bool :=
    r.id = current.id && r.ingressEpoch = current.ingressEpoch && r.state = current.state
  demand (s.responsibilities.countP observed = 1) .storage
  pure {s with responsibilities := s.responsibilities.map fun r => if observed r then patch r else r}

def createDuty (now : Int) (kind : DutyKind) : Except Error Store := do
  -- an app has one duty of a kind, which the table's key enforces
  demand (¬ s.duties.any fun duty => duty.appId = app && duty.kind = kind) .conflict
  pure {s with duties := s.duties ++ [⟨app, kind, now, none⟩]}

def createPair (now : Int) : Except Error Store := do
  (← s.createDuty app now .reconcile).createDuty app now .collect

def deleteDuties : Store := {s with duties := s.duties.filter (·.appId ≠ app)}

def loadDuty (kind : DutyKind) : Except Error (Option Duty) :=
  match s.duties.find? fun duty => duty.appId = app && duty.kind = kind with
  | none => .ok none
  | some duty => do
    demand (0 ≤ duty.nextDueAt) .storage
    pure (some duty)

def isDigest (digest : String) : Bool :=
  digest.length = 64 && digest.toList.all fun c => ('0' ≤ c && c ≤ '9') || ('a' ≤ c && c ≤ 'f')

/-- The job of a duty that has not settled. -/
def pendingJob (duty : Duty) : Except Error (Option JobSpec) :=
  match duty.pendingJobId with
  | none => .ok none
  | some pending => do
    let job ← orElse .storage (s.load duty.appId pending)
    demand (job.spec.operation = duty.kind.operation) .storage
    if job.state ≠ .settled then return some job.spec
    let outcome ← orElse .storage job.outcome
    let digest ← orElse .storage job.settlementDigest
    demand (outcome.validFor job.spec.operation ∧ isDigest digest) .storage
    pure none

def validateDuty (kind : DutyKind) : Except Error Unit := do
  let duty ← orElse .storage (s.duties.find? fun duty => duty.appId = app && duty.kind = kind)
  demand (0 ≤ duty.nextDueAt) .storage
  discard (s.pendingJob duty)

def validatePair : Except Error Unit := do
  demand (s.duties.countP (·.appId = app) = 2) .storage
  s.validateDuty app .reconcile
  s.validateDuty app .collect

def updateDuty (duty : Duty) (patch : Duty → Duty) : Except Error Store := do
  let same (d : Duty) : Bool := d.appId = duty.appId && d.kind = duty.kind
  demand (s.duties.countP same = 1) .storage
  pure {s with duties := s.duties.map fun d => if same d then patch d else d}

/-- A job other than this one was published or claimed after the cursor stood there. -/
def claimedAfter (watermark : Int) (close : JobId) : Bool :=
  s.jobs.any fun job => job.appId = app && watermark < job.dispatchOrder && job.id ≠ close

/-- A job other than this one is leased. -/
def leased (now : Int) (except : Option JobId) : Bool :=
  s.jobs.any fun job => job.appId = app && job.leasedAfter now && except.all (job.id ≠ ·)

def isClose : JobOperation → Bool
  | .close _ => true
  | _ => false

def dutyPending (kind : DutyKind) : Except Error Bool := do
  match ← s.loadDuty app kind with
  | none => pure false
  | some duty => pure (← s.pendingJob duty).isSome

/-- A duty waits for its job, or a closing job of an earlier attempt has not settled. -/
def pendingMaintenance : Except Error Bool := do
  if ← s.dutyPending app .reconcile then return true
  if ← s.dutyPending app .collect then return true
  pure (s.jobs.any fun job => job.appId = app && isClose job.spec.operation && job.state ≠ .settled)

/-- The job of the current closing attempt, which closes the scope's epoch. -/
def closeJob : Except Error Job := do
  let id ← orElse .storage current.closeJobId
  let job ← orElse .storage (s.load current.id id)
  demand (job.spec.operation = .close current.ingressEpoch) .storage
  pure job

/-! ### Transitions -/

/-- A retired scope gets its duties back. -/
def restoreDuties (now : Int) : Except Error Store :=
  if current.state = .retired then s.createPair current.id now else .ok s

/-- The epoch after the current one. -/
def reopen (now : Int) : Except Error (Int × Store) := do
  demand (current.state ≠ .abandoned) .denied
  let next ← orElse .capacity (checkedAdd current.ingressEpoch 1)
  let s ← s.transition current fun r =>
    {r with
      ingressEpoch := next, state := .opened, closingWatermark := none, closeJobId := none, activeAt := now
      closeAfter := none, closeAttempts := 0}
  let s ← s.restoreDuties current now
  demand (0 < next) .storage
  pure (next, s)

def touch (now : Int) : Except Error Store :=
  if (current.state = .opened ∨ current.state = .closing) ∧ current.activeAt < now then
    s.transition current fun r => {r with activeAt := now}
  else .ok s

def activityIn (now : Int) : Except Error Store := do
  match ← s.responsibility app with
  | none => pure s
  | some current =>
    match current.state with
    | .retired => pure (← s.reopen current now).2
    | .opened | .closing => s.touch current now
    | .abandoned => pure s

/-- A job that produces intents opens a retired scope again when it is claimed. -/
def claimedIn (job : JobSpec) (now : Int) : Except Error Store :=
  if job.producesIntents then s.activityIn job.appId now else .ok s

def dutyOf : JobOperation → Option DutyKind
  | .reconcile => some .reconcile
  | .collect => some .collect
  | _ => none

/-- A page with more work left makes its duty due at once. -/
def settledPage (job : JobSpec) (outcome : JobOutcome) (now : Int) : Except Error Store := do
  if outcome ≠ .waiting then return s
  let some kind := dutyOf job.operation | return s
  let some duty ← s.loadDuty job.appId kind | return s
  if duty.pendingJobId ≠ some job.id ∨ duty.nextDueAt ≤ now then return s
  s.updateDuty duty fun d => {d with nextDueAt := now}

/-- Whether the settlement of the closing job retires the scope. -/
def retires (job : JobSpec) (current : Responsibility) (epoch watermark : Int) (drained : Bool) (now : Int) :
    Except Error Bool := do
  if !(drained && current.ingressEpoch = epoch) then return false
  if s.claimedAfter job.appId watermark job.id then return false
  if s.leased job.appId now (some job.id) then return false
  pure !(← s.pendingMaintenance job.appId)

/-- The closing job has settled. The settlement of a job from an earlier attempt changes nothing. -/
def settledClose (job : JobSpec) (outcome : JobOutcome) (now : Int) : Except Error Store := do
  let .close epoch := job.operation | return s
  let .closed drained := outcome | throw .invalid
  let current ← orElse .storage (← s.responsibility job.appId)
  if current.state ≠ .closing ∨ current.closeJobId ≠ some job.id then return s
  let watermark ← orElse .storage current.closingWatermark
  if ← s.retires job current epoch watermark drained now then
    (s.deleteDuties job.appId).transition current (·.settled .retired)
  else s.transition current (·.reopenedAttempt)

/-- Something is leased or pending, which stands against closing. -/
def busy (now : Int) : Except Error Bool :=
  if s.leased app now none then .ok true else s.pendingMaintenance app

/-- Starts closing an open scope, unless something is leased or pending. A refusal counts as
an attempt. -/
def beginIn (q : Queue) (guards : Guards) (p : Pacing) (current : Responsibility) (minted : JobId) (now : Int) :
    Except Error (Option JobSpec × Store) := do
  let attempt ← orElse .capacity (checkedAdd current.closeAttempts 1)
  let backoff := p.delay attempt
  if ← s.busy current.id now then
    let after ← orElse .capacity (checkedAdd now backoff)
    return (none, ← s.transition current fun r => {r with closeAttempts := attempt, closeAfter := some after})
  let watermark ← s.dispatchCursor current.id
  demand (0 ≤ now) .storage
  let spec : JobSpec := ⟨minted, current.id, .close current.ingressEpoch, now⟩
  let s ← s.insert q guards spec now
  let after ← orElse .capacity ((checkedAdd now p.timeout).bind (checkedAdd · backoff))
  let s ← s.transition current fun r =>
    {r with
      state := .closing, closingWatermark := some watermark, closeJobId := some minted
      closeAttempts := attempt, closeAfter := some after}
  pure (some spec, s)

/-- Gives up on a closing job that has not settled in time. -/
def expireIn (p : Pacing) (current : Responsibility) (now : Int) : Except Error (Bool × Store) := do
  let job ← s.closeJob current
  let expires ← orElse .storage (checkedAdd job.createdAt p.timeout)
  if now < expires then return (false, s)
  pure (true, ← s.transition current (·.reopenedAttempt))

variable (deployment : DeploymentId)

def createScope (revision : Int) (now : Int) : Except Error Store := do
  demand (¬ s.responsibilities.any (·.id = app)) .conflict
  let r : Responsibility := ⟨app, deployment, revision, 1, .opened, none, none, now, none, 0⟩
  {s with responsibilities := s.responsibilities ++ [r]}.createPair app now

/-- A newer activation of the app. -/
def updateProvenance (previous revision : Int) :
    Except Error Store := do
  let observed (r : Responsibility) : Bool := r.id = app && r.activationRevision = previous
  demand (s.responsibilities.countP observed = 1) .storage
  pure {s with responsibilities := s.responsibilities.map fun r =>
    if observed r then {r with deploymentId := deployment, activationRevision := revision} else r}

/-- An activation opens a retired scope again, and needs the duties of one that is not retired. -/
def activateScope (now : Int) : Except Error Store :=
  match current.state with
  | .abandoned => .error .denied
  | .retired => do pure (← s.reopen current now).2
  | .opened | .closing => do
    s.validatePair current.id
    pure s

def ensureIn (revision : Int) (now : Int) : Except Error Store := do
  match s.responsibilities.find? (·.id = app) with
  | none => s.createScope app deployment revision now
  | some stored =>
    demand (0 < stored.activationRevision) .storage
    demand (stored.activationRevision ≤ revision) .conflict
    demand (stored.activationRevision = revision → stored.deploymentId = deployment) .conflict
    demand stored.consistent .storage
    let s ← s.activateScope stored now
    if stored.activationRevision < revision then s.updateProvenance app deployment stored.activationRevision revision
    else pure s

end Store

end Zeroship.Workflow
