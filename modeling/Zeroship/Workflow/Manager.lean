import Zeroship.Base.Machine
import Zeroship.Workflow.Queue

/-! The workflow manager: its operations, each a transaction, and their histories.

A transaction that fails leaves the tables as they were. Operations on one app exclude each
other, so what happens to an app is a list of transactions. -/
namespace Zeroship.Workflow

open Base

structure Manager where
  queue : Queue
  pacing : Pacing

inductive Call
  | registerScope (app : AppId) (zone : ZoneId)
  | submit (job : JobSpec)
  | publish (job : JobSpec)
  | claim (r : Store.ClaimRequest)
  | heartbeat (worker : WorkerId) (delivery : Delivery)
  | giveBack (worker : WorkerId) (delivery : Delivery) (defer : Store.GiveBack)
  | settle (worker : WorkerId) (settlement : Store.JournalSettlement)
  | ensure (app : AppId) (zone : ZoneId) (deployment : DeploymentId) (revision : Int)
  | dispatch (app : AppId) (kind : DutyKind) (minted : JobId)
  | establish (app : AppId) (after : Option Int) (admission : Bool)
  | noteIngress (app : AppId)
  | beginClose (app : AppId) (minted : JobId)
  | expireClose (app : AppId)
  | closingTurn (app : AppId) (minted : JobId)
  | abandon (app : AppId)

def Call.app : Call → AppId
  | .registerScope app _ | .ensure app _ _ _ | .dispatch app _ _ | .establish app _ _ | .noteIngress app
  | .beginClose app _ | .expireClose app | .closingTurn app _ | .abandon app => app
  | .submit job | .publish job => job.appId
  | .claim r => r.app
  | .heartbeat _ delivery | .giveBack _ delivery _ => delivery.job.appId
  | .settle _ settlement => settlement.delivery.job.appId

/-- What a turn of the closing lane did. -/
inductive Closing
  | kept | deferred
  | started (job : JobSpec)
  | pending (job : JobSpec)
  | expired | inactive

inductive Reply
  | done
  | submitted (r : Store.Retention)
  | claimed (c : Store.Claimed)
  | renewed (grant : DeliveryGrant)
  | returned
  | settled (receipt : SettlementReceipt)
  | job (job : Option JobSpec)
  | established (epoch : Int)
  | answered (b : Bool)
  | closing (c : Closing)

/-- An operation with what it reads besides the tables of the manager. -/
structure Request where
  call : Call
  guards : Guards
  host : Host
  reading : Reading

namespace Store

variable (s : Store) (m : Manager) (guards : Guards) (app : AppId)

/-! ### Recovery -/

def ensure (zone : ZoneId) (deployment : DeploymentId) (revision : Int) (now : Int) :
    Except Error Store := do
  let s ← s.registerScope app zone
  s.lockScope app
  s.ensureIn app deployment revision now

/-- Publishes the job of a duty that is due. One that has not settled is returned again. -/
def dispatch (kind : DutyKind) (minted : JobId) (now : Int) :
    Except Error (Option JobSpec × Store) := do
  s.lockScope app
  let current ← orElse .denied (← s.responsibility app)
  if current.state ≠ .opened then return (none, s)
  let duty ← orElse .storage (← s.loadDuty app kind)
  let pending ← s.pendingJob duty
  if pending.isSome then return (pending, s)
  if now < duty.nextDueAt then return (none, s)
  let next ← orElse .capacity (checkedAdd now m.pacing.interval)
  demand (0 ≤ now) .storage
  let spec : JobSpec := ⟨minted, app, kind.operation, now⟩
  let s ← s.insert m.queue guards spec now
  let s ← s.updateDuty duty fun d => {d with nextDueAt := next, pendingJobId := some minted}
  pure (some spec, s)

def establish (after : Option Int) (admission : Bool) (now : Int) : Except Error (Int × Store) := do
  s.lockScope app
  let current ← orElse .conflict (← s.responsibility app)
  demand (current.state ≠ .abandoned) .denied
  let after := after.getD 0
  demand (after ≤ current.ingressEpoch) .conflict
  if current.state = .opened ∧ after < current.ingressEpoch then return (current.ingressEpoch, s)
  demand admission .denied
  s.reopen current now

def noteIngress (now : Int) : Except Error Store := do
  s.lockScope app
  match ← s.responsibility app with
  | none => pure s
  | some current => s.touch current now

variable (minted : JobId)

def beginClose (now : Int) :
    Except Error (Option JobSpec × Store) := do
  s.lockScope app
  let current ← orElse .denied (← s.responsibility app)
  match current.state with
  | .retired | .abandoned => pure (none, s)
  | .closing => pure (some (← s.closeJob current).spec, s)
  | .opened => s.beginIn m.queue guards m.pacing current minted now

def expireClose (now : Int) : Except Error (Bool × Store) := do
  s.lockScope app
  let current ← orElse .denied (← s.responsibility app)
  if current.state ≠ .closing then return (false, s)
  s.expireIn m.pacing current now

/-- A difference of 64-bit integers, as near as they come to it. -/
def saturatingSub (a b : Int) : Int := max (-2 ^ 63) (min (2 ^ 63 - 1) (a - b))

/-- Something has happened not long ago, and the calendar is on. -/
def kept (current : Responsibility) (now : Int) : Except Error Bool :=
  if saturatingSub now current.activeAt < m.pacing.idle then do pure !(← guards.archived current.id) else .ok false

/-- An open scope is closed when its calendar is off or nothing has happened for long. -/
def closingTurn (now : Int) :
    Except Error (Closing × Store) := do
  s.lockScope app
  match ← s.responsibility app with
  | none => pure (.inactive, s)
  | some current =>
    match current.state with
    | .retired | .abandoned => pure (.inactive, s)
    | .closing =>
      let (expired, s') ← s.expireIn m.pacing current now
      if expired then pure (.expired, s') else pure (.pending (← s'.closeJob current).spec, s')
    | .opened =>
      if current.closeAfter.any (now < ·) then return (.deferred, s)
      if ← kept m guards current now then return (.kept, s)
      let (started, s) ← s.beginIn m.queue guards m.pacing current minted now
      pure (started.elim .deferred .started, s)

/-- The creator work of a deleted app is settled as rejected. -/
def reject (job : Job) : Job :=
  if job.appId = app ∧ isAdvance job.spec.operation ∧ job.state ≠ .settled then
    {job with state := .settled, outcome := some .rejected}
  else job

def abandon : Except Error (Bool × Store) := do
  s.lockScope app
  match ← s.responsibility app with
  | none => pure (false, s)
  | some current =>
    if current.state = .abandoned then return (false, s)
    let s := s.deleteDuties app
    let s := {s with jobs := s.jobs.map (reject app)}
    pure (true, ← s.transition current (·.settled .abandoned))

end Store

def Manager.transact (m : Manager) (s : Store) (r : Request) : Except Error (Reply × Store) :=
  let now := r.reading.first.millis
  match r.call with
  | .registerScope app zone => do pure (.done, ← s.registerScope app zone)
  | .submit job => do
    let (retention, s) ← s.submit m.queue r.guards r.reading job
    pure (.submitted retention, s)
  | .publish job => do pure (.done, ← s.publish m.queue r.guards job now)
  | .claim request => do
    let (claimed, s) ← s.claim m.queue r.guards r.host r.reading request
    pure (.claimed claimed, s)
  | .heartbeat worker delivery => do
    let (grant, s) ← s.heartbeat m.queue r.guards r.host r.reading worker delivery
    pure (.renewed grant, s)
  | .giveBack worker delivery defer => do
    pure (.returned, ← s.giveBack m.queue r.host r.reading worker delivery defer)
  | .settle worker settlement => do
    let (receipt, s) ← s.settle m.queue r.guards r.host r.reading worker settlement
    pure (.settled receipt, s)
  | .ensure app zone deployment revision => do pure (.done, ← s.ensure app zone deployment revision now)
  | .dispatch app kind minted => do
    let (job, s) ← s.dispatch m r.guards app kind minted now
    pure (.job job, s)
  | .establish app after admission => do
    let (epoch, s) ← s.establish app after admission now
    pure (.established epoch, s)
  | .noteIngress app => do pure (.done, ← s.noteIngress app now)
  | .beginClose app minted => do
    let (job, s) ← s.beginClose m r.guards app minted now
    pure (.job job, s)
  | .expireClose app => do
    let (b, s) ← s.expireClose m app now
    pure (.answered b, s)
  | .closingTurn app minted => do
    let (c, s) ← s.closingTurn m r.guards app minted now
    pure (.closing c, s)
  | .abandon app => do
    let (b, s) ← s.abandon app
    pure (.answered b, s)

/-- A refused transaction is rolled back. -/
def Manager.machine (m : Manager) : Machine Store Request (Except Error Reply) where
  step s r := match m.transact s r with
    | .ok (reply, s') => some (s', [.ok reply])
    | .error e => some (s, [.error e])

end Zeroship.Workflow
