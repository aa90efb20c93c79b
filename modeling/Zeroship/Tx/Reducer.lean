import Zeroship.Tx.Identity
import Zeroship.Tx.Deadline
import Zeroship.Tx.Frames

/-! The transaction reducer: nine states, fourteen events, and the actions a driver
must perform.

The reducer is pure. `apply` takes an event and answers with actions in a new
state; `none` is a panic of the source, one of its `expect`s. Every handler is
under its source name and returns the reducer it leaves behind. -/
namespace Zeroship.Tx

inductive TxState
  | preparing | starting | idle | inFlight | quiescing | poisoned | cancelling | settling | settled
deriving DecidableEq

/-- May a creator's data SQL, frame open or frame close start from here? -/
def TxState.admitsCreatorSql (s : TxState) : Bool := s = .idle

/-- Is this a state a force can claim? -/
def TxState.isForceable : TxState → Bool
  | .preparing | .starting | .idle | .inFlight | .quiescing | .poisoned => true
  | .cancelling | .settling | .settled => false

/-- What the backend's health oracle said after forced cleanup. -/
inductive CleanupAck
  | noOpenTransaction | rolledBack | indeterminate
deriving DecidableEq

/-- Where cleanup must get to, fixed from the state the force interrupted. -/
inductive CleanupGoal
  | noTransaction | abortIfOpened | openTransaction
deriving DecidableEq

def CleanupGoal.forState : TxState → CleanupGoal
  | .preparing => .noTransaction
  | .starting => .abortIfOpened
  | .idle | .inFlight | .quiescing | .poisoned => .openTransaction
  | .cancelling | .settling | .settled => .abortIfOpened

def CleanupGoal.isProvedBy : CleanupGoal → CleanupAck → Bool
  | .noTransaction, ack => ack = .noOpenTransaction
  | .abortIfOpened, ack => ack = .noOpenTransaction ∨ ack = .rolledBack
  | .openTransaction, ack => ack = .rolledBack

inductive CleanupCause
  | cancelled
  | deadlineExpired (kind : DeadlineKind)
  | detached | epochChanged
  | denied (reason : DenyReason)
  | sessionSetupFailed | beginFailed | backendHealthUnknown
deriving DecidableEq

structure LatchedCleanup where
  cause : CleanupCause
  goal : CleanupGoal

structure CommandToken where
  get : Nat
deriving DecidableEq

/-- Who owns the session between confirmed `BEGIN` and terminal cleanup. -/
inductive SessionOwnership
  | none | registry
  | command (token : CommandToken)
  | withdrawn

structure BackendGeneration where
  value : UInt64

inductive SettleIntent
  | commit | rollback
deriving DecidableEq

inductive TerminalResult
  | committed | rolledBack | indeterminate

inductive TerminalOutcome
  | committed | rolledBack
  | cancelled (cause : CleanupCause)
  | indeterminate (cause : CleanupCause)
  | resultMismatch
deriving DecidableEq

/-- Only a confirmed commit publishes. -/
def TerminalOutcome.publishes (o : TerminalOutcome) : Bool := o = .committed

def TerminalOutcome.isIndeterminate : TerminalOutcome → Bool
  | .indeterminate _ => true
  | _ => false

inductive BeginOutcome
  | opened (generation : BackendGeneration)
  | setupFailed | reResolve
  | denied (reason : DenyReason)
  | failed

/-- Every event the reducer accepts. -/
inductive TxEvent
  | authorityObserved (authority : EventAuthority) (observed : ObservedAuthority)
  | beginCompleted (token : CommandToken) (outcome : BeginOutcome)
  | operationRequested
  | operationCompleted (token : CommandToken) (errored : Bool)
  | openFrame
  | openFrameCompleted (token : CommandToken) (frame : FrameId) (ok : Bool)
  | closeFrame (frame : FrameId) (close : FrameClose)
  | closeFrameCompleted (token : CommandToken) (frame : FrameId) (close : FrameClose) (ok : Bool)
  | settleRequested (intent : SettleIntent)
  | terminalCompleted (token : CommandToken) (result : TerminalResult)
  | cancel (authority : EventAuthority)
  | detachRequested (authority : EventAuthority)
  | deadlineFired (kind : DeadlineKind) (generation : DeadlineGeneration)
  | cancellationAcknowledged (token : CommandToken) (ack : CleanupAck)

inductive TxReply
  | began
  | frameOpened (frame : FrameId)
  | frameClosed (frame : FrameId)
  | operationAccepted
  | settled (outcome : TerminalOutcome)
deriving DecidableEq

inductive TxProtocolError
  | appIncarnationMismatch | staleTransactionCompletion | staleTransactionDeadline
  | staleBackendGeneration | transactionNotReady | transactionConnectionBusy
  | transactionAlreadySettled | settleConflict
  | frame (error : FrameError)
  | epochChanged
  | denied (reason : DenyReason)
  | cleanup (cause : CleanupCause)
deriving DecidableEq

/-- What a reply channel carries. -/
abbrev TxAnswer := Except TxProtocolError TxReply

/-- What the driver must do. -/
inductive Action
  | scheduleTimer (timer : ScheduleTimer)
  | issueBegin (token : CommandToken)
  | issueDataSql (token : CommandToken)
  | issueSavepoint (token : CommandToken) (name : String)
  | issueRollbackTo (token : CommandToken) (name : String)
  | issueRelease (token : CommandToken) (name : String)
  | issueTerminal (token : CommandToken) (intent : SettleIntent)
  | issueCancellation (token : CommandToken) (goal : CleanupGoal)
  | withdrawSession | releaseSession | releaseAdmission
  | publishEffects (effects : List Effect)
  | discardEffects
  | reply (answer : TxAnswer)
deriving DecidableEq

/-- The creator SQL that forced cleanup must never emit. -/
def Action.isCreatorDataSql : Action → Bool
  | .issueDataSql _ | .issueSavepoint _ _ | .issueRollbackTo _ _ | .issueRelease _ _ | .issueBegin _ => true
  | _ => false

structure TxBudgets where
  execution : Duration := 30 * 1000000000
  cancellationSql : Duration := 5 * 1000000000
  terminalSql : Duration := 10 * 1000000000

/-- One transaction's reducer. -/
structure TxReducer where
  state : TxState
  expected : ExpectedAuthority
  budgets : TxBudgets
  (beginCeiling effectiveCeiling : Option MaskCeiling)
  session : SessionOwnership
  generation : Option BackendGeneration
  frames : FrameStack
  slot : DeadlineSlot
  generations : DeadlineGenerations
  nextToken : Nat
  (active cancellationToken : Option CommandToken)
  cleanup : Option LatchedCleanup
  settleIntent : Option SettleIntent
  terminalPromised : Bool
  outcome : Option TerminalOutcome

inductive GateOutcome
  | forceWon | joined | lateCancel

/-- The authority an event carries, for the identity guard. -/
def eventAuthority : TxEvent → Option EventAuthority
  | .authorityObserved authority _ => some authority
  | .cancel authority => some authority
  | .detachRequested authority => some authority
  | _ => none

namespace TxReducer

/-- Admit a transaction: hold the claim and arm the execution deadline. The slot is
fresh, so arming it cannot fail. -/
def admitTransaction (expected : ExpectedAuthority) (budgets : TxBudgets) (now : Instant) (maxDepth : Nat) :
    TxReducer × List Action :=
  let generations : DeadlineGenerations := {}
  let (generations, generation) := generations.mint
  let reducer : TxReducer :=
    { state := .preparing
      expected
      budgets
      beginCeiling := none
      effectiveCeiling := none
      session := .none
      generation := none
      frames := .new maxDepth
      slot := {}
      generations
      nextToken := 0
      active := none
      cancellationToken := none
      cleanup := none
      settleIntent := none
      terminalPromised := false
      outcome := none }
  match reducer.slot.armInitial .execution generation (now + budgets.execution) with
  | .ok (slot, scheduled) => ({reducer with slot}, [.scheduleTimer scheduled])
  | .error _ => (reducer, [])

variable (r : TxReducer)

def mintToken : TxReducer × CommandToken :=
  ({r with nextToken := r.nextToken + 1}, ⟨r.nextToken + 1⟩)

/-- Guard 2: a completion must carry the token its current action minted. -/
def checkToken (token : CommandToken) : Option (List Action) :=
  if r.active = some token then none else some [.reply (.error .staleTransactionCompletion)]

/-- No creator request is accepted once a cleanup cause is latched. -/
def refuseIfCleaningUp : Option (List Action) :=
  r.cleanup.map fun latched => [.reply (.error (.cleanup latched.cause))]

/-- Claim the gate and enter `cancelling`. -/
def force (cause : CleanupCause) (now : Instant) : TxReducer × GateOutcome × List Action :=
  if r.terminalPromised ∨ r.state = .settling then (r, .lateCancel, [])
  else if r.cleanup.isSome then (r, .joined, [])
  else
    let goal := CleanupGoal.forState r.state
    let r := {r with cleanup := some ⟨cause, goal⟩, state := .cancelling}
    let (r, token) := r.mintToken
    let r := {r with cancellationToken := some token}
    let (generations, next) := r.generations.mint
    let r := {r with generations}
    match r.slot.replaceCurrent .execution .cancellationSql next (now + r.budgets.cancellationSql) with
    | .ok (slot, scheduled) =>
      ({r with slot}, .forceWon, [.scheduleTimer scheduled, .issueCancellation token goal])
    | .error _ => (r, .forceWon, [.issueCancellation token goal])

/-- Apply one classified authority outcome. -/
def onVerdict (verdict : Verdict) (now : Instant) : TxReducer × List Action :=
  match verdict with
  | .current ceiling =>
    let effective := match r.beginCeiling, r.effectiveCeiling with
      | some begin, some effective => (begin.meet effective).meet ceiling
      | _, _ => ceiling
    let r := {r with effectiveCeiling := some effective}
    match r.state with
    | .preparing =>
      let r := {r with beginCeiling := some ceiling, state := .starting}
      let (r, token) := r.mintToken
      ({r with active := some token}, [.issueBegin token])
    | _ => (r, [])
  | .reResolve =>
    let (r, _, actions) := r.force .epochChanged now
    (r, actions ++ [.reply (.error .epochChanged)])
  | .deny reason =>
    let (r, _, actions) := r.force (.denied reason) now
    (r, actions ++ [.reply (.error (.denied reason))])

def onAuthority (observed : ObservedAuthority) (now : Instant) : TxReducer × List Action :=
  r.onVerdict (classify observed r.expected) now

def onBeginCompleted (token : CommandToken) (outcome : BeginOutcome) (now : Instant) :
    TxReducer × List Action :=
  match r.checkToken token with
  | some reply => (r, reply)
  | none =>
    if r.state ≠ .starting then (r, [.reply (.error .transactionNotReady)])
    else
      let r := {r with active := none}
      match outcome with
      | .opened generation =>
        ({r with
            generation := some generation
            session := .registry
            frames := r.frames.openRoot.1
            state := .idle}, [.reply (.ok .began)])
      | .setupFailed => let (r, _, actions) := r.force .sessionSetupFailed now; (r, actions)
      | .reResolve => r.onVerdict .reResolve now
      | .denied reason => r.onVerdict (.deny reason) now
      | .failed => let (r, _, actions) := r.force .beginFailed now; (r, actions)

def onOperationRequested : TxReducer × List Action :=
  match r.refuseIfCleaningUp with
  | some reply => (r, reply)
  | none =>
    match r.state with
    | .idle =>
      let (r, token) := r.mintToken
      ({r with active := some token, session := .command token, state := .inFlight}, [.issueDataSql token])
    | .inFlight | .quiescing => (r, [.reply (.error .transactionConnectionBusy)])
    | _ => (r, [.reply (.error .transactionNotReady)])

/-- A command that forced cleanup interrupted has answered; the state must not move. -/
def commandReturnedDuringCleanup : Option (TxReducer × List Action) :=
  match r.cleanup with
  | some latched =>
    some ({r with active := none, session := .registry}, [.reply (.error (.cleanup latched.cause))])
  | none => none

variable (event : TxEvent) (intent : SettleIntent)

/-- Issue terminal SQL and enter `settling`. -/
def beginTerminal (now : Instant) : TxReducer × List Action :=
  let command := if r.state = .poisoned then .rollback else intent
  let r := {r with settleIntent := some intent, state := .settling}
  let (r, token) := r.mintToken
  let r := {r with active := some token, session := .command token}
  let (generations, next) := r.generations.mint
  let r := {r with generations}
  match r.slot.replaceCurrent .execution .terminalSql next (now + r.budgets.terminalSql) with
  | .ok (slot, scheduled) => ({r with slot}, [.scheduleTimer scheduled, .issueTerminal token command])
  | .error _ => (r, [.issueTerminal token command])

def onOperationCompleted (token : CommandToken) (errored : Bool) (now : Instant) :
    Option (TxReducer × List Action) :=
  match r.checkToken token with
  | some reply => some (r, reply)
  | none =>
    if r.state = .cancelling then r.commandReturnedDuringCleanup
    else
      let quiescing := r.state = .quiescing
      let r := {r with active := none, session := .registry, state := if errored then .poisoned else .idle}
      let replies := [.reply (if errored then .error .transactionNotReady else .ok .operationAccepted)]
      if quiescing then
        match r.settleIntent with
        | some intent => let (r, actions) := r.beginTerminal intent now; some (r, replies ++ actions)
        | none => none
      else some (r, replies)

def onOpenFrame : TxReducer × List Action :=
  match r.refuseIfCleaningUp with
  | some reply => (r, reply)
  | none =>
    if !r.state.admitsCreatorSql then
      (r, [.reply (.error (match r.state with
        | .inFlight | .quiescing => .transactionConnectionBusy
        | _ => .transactionNotReady))])
    else match r.frames.openChild with
      | .ok (frames, _, name) =>
        let r := {r with frames}
        let (r, token) := r.mintToken
        ({r with active := some token, session := .command token, state := .inFlight},
          [.issueSavepoint token name])
      | .error error => (r, [.reply (.error (.frame error))])

def onOpenFrameCompleted (token : CommandToken) (frame : FrameId) (ok : Bool) :
    Option (TxReducer × List Action) :=
  match r.checkToken token with
  | some reply => some (r, reply)
  | none =>
    if r.state = .cancelling then r.commandReturnedDuringCleanup
    else
      let r := {r with active := none, session := .registry}
      if ok then
        -- a refused confirmation is dropped, and the stack is left as it is
        let frames := (r.frames.confirmChildOpen frame).toOption.getD r.frames
        some ({r with frames, state := .idle}, [.reply (.ok (.frameOpened frame))])
      else
        let frames := (r.frames.abandonOpeningChild frame).toOption.getD r.frames
        some ({r with frames, state := .poisoned}, [.reply (.error .transactionNotReady)])

def onCloseFrame (frame : FrameId) (close : FrameClose) :
    Option (TxReducer × List Action) :=
  match r.refuseIfCleaningUp with
  | some reply => some (r, reply)
  | none =>
    let recovering := r.state = .poisoned ∧ close = .rolledBackTo
    if !r.state.admitsCreatorSql ∧ ¬recovering then
      some (r, [.reply (.error (match r.state with
        | .inFlight | .quiescing => .transactionConnectionBusy
        | _ => .transactionNotReady))])
    else match r.frames.top with
      | none => some (r, [.reply (.error (.frame .noOpenFrame))])
      | some top =>
        if top.id ≠ frame then some (r, [.reply (.error (.frame .savepointNotCurrent))])
        else if top.isRoot then some (r, [.reply (.error (.frame .savepointRootCannotClose))])
        else match top.savepoint with
          | none => none
          | some name =>
            let (r, token) := r.mintToken
            some ({r with active := some token, session := .command token, state := .inFlight},
              [match close with
                | .released => .issueRelease token name
                | .rolledBackTo => .issueRollbackTo token name])

def onCloseFrameCompleted (token : CommandToken) (frame : FrameId) (close : FrameClose)
    (ok : Bool) : Option (TxReducer × List Action) :=
  match r.checkToken token with
  | some reply => some (r, reply)
  | none =>
    if r.state = .cancelling then r.commandReturnedDuringCleanup
    else
      let r := {r with active := none, session := .registry}
      if !ok then some ({r with state := .poisoned}, [.reply (.error .transactionNotReady)])
      else match close with
        | .rolledBackTo =>
          let r := {r with frames := (r.frames.markRolledBack frame).toOption.getD r.frames}
          match r.frames.top.bind Frame.savepoint with
          | none => none
          | some name =>
            let (r, release) := r.mintToken
            some ({r with active := some release, session := .command release, state := .inFlight},
              [.issueRelease release name])
        | .released =>
          match r.frames.closeTop frame .released with
          | none => none
          | some (.ok (frames, id)) => some ({r with frames, state := .idle}, [.reply (.ok (.frameClosed id))])
          | some (.error error) =>
            match r.frames.top with
            | some top =>
              match r.frames.closeTop top.id .rolledBackTo with
              | none => none
              | some (.ok (frames, _)) =>
                some ({r with frames, state := .idle}, [.reply (.ok (.frameClosed top.id))])
              | some (.error _) => some ({r with state := .idle}, [.reply (.ok (.frameClosed top.id))])
            | none => some (r, [.reply (.error (.frame error))])

def onSettleRequested (now : Instant) : TxReducer × List Action :=
  match r.refuseIfCleaningUp with
  | some reply => (r, reply)
  | none =>
    match r.state with
    | .idle | .poisoned => r.beginTerminal intent now
    | .inFlight => ({r with state := .quiescing, settleIntent := some intent}, [])
    | .quiescing | .settling =>
      if r.settleIntent = some intent then (r, []) else (r, [.reply (.error .settleConflict)])
    | _ => (r, [.reply (.error .transactionNotReady)])

/-- Reach `settled`, applying the effect fate and disposing of the session. -/
def settleNow (outcome : TerminalOutcome) (withdraw : Bool) : TxReducer × List Action :=
  let r := {r with state := .settled, outcome := some outcome, active := none, slot := r.slot.disarm}
  let (r, effects) :=
    if outcome.publishes then
      let (frames, effects) := r.frames.takeEffectsForConfirmedCommit
      ({r with frames}, Action.publishEffects effects)
    else ({r with frames := r.frames.discardAllEffects}, Action.discardEffects)
  let (r, session) :=
    if withdraw then ({r with session := .withdrawn}, Action.withdrawSession)
    else ({r with session := .none}, Action.releaseSession)
  (r, [effects, session, .releaseAdmission, .reply (.ok (.settled outcome))])

/-- The outcome of an answered terminal command, from the recorded intent. -/
def terminalOutcome : SettleIntent → TerminalResult → TerminalOutcome
  | .commit, .committed => .committed
  | .commit, .rolledBack => .rolledBack
  | .rollback, .rolledBack => .rolledBack
  | .rollback, .committed => .resultMismatch
  | _, .indeterminate => .indeterminate .backendHealthUnknown

def onTerminalCompleted (token : CommandToken) (result : TerminalResult) :
    Option (TxReducer × List Action) :=
  match r.checkToken token with
  | some reply => some (r, reply)
  | none =>
    if r.state ≠ .settling then some (r, [.reply (.error .transactionNotReady)])
    else
      let r := {r with active := none, terminalPromised := true}
      match r.settleIntent with
      | none => none
      | some intent =>
        let outcome := terminalOutcome intent result
        some ({r with slot := r.slot.disarm}.settleNow outcome outcome.isIndeterminate)

/-- Guard 3: may a deadline of this kind act on this state at all? -/
def preflightLegal : DeadlineKind → Bool
  | .execution => r.state.isForceable
  | .cancellationSql => r.state = .cancelling
  | .terminalSql => r.state = .settling

def onDeadlineFired (kind : DeadlineKind) (generation : DeadlineGeneration)
    (now : Instant) : TxReducer × List Action :=
  if !r.preflightLegal kind then (r, [])
  else match r.slot.claimFire kind generation with
    | .error _ => (r, [])
    | .ok slot =>
      let r := {r with slot}
      match kind with
      | .execution => let (r, _, actions) := r.force (.deadlineExpired kind) now; (r, actions)
      | .cancellationSql | .terminalSql =>
        let cause := (r.cleanup.map LatchedCleanup.cause).getD (.deadlineExpired kind)
        {r with slot := r.slot.disarm}.settleNow (.indeterminate cause) true

def onCancellationAcknowledged (token : CommandToken) (ack : CleanupAck) :
    Option (TxReducer × List Action) :=
  if r.cancellationToken ≠ some token then some (r, [.reply (.error .staleTransactionCompletion)])
  else if r.state ≠ .cancelling then some (r, [.reply (.error .transactionNotReady)])
  else match r.cleanup with
    | none => none
    | some latched =>
      let r := {r with slot := r.slot.disarm}
      if latched.goal.isProvedBy ack then some (r.settleNow (.cancelled latched.cause) false)
      else some (r.settleNow (.indeterminate latched.cause) true)

/-- The events of a settled transaction that are answered by silence. -/
def settledAnswer : TxEvent → List Action
  | .cancel _ | .detachRequested _ | .deadlineFired _ _ => []
  | _ => [.reply (.error .transactionAlreadySettled)]

/-- The handler of each event, once identity and settlement are checked. -/
def dispatch (now : Instant) : Option (TxReducer × List Action) :=
  match event with
  | .authorityObserved _ observed => some (r.onAuthority observed now)
  | .beginCompleted token outcome => some (r.onBeginCompleted token outcome now)
  | .operationRequested => some r.onOperationRequested
  | .operationCompleted token errored => r.onOperationCompleted token errored now
  | .openFrame => some r.onOpenFrame
  | .openFrameCompleted token frame ok => r.onOpenFrameCompleted token frame ok
  | .closeFrame frame close => r.onCloseFrame frame close
  | .closeFrameCompleted token frame close ok => r.onCloseFrameCompleted token frame close ok
  | .settleRequested intent => some (r.onSettleRequested intent now)
  | .terminalCompleted token result => r.onTerminalCompleted token result
  | .cancel _ => let (r, _, actions) := r.force .cancelled now; some (r, actions)
  | .detachRequested _ => let (r, _, actions) := r.force .detached now; some (r, actions)
  | .deadlineFired kind generation => some (r.onDeadlineFired kind generation now)
  | .cancellationAcknowledged token ack => r.onCancellationAcknowledged token ack

/-- Does the event carry an authority other than the one admitted? -/
def foreign : Bool :=
  match eventAuthority event with
  | some authority => authority.identity ≠ r.expected.identity ∨ authority.domain ≠ r.expected.domain
  | none => false

/-- Apply one event, in the normative guard order. -/
def apply (now : Instant) : Option (TxReducer × List Action) :=
  if r.foreign event then some (r, [.reply (.error .appIncarnationMismatch)])
  else if r.state = .settled then some (r, settledAnswer event)
  else r.dispatch event now

/-- Queue an effect against the current frame, for the driver's write path. -/
def queueEffect (r : TxReducer) (effect : Effect) : Except FrameError TxReducer :=
  match r.frames.queueEffect effect with
  | .ok frames => .ok {r with frames}
  | .error error => .error error

end TxReducer

end Zeroship.Tx
