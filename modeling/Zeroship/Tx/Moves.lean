import Zeroship.Base.Machine
import Zeroship.Tx.Reducer

/-! Every way the reducer can move.

`Move` lists them: one constructor for each assignment of the handlers, with the
guard under which it happens and exactly the reducer and the actions it leaves.
What a run can do is read off this list.

The machine takes two kinds of input: an event with the instant it is applied at,
and an effect the driver's write path queues. -/
namespace Zeroship.Tx

inductive TxInput
  | event (event : TxEvent) (now : Instant)
  | queue (effect : Effect)

/-- Is it an answer to the caller, which changes nothing outside? -/
def Action.isReply : Action → Bool
  | .reply _ => true
  | _ => false

/-- The token of a completion that gives the session back. -/
def TxEvent.returning : TxEvent → Option CommandToken
  | .operationCompleted token _ => some token
  | .openFrameCompleted token _ _ => some token
  | .closeFrameCompleted token _ _ _ => some token
  | _ => none

namespace TxReducer

variable (r : TxReducer)

/-- One input. A refused effect is an error value to the driver and no action. -/
def step : TxInput → Option (TxReducer × List Action)
  | .event event now => r.apply event now
  | .queue effect => match r.queueEffect effect with
    | .ok r => some (r, [])
    | .error _ => some (r, [])

/-- The token minted next. -/
def fresh : CommandToken := ⟨r.nextToken + 1⟩

variable (outcome : TerminalOutcome) (withdraw : Bool) (state : TxState)

/-- A fresh command takes the session. -/
def issued : TxReducer :=
  {r with nextToken := r.nextToken + 1, active := some r.fresh, session := .command r.fresh, state}

/-- The active command gives the session back. -/
def returned : TxReducer :=
  {r with active := none, session := .registry, state}

/-- The slot and the timer after the execution deadline is replaced. -/
def rearmed (kind : DeadlineKind) (deadline : Instant) : DeadlineSlot × List Action :=
  match r.slot.replaceCurrent .execution kind ⟨r.generations.next + 1⟩ deadline with
  | .ok (slot, scheduled) => (slot, [.scheduleTimer scheduled])
  | .error _ => (r.slot, [])

/-- The reducer after a force that won the gate. -/
def forcedBy (cause : CleanupCause) (now : Instant) : TxReducer :=
  {r with
    cleanup := some ⟨cause, .forState r.state⟩
    state := .cancelling
    nextToken := r.nextToken + 1
    cancellationToken := some r.fresh
    generations := ⟨r.generations.next + 1⟩
    slot := (r.rearmed .cancellationSql (now + r.budgets.cancellationSql)).1}

def forceActions (now : Instant) : List Action :=
  (r.rearmed .cancellationSql (now + r.budgets.cancellationSql)).2 ++
    [.issueCancellation r.fresh (.forState r.state)]

variable (intent : SettleIntent)

/-- The terminal command that an intent issues from here. -/
def terminalCommand : SettleIntent :=
  if r.state = .poisoned then .rollback else intent

/-- The reducer after terminal SQL is issued. -/
def terminal (now : Instant) : TxReducer :=
  {r with
    settleIntent := some intent
    state := .settling
    nextToken := r.nextToken + 1
    active := some r.fresh
    session := .command r.fresh
    generations := ⟨r.generations.next + 1⟩
    slot := (r.rearmed .terminalSql (now + r.budgets.terminalSql)).1}

def terminalActions (now : Instant) : List Action :=
  (r.rearmed .terminalSql (now + r.budgets.terminalSql)).2 ++
    [.issueTerminal r.fresh (r.terminalCommand intent)]

/-- The reducer after it settles. Either fate empties the buffers. -/
def settledAs : TxReducer :=
  {r with
    state := .settled
    outcome := some outcome
    active := none
    slot := ⟨.disarmed⟩
    frames := r.frames.discardAllEffects
    session := if withdraw then .withdrawn else .none}

def settleActions : List Action :=
  [if outcome.publishes then .publishEffects r.frames.retainedEffects else .discardEffects,
    if withdraw then .withdrawSession else .releaseSession,
    .releaseAdmission, .reply (.ok (.settled outcome))]

/-- A force can still latch its cause. -/
def GateOpen : Prop :=
  r.terminalPromised = false ∧ r.state ≠ .settling ∧ r.cleanup = none

theorem force_won {r : TxReducer} (h : r.GateOpen) (cause : CleanupCause) (now : Instant) :
    r.force cause now = (r.forcedBy cause now, .forceWon, r.forceActions now) := by
  obtain ⟨hp, hs, hc⟩ := h
  simp only [force, hp, hs, hc, Bool.false_eq_true, or_self, if_false, Option.isSome_none, mintToken,
    DeadlineGenerations.mint, forcedBy, forceActions, rearmed, fresh]
  split <;> simp_all

theorem force_lost {r : TxReducer} (h : ¬ r.GateOpen) (cause : CleanupCause) (now : Instant) :
    ∃ gate, r.force cause now = (r, gate, []) := by
  unfold force
  split
  · exact ⟨_, rfl⟩
  split
  · exact ⟨_, rfl⟩
  · simp_all [GateOpen]

theorem beginTerminal_eq (r : TxReducer) (intent : SettleIntent) (now : Instant) :
    r.beginTerminal intent now = (r.terminal intent now, r.terminalActions intent now) := by
  simp only [beginTerminal, mintToken, DeadlineGenerations.mint, terminal, terminalActions, rearmed, fresh,
    terminalCommand]
  split <;> simp_all

theorem settleNow_eq (r : TxReducer) (outcome : TerminalOutcome) (withdraw : Bool) :
    r.settleNow outcome withdraw = (r.settledAs outcome withdraw, r.settleActions outcome withdraw) := by
  unfold settleNow settledAs settleActions
  cases outcome.publishes <;> cases withdraw <;> rfl

end TxReducer

open TxReducer

/-- What a forcing event leaves of the reducer before the gate is asked. -/
inductive Interrupted (r : TxReducer) : TxEvent → TxReducer → Prop
  | published {e : TxEvent} (h : e.returning = none) : Interrupted r e r
  | beginFailed {token : CommandToken} {outcome : BeginOutcome} (hs : r.state = .starting)
      (ha : r.active = some token) :
      Interrupted r (.beginCompleted token outcome) {r with active := none}
  | expired {generation : DeadlineGeneration} {deadline : Instant}
      (ha : r.slot.state = .armed .execution generation deadline) (hs : r.state.isForceable) :
      Interrupted r (.deadlineFired .execution generation) {r with slot := ⟨.fired .execution generation⟩}

/-- Every move of the reducer. -/
inductive Move (r : TxReducer) : TxInput → TxReducer → List Action → Prop
  /-- Nothing moves; the caller is at most told why. -/
  | refused {e : TxEvent} {now : Instant} {replies : List Action} (hr : ∀ a ∈ replies, a.isReply)
      (hstale : ∀ t, e.returning = some t → r.active ≠ some t ∨ r.state = .settled) :
      Move r (.event e now) r replies
  | folded {a : EventAuthority} {observed : ObservedAuthority} {now : Instant} {ceiling : MaskCeiling}
      (hs : r.state ≠ .settled) :
      Move r (.event (.authorityObserved a observed) now) {r with effectiveCeiling := some ceiling} []
  | began {a : EventAuthority} {observed : ObservedAuthority} {now : Instant} {effective begin : MaskCeiling}
      (hs : r.state = .preparing) :
      Move r (.event (.authorityObserved a observed) now)
        {r with
          effectiveCeiling := some effective
          beginCeiling := some begin
          state := .starting
          nextToken := r.nextToken + 1
          active := some r.fresh}
        [.issueBegin r.fresh]
  | opened {token : CommandToken} {generation : BackendGeneration} {now : Instant}
      (hs : r.state = .starting) (ha : r.active = some token) :
      Move r (.event (.beginCompleted token (.opened generation)) now)
        {r with
          active := none
          generation := some generation
          session := .registry
          frames := r.frames.openRoot.1
          state := .idle}
        [.reply (.ok .began)]
  /-- A force that wins the gate. -/
  | forced {r₀ : TxReducer} {e : TxEvent} {now : Instant} {cause : CleanupCause} {replies : List Action}
      (hs : r.state ≠ .settled) (hi : Interrupted r e r₀) (hg : r₀.GateOpen)
      (hr : ∀ a ∈ replies, a.isReply) :
      Move r (.event e now) (r₀.forcedBy cause now) (r₀.forceActions now ++ replies)
  /-- A force that comes too late. -/
  | late {r₀ : TxReducer} {e : TxEvent} {now : Instant} {replies : List Action}
      (hs : r.state ≠ .settled) (hi : Interrupted r e r₀) (hg : ¬ r₀.GateOpen)
      (hr : ∀ a ∈ replies, a.isReply) : Move r (.event e now) r₀ replies
  | issuedData {now : Instant} (hs : r.state = .idle) (hc : r.cleanup = none) :
      Move r (.event .operationRequested now) (r.issued .inFlight) [.issueDataSql r.fresh]
  | dataReturned {token : CommandToken} {errored : Bool} {now : Instant} {answer : TxAnswer}
      (hs : r.state ≠ .settled) (hcan : r.state ≠ .cancelling) (hq : r.state ≠ .quiescing)
      (ha : r.active = some token) :
      Move r (.event (.operationCompleted token errored) now)
        (r.returned (if errored then .poisoned else .idle)) [.reply answer]
  | dataSettled {token : CommandToken} {errored : Bool} {now : Instant} {answer : TxAnswer}
      {intent : SettleIntent} (hs : r.state = .quiescing) (ha : r.active = some token)
      (hint : r.settleIntent = some intent) :
      Move r (.event (.operationCompleted token errored) now)
        ((r.returned (if errored then .poisoned else .idle)).terminal intent now)
        (.reply answer :: (r.returned (if errored then .poisoned else .idle)).terminalActions intent now)
  | issuedSavepoint {now : Instant} {frames : FrameStack} {id : FrameId} {name : String}
      (hs : r.state = .idle) (hc : r.cleanup = none) (ho : r.frames.openChild = .ok (frames, id, name)) :
      Move r (.event .openFrame now) (issued {r with frames} .inFlight) [.issueSavepoint r.fresh name]
  | savepointReturned {token : CommandToken} {frame : FrameId} {now : Instant} {answer : TxAnswer}
      (hs : r.state ≠ .settled) (hcan : r.state ≠ .cancelling) (ha : r.active = some token) :
      Move r (.event (.openFrameCompleted token frame true) now)
        (returned {r with frames := (r.frames.confirmChildOpen frame).toOption.getD r.frames} .idle) [.reply answer]
  | savepointFailed {token : CommandToken} {frame : FrameId} {now : Instant} {answer : TxAnswer}
      (hs : r.state ≠ .settled) (hcan : r.state ≠ .cancelling) (ha : r.active = some token) :
      Move r (.event (.openFrameCompleted token frame false) now)
        (returned {r with frames := (r.frames.abandonOpeningChild frame).toOption.getD r.frames} .poisoned)
        [.reply answer]
  | issuedRelease {frame : FrameId} {now : Instant} {top : Frame} {name : String}
      (hs : r.state = .idle) (hc : r.cleanup = none)
      (ht : r.frames.top = some top) (hid : top.id = frame) (hn : top.savepoint = some name) :
      Move r (.event (.closeFrame frame .released) now) (r.issued .inFlight) [.issueRelease r.fresh name]
  | issuedRollbackTo {frame : FrameId} {now : Instant} {top : Frame} {name : String}
      (hs : r.state = .idle ∨ r.state = .poisoned) (hc : r.cleanup = none)
      (ht : r.frames.top = some top) (hid : top.id = frame) (hn : top.savepoint = some name) :
      Move r (.event (.closeFrame frame .rolledBackTo) now) (r.issued .inFlight)
        [.issueRollbackTo r.fresh name]
  | closeFailed {token : CommandToken} {frame : FrameId} {close : FrameClose} {now : Instant} {answer : TxAnswer}
      (hs : r.state ≠ .settled) (hcan : r.state ≠ .cancelling) (ha : r.active = some token) :
      Move r (.event (.closeFrameCompleted token frame close false) now) (r.returned .poisoned) [.reply answer]
  | rolledBack {token : CommandToken} {frame : FrameId} {now : Instant} {top : Frame} {name : String}
      (hs : r.state ≠ .settled) (hcan : r.state ≠ .cancelling) (ha : r.active = some token)
      (ht : ((r.frames.markRolledBack frame).toOption.getD r.frames).top = some top)
      (hn : top.savepoint = some name) :
      Move r (.event (.closeFrameCompleted token frame .rolledBackTo true) now)
        (issued {r with frames := (r.frames.markRolledBack frame).toOption.getD r.frames} .inFlight)
        [.issueRelease r.fresh name]
  | released {token : CommandToken} {frame id : FrameId} {now : Instant} {frames : FrameStack} {answer : TxAnswer}
      (hs : r.state ≠ .settled) (hcan : r.state ≠ .cancelling) (ha : r.active = some token)
      (hf : r.frames.closeTop frame .released = some (.ok (frames, id))) :
      Move r (.event (.closeFrameCompleted token frame .released true) now)
        (returned {r with frames} .idle) [.reply answer]
  /-- The refused release of a frame that is not the top one takes the top one. -/
  | releasedTop {token : CommandToken} {frame : FrameId} {now : Instant} {error : FrameError} {top : Frame}
      {frames : FrameStack} {answer : TxAnswer}
      (hs : r.state ≠ .settled) (hcan : r.state ≠ .cancelling) (ha : r.active = some token)
      (hf : r.frames.closeTop frame .released = some (.error error)) (ht : r.frames.top = some top)
      (hfr : frames = r.frames ∨ ∃ id, r.frames.closeTop top.id .rolledBackTo = some (.ok (frames, id))) :
      Move r (.event (.closeFrameCompleted token frame .released true) now)
        (returned {r with frames} .idle) [.reply answer]
  | releasedNothing {token : CommandToken} {frame : FrameId} {now : Instant} {answer : TxAnswer}
      (hs : r.state ≠ .settled) (hcan : r.state ≠ .cancelling) (ha : r.active = some token)
      (ht : r.frames.top = none) :
      Move r (.event (.closeFrameCompleted token frame .released true) now) (r.returned r.state) [.reply answer]
  | quiesced {intent : SettleIntent} {now : Instant} (hs : r.state = .inFlight) (hc : r.cleanup = none) :
      Move r (.event (.settleRequested intent) now)
        {r with state := .quiescing, settleIntent := some intent} []
  | settling {intent : SettleIntent} {now : Instant} (hs : r.state = .idle ∨ r.state = .poisoned)
      (hc : r.cleanup = none) :
      Move r (.event (.settleRequested intent) now) (r.terminal intent now) (r.terminalActions intent now)
  | returnedLate {e : TxEvent} {now : Instant} {token : CommandToken} {latched : LatchedCleanup}
      (hs : r.state = .cancelling) (he : e.returning = some token) (ha : r.active = some token)
      (hc : r.cleanup = some latched) :
      Move r (.event e now) (r.returned .cancelling) [.reply (.error (.cleanup latched.cause))]
  | answered {token : CommandToken} {result : TerminalResult} {now : Instant} {intent : SettleIntent}
      (hs : r.state = .settling) (ha : r.active = some token) (hint : r.settleIntent = some intent) :
      Move r (.event (.terminalCompleted token result) now)
        (settledAs {r with terminalPromised := true} (terminalOutcome intent result)
          (terminalOutcome intent result).isIndeterminate)
        (r.settleActions (terminalOutcome intent result) (terminalOutcome intent result).isIndeterminate)
  | expired {kind : DeadlineKind} {generation : DeadlineGeneration} {deadline : Instant} {now : Instant}
      (hs : (kind = .cancellationSql ∧ r.state = .cancelling) ∨ (kind = .terminalSql ∧ r.state = .settling))
      (ha : r.slot.state = .armed kind generation deadline) :
      Move r (.event (.deadlineFired kind generation) now)
        (r.settledAs (.indeterminate ((r.cleanup.map LatchedCleanup.cause).getD (.deadlineExpired kind))) true)
        (r.settleActions (.indeterminate ((r.cleanup.map LatchedCleanup.cause).getD (.deadlineExpired kind))) true)
  | cancelled {token : CommandToken} {ack : CleanupAck} {now : Instant} {latched : LatchedCleanup}
      (hs : r.state = .cancelling) (ht : r.cancellationToken = some token) (hc : r.cleanup = some latched)
      (hp : latched.goal.isProvedBy ack) :
      Move r (.event (.cancellationAcknowledged token ack) now)
        (r.settledAs (.cancelled latched.cause) false) (r.settleActions (.cancelled latched.cause) false)
  | unproved {token : CommandToken} {ack : CleanupAck} {now : Instant} {latched : LatchedCleanup}
      (hs : r.state = .cancelling) (ht : r.cancellationToken = some token) (hc : r.cleanup = some latched)
      (hp : ¬ latched.goal.isProvedBy ack) :
      Move r (.event (.cancellationAcknowledged token ack) now)
        (r.settledAs (.indeterminate latched.cause) true) (r.settleActions (.indeterminate latched.cause) true)
  | queued {effect : Effect} {frames : FrameStack} (hf : r.frames.queueEffect effect = .ok frames) :
      Move r (.queue effect) {r with frames} []
  | queueRefused {effect : Effect} {error : FrameError} (hf : r.frames.queueEffect effect = .error error) :
      Move r (.queue effect) r []

theorem Move.live {r r' : TxReducer} {i : TxInput} {acts : List Action} (hm : Move r i r' acts)
    (hc : r'.state ≠ .cancelling) (hs : r'.state ≠ .settled) : r.state ≠ .cancelling ∧ r.state ≠ .settled := by
  cases hm with
  | late hs' hi =>
    refine ⟨?_, hs'⟩
    cases hi <;> exact hc
  | forced | returnedLate => exact absurd rfl hc
  | answered | expired | cancelled | unproved => exact absurd rfl hs
  | refused | queued | queueRefused => exact ⟨hc, hs⟩
  | folded hs' => exact ⟨hc, hs'⟩
  | issuedRollbackTo hs' | settling hs' => rcases hs' with hs' | hs' <;> simp [hs']
  | _ => simp_all

/-- Is it an answer or a timer, neither of which reaches the backend? -/
def Action.isQuiet : Action → Bool
  | .reply _ | .scheduleTimer _ => true
  | _ => false

/-- The actions that reach the backend, the pool or the subscribers. -/
def loud (acts : List Action) : List Action := acts.filter fun a => !a.isQuiet

theorem mem_loud {a : Action} {acts : List Action} (h : a.isQuiet = false) : a ∈ loud acts ↔ a ∈ acts := by
  simp [loud, h]

@[simp] theorem loud_nil : loud [] = [] := rfl

@[simp] theorem loud_append (a b : List Action) : loud (a ++ b) = loud a ++ loud b := List.filter_append ..

@[simp] theorem loud_cons (a : Action) (acts : List Action) :
    loud (a :: acts) = if a.isQuiet then loud acts else a :: loud acts := by
  cases h : a.isQuiet <;> simp [loud, h]

theorem loud_replies {acts : List Action} (h : ∀ a ∈ acts, a.isReply) : loud acts = [] := by
  refine List.filter_eq_nil_iff.mpr fun a ha => ?_
  have hr := h a ha
  cases a <;> simp_all [Action.isReply, Action.isQuiet]

section
variable {r r' : TxReducer} {e : TxEvent} {i : TxInput} {now : Instant} {acts : List Action}

@[simp] theorem loud_rearmed (kind : DeadlineKind) (deadline : Instant) : loud (r.rearmed kind deadline).2 = [] := by
  unfold rearmed
  split <;> rfl

@[simp] theorem loud_forceActions : loud (r.forceActions now) = [.issueCancellation r.fresh (.forState r.state)] := by
  rw [forceActions, loud_append, loud_rearmed]
  rfl

@[simp] theorem loud_terminalActions (intent : SettleIntent) :
    loud (r.terminalActions intent now) = [.issueTerminal r.fresh (r.terminalCommand intent)] := by
  rw [terminalActions, loud_append, loud_rearmed]
  rfl

@[simp] theorem loud_settleActions (outcome : TerminalOutcome) (withdraw : Bool) :
    loud (r.settleActions outcome withdraw) =
      [if outcome.publishes then .publishEffects r.frames.retainedEffects else .discardEffects,
        if withdraw then .withdrawSession else .releaseSession, .releaseAdmission] := by
  unfold settleActions
  cases outcome.publishes <;> cases withdraw <;> rfl

theorem issueTerminal_mem (intent : SettleIntent) :
    .issueTerminal r.fresh (r.terminalCommand intent) ∈ r.terminalActions intent now := by
  simp [terminalActions]

/-- A force interrupts at most the active token and the slot. -/
theorem Interrupted.eq {r₀ : TxReducer} (hi : Interrupted r e r₀) :
    ∃ active slot, (active = r.active ∨ active = none) ∧ r₀ = {r with active, slot} := by
  cases hi with
  | published | expired => exact ⟨_, _, .inl rfl, rfl⟩
  | beginFailed => exact ⟨_, _, .inr rfl, rfl⟩

theorem Move.of_settled (hm : Move r (.event e now) r' acts) (hs : r.state = .settled) :
    r' = r ∧ ∀ a ∈ acts, a.isReply := by
  cases hm with
  | refused hr => exact ⟨rfl, hr⟩
  | _ => simp_all

theorem Move.settled_stays (hm : Move r i r' acts) (hs : r.state = .settled) : r'.state = .settled := by
  cases i with
  | event e now => rw [(hm.of_settled hs).1, hs]
  | queue effect => cases hm <;> exact hs

theorem Move.settles (hm : Move r i r' acts) (hs : r.state ≠ .settled) (hs' : r'.state = .settled) :
    ∃ promised outcome withdraw, r' = settledAs {r with terminalPromised := promised} outcome withdraw ∧
      acts = r.settleActions outcome withdraw := by
  cases hm with
  | answered => exact ⟨_, _, _, rfl, rfl⟩
  | expired | cancelled | unproved => exact ⟨r.terminalPromised, _, _, rfl, rfl⟩
  | late hl hi hg hr =>
    obtain ⟨active, slot, -, rfl⟩ := hi.eq
    exact absurd hs' hs
  | @dataReturned _ errored => cases errored <;> cases hs'
  | _ => first
    | exact absurd hs' hs
    | cases hs'

end

end Zeroship.Tx
