import Zeroship.Tx.Commands

/-! Every transaction is bounded, and gives its admission back once.

The slot is always armed with the deadline its state is under, at the generation
minted last (`Armed`). Firing it at most twice settles the transaction: an execution
deadline forces cleanup, and the deadlines of cleanup and of terminal SQL settle at
once. Settling is the one move that releases the admission. -/
namespace Zeroship.Tx
open TxState DeadlineSlot

open Base (Environment)
open TxReducer List

/-- The kind of deadline each live state is under. -/
def TxState.deadline : TxState → DeadlineKind
  | .cancelling => .cancellationSql
  | .settling => .terminalSql
  | _ => .execution

/-- The slot is armed for this state with the generation minted last. -/
def Armed (r : TxReducer) : Prop :=
  ∃ deadline, r.slot.state = .armed r.state.deadline ⟨r.generations.next⟩ deadline

theorem deadline_of_force {s : TxState} (h : s.isForceable) : s.deadline = .execution := by
  cases s <;> simp_all [isForceable, deadline]

variable {r : TxReducer} {acts : List Action} {h : History} {r' : TxReducer} {i : TxInput}
  {expected : ExpectedAuthority} {budgets : TxBudgets} {start : Instant} {maxDepth : Nat} {before : TxState}

theorem Armed.kind (h : Armed r) : r.slot.kind? = some r.state.deadline := by
  obtain ⟨deadline, h⟩ := h
  simp [kind?, h]

theorem rearmed_armed (h : r.slot.kind? = some .execution) (kind : DeadlineKind) (deadline : Instant) :
    r.rearmed kind deadline = (⟨.armed kind ⟨r.generations.next + 1⟩ deadline⟩,
      [.scheduleTimer ⟨kind, ⟨r.generations.next + 1⟩, deadline⟩]) := by
  simp [rearmed, replaceCurrent_expected h]

theorem Armed.terminal (h : r.slot.kind? = some .execution) (intent : SettleIntent)
    (now : Instant) : Armed (r.terminal intent now) :=
  ⟨now + r.budgets.terminalSql, by simp [TxReducer.terminal, rearmed_armed h, deadline]⟩

theorem Armed.forcedBy (h : r.slot.kind? = some .execution) (cause : CleanupCause)
    (now : Instant) : Armed (r.forcedBy cause now) :=
  ⟨now + r.budgets.cancellationSql, by simp [TxReducer.forcedBy, rearmed_armed h, deadline]⟩

theorem Armed.interrupted {r₀ : TxReducer} {e : TxEvent} (h : Armed r) (hf : r.state.isForceable)
    (hi : Interrupted r e r₀) : r₀.slot.kind? = some .execution := by
  have hk := h.kind
  rw [deadline_of_force hf] at hk
  cases hi with
  | published | beginFailed => exact hk
  | expired => rfl

theorem Armed.move (har : r.state ≠ .settled → Armed r) (hu : Underway h r) (hen : kindMatched h r i)
    (hm : Move r i r' acts) (hs' : r'.state ≠ .settled) : Armed r' := by
  -- a move between two states under the same deadline that leaves the slot alone
  have hsm {r' : TxReducer} (hs : r.state ≠ .settled) (hsl : r'.slot = r.slot)
      (hgn : r'.generations = r.generations) (hd : r'.state.deadline = r.state.deadline) : Armed r' := by
    obtain ⟨deadline, hd'⟩ := har hs
    exact ⟨deadline, by rw [hsl, hgn, hd, hd']⟩
  have hex {s : TxState} (hs : s.isForceable) (hs' : r.state = s) : r.slot.kind? = some .execution := by
    have hk := (har (by rw [hs']; rintro rfl; cases hs)).kind
    rwa [deadline_of_force (hs'.symm ▸ hs)] at hk
  -- a command comes back outside cleanup only under the execution deadline
  have hb : ∀ {e now t}, i = .event e now → e.returning = some t → r.active = some t →
      r.state ≠ .cancelling → r.state.deadline = .execution := by
    rintro e now t rfl he ha hc
    rcases hu.returning_state hen ha he with hs | hs | hs
    · simp [hs, deadline]
    · simp [hs, deadline]
    · exact absurd hs hc
  cases hm with
  | refused | queueRefused => exact har hs'
  | folded hs => exact hsm hs rfl rfl rfl
  | queued => exact hsm hs' rfl rfl rfl
  | began hs | opened hs | issuedData hs | issuedSavepoint hs | issuedRelease hs | quiesced hs =>
    exact hsm (by simp [hs]) rfl rfl (by simp [hs, deadline, issued])
  | issuedRollbackTo hs =>
    rcases hs with hs | hs <;> exact hsm (by simp [hs]) rfl rfl (by simp [hs, deadline, issued])
  | forced hs hi hg hr =>
    have hf : r.state.isForceable := by
      obtain ⟨active, slot, -, rfl⟩ := hi.eq
      exact hu.gated.forceable hs hg
    exact .forcedBy ((har hs).interrupted hf hi) _ _
  | late hs hi hg hr =>
    obtain ⟨rfl, -⟩ := hu.gated.late hi hg
    exact har hs
  | @dataReturned token errored _ _ hs hc hq ha =>
    refine hsm hs rfl rfl ?_
    rw [hb rfl rfl ha hc]
    cases errored <;> rfl
  | savepointReturned hs hc ha | savepointFailed hs hc ha | closeFailed hs hc ha
  | rolledBack hs hc ha | released hs hc ha | releasedTop hs hc ha =>
    exact hsm hs rfl rfl (hb rfl rfl ha hc).symm
  | releasedNothing hs hc ha => exact hsm hs rfl rfl rfl
  | dataSettled hs => exact .terminal (hex rfl hs) _ _
  | settling hs => rcases hs with hs | hs <;> exact .terminal (hex rfl hs) _ _
  | returnedLate hs => exact hsm (by simp [hs]) rfl rfl (by simp [hs, returned])
  | answered | expired | cancelled | unproved => exact absurd rfl hs'

/-- Until the transaction is settled a deadline is armed for the state it is in. -/
theorem armed_of_run (run : RunFrom kindMatched expected budgets start maxDepth h r) : r.state ≠ .settled → Armed r :=
  run.invariant (fun _ r => r.state ≠ .settled → Armed r) (fun _ => ⟨_, rfl⟩)
    fun run ha he ht => .move ha (underway_of_run run) he (step_move ht)

/-- Deliver the deadline the slot is armed with. -/
def TxReducer.fireArmed (r : TxReducer) (now : Instant) : Option (TxReducer × List Action) :=
  match r.slot.state with
  | .armed kind generation _ => r.apply (.deadlineFired kind generation) now
  | _ => none

/-- A deadline that is not the armed one is claimed by nobody. -/
theorem apply_stale_deadline {kind : DeadlineKind} {generation : DeadlineGeneration}
    (h : ∀ deadline, r.slot.state ≠ .armed kind generation deadline) (now : Instant) :
    r.apply (.deadlineFired kind generation) now = some (r, []) := by
  have hcl : ∃ error, r.slot.claimFire kind generation = .error error := by
    cases hc : r.slot.claimFire kind generation with
    | ok slot =>
      obtain ⟨⟨deadline, ha⟩, -⟩ := claimFire_ok hc
      exact absurd ha (h deadline)
    | error error => exact ⟨error, rfl⟩
  obtain ⟨error, hcl⟩ := hcl
  simp only [apply, foreign, eventAuthority, settledAnswer, dispatch, onDeadlineFired, hcl, Bool.false_eq_true,
    if_false, ite_self]

theorem apply_deadlineFired (hs : r.state ≠ .settled) (kind : DeadlineKind)
    (generation : DeadlineGeneration) (now : Instant) :
    r.apply (.deadlineFired kind generation) now = some (r.onDeadlineFired kind generation now) := by
  simp [apply, foreign, eventAuthority, hs, dispatch]

/-- The execution deadline forces cleanup, and arms its deadline. -/
theorem fire_execution (ha : Armed r) (hg : Gated r) (hf : r.state.isForceable)
    (now : Instant) : ∃ r₁ acts, r.fireArmed now = some (r₁, acts) ∧ r₁.state = .cancelling ∧ Armed r₁ := by
  obtain ⟨deadline, hsl⟩ := ha
  rw [deadline_of_force hf] at hsl
  have hs : r.state ≠ .settled := by
    rintro h
    simp [h, isForceable] at hf
  have ho : GateOpen {r with slot := ⟨.fired .execution ⟨r.generations.next⟩⟩} := hg.gateOpen hf
  refine ⟨forcedBy {r with slot := ⟨.fired .execution ⟨r.generations.next⟩⟩} (.deadlineExpired .execution) now,
    forceActions {r with slot := ⟨.fired .execution ⟨r.generations.next⟩⟩} now, ?_, rfl, .forcedBy rfl _ now⟩
  simp only [fireArmed, hsl, apply_deadlineFired hs, onDeadlineFired, preflightLegal, hf, Bool.not_true,
    Bool.false_eq_true, if_false, claimFire_armed hsl, force_won ho]

theorem fire_last (ha : Armed r) (hs : r.state = .cancelling ∨ r.state = .settling)
    (now : Instant) : ∃ r₁ acts, r.fireArmed now = some (r₁, acts) ∧ r₁.state = .settled := by
  obtain ⟨deadline, hsl⟩ := ha
  have hl : r.state ≠ .settled := by
    rcases hs with h | h <;> simp [h]
  have hp : r.preflightLegal r.state.deadline := by
    rcases hs with h | h <;> simp [preflightLegal, h, TxState.deadline]
  have hn : r.state.deadline ≠ .execution := by
    rcases hs with h | h <;> simp [h, TxState.deadline]
  simp only [fireArmed, hsl, apply_deadlineFired hl, onDeadlineFired, hp, Bool.not_true, Bool.false_eq_true,
    if_false, DeadlineSlot.claimFire_armed hsl]
  split
  · contradiction
  all_goals
    rw [settleNow_eq]
    exact ⟨_, _, rfl, rfl⟩

/-! ### The release of the admission -/

theorem count_loud {a : Action} (h : a.isQuiet = false) (acts : List Action) : (loud acts).count a = acts.count a :=
  count_filter (by simp [h])

/-- What a step gives back to the pool: nothing, unless it settles the transaction. -/
def Releases (before after : TxState) (acts : List Action) : Prop :=
  if before ≠ .settled ∧ after = .settled then
    acts.count .releaseAdmission = 1 ∧ acts.count .releaseSession + acts.count .withdrawSession = 1
  else acts.count .releaseAdmission = 0 ∧ acts.count .releaseSession + acts.count .withdrawSession = 0

/-- A move that sends at most commands and does not settle gives nothing back. -/
theorem releases_nothing {after : TxState} (hs : after = .settled → before = .settled)
    (h : ∀ a ∈ loud acts, a.command.isSome) : Releases before after acts := by
  have hz (a : Action) (hq : a.isQuiet = false) (hc : a.command = none) : acts.count a = 0 := by
    rw [← count_loud hq, count_eq_zero]
    intro ha
    simpa [hc] using h a ha
  have hn : ¬ (before ≠ .settled ∧ after = .settled) := fun ⟨hb, ha⟩ => hb (hs ha)
  rw [Releases, if_neg hn, hz _ rfl rfl, hz _ rfl rfl, hz _ rfl rfl]
  exact ⟨rfl, rfl⟩

theorem releases_settleActions (hs : before ≠ .settled) (r : TxReducer)
    (outcome : TerminalOutcome) (withdraw : Bool) : Releases before .settled (r.settleActions outcome withdraw) := by
  rw [Releases, if_pos ⟨hs, rfl⟩, settleActions]
  cases outcome.publishes <;> cases withdraw <;> simp

theorem Move.releases (hm : Move r i r' acts) : Releases r.state r'.state acts := by
  cases hm with
  | refused hr => exact releases_nothing id (by simp [loud_replies hr])
  | folded | queued | queueRefused | releasedNothing => exact releases_nothing id (by simp [Action.isQuiet])
  | forced hs hi hg hr =>
    exact releases_nothing (by simp [forcedBy]) (by simp [loud_replies hr, Action.command])
  | late hs hi hg hr =>
    refine releases_nothing ?_ (by simp [loud_replies hr])
    obtain ⟨active, slot, -, rfl⟩ := hi.eq
    exact id
  | @dataReturned _ errored =>
    exact releases_nothing (by cases errored <;> simp [returned]) (by simp [Action.isQuiet])
  | answered hs | cancelled hs | unproved hs => exact releases_settleActions (by simp [hs]) _ _ _
  | expired hs => exact releases_settleActions (by rcases hs with ⟨-, hs⟩ | ⟨-, hs⟩ <;> simp [hs]) _ _ _
  | _ => exact releases_nothing (by simp [issued, returned, terminal]) (by simp [Action.isQuiet, Action.command])

/-- The admission is released at settlement, and once. -/
theorem released_of_run {env : Environment TxReducer TxInput Action}
    (run : RunFrom env expected budgets start maxDepth h r) :
    h.outputs.count .releaseAdmission = if r.state = .settled then 1 else 0 := by
  refine run.invariant (fun h r => h.outputs.count .releaseAdmission = if r.state = .settled then 1 else 0) rfl
    fun {h r r' i acts} _ hc _ ht => ?_
  have hm := step_move ht
  have hr := hm.releases
  rw [Base.History.outputs_append, count_append, hc]
  simp only [Base.History.outputs_cons, Base.History.outputs_nil, append_nil]
  unfold Releases at hr
  by_cases hs : r.state = .settled
  · simp_all [hm.settled_stays hs]
  · by_cases hs' : r'.state = .settled <;> simp_all

/-- Every transaction is bounded and releases its admission exactly once, in every run
whose completions have the kind of the action that minted their token. A live
transaction has the deadline of its state armed at the last generation, and firing the
armed deadline at most twice settles it, whatever the instants. The admission is
released once, by the step that settles, with one disposal of the session. Nothing
moves a settled transaction, and a deadline other than the armed one moves nothing. -/
theorem bounded_and_released_once {expected : ExpectedAuthority} {budgets : TxBudgets} {start : Instant}
    {maxDepth : Nat} {h : History} {r : TxReducer} (run : RunFrom kindMatched expected budgets start maxDepth h r) :
    (r.state ≠ .settled → Armed r ∧ ∀ n₁ n₂, ∃ r₁ a₁, r.fireArmed n₁ = some (r₁, a₁) ∧
      (r₁.state = .settled ∨ ∃ r₂ a₂, r₁.fireArmed n₂ = some (r₂, a₂) ∧ r₂.state = .settled)) ∧
    h.outputs.count .releaseAdmission = (if r.state = .settled then 1 else 0) ∧
    (∀ t ∈ h, Releases t.before.state t.after.state t.outputs) ∧
    (r.state = .settled → ∀ e now, ∃ acts, r.apply e now = some (r, acts) ∧ ∀ a ∈ acts, a.isReply) ∧
    ∀ kind generation now, (∀ deadline, r.slot.state ≠ .armed kind generation deadline) →
      r.apply (.deadlineFired kind generation) now = some (r, []) := by
  refine ⟨fun hs => ?_, released_of_run run, fun t ht => ?_, fun hs e now => ?_, ?_⟩
  · have harm := armed_of_run run hs
    refine ⟨harm, fun n₁ n₂ => ?_⟩
    by_cases hf : r.state.isForceable
    · obtain ⟨r₁, a₁, hfr, hc, har⟩ := fire_execution harm (gated_of_run run) hf n₁
      exact ⟨r₁, a₁, hfr, .inr (fire_last har (.inl hc) n₂)⟩
    have hl : r.state = .cancelling ∨ r.state = .settling := by
      cases h : r.state <;> simp_all [isForceable]
    obtain ⟨r₁, a₁, hfr, hst⟩ := fire_last harm hl n₁
    exact ⟨r₁, a₁, hfr, .inl hst⟩
  · obtain ⟨h₁, h₂, hh⟩ := append_of_mem ht
    exact (move_at run hh).releases
  · have ha : ∃ acts, r.apply e now = some (r, acts) := by
      unfold apply
      split <;> exact ⟨_, rfl⟩
    obtain ⟨acts, ha⟩ := ha
    have hm : Move r (.event e now) r acts := move_of_step ha
    exact ⟨acts, ha, (hm.of_settled hs).2⟩
  · exact fun kind generation now ho => apply_stale_deadline ho now

/-- The sample transaction, opened and with a data statement out. -/
theorem bounded_and_released_once_in_flight :
    Armed (machine.reach sample (sampleOpened ++ [.event .operationRequested 3])) :=
  ((bounded_and_released_once (.of_trace (by decide))).1 (by decide)).1

end Zeroship.Tx
