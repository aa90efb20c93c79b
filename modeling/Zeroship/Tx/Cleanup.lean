import Zeroship.Tx.Runs

/-! Forced cleanup is terminal.

A force enters `cancelling` and latches one cause and one goal. From there no event
leads back to a state that issues SQL: `Ending` is what the reducer keeps, whatever
it is told, until it settles under the latched cause. -/
namespace Zeroship.Tx
open Tx.Action

open Base (Environment)
open TxReducer List

/-- SQL that moves the transaction on: the creator's, `BEGIN` and the terminal command. -/
def Action.isTransactionSql : Action → Bool
  | .issueTerminal _ _ => true
  | a => a.isCreatorDataSql

def Action.isPublication : Action → Bool
  | .publishEffects _ => true
  | _ => false

/-- Actions that neither run transaction SQL nor publish. -/
def Harmless (acts : List Action) : Prop := ∀ a ∈ acts, a.isTransactionSql = false ∧ a.isPublication = false

variable {acts : List Action} {latched : LatchedCleanup} {r r' : TxReducer} {i : TxInput} {outcome : TerminalOutcome}

theorem harmless_of_loud (h : Harmless (loud acts)) : Harmless acts := by
  intro a ha
  cases hq : a.isQuiet with
  | false => exact h a ((mem_loud hq).mpr ha)
  | true => cases a <;> simp_all [isQuiet, isTransactionSql, isCreatorDataSql,
      isPublication]

theorem harmless_of_replies (h : ∀ a ∈ acts, a.isReply) : Harmless acts :=
  harmless_of_loud (by simp [loud_replies h, Harmless])

theorem harmless_force (r : TxReducer) (now : Instant) {replies : List Action} (h : ∀ a ∈ replies, a.isReply) :
    Harmless (r.forceActions now ++ replies) :=
  harmless_of_loud (by simp [loud_replies h, Harmless, isTransactionSql, isCreatorDataSql,
    isPublication])

theorem harmless_settleActions (r : TxReducer) (h : outcome ≠ .committed)
    (withdraw : Bool) : Harmless (r.settleActions outcome withdraw) := by
  refine harmless_of_loud ?_
  cases withdraw <;>
    simp [Harmless, TerminalOutcome.publishes, h, isTransactionSql, isCreatorDataSql, isPublication]

/-- The reducer under a latched cleanup, on its way to settle or settled by it. -/
structure Ending (latched : LatchedCleanup) (r : TxReducer) : Prop where
  cleanup : r.cleanup = some latched
  state : r.state = .cancelling ∨ r.state = .settled
  outcome : r.state = .settled →
    r.outcome = some (.cancelled latched.cause) ∨ r.outcome = some (.indeterminate latched.cause)

theorem Ending.of_cancelling (hc : r.cleanup = some latched) (hs : r.state = .cancelling) : Ending latched r :=
  ⟨hc, .inl hs, by simp [hs]⟩

theorem Ending.settledAs (hc : r.cleanup = some latched)
    (ho : outcome = .cancelled latched.cause ∨ outcome = .indeterminate latched.cause)
    (withdraw : Bool) : Ending latched (r.settledAs outcome withdraw) := by
  refine ⟨hc, .inr rfl, fun _ => ?_⟩
  rcases ho with rfl | rfl
  · exact .inl rfl
  · exact .inr rfl

/-- No move leaves an ending transaction, and none is harmful. -/
theorem Ending.move (he : Ending latched r) (hm : Move r i r' acts) : Ending latched r' ∧ Harmless acts := by
  have hc := he.cleanup
  -- the states that a handler needs in order to move the transaction on are all ruled out
  have hst : r.state = .cancelling ∨ r.state = .settled := he.state
  cases hm with
  | refused hr => exact ⟨he, harmless_of_replies hr⟩
  | folded hs | queued hf => exact ⟨⟨hc, he.state, he.outcome⟩, by simp [Harmless]⟩
  | forced hs hi hg hr =>
    have hn : r.cleanup = none := by
      cases hi <;> exact hg.2.2
    simp [hn] at hc
  | late hs hi hg hr =>
    refine ⟨?_, harmless_of_replies hr⟩
    cases hi with
    | published h => exact he
    | beginFailed hs ha => simp [hs] at hst
    | expired ha hf =>
      rcases hst with h | h <;> simp [h, TxState.isForceable] at hf
  | returnedLate hs hrt ha hl =>
    exact ⟨.of_cancelling hc rfl, harmless_of_replies (by simp [isReply])⟩
  | expired hs ha =>
    refine ⟨.settledAs hc (.inr ?_) _, harmless_settleActions r (by simp) _⟩
    simp [hc]
  | cancelled hs ht hl hp =>
    obtain rfl : latched = _ := Option.mem_unique hc hl
    exact ⟨.settledAs hc (.inl rfl) _, harmless_settleActions r (by simp) _⟩
  | unproved hs ht hl hp =>
    obtain rfl : latched = _ := Option.mem_unique hc hl
    exact ⟨.settledAs hc (.inr rfl) _, harmless_settleActions r (by simp) _⟩
  | queueRefused hf => exact ⟨he, by simp [Harmless]⟩
  | _ => simp_all

theorem Move.into_cancelling (hm : Move r i r' acts)
    (hl : r.state = .cancelling → ∃ latched, Ending latched r) (hs' : r'.state = .cancelling) :
    Harmless acts ∧ ∃ latched, Ending latched r' := by
  by_cases hs : r.state = .cancelling
  · obtain ⟨latched, he⟩ := hl hs
    obtain ⟨he', ha⟩ := he.move hm
    exact ⟨ha, latched, he'⟩
  cases hm with
  | forced hlv hi hg hr =>
    exact ⟨harmless_force _ _ hr, _, .of_cancelling rfl rfl⟩
  | late hlv hi hg hr => cases hi <;> exact absurd hs' hs
  | dataReturned => split at hs' <;> simp [returned] at hs'
  | releasedNothing => exact absurd hs' hs
  | returnedLate hc => exact absurd hc hs
  | _ => first
    | exact absurd hs' hs
    | cases hs'

theorem ending_of_run {env : Environment TxReducer TxInput Action} {expected : ExpectedAuthority}
    {budgets : TxBudgets} {start : Instant} {maxDepth : Nat} {h : History}
    (run : RunFrom env expected budgets start maxDepth h r) : r.state = .cancelling → ∃ latched, Ending latched r :=
  run.holds (fun r => r.state = .cancelling → ∃ latched, Ending latched r) (fun hs => by cases hs)
    fun hi ht hs' => ((step_move ht).into_cancelling hi hs').2

/-- An ending transaction answers every input: none of the handlers panics. -/
theorem Ending.answers (he : Ending latched r) (i : TxInput) : (machine.step r i).isSome := by
  have hr : r.commandReturnedDuringCleanup.isSome := by
    simp [commandReturnedDuringCleanup, he.cleanup]
  cases i with
  | queue effect =>
    simp only [machine, step]
    split <;> rfl
  | event e now =>
    simp only [machine, step, apply]
    split
    · rfl
    split
    · rfl
    rename_i hl
    have hs : r.state = .cancelling := he.state.resolve_right hl
    cases e with
    | operationCompleted token errored =>
      simp only [dispatch, onOperationCompleted, hs, if_true]
      split <;> first | rfl | exact hr
    | openFrameCompleted token frame ok =>
      simp only [dispatch, onOpenFrameCompleted, hs, if_true]
      split <;> first | rfl | exact hr
    | closeFrame frame close => simp [dispatch, onCloseFrame, refuseIfCleaningUp, he.cleanup]
    | closeFrameCompleted token frame close ok =>
      simp only [dispatch, onCloseFrameCompleted, hs, if_true]
      split <;> first | rfl | exact hr
    | terminalCompleted token result =>
      simp only [dispatch, onTerminalCompleted, hs]
      split <;> rfl
    | cancellationAcknowledged token ack =>
      simp only [dispatch, onCancellationAcknowledged, he.cleanup]
      split
      · rfl
      split
      · rfl
      split <;> rfl
    | _ => rfl

theorem Move.settled_of_publication
    (hm : Move r i r' acts) {a : Action} (ha : a ∈ acts) (hp : a.isPublication) : r'.state = .settled := by
  obtain ⟨es, rfl⟩ : ∃ es, a = .publishEffects es := by cases a <;> simp_all [isPublication]
  have ha := (mem_loud rfl).mpr ha
  cases hm with
  | refused hr | forced hs hi hg hr | late hs hi hg hr => simp [loud_replies hr] at ha
  | answered | expired | cancelled | unproved => rfl
  | _ => simp [isQuiet] at ha

/-- Forced cleanup is terminal, in every run, whatever events are applied in whatever
order. From the step that enters `cancelling` on, the state is `cancelling` or
`settled`, cause and goal stay as latched, no transaction SQL is issued, nothing is
ever published, and the transaction settles as cancelled or indeterminate under the
latched cause. The reducer also answers whatever comes next. -/
theorem forced_cleanup_is_terminal {expected : ExpectedAuthority} {budgets : TxBudgets} {start : Instant}
    {maxDepth : Nat} {h h₁ h₂ : History} {r : TxReducer} {t : Base.Step TxReducer TxInput Action}
    (run : RunFrom .anything expected budgets start maxDepth h r) (hh : h = h₁ ++ t :: h₂)
    (hs : t.after.state = .cancelling) : ∃ latched, t.after.cleanup = some latched ∧
      (∀ u ∈ h₂, (u.after.state = .cancelling ∨ u.after.state = .settled) ∧ u.after.cleanup = some latched ∧
        (u.after.state = .settled → u.after.outcome = some (.cancelled latched.cause) ∨
          u.after.outcome = some (.indeterminate latched.cause))) ∧
      (∀ u ∈ t :: h₂, ∀ a ∈ u.outputs, a.isTransactionSql = false) ∧ (∀ a ∈ h.outputs, a.isPublication = false) ∧
      ∀ i, (machine.step r i).isSome := by
  obtain ⟨latched, he⟩ := ending_of_run (run.through hh) hs
  obtain ⟨hf, hl⟩ := run.stable (Ending latched) (fun he ht => (he.move (step_move ht)).1) hh he
  have hen : Harmless t.outputs :=
    ((move_at run hh).into_cancelling (ending_of_run (run.at_step hh).1) hs).1
  have haf : ∀ u ∈ h₂, Harmless u.outputs := by
    intro u hu
    obtain ⟨a, b, rfl⟩ := append_of_mem hu
    rw [← cons_append, ← append_assoc] at hh
    exact ((hl u hu).1.move (move_at run hh)).2
  refine ⟨latched, he.cleanup, fun u hu => ?_, ?_, ?_, hf.answers⟩
  · have hu := (hl u hu).2
    exact ⟨hu.state, hu.cleanup, hu.outcome⟩
  · intro u hu a ha
    rcases mem_cons.mp hu with rfl | hu
    · exact (hen a ha).1
    · exact (haf u hu a ha).1
  · intro a ha
    obtain ⟨u, hu, ha⟩ := Base.History.mem_outputs.mp ha
    rw [hh] at hu
    rcases mem_append.mp hu with hu | hu
    · -- a publication before the force would have settled the transaction for good
      by_contra hp
      obtain ⟨b, c, rfl⟩ := append_of_mem hu
      rw [append_assoc, cons_append] at hh
      have hst := (move_at run hh).settled_of_publication ha (by simpa using hp)
      have hsty := (run.stable (fun r => r.state = .settled) (fun hs ht => (step_move ht).settled_stays hs)
        hh hst).2 t (by simp)
      simp [hs] at hsty
    · rcases mem_cons.mp hu with rfl | hu
      · exact (hen a ha).2
      · exact (haf u hu a ha).2

/-- The sample transaction is cancelled while its data statement runs. -/
def cancelledRun : List TxInput :=
  sampleOpened ++ [.event .operationRequested 3, .event (.cancel ⟨⟨"app", 1⟩, ⟨7, 1⟩⟩) 4,
    .event (.operationCompleted ⟨2⟩ true) 5, .event (.cancellationAcknowledged ⟨3⟩ .rolledBack) 6]

theorem forced_cleanup_of_cancelled_statement :
    ∃ latched, ((machine.trace sample cancelledRun).get ⟨3, by decide⟩).after.cleanup = some latched ∧
      ∀ u ∈ (machine.trace sample cancelledRun).drop 4, u.after.cleanup = some latched := by
  have hh : machine.trace sample cancelledRun = (machine.trace sample cancelledRun).take 3 ++
      (machine.trace sample cancelledRun).get ⟨3, by decide⟩ :: (machine.trace sample cancelledRun).drop 4 := rfl
  obtain ⟨latched, hc, hl, -⟩ :=
    forced_cleanup_is_terminal (.of_trace (Base.Machine.offered_anything _ _)) hh rfl
  exact ⟨latched, hc, fun u hu => (hl u hu).2.1⟩

end Zeroship.Tx
