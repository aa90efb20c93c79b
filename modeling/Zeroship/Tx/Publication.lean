import Zeroship.Tx.Cleanup

/-! What publishes.

Effects go out when the reducer settles as committed, which it decides from the
intent it recorded. That intent is not always what it sent: a settlement begun from
`poisoned` sends `ROLLBACK` and still records the creator's `COMMIT`, so a `Committed`
answer to that `ROLLBACK` publishes. `only_commits_publish_iff` says that this is the
one way a run publishes without a confirmed `COMMIT`. -/
namespace Zeroship.Tx
open TerminalOutcome Tx.Action

open Base (Environment)
open TxReducer List

variable (acts : List Action)

/-- The terminal commands sent, with their tokens. -/
def terminals : List (CommandToken × SettleIntent) :=
  acts.filterMap fun
    | .issueTerminal token command => some (token, command)
    | _ => none

@[simp] theorem terminals_append (a b : List Action) : terminals (a ++ b) = terminals a ++ terminals b :=
  filterMap_append

theorem terminals_loud : terminals (loud acts) = terminals acts := by
  induction acts with
  | nil => rfl
  | cons a rest ih => cases a <;> simp_all [terminals, isQuiet]

def lastTerminal (h : History) : Option (CommandToken × SettleIntent) := (terminals h.outputs).getLast?

/-- The state a step begins the settlement from: the one it finds, or the one a data
statement leaves when it returns to a transaction that waits for it. -/
def begunFrom (t : Base.Step TxReducer TxInput Action) : Option TxState :=
  if t.before.state ≠ .settling ∧ t.after.state = .settling then
    match t.input with
    | .event (.operationCompleted _ errored) _ => some (if errored then .poisoned else .idle)
    | _ => some t.before.state
  else none

/-- The state the latest settlement was begun from. -/
def settledFrom (h : History) : Option TxState := (h.filterMap begunFrom).getLast?

/-- The command that a settlement begun from a state sends for an intent. -/
def commandFrom (s : TxState) (intent : SettleIntent) : SettleIntent :=
  if s = .poisoned then .rollback else intent

/-- Only a confirmed `COMMIT` publishes, at most once, and every other way to settle
discards and keeps nothing. -/
structure PublishesOnlyCommits (h : History) : Prop where
  confirmed : ∀ h₁ t h₂ es, h = h₁ ++ t :: h₂ → .publishEffects es ∈ t.outputs →
    ∃ token now, lastTerminal h₁ = some (token, .commit) ∧
      t.input = .event (.terminalCompleted token .committed) now
  once : h.outputs.countP Action.isPublication ≤ 1
  discards : ∀ t ∈ h, t.before.state ≠ .settled → t.after.state = .settled →
    (∀ es, .publishEffects es ∉ t.outputs) →
      .discardEffects ∈ t.outputs ∧ t.after.frames.retainedEffects = []

/-- The step takes `Committed` for the active command of a settlement that was begun
from `poisoned` with the intent to commit. -/
def CommitsPoisoned (h : History) (t : Base.Step TxReducer TxInput Action) : Prop :=
  settledFrom h = some .poisoned ∧ t.before.state = .settling ∧ t.before.settleIntent = some .commit ∧
    ∃ token now, t.before.active = some token ∧ t.input = .event (.terminalCompleted token .committed) now

variable {acts : List Action} {i : TxInput} {r r' : TxReducer} {h : History}
  {env : Environment TxReducer TxInput Action} {expected : ExpectedAuthority} {budgets : TxBudgets} {start : Instant}
  {maxDepth : Nat}

/-- Beginning a settlement sends one terminal command; nothing else does. -/
theorem Move.begins (hm : Move r i r' acts) : (terminals acts = [] ∧ begunFrom ⟨r, i, acts, r'⟩ = none) ∨
      ∃ s intent, begunFrom ⟨r, i, acts, r'⟩ = some s ∧ terminals acts = [(r.fresh, commandFrom s intent)] ∧
        r'.settleIntent = some intent ∧ r'.active = some r.fresh := by
  rw [← terminals_loud]
  have hn {acts : List Action} {r' : TxReducer} (hl : terminals (loud acts) = [])
      (hs : r'.state = .settling → r.state = .settling) :
      (terminals (loud acts) = [] ∧ begunFrom ⟨r, i, acts, r'⟩ = none) ∨
        ∃ s intent, begunFrom ⟨r, i, acts, r'⟩ = some s ∧
          terminals (loud acts) = [(r.fresh, commandFrom s intent)] ∧
          r'.settleIntent = some intent ∧ r'.active = some r.fresh :=
    .inl ⟨hl, if_neg fun h => h.1 (hs h.2)⟩
  cases hm with
  | refused hr => exact hn (by rw [loud_replies hr]; rfl) id
  | folded | queued | queueRefused | releasedNothing => exact hn rfl id
  | forced hs hi hg hr => exact hn (by simp [loud_replies hr, terminals]) (by simp [forcedBy])
  | late hs hi hg hr =>
    refine hn (by rw [loud_replies hr]; rfl) ?_
    obtain ⟨active, slot, -, rfl⟩ := hi.eq
    exact id
  | @dataReturned _ errored => exact hn rfl (by cases errored <;> simp [returned])
  | @dataSettled _ errored _ _ intent hs ha hint =>
    refine .inr ⟨if errored then .poisoned else .idle, intent, ?_, ?_, rfl, rfl⟩
    · exact if_pos ⟨by simp [hs], rfl⟩
    · cases errored <;> simp [terminals, isQuiet, terminalCommand, commandFrom, returned, fresh]
  | @settling intent _ hs hc =>
    refine .inr ⟨r.state, intent, ?_, ?_, rfl, rfl⟩
    · exact if_pos ⟨by rcases hs with hs | hs <;> simp [hs], rfl⟩
    · simp [terminals, terminalCommand, commandFrom]
  | answered | expired | cancelled | unproved =>
    refine hn ?_ (by simp [settledAs])
    rw [loud_settleActions]
    split <;> split <;> rfl
  | _ => exact hn rfl (by simp [issued, returned])

theorem begunFrom_ne_none {t : Base.Step TxReducer TxInput Action} (hs : t.before.state ≠ .settling)
    (hs' : t.after.state = .settling) : begunFrom t ≠ none := by
  unfold begunFrom
  rw [if_pos ⟨hs, hs'⟩]
  split <;> simp

/-- What stays in `settling` keeps the intent, and at most loses its command. -/
theorem Move.stays_settling (hm : Move r i r' acts) (hs : r.state = .settling) (hs' : r'.state = .settling) :
    r'.settleIntent = r.settleIntent ∧ (r'.active = r.active ∨ r'.active = none) := by
  cases hm with
  | late hl hi =>
    obtain ⟨active, slot, ha, rfl⟩ := hi.eq
    exact ⟨rfl, ha⟩
  | releasedNothing => exact ⟨rfl, .inr rfl⟩
  | @dataReturned _ errored => cases errored <;> cases hs'
  | settling hs₀ | dataSettled hs₀ => simp [hs] at hs₀
  | refused | folded | queued | queueRefused => exact ⟨rfl, .inl rfl⟩
  | _ => cases hs'

/-- While the transaction settles, the active command is the terminal one that the state
it was begun from sent for the recorded intent. -/
def SettlesAs (h : History) (r : TxReducer) : Prop :=
  r.state = .settling → ∃ token intent s, r.settleIntent = some intent ∧ settledFrom h = some s ∧
    lastTerminal h = some (token, commandFrom s intent) ∧ ∀ t, r.active = some t → t = token

theorem SettlesAs.move (hst : SettlesAs h r) (hm : Move r i r' acts) : SettlesAs (h ++ [⟨r, i, acts, r'⟩]) r' := by
  intro hs'
  have hl : lastTerminal (h ++ [⟨r, i, acts, r'⟩]) = (terminals h.outputs ++ terminals acts).getLast? := by
    rw [lastTerminal, Base.History.outputs_snoc, terminals_append]
  rcases hm.begins with ⟨hn, hb⟩ | ⟨s, intent, hb, hsn, hin, ha⟩
  · have hs : r.state = .settling := by
      by_contra hs
      exact begunFrom_ne_none hs hs' hb
    obtain ⟨token, intent, s, hin, hf, htr, ha⟩ := hst hs
    obtain ⟨hi', ha'⟩ := hm.stays_settling hs hs'
    refine ⟨token, intent, s, hi'.trans hin, ?_, ?_, fun t ht => ?_⟩
    · simpa [settledFrom, hb] using hf
    · rw [hl, hn, append_nil]
      exact htr
    · rcases ha' with ha' | ha'
      · exact ha t (ha' ▸ ht)
      · simp [ha'] at ht
  · refine ⟨r.fresh, intent, s, hin, ?_, ?_, ?_⟩
    · simp [settledFrom, hb]
    · rw [hl, hsn]
      simp
    · intro t ht
      rw [ha] at ht
      exact (Option.some.inj ht).symm

/-- A settlement under way ends as its intent says, in every run. -/
theorem settlesAs_of_run (run : RunFrom env expected budgets start maxDepth h r) : SettlesAs h r :=
  run.invariant SettlesAs (fun hs => by cases hs) fun _ hst _ ht => hst.move (step_move ht)

/-! ### The step that publishes -/

/-- Only a `Committed` answer to a transaction that settles with the intent to commit
publishes. -/
theorem Move.publishes {es : List Effect} (hm : Move r i r' acts) (ha : .publishEffects es ∈ acts) :
    r.state = .settling ∧ r.settleIntent = some .commit ∧ es = r.frames.retainedEffects ∧
      ∃ token now, r.active = some token ∧ i = .event (.terminalCompleted token .committed) now := by
  have ha := (mem_loud rfl).mpr ha
  cases hm with
  | refused hr | forced hs hi hg hr | late hs hi hg hr => simp [loud_replies hr] at ha
  | @answered token result now intent hs hac hint =>
    have hc : intent = .commit ∧ result = .committed := by
      cases intent <;> cases result <;>
        simp [terminalOutcome, publishes, isIndeterminate] at ha ⊢
    obtain ⟨rfl, rfl⟩ := hc
    refine ⟨hs, hint, ?_, token, now, hac, rfl⟩
    simpa [terminalOutcome, publishes, isIndeterminate] using ha
  | expired | cancelled | unproved =>
    simp [publishes] at ha
  | _ => simp [isQuiet] at ha

theorem countP_settleActions_le (r : TxReducer) (outcome : TerminalOutcome) (withdraw : Bool) :
    (r.settleActions outcome withdraw).countP isPublication ≤ 1 := by
  unfold settleActions
  cases outcome.publishes <;> cases withdraw <;> simp [countP_cons, isPublication]

theorem Move.publication_count (hm : Move r i r' acts) : acts.countP isPublication = 0 ∨
      acts.countP isPublication ≤ 1 ∧ r.state ≠ .settled ∧ r'.state = .settled := by
  by_cases hp : ∃ es, .publishEffects es ∈ acts
  · obtain ⟨es, hes⟩ := hp
    have hs : r.state ≠ .settled := by simp [(hm.publishes hes).1]
    have hs' : r'.state = .settled := hm.settled_of_publication hes rfl
    obtain ⟨promised, outcome, withdraw, -, rfl⟩ := hm.settles hs hs'
    exact .inr ⟨countP_settleActions_le r outcome withdraw, hs, hs'⟩
  · refine .inl (countP_eq_zero.mpr fun a ha => ?_)
    cases a <;> simp [isPublication]
    exact hp ⟨_, ha⟩

/-- Effects are published at settlement, and at most once. -/
theorem publications_of_run (run : RunFrom env expected budgets start maxDepth h r) :
    h.outputs.countP isPublication ≤ if r.state = .settled then 1 else 0 := by
  refine run.invariant (fun h r => h.outputs.countP isPublication ≤ if r.state = .settled then 1 else 0)
    (by simp) fun {h r r' i acts} _ hc _ ht => ?_
  have hm := step_move ht
  rw [Base.History.outputs_snoc, countP_append]
  rcases hm.publication_count with hz | ⟨ho, hs, hs'⟩
  · rw [hz, Nat.add_zero]
    refine hc.trans ?_
    by_cases hs : r.state = .settled
    · simp [hs, hm.settled_stays hs]
    · simp [hs]
  · simp only [hs, if_false, Nat.le_zero] at hc
    simp [hc, hs', ho]

theorem publishes_of_committed {token : CommandToken} {now : Instant}
    (hs : r.state = .settling) (hint : r.settleIntent = some .commit) (ha : r.active = some token)
    (ht : machine.step r (.event (.terminalCompleted token .committed) now) = some (r', acts)) :
    .publishEffects r.frames.retainedEffects ∈ acts := by
  simp [machine, step, apply, foreign, eventAuthority, hs, dispatch, onTerminalCompleted, checkToken, ha, hint,
    terminalOutcome, settleNow_eq] at ht
  simp [← ht.2, settleActions, publishes]

/-- In every run, whatever events are applied: only confirmed commits publish, at most
once, and every other settlement discards, exactly if no step takes `Committed` for a
settlement that was begun from `poisoned` with the intent to commit. -/
theorem only_commits_publish_iff {expected : ExpectedAuthority} {budgets : TxBudgets} {start : Instant}
    {maxDepth : Nat} {h : History} {r : TxReducer} (run : RunFrom .anything expected budgets start maxDepth h r) :
    PublishesOnlyCommits h ↔ ∀ h₁ t h₂, h = h₁ ++ t :: h₂ → ¬ CommitsPoisoned h₁ t := by
  constructor
  · rintro hp h₁ t h₂ hh ⟨hf, hs, hint, token, now, ha, hi⟩
    obtain ⟨hr, -, ht⟩ := run.at_step hh
    obtain ⟨_, _, hl, -⟩ := hp.confirmed h₁ t h₂ _ hh (publishes_of_committed hs hint ha (hi ▸ ht))
    obtain ⟨_, intent, s, -, hf', htr, -⟩ := settlesAs_of_run hr hs
    rw [hf] at hf'
    rw [hl, ← Option.some.inj hf'] at htr
    simp [commandFrom] at htr
  · intro hno
    refine ⟨fun h₁ t h₂ es hh hes => ?_, ?_, fun t ht hs hs' hn => ?_⟩
    · obtain ⟨hs, hint, -, token, now, ha, hi⟩ := (move_at run hh).publishes hes
      obtain ⟨token', intent, s, hi', hf, htr, hact⟩ := settlesAs_of_run (run.at_step hh).1 hs
      have hs₀ : s ≠ .poisoned := by
        rintro rfl
        exact hno h₁ t h₂ hh ⟨hf, hs, hint, token, now, ha, hi⟩
      obtain rfl : intent = .commit := Option.mem_unique hi' hint
      refine ⟨token, now, ?_, hi⟩
      rw [htr, hact token ha]
      simp [commandFrom, hs₀]
    · refine (publications_of_run run).trans ?_
      split <;> simp
    · obtain ⟨h₁, h₂, hh⟩ := append_of_mem ht
      obtain ⟨promised, outcome, withdraw, haf, hac⟩ := (move_at run hh).settles hs hs'
      have ho : outcome.publishes = false := by
        by_contra hpb
        refine hn t.before.frames.retainedEffects ?_
        simp [hac, settleActions, hpb]
      refine ⟨by simp [hac, settleActions, ho], ?_⟩
      rw [haf]
      exact FrameStack.retained_discardAll _

/-- A data statement fails, the creator settles to commit, `ROLLBACK` is sent, and the
backend answers `Committed`. -/
def poisonedCommit : List TxInput :=
  sampleOpened ++ [.queue ⟨"notes", "never-landed"⟩, .event .operationRequested 3,
    .event (.operationCompleted ⟨2⟩ true) 4, .event (.settleRequested .commit) 5,
    .event (.terminalCompleted ⟨3⟩ .committed) 6]

/-- The run publishes after a `ROLLBACK`, with every completion of the kind of its action. -/
theorem poisoned_commit_publishes : RunFrom kindMatched sampleAuthority {} 0 8 (machine.trace sample poisonedCommit)
      (machine.reach sample poisonedCommit) ∧ ¬ PublishesOnlyCommits (machine.trace sample poisonedCommit) := by
  refine ⟨.of_trace (by decide), fun hp => ?_⟩
  have hh : machine.trace sample poisonedCommit = (machine.trace sample poisonedCommit).take 6 ++
      (machine.trace sample poisonedCommit).get ⟨6, by decide⟩ :: [] := rfl
  obtain ⟨token, now, hl, -⟩ := hp.confirmed _ _ _ [⟨"notes", "never-landed"⟩] hh (by decide)
  have hs : lastTerminal ((machine.trace sample poisonedCommit).take 6) = some (⟨3⟩, .rollback) := by decide
  simp [hs] at hl

theorem begunFrom_of_settledFrom {h₁ : History} {s : TxState} (hs : settledFrom h₁ = some s) (h₂ : History) :
    s ∈ (h₁ ++ h₂).filterMap begunFrom := by
  rw [filterMap_append]
  exact mem_append_left _ (mem_of_getLast? hs)

/-- The creator settles an idle transaction to commit, and the backend confirms it. -/
def confirmedCommit : List TxInput :=
  sampleOpened ++ [.queue ⟨"notes", "landed"⟩, .event (.settleRequested .commit) 3,
    .event (.terminalCompleted ⟨2⟩ .committed) 4]

theorem confirmed_commit_publishes : PublishesOnlyCommits (machine.trace sample confirmedCommit) := by
  refine (only_commits_publish_iff (.of_trace (Base.Machine.offered_anything _ _))).mpr ?_
  rintro h₁ t h₂ hh ⟨hf, -⟩
  have hm := begunFrom_of_settledFrom hf (t :: h₂)
  rw [← hh] at hm
  exact absurd hm (by decide)

end Zeroship.Tx
