import Zeroship.Tx.Deadlines

/-! One session, one owner.

Between the confirmed `BEGIN` and settlement the session is the registry's when no
command is active and the active command's otherwise, in every state. At most one
command on the session is unanswered at any point, and every token is minted once. -/
namespace Zeroship.Tx

open Base (Environment)
open TxReducer List

/-- The token of a command that runs on the session; a cancellation does not. -/
def Action.sessionCommand : Action → Option CommandToken
  | .issueCancellation _ _ => none
  | a => a.command

def TxInput.completes : TxInput → Option CommandToken
  | .event e _ => e.completes
  | .queue _ => none

variable (out : List CommandToken) (acts : List Action)

def sessionCommands : List CommandToken := acts.filterMap Action.sessionCommand

/-- The commands still unanswered after one more step: its input answers some, its
actions send others. -/
def unansweredAfter (t : Base.Step TxReducer TxInput Action) : List CommandToken :=
  (out.filter fun c => t.input.completes ≠ some c) ++ sessionCommands t.outputs

/-- The issued commands other than cancellations that no later completion answered. -/
def unanswered (h : History) : List CommandToken := h.foldl unansweredAfter []

theorem unanswered_snoc (h : History) (t : Base.Step TxReducer TxInput Action) :
    unanswered (h ++ [t]) = unansweredAfter (unanswered h) t := by simp [unanswered, foldl_append]

@[simp] theorem sessionCommands_nil : sessionCommands [] = [] := rfl

@[simp] theorem sessionCommands_cons (a : Action) (acts : List Action) :
    sessionCommands (a :: acts) = a.sessionCommand.toList ++ sessionCommands acts := by
  cases h : a.sessionCommand <;> simp [sessionCommands, h]

theorem sessionCommands_loud : sessionCommands (loud acts) = sessionCommands acts := by
  induction acts with
  | nil => rfl
  | cons a rest ih => cases a <;> simp [Action.isQuiet, Action.sessionCommand, Action.command, ih]

/-- At most the active command is unanswered; a settled transaction may leave one behind. -/
def Outstanding (r : TxReducer) : Prop :=
  out = [] ∨ ∃ c, out = [c] ∧ (r.state ≠ .settled → r.active = some c)

section
variable {out : List CommandToken} {r r' : TxReducer} {i : TxInput} {acts : List Action} {t : CommandToken}

theorem Outstanding.keep (ho : Outstanding out r) (hsn : sessionCommands acts = [])
    (hac : r.state ≠ .settled → r'.state ≠ .settled → r'.active = r.active)
    (hst : r.state = .settled → r'.state = .settled) : Outstanding (unansweredAfter out ⟨r, i, acts, r'⟩) r' := by
  rw [unansweredAfter, hsn, append_nil]
  rcases ho with rfl | ⟨c, rfl, hc⟩
  · exact .inl rfl
  by_cases ha : i.completes = some c
  · exact .inl (by simp [ha])
  · refine .inr ⟨c, by simp [ha], fun hs' => ?_⟩
    have hs : r.state ≠ .settled := fun h => hs' (hst h)
    rw [hac hs hs', hc hs]

theorem Outstanding.answer (ho : Outstanding out r) (hs : r.state ≠ .settled)
    (ha : r.active = some t) (hi : i.completes = some t) (hsn : sessionCommands acts = []) :
    Outstanding (unansweredAfter out ⟨r, i, acts, r'⟩) r' := by
  rw [unansweredAfter, hsn, append_nil]
  rcases ho with rfl | ⟨c, rfl, hc⟩
  · exact .inl rfl
  · refine .inl ?_
    rw [hc hs] at ha
    simp [hi, Option.some.inj ha]

/-- A step that sends a command when none is out, or the one that was out has just
answered. -/
theorem Outstanding.send (ho : Outstanding out r) (hs : r.state ≠ .settled)
    (hf : r.active = none ∨ r.active = i.completes) (hsn : sessionCommands acts = [t])
    (ha : r'.active = some t) : Outstanding (unansweredAfter out ⟨r, i, acts, r'⟩) r' := by
  rw [unansweredAfter, hsn]
  refine .inr ⟨t, ?_, fun _ => ha⟩
  rcases ho with rfl | ⟨c, rfl, hc⟩
  · rfl
  · rcases hf with hn | han
    · simp [hc hs] at hn
    · simp [← han, hc hs]

end

variable {acts : List Action} {h : History} {i : TxInput} {r r' : TxReducer} {expected : ExpectedAuthority}
  {budgets : TxBudgets} {start : Instant} {maxDepth : Nat}

theorem session_replies (hr : ∀ a ∈ acts, a.isReply) : sessionCommands acts = [] := by
  rw [← sessionCommands_loud, loud_replies hr]
  rfl

theorem sessionCommands_force (r : TxReducer) (now : Instant) (hr : ∀ a ∈ acts, a.isReply) :
    sessionCommands (r.forceActions now ++ acts) = [] := by
  rw [← sessionCommands_loud]
  simp [loud_replies hr, Action.sessionCommand]

theorem session_terminal (r : TxReducer) (intent : SettleIntent) (now : Instant) :
    sessionCommands (r.terminalActions intent now) = [r.fresh] := by
  rw [← sessionCommands_loud]
  simp [Action.sessionCommand, Action.command]

theorem sessionCommands_settle (r : TxReducer) (outcome : TerminalOutcome) (withdraw : Bool) :
    sessionCommands (r.settleActions outcome withdraw) = [] := by
  unfold settleActions
  cases outcome.publishes <;> cases withdraw <;> rfl

theorem Outstanding.move {out : List CommandToken} (ho : Outstanding out r) (hu : Underway h r) (hm : Move r i r' acts) :
    Outstanding (unansweredAfter out ⟨r, i, acts, r'⟩) r' := by
  cases hm with
  | refused hr => exact ho.keep (session_replies hr) (fun _ _ => rfl) id
  | folded | quiesced | queued | queueRefused => exact ho.keep rfl (fun _ _ => rfl) (by simp_all)
  | began hs => exact ho.send (by simp [hs]) (.inl (hu.active_none (.inl hs))) rfl rfl
  | opened hs ha => exact ho.answer (by simp [hs]) ha rfl rfl
  | forced hs hi hg hr =>
    cases hi with
    | published | expired => exact ho.keep (sessionCommands_force _ _ hr) (fun _ _ => rfl) fun h => absurd h hs
    | beginFailed hst ha => exact ho.answer hs ha rfl (sessionCommands_force _ _ hr)
  | late hs hi hg hr =>
    have hsn := session_replies hr
    cases hi with
    | published | expired => exact ho.keep hsn (fun _ _ => rfl) id
    | beginFailed hst ha => exact ho.answer hs ha rfl hsn
  | issuedData hs | issuedSavepoint hs | issuedRelease hs =>
    exact ho.send (by simp [hs]) (.inl (hu.active_none (.inr (.inl hs)))) rfl rfl
  | issuedRollbackTo hs =>
    exact ho.send (by rcases hs with hs | hs <;> simp [hs]) (.inl (hu.active_none (.inr hs))) rfl rfl
  | settling hs =>
    exact ho.send (by rcases hs with hs | hs <;> simp [hs]) (.inl (hu.active_none (.inr hs)))
      (session_terminal ..) rfl
  | dataSettled hs ha hint =>
    exact ho.send (by simp [hs]) (.inr ha) (session_terminal ..) rfl
  | rolledBack hs hc ha => exact ho.send hs (.inr ha) rfl rfl
  | dataReturned hs hc hq ha => exact ho.answer hs ha rfl rfl
  | savepointReturned hs hc ha | savepointFailed hs hc ha | closeFailed hs hc ha | released hs hc ha
  | releasedTop hs hc ha | releasedNothing hs hc ha => exact ho.answer hs ha rfl rfl
  | returnedLate hs he ha => exact ho.answer (by simp [hs]) ha (completes_of_returning he) rfl
  | answered | expired | cancelled | unproved =>
    exact ho.keep (sessionCommands_settle ..) (fun _ h => absurd rfl h) fun _ => rfl

/-- At most one command is out at any time. -/
theorem outstanding_of_run
    (run : RunFrom kindMatched expected budgets start maxDepth h r) : Outstanding (unanswered h) r := by
  refine run.invariant (fun h r => Outstanding (unanswered h) r) (.inl rfl) fun run ho _ ht => ?_
  rw [unanswered_snoc]
  exact ho.move (underway_of_run run) (step_move ht)

/-- Who owns the session, by the active command. -/
def ownerOf : Option CommandToken → SessionOwnership
  | some token => .command token
  | none => .registry

/-- The session is with its owner while the transaction is open, and was withdrawn at
settlement exactly if the driver was told so. -/
structure Owned (h : History) (r : TxReducer) : Prop where
  live : r.state ≠ .settled → r.generation ≠ none → r.session = ownerOf r.active
  kept : r.state ≠ .settled → .withdrawSession ∉ h.outputs
  disposed : r.state = .settled → r.session = if .withdrawSession ∈ h.outputs then .withdrawn else .none

theorem withdrawSession_mem (r : TxReducer) (outcome : TerminalOutcome) (withdraw : Bool) :
    .withdrawSession ∈ r.settleActions outcome withdraw ↔ withdraw := by
  unfold settleActions
  cases outcome.publishes <;> cases withdraw <;> simp

theorem Move.no_withdrawal (hm : Move r i r' acts)
    (h : ¬ (r.state ≠ .settled ∧ r'.state = .settled)) : .withdrawSession ∉ acts := by
  have hr := hm.releases
  rw [Releases, if_neg h] at hr
  exact count_eq_zero.mp (by omega)

theorem Move.owner (hm : Move r i r' acts)
    (hu : Underway h r) (ho : r.state ≠ .settled → r.generation ≠ none → r.session = ownerOf r.active)
    (hs' : r'.state ≠ .settled) (hg : r'.generation ≠ none) : r'.session = ownerOf r'.active := by
  cases hm with
  | refused | queueRefused | queued => exact ho hs' hg
  | folded hs => exact ho hs hg
  | began hs => exact absurd (hu.before (.inl hs)) hg
  | quiesced hs => exact ho (by simp [hs]) hg
  | forced hs hi | late hs hi =>
    cases hi with
    | published | expired => exact ho hs hg
    | beginFailed hst => exact absurd (hu.before (.inr hst)) hg
  | answered | expired | cancelled | unproved => exact absurd rfl hs'
  | _ => rfl

theorem Owned.move (ho : Owned h r) (hu : Underway h r) (hm : Move r i r' acts) : Owned (h ++ [⟨r, i, acts, r'⟩]) r' := by
  have hmm : .withdrawSession ∈ Base.History.outputs (h ++ [⟨r, i, acts, r'⟩]) ↔
      .withdrawSession ∈ h.outputs ∨ .withdrawSession ∈ acts := by simp
  refine ⟨hm.owner hu ho.live, fun hs' => ?_, fun hs' => ?_⟩
  · have hs : r.state ≠ .settled := fun h => hs' (hm.settled_stays h)
    rw [hmm]
    rintro (hw | hw)
    · exact ho.kept hs hw
    · exact hm.no_withdrawal (fun h => hs' h.2) hw
  · simp only [hmm]
    by_cases hs : r.state = .settled
    · have hsm : r'.session = r.session := by
        cases i with
        | event e now => rw [(hm.of_settled hs).1]
        | queue effect => cases hm <;> rfl
      simp [hsm, ho.disposed hs, hm.no_withdrawal fun h => h.1 hs]
    · obtain ⟨promised, outcome, withdraw, rfl, rfl⟩ := hm.settles hs hs'
      simp [ho.kept hs, withdrawSession_mem, settledAs]

/-- The session stays with its owner along every run. -/
theorem owned_of_run (run : RunFrom kindMatched expected budgets start maxDepth h r) : Owned h r := by
  refine run.invariant Owned ?_ fun run ho _ ht => ho.move (underway_of_run run) (step_move ht)
  exact ⟨fun _ h => absurd rfl h, fun _ => by simp, (fun h => by cases h)⟩

/-- The step in which the reducer takes a successful `BEGIN`. -/
def ConfirmsBegin (t : Base.Step TxReducer TxInput Action) : Prop :=
  t.before.state = .starting ∧ ∃ token generation now, t.before.active = some token ∧
    t.input = .event (.beginCompleted token (.opened generation)) now

theorem Move.generation_kept (hm : Move r i r' acts) (hg : r.generation ≠ none) : r'.generation ≠ none := by
  cases hm with
  | forced hs hi | late hs hi =>
    obtain ⟨active, slot, -, rfl⟩ := hi.eq
    exact hg
  | opened => simp
  | _ => exact hg

theorem generation_of_confirmed {t : Base.Step TxReducer TxInput Action} (hc : ConfirmsBegin t)
    (ht : machine.step t.before t.input = some (t.after, t.outputs)) : t.after.generation ≠ none := by
  obtain ⟨hs, token, generation, now, ha, hi⟩ := hc
  rw [hi] at ht
  simp [machine, step, apply, foreign, eventAuthority, hs, dispatch, onBeginCompleted, checkToken, ha] at ht
  simp [← ht.1]

/-- Single session owner, in every run whose completions have the kind of the action
that minted their token. Tokens are distinct; at most one issued command other than a
cancellation is unanswered; from the confirmed `BEGIN` until settlement the session is
the registry's or the active command's; and at settlement it is withdrawn exactly if
`withdrawSession` was emitted, and gone otherwise. -/
theorem single_session_owner {expected : ExpectedAuthority} {budgets : TxBudgets} {start : Instant}
    {maxDepth : Nat} {h : History} {r : TxReducer} (run : RunFrom kindMatched expected budgets start maxDepth h r) :
    (commands h.outputs).Nodup ∧ (unanswered h).length ≤ 1 ∧
    ((∃ t ∈ h, ConfirmsBegin t) → r.state ≠ .settled → r.session = ownerOf r.active) ∧
    (r.state = .settled → (r.session = .withdrawn ↔ .withdrawSession ∈ h.outputs) ∧
      (.withdrawSession ∉ h.outputs → r.session = .none)) := by
  have ho := owned_of_run run
  refine ⟨(tokens_of_run run).2, ?_, ?_, fun hs => ?_⟩
  · rcases outstanding_of_run run with hn | ⟨c, hc, -⟩
    · simp [hn]
    · simp [hc]
  · rintro ⟨t, ht, hcn⟩ hs
    obtain ⟨h₁, h₂, hh⟩ := append_of_mem ht
    have hg := generation_of_confirmed hcn (run.at_step hh).2.2
    exact ho.live hs (run.stable (fun r => r.generation ≠ none)
      (fun hg ht => (step_move ht).generation_kept hg) hh hg).1
  · have hd := ho.disposed hs
    by_cases hw : .withdrawSession ∈ h.outputs <;> simp_all

/-- The sample transaction, opened and with a data statement out. -/
theorem single_session_owner_in_flight :
    (machine.reach sample (sampleOpened ++ [.event .operationRequested 3])).session = .command ⟨2⟩ :=
  (single_session_owner (.of_trace (by decide))).2.2.1
    ⟨(machine.trace sample (sampleOpened ++ [.event .operationRequested 3])).get ⟨1, by decide⟩,
      get_mem _ _, rfl, ⟨1⟩, ⟨1⟩, 2, rfl, rfl⟩ (by decide)

end Zeroship.Tx
