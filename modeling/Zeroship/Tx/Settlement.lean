import Zeroship.Tx.Publication
import Zeroship.Tx.Savepoints

/-! What becomes of a latched settlement.

A settle request that finds a command in flight is latched, and the transaction
quiesces. The completion of a data statement takes the latch up and sends the terminal
command. The completions of frame commands overwrite `quiescing` and leave the latch
behind, with no command out. So a latched settlement is certain exactly if the command
it waits for is a data statement. -/
namespace Zeroship.Tx

open TxReducer List Tx.Action TxEvent

/-- The input completes the active command, with its kind and its frame. -/
def Completes (h : History) (r : TxReducer) (i : TxInput) : Prop :=
  frameMatched h r i ∧ ∃ e now t, i = .event e now ∧ r.active = some t ∧ e.completes = some t

/-- Work opened for the creator: a data statement or a savepoint. -/
def Action.isCreatorWork : Action → Bool
  | .issueDataSql _ | .issueSavepoint _ _ => true
  | _ => false

/-- The completion of a frame command that failed. -/
def TxEvent.failsFrame : TxEvent → Bool
  | .openFrameCompleted _ _ ok | .closeFrameCompleted _ _ _ ok => !ok
  | _ => false

/-- Completing the command that is out, and every command sent in answer, ends in
`settling` with one terminal command, whatever the completions report, and opens no work
on the way. -/
inductive LeadsToTerminal : History → TxReducer → Prop
  | completing {h : History} {r : TxReducer} (out : r.active ≠ none)
      (taken : ∀ i, Completes h r i → ∃ r' acts, machine.step r i = some (r', acts))
      (noWork : ∀ i r' acts, Completes h r i → machine.step r i = some (r', acts) →
        ∀ a ∈ acts, a.isCreatorWork = false)
      (once : ∀ i r' acts, Completes h r i → machine.step r i = some (r', acts) →
        (terminals acts).length = if r'.state = .settling then 1 else 0)
      (rest : ∀ i r' acts, Completes h r i → machine.step r i = some (r', acts) → r'.state ≠ .settling →
        LeadsToTerminal (h ++ [⟨r, i, acts, r'⟩]) r') : LeadsToTerminal h r

variable {h : History} {r : TxReducer} {a : Action} {t : CommandToken} {e : TxEvent}

theorem intent_of_run {env : Base.Environment TxReducer TxInput Action} {expected : ExpectedAuthority}
    {budgets : TxBudgets} {start : Instant} {maxDepth : Nat} (run : RunFrom env expected budgets start maxDepth h r) :
    r.state = .quiescing → ∃ intent, r.settleIntent = some intent := by
  refine run.holds (fun r => r.state = .quiescing → ∃ intent, r.settleIntent = some intent) (fun hs => by cases hs)
    fun {r r' i acts} hint ht hs' => ?_
  cases step_move ht with
  | quiesced => exact ⟨_, rfl⟩
  | refused | folded | queued | queueRefused | releasedNothing => exact hint hs'
  | late hs hi =>
    obtain ⟨active, slot, -, rfl⟩ := hi.eq
    exact hint hs'
  | @dataReturned _ errored => cases errored <;> cases hs'
  | _ => cases hs'

section
variable {h : History} {r r' : TxReducer} {t : CommandToken} {acts : List Action} {now : Instant}

/-- The completion of a data statement is never a panic while the latch has its intent. -/
theorem data_taken {errored : Bool} {intent : SettleIntent} (hs : r.state = .quiescing) (ha : r.active = some t)
    (hint : r.settleIntent = some intent) :
    ∃ r' acts, machine.step r (.event (.operationCompleted t errored) now) = some (r', acts) := by
  simp [machine, step, apply, foreign, eventAuthority, hs, dispatch, onOperationCompleted, checkToken, ha, hint]

theorem frame_command_failed {e : TxEvent} (hs : r.state = .quiescing) (ha : r.active = some t)
    (he : e.completes = some t) (hf : e.failsFrame) (hm : Move r (.event e now) r' acts) :
    r'.state = .poisoned ∧ r'.active = none := by
  have hrt : e.returning = some t := by
    cases e <;> simp_all [returning, failsFrame, completes]
  cases hm with
  | refused hr hst => simp_all
  | forced hs₀ hi | late hs₀ hi => cases hi <;> simp_all [failsFrame]
  | savepointFailed | closeFailed => exact ⟨rfl, rfl⟩
  | returnedLate hc => simp [hs] at hc
  | _ => simp_all [failsFrame]

end

/-- Tokens that are minted once belong to one action. -/
theorem eq_of_command {acts : List Action} {b : Action} (hn : (commands acts).Nodup)
    (ha : a ∈ acts) (hb : b ∈ acts) (hat : a.command = some t) (hbt : b.command = some t) : a = b := by
  induction acts with
  | nil => cases ha
  | cons c rest ih =>
    rw [commands_cons, nodup_append] at hn
    obtain ⟨-, hr, hd⟩ := hn
    have hm {x : Action} (hx : x ∈ rest) (hxt : x.command = some t) : c.command ≠ some t := by
      intro hct
      exact hd t (by simp [hct]) t (mem_commands.mpr ⟨x, hx, hxt⟩) rfl
    rcases mem_cons.mp ha with rfl | ha' <;> rcases mem_cons.mp hb with rfl | hb'
    · rfl
    · exact absurd hat (hm hb' hbt)
    · exact absurd hbt (hm ha' hat)
    · exact ih hr ha' hb'

theorem completes_of_fits {now : Instant}
    (hn : (commands h.outputs).Nodup) (ha : r.active = some t) (hm : a ∈ h.outputs) (hc : a.command = some t)
    (he : e.completes = some t) (hk : a.kindOf e) (hf : a.frameOf e) : Completes h r (.event e now) := by
  refine ⟨fun b hb han => ?_, e, now, t, rfl, ha, he⟩
  have hbt : b.command = some t := by
    simp only [answered, decide_eq_true_eq] at han
    rw [han.2, he]
  rw [← eq_of_command hn hm hb hc hbt]
  exact ⟨hk, hf⟩

theorem LeadsToTerminal.not_of_failsFrame
    (hl : LeadsToTerminal h r) (hn : (commands h.outputs).Nodup) (hs : r.state = .quiescing) (ha : r.active = some t)
    (hm : a ∈ h.outputs) (hcm : a.command = some t) (he : e.completes = some t) (hf : e.failsFrame)
    (hk : a.kindOf e) (hfr : a.frameOf e) : False := by
  have hc : Completes h r (.event e 0) := completes_of_fits hn ha hm hcm he hk hfr
  cases hl with
  | completing out taken noWork once rest =>
    obtain ⟨r', acts, ht⟩ := taken _ hc
    obtain ⟨hs', ha'⟩ := frame_command_failed hs ha he hf (step_move ht)
    -- poisoned without a command there is nothing left to complete
    cases rest _ r' acts hc ht (by simp [hs']) with
    | completing out' => exact out' ha'

/-- A data statement that returns to a transaction that waits for it begins the settlement. -/
theorem leadsToTerminal_of_data {intent : SettleIntent}
    (hs : r.state = .quiescing) (ha : r.active = some t) (hm : .issueDataSql t ∈ h.outputs)
    (hint : r.settleIntent = some intent) : LeadsToTerminal h r := by
  -- the completion has the kind of a data statement, and only one handler takes it
  have hd : ∀ i, Completes h r i → ∃ errored now, i = .event (.operationCompleted t errored) now := by
    rintro i ⟨hen, e, now, t', rfl, ha', he⟩
    obtain rfl : t' = t := Option.mem_unique ha' ha
    have hk := (hen _ hm (by simp [answered, command, he])).1
    cases e <;> simp [kindOf] at hk
    cases he
    exact ⟨_, _, rfl⟩
  have hmv : ∀ {i r' acts}, Completes h r i → machine.step r i = some (r', acts) →
      r'.state = .settling ∧ ∃ command, loud acts = [.issueTerminal r.fresh command] := by
    intro i r' acts hc ht
    obtain ⟨errored, now, rfl⟩ := hd i hc
    cases step_move ht with
    | refused hr hst => simp_all [returning]
    | forced hs₀ hi | late hs₀ hi => cases hi; simp_all [returning]
    | dataReturned hs₀ hcn hq => exact absurd hs hq
    | @dataSettled _ errored _ _ intent =>
      refine ⟨rfl, (r.returned (if errored then .poisoned else .idle)).terminalCommand intent, ?_⟩
      rw [loud_cons, loud_terminalActions]
      rfl
    | returnedLate hcn => simp [hs] at hcn
  refine .completing (by simp [ha]) (fun i hc => ?_) (fun i r' acts hc ht a hm => ?_) (fun i r' acts hc ht => ?_)
    fun i r' acts hc ht hn => absurd (hmv hc ht).1 hn
  · obtain ⟨errored, now, rfl⟩ := hd i hc
    exact data_taken hs ha hint
  · obtain ⟨-, command, hl⟩ := hmv hc ht
    by_contra hw
    have hm : a ∈ loud acts := (mem_loud (by cases a <;> simp_all [isCreatorWork, isQuiet])).mpr hm
    rw [hl, mem_singleton] at hm
    simp [hm, isCreatorWork] at hw
  · obtain ⟨hs', command, hl⟩ := hmv hc ht
    rw [← terminals_loud, hl, hs']
    rfl

theorem Underway.data_of_quiescing (hu : Underway h r) (hs : r.state = .quiescing)
    (hq : ∀ t a, r.active = some t → a ∈ h.outputs → a.command = some t → a.isFrameCommand = false) :
    ∃ t, r.active = some t ∧ .issueDataSql t ∈ h.outputs := by
  obtain ⟨t, ha⟩ := hu.awaiting (by simp [hs, TxState.isAwaiting])
  obtain ⟨a, hm, hc, haw⟩ := hu.active t ha
  have hf := hq t a ha hm hc
  rw [hs] at haw
  cases a <;> simp_all [TxState.awaits, isFrameCommand, command]

/-- In every run whose completions have the kind and the frame of the action that minted
their token: a settle request that finds a command in flight is latched, and a latched
settlement leads to its one terminal command, whatever the completions of the commands out
report, exactly if the command it waits for is a data statement. -/
theorem latched_settlement_iff {expected : ExpectedAuthority} {budgets : TxBudgets} {start : Instant}
    {maxDepth : Nat} {h : History} {r : TxReducer} (run : RunFrom frameMatched expected budgets start maxDepth h r) :
    (r.state = .inFlight → ∀ intent now, ∃ r', r'.state = .quiescing ∧ r'.settleIntent = some intent ∧
      r'.active = r.active ∧ machine.step r (.event (.settleRequested intent) now) = some (r', [])) ∧
    (r.state = .quiescing → (LeadsToTerminal h r ↔ ∃ t, r.active = some t ∧ .issueDataSql t ∈ h.outputs)) := by
  have hu := underway_of_run (run.weaken fun _ _ _ => kind_of_frame)
  have hnd := (tokens_of_run run).2
  refine ⟨fun hs intent now => ?_, fun hs => ⟨fun hl => ?_, fun ⟨t, ha, hm⟩ => ?_⟩⟩
  · have hc : r.cleanup = none := by
      by_contra hc
      rcases hu.gated.latched hc with h | h <;> simp [hs] at h
    refine ⟨{r with state := .quiescing, settleIntent := some intent}, rfl, rfl, rfl, ?_⟩
    simp [machine, step, apply, foreign, eventAuthority, hs, dispatch, onSettleRequested, refuseIfCleaningUp, hc]
  · -- a frame command that fails leaves the transaction poisoned, and the latch behind
    cases aligned_of_run run (by simp [hs]) (by simp [hs]) with
    | level hp hst hq => exact hu.data_of_quiescing hs hq
    | @opening t name ha hp hm ht hst =>
      obtain ⟨top, htp, hn⟩ := Option.bind_eq_some_iff.mp ht
      obtain rfl := r.frames.minted.named top (mem_of_mem_head? htp) name hn
      exact (hl.not_of_failsFrame hnd hs ha hm rfl (e := .openFrameCompleted t top.id false) rfl rfl rfl
        (by simp [frameOf])).elim
    | @closing t name a ha hp hm hcm ht hst =>
      obtain ⟨top, htp, hn⟩ := Option.bind_eq_some_iff.mp ht
      obtain rfl := r.frames.minted.named top (mem_of_mem_head? htp) name hn
      rcases hcm with rfl | rfl
      · exact (hl.not_of_failsFrame hnd hs ha hm rfl (e := .closeFrameCompleted t top.id .rolledBackTo false) rfl rfl
          rfl (by simp [frameOf])).elim
      · exact (hl.not_of_failsFrame hnd hs ha hm rfl (e := .closeFrameCompleted t top.id .released false) rfl rfl
          rfl (by simp [frameOf])).elim
  · obtain ⟨intent, hint⟩ := intent_of_run run hs
    exact leadsToTerminal_of_data hs ha hm hint

/-- The creator opens a frame and settles to commit while its `SAVEPOINT` is out. -/
def settledWhileOpening : List TxInput :=
  sampleOpened ++ [.event .openFrame 3, .event (.settleRequested .commit) 4]

/-- The confirmed `SAVEPOINT` leaves the transaction idle, without its terminal command. -/
theorem settlement_lost_by_savepoint :
    RunFrom frameMatched sampleAuthority {} 0 8 (machine.trace sample settledWhileOpening)
      (machine.reach sample settledWhileOpening) ∧ (machine.reach sample settledWhileOpening).state = .quiescing ∧
    ¬ LeadsToTerminal (machine.trace sample settledWhileOpening) (machine.reach sample settledWhileOpening) := by
  refine ⟨.of_trace (by decide), by decide, fun hl => ?_⟩
  cases hl with
  | completing out taken noWork once rest =>
    have hc : Completes (machine.trace sample settledWhileOpening) (machine.reach sample settledWhileOpening)
        (.event (.openFrameCompleted ⟨2⟩ ⟨2⟩ true) 5) := ⟨by decide, _, _, ⟨2⟩, rfl, by decide, rfl⟩
    cases rest _ _ _ hc rfl (by decide) with
    | completing out' => exact out' (by decide)

/-- The creator settles while a data statement is out. -/
def settledWhileWriting : List TxInput :=
  sampleOpened ++ [.event .operationRequested 3, .event (.settleRequested .commit) 4]

theorem latched_settlement_of_data_statement :
    LeadsToTerminal (machine.trace sample settledWhileWriting) (machine.reach sample settledWhileWriting) :=
  ((latched_settlement_iff (.of_trace (by decide))).2 (by decide)).mpr ⟨⟨2⟩, by decide, by decide⟩

end Zeroship.Tx
