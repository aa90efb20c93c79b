import Zeroship.Tx.Runs

/-! Which command is out.

Tokens are minted in order and never twice, whatever is applied. In a run whose
completions have the kind of their action, the active token belongs to a command
that the state is waiting for (`Underway`), so that a completion reaches its handler
only in the states that handler was written for. -/
namespace Zeroship.Tx
open TxState FrameStack Tx.Action

open Base (Environment)
open TxReducer List

/-- The tokens minted by these actions, in order. -/
def commands (acts : List Action) : List CommandToken := acts.filterMap Action.command

variable {acts : List Action} {i : TxInput} {r r' : TxReducer} {budgets : TxBudgets} {expected : ExpectedAuthority}
  {h : History} {maxDepth : Nat} {start : Instant} {env : Environment TxReducer TxInput Action}

theorem mem_commands {t : CommandToken} : t ∈ commands acts ↔ ∃ a ∈ acts, a.command = some t := List.mem_filterMap

@[simp] theorem commands_nil : commands [] = [] := rfl

@[simp] theorem commands_append (a b : List Action) : commands (a ++ b) = commands a ++ commands b :=
  filterMap_append

@[simp] theorem commands_cons (a : Action) (acts : List Action) :
    commands (a :: acts) = a.command.toList ++ commands acts := by
  cases h : a.command <;> simp [commands, h]

theorem commands_loud (acts : List Action) : commands (loud acts) = commands acts := by
  induction acts with
  | nil => rfl
  | cons a rest ih => cases a <;> simp [isQuiet, command, ih]

/-- A move mints at most one token, the next one. -/
theorem Move.mints (hm : Move r i r' acts) : (commands acts = [] ∧ r'.nextToken = r.nextToken) ∨
      (commands acts = [r.fresh] ∧ r'.nextToken = r.nextToken + 1) := by
  rw [← commands_loud]
  cases hm with
  | refused hr => exact .inl ⟨by simp [loud_replies hr], rfl⟩
  | forced hs hi hg hr =>
    refine .inr ?_
    cases hi <;> simp [loud_replies hr, command, forcedBy, fresh]
  | late hs hi hg hr =>
    refine .inl ⟨by simp [loud_replies hr], ?_⟩
    cases hi <;> rfl
  | answered | expired | cancelled | unproved =>
    refine .inl ⟨?_, rfl⟩
    simp only [loud_settleActions]
    split <;> split <;> rfl
  | folded | opened | dataReturned | savepointReturned | savepointFailed | closeFailed | released | releasedTop
  | releasedNothing | quiesced | returnedLate | queued | queueRefused => exact .inl ⟨rfl, rfl⟩
  | dataSettled | settling =>
    refine .inr ⟨?_, rfl⟩
    simp [isQuiet, command, fresh, returned]
  | _ => exact .inr ⟨rfl, rfl⟩

/-- Tokens never exceed the counter and never repeat, in any run. -/
theorem tokens_of_run (run : RunFrom env expected budgets start maxDepth h r) :
    (∀ t ∈ commands h.outputs, t.get ≤ r.nextToken) ∧ (commands h.outputs).Nodup := by
  refine run.invariant
    (fun h r => (∀ t ∈ commands h.outputs, t.get ≤ r.nextToken) ∧ (commands h.outputs).Nodup)
    ⟨by simp, by simp⟩ fun {h r r' i acts} _ hi _ ht => ?_
  obtain ⟨hle, hnd⟩ := hi
  rw [Base.History.outputs_snoc, commands_append]
  rcases (step_move ht).mints with ⟨hc, hn⟩ | ⟨hc, hn⟩
  · rw [hc, hn, append_nil]
    exact ⟨hle, hnd⟩
  rw [hc, hn]
  refine ⟨fun t ht => ?_, ?_⟩
  · rcases mem_append.mp ht with ht | ht
    · exact Nat.le_succ_of_le (hle t ht)
    · rw [mem_singleton.mp ht]
      exact le_rfl
  · -- the fresh token is above every token so far
    refine nodup_append.mpr ⟨hnd, nodup_singleton _, fun t ht u hu => ?_⟩
    rw [mem_singleton.mp hu]
    rintro rfl
    exact absurd (hle _ ht) (by simp [fresh])

/-- A cause is latched only while the transaction ends, and always while it is being
cancelled; a terminal result is promised only once it has ended. -/
structure Gated (r : TxReducer) : Prop where
  latched : r.cleanup ≠ none → r.state = .cancelling ∨ r.state = .settled
  caused : r.state = .cancelling → r.cleanup ≠ none
  promised : r.terminalPromised → r.state = .settled

theorem Gated.move (hg : Gated r) (hm : Move r i r' acts) : Gated r' := by
  obtain ⟨hl, hc, hp⟩ := hg
  cases hm with
  | forced hs hi hgt hr =>
    refine ⟨fun _ => .inl rfl, fun _ => by simp [forcedBy], fun h => ?_⟩
    cases hi <;> simp_all [forcedBy, GateOpen]
  | late hs hi hgt hr => cases hi <;> exact ⟨hl, hc, hp⟩
  | answered | expired | cancelled | unproved =>
    exact ⟨fun _ => .inr rfl, by simp [settledAs], fun _ => rfl⟩
  | issuedRollbackTo hs hc | settling hs hc =>
    rcases hs with hs | hs <;> constructor <;> simp_all [issued, terminal]
  | @dataReturned _ errored => cases errored <;> constructor <;> simp_all [returned]
  | _ => constructor <;> simp_all [issued, returned, terminal]

theorem gated_admitted : Gated (admitTransaction expected budgets start maxDepth).1 :=
  ⟨fun h => absurd rfl h, (fun h => by cases h), (fun h => by cases h)⟩

theorem gated_of_run  (run : RunFrom env expected budgets start maxDepth h r) : Gated r :=
  run.holds Gated gated_admitted fun hi ht => hi.move (step_move ht)

theorem Gated.forceable (hg : Gated r) (hs : r.state ≠ .settled) (ho : r.GateOpen) : r.state.isForceable := by
  have hc : r.state ≠ .cancelling := fun h => hg.caused h ho.2.2
  have hst := ho.2.1
  cases h : r.state <;> simp_all [isForceable]

theorem Gated.gateOpen (hg : Gated r) (hs : r.state.isForceable) : r.GateOpen := by
  refine ⟨?_, ?_, ?_⟩
  · by_contra hp
    simp [hg.promised (by simpa using hp), isForceable] at hs
  · intro h
    simp [h, isForceable] at hs
  · by_contra hc
    rcases hg.latched hc with h | h <;> simp [h, isForceable] at hs

theorem Gated.late {r₀ : TxReducer} {e : TxEvent} (hgt : Gated r) (hi : Interrupted r e r₀) (hg : ¬ r₀.GateOpen) :
    r₀ = r ∧ e.returning = none := by
  cases hi with
  | published hr => exact ⟨rfl, hr⟩
  | beginFailed hs => exact absurd (hgt.gateOpen (by simp [hs, isForceable])) hg
  | expired ha hf => exact absurd (hgt.gateOpen hf) hg

/-! ### The command a state waits for -/

/-- The commands that may be out in a state. A force leaves the interrupted one out. -/
def TxState.awaits : TxState → Action → Bool
  | .starting, .issueBegin _ => true
  | .inFlight, a | .quiescing, a => match a with
    | .issueDataSql _ | .issueSavepoint _ _ | .issueRollbackTo _ _ | .issueRelease _ _ => true
    | _ => false
  | .settling, .issueTerminal _ _ => true
  | .cancelling, a => a.isCreatorDataSql
  | _, _ => false

/-- The states in which some command is out. -/
def TxState.isAwaiting : TxState → Bool
  | .starting | .inFlight | .quiescing | .settling => true
  | _ => false

/-- The states from the confirmed `BEGIN` to terminal SQL. -/
def TxState.isOpen : TxState → Bool
  | .idle | .inFlight | .quiescing | .poisoned | .settling => true
  | _ => false

/-- The active token is that of a command the state waits for, and the frame stack has
its root exactly from the confirmed `BEGIN` on. -/
structure Underway (h : History) (r : TxReducer) : Prop where
  gated : Gated r
  active : ∀ t, r.active = some t → ∃ a ∈ h.outputs, a.command = some t ∧ r.state.awaits a
  awaiting : r.state.isAwaiting → ∃ t, r.active = some t
  unopened : r.generation = none → r.frames.frames = []
  opened : r.generation ≠ none → Rooted r.frames.frames
  before : r.state = .preparing ∨ r.state = .starting → r.generation = none
  after : r.state.isOpen → r.generation ≠ none

section
variable {h : History} {r : TxReducer} {t : CommandToken} {e : TxEvent} {now : Instant} {a : Action}

theorem Underway.awaited (hu : Underway h r) (hen : kindMatched h r (.event e now))
    (ha : r.active = some t) (he : e.completes = some t) :
    ∃ a ∈ h.outputs, a.command = some t ∧ r.state.awaits a ∧ a.kindOf e := by
  obtain ⟨a, hm, hc, haw⟩ := hu.active t ha
  exact ⟨a, hm, hc, haw, hen a hm (by simp [answered, hc, he])⟩

theorem completes_of_returning {e : TxEvent} {t : CommandToken} (h : e.returning = some t) :
    e.completes = some t := by
  cases e <;> simp_all [TxEvent.returning, TxEvent.completes]

/-- A session comes back only from a command in flight, or one that a force interrupted. -/
theorem Underway.returning_state (hu : Underway h r) (hen : kindMatched h r (.event e now))
    (ha : r.active = some t) (he : e.returning = some t) :
    r.state = .inFlight ∨ r.state = .quiescing ∨ r.state = .cancelling := by
  obtain ⟨a, -, -, haw, hk⟩ := hu.awaited hen ha (completes_of_returning he)
  cases e <;> cases a <;> simp [kindOf, TxEvent.returning] at hk he <;>
    cases hs : r.state <;> simp_all [awaits]

theorem Underway.active_none {h : History} {r : TxReducer} (hu : Underway h r)
    (hs : r.state = .preparing ∨ r.state = .idle ∨ r.state = .poisoned) : r.active = none := by
  by_contra ha
  obtain ⟨t, ha⟩ := Option.ne_none_iff_exists'.mp ha
  obtain ⟨a, -, -, haw⟩ := hu.active t ha
  rcases hs with hs | hs | hs <;> simp [hs, awaits] at haw

theorem Underway.of_resting (hg : Gated r) (hs : r.state = .idle ∨ r.state = .poisoned) (ha : r.active = none)
    (hgn : r.generation ≠ none) (hr : Rooted r.frames.frames) : Underway h r where
  gated := hg
  active := by simp [ha]
  awaiting := by rcases hs with hs | hs <;> simp [hs, isAwaiting]
  unopened hn := absurd hn hgn
  opened _ := hr
  before := by rcases hs with hs | hs <;> simp [hs]
  after _ := hgn

theorem Underway.of_sent (hg : Gated r) (hm : a ∈ h.outputs) (hc : a.command = r.active)
    (haw : r.state.awaits a) (hs : r.state = .inFlight ∨ r.state = .settling)
    (ha : r.active = some t) (hgn : r.generation ≠ none) (hr : Rooted r.frames.frames) : Underway h r where
  gated := hg
  active u hu := ⟨a, hm, hc.trans hu, haw⟩
  awaiting _ := ⟨t, ha⟩
  unopened hn := absurd hn hgn
  opened _ := hr
  before := by rcases hs with hs | hs <;> simp [hs]
  after _ := hgn

theorem Underway.of_ended (hg : Gated r) (hs : r.state = .settled) (ha : r.active = none)
    (hn : r.generation = none → r.frames.frames = []) (hr : r.generation ≠ none → Rooted r.frames.frames) :
    Underway h r where
  gated := hg
  active := by simp [ha]
  awaiting := by simp [hs, isAwaiting]
  unopened := hn
  opened := hr
  before := by simp [hs]
  after := by simp [hs, isOpen]

theorem Underway.of_settledAs {outcome : TerminalOutcome} {withdraw : Bool}
    (hno : r.generation = none → r.frames.frames = []) (hr : r.generation ≠ none → Rooted r.frames.frames)
    (hg : Gated (r.settledAs outcome withdraw)) : Underway h (r.settledAs outcome withdraw) :=
  .of_ended hg rfl rfl (fun hn => by simp [settledAs, discardAllEffects, hno hn])
    (fun hgn => (hr hgn).clear)

/-- The same transaction after more has been sent out that it does not wait for. -/
theorem Underway.mono (hu : Underway h r) {h' : History} (hs : ∀ a ∈ h.outputs, a ∈ h'.outputs) : Underway h' r := by
  refine {hu with active := fun t ht => ?_}
  obtain ⟨a, hm, hc, ha⟩ := hu.active t ht
  exact ⟨a, hs a hm, hc, ha⟩

/-- A force leaves the command it interrupts out. -/
theorem TxState.awaits_cancelling {s : TxState} (h : s.awaits a) (hs : s ≠ .settling) : cancelling.awaits a := by
  cases s <;> cases a <;> simp_all [awaits, isCreatorDataSql]

theorem Underway.forcedBy {r₀ : TxReducer} (hu : Underway h r) (hi : Interrupted r e r₀) (hg : r₀.GateOpen)
    {cause : CleanupCause} (hg' : Gated (r₀.forcedBy cause now)) : Underway h (r₀.forcedBy cause now) := by
  obtain ⟨active, slot, ha, rfl⟩ := hi.eq
  refine ⟨hg', fun t ht => ?_, ?_, hu.unopened, hu.opened, ?_, ?_⟩
  · rcases ha with rfl | rfl
    · obtain ⟨a, hm, hc, haw⟩ := hu.active t ht
      exact ⟨a, hm, hc, awaits_cancelling haw hg.2.1⟩
    · cases ht
  all_goals simp [TxReducer.forcedBy, isAwaiting, isOpen]

end

theorem Underway.move (hu : Underway h r) (hen : kindMatched h r i) (hm : Move r i r' acts) :
    Underway (h ++ [⟨r, i, acts, r'⟩]) r' := by
  have hg := hu.gated.move hm
  have hol : ∀ a ∈ h.outputs, a ∈ Base.History.outputs (h ++ [⟨r, i, acts, r'⟩]) := by
    exact fun a ha => Base.History.mem_outputs_snoc.mpr (.inl ha)
  have hnw : ∀ a ∈ acts, a ∈ Base.History.outputs (h ++ [⟨r, i, acts, r'⟩]) := by
    exact fun a ha => Base.History.mem_outputs_snoc.mpr (.inr ha)
  -- a session that comes back outside cleanup finds the transaction opened
  have hb : ∀ {e now t}, i = .event e now → e.returning = some t → r.active = some t →
      r.state ≠ .cancelling → r.generation ≠ none := by
    rintro e now t rfl he ha hcn
    refine hu.after ?_
    rcases hu.returning_state hen ha he with hs | hs | hs
    · simp [hs, isOpen]
    · simp [hs, isOpen]
    · exact absurd hs hcn
  cases hm with
  | refused | queueRefused => exact hu.mono hol
  | folded => exact {hu.mono hol with gated := hg}
  | began hs =>
    exact {
      gated := hg
      active := by
        rintro t ht
        exact ⟨.issueBegin r.fresh, hnw _ (by simp), ht, rfl⟩
      awaiting := fun _ => ⟨_, rfl⟩
      unopened := hu.unopened
      opened := hu.opened
      before := fun _ => hu.before (.inl hs)
      after := by simp [isOpen] }
  | opened hs ha =>
    exact .of_resting hg (.inl rfl) rfl (by simp)
      (rooted_openRoot (hu.unopened (hu.before (.inr hs))))
  | forced hs hi hgt hr => exact (hu.forcedBy hi hgt hg).mono hol
  | late hs hi hgt hr =>
    obtain ⟨rfl, -⟩ := hu.gated.late hi hgt
    exact hu.mono hol
  | issuedData hs hc | issuedRelease hs hc =>
    have hgn := hu.after (by simp [hs, isOpen])
    exact .of_sent hg (hnw _ (.head _)) rfl rfl (.inl rfl) rfl hgn (hu.opened hgn)
  | issuedRollbackTo hs hc =>
    have hgn := hu.after (by rcases hs with hs | hs <;> simp [hs, isOpen])
    exact .of_sent hg (hnw _ (.head _)) rfl rfl (.inl rfl) rfl hgn (hu.opened hgn)
  | issuedSavepoint hs hc ho =>
    have hgn := hu.after (by simp [hs, isOpen])
    exact .of_sent hg (hnw _ (.head _)) rfl rfl (.inl rfl) rfl hgn
      (rooted_openChild (hu.opened hgn) ho)
  | @dataReturned token errored _ _ hs hcn hq ha =>
    have hgn := hb rfl rfl ha hcn
    refine .of_resting hg ?_ rfl hgn (hu.opened hgn)
    cases errored
    · exact .inl rfl
    · exact .inr rfl
  | dataSettled hs ha hint =>
    have hgn := hu.after (by simp [hs, isOpen])
    exact .of_sent hg (hnw _ (.tail _ (issueTerminal_mem _))) rfl rfl (.inr rfl) rfl hgn (hu.opened hgn)
  | savepointReturned hs hcn ha =>
    have hgn := hb rfl rfl ha hcn
    exact .of_resting hg (.inl rfl) rfl hgn (rooted_confirmChildOpen (hu.opened hgn))
  | savepointFailed hs hcn ha =>
    have hgn := hb rfl rfl ha hcn
    exact .of_resting hg (.inr rfl) rfl hgn (rooted_abandon (hu.opened hgn))
  | closeFailed hs hcn ha =>
    have hgn := hb rfl rfl ha hcn
    exact .of_resting hg (.inr rfl) rfl hgn (hu.opened hgn)
  | rolledBack hs hcn ha ht hn =>
    have hgn := hb rfl rfl ha hcn
    exact .of_sent hg (hnw _ (.head _)) rfl rfl (.inl rfl) rfl hgn
      (rooted_markRolledBack (hu.opened hgn))
  | released hs hcn ha hf =>
    have hgn := hb rfl rfl ha hcn
    exact .of_resting hg (.inl rfl) rfl hgn (rooted_closeTop (hu.opened hgn) hf)
  | releasedTop hs hcn ha hf ht hfr =>
    have hgn := hb rfl rfl ha hcn
    refine .of_resting hg (.inl rfl) rfl hgn ?_
    rcases hfr with rfl | ⟨id, hfr⟩
    · exact hu.opened hgn
    · exact rooted_closeTop (hu.opened hgn) hfr
  | releasedNothing hs hcn ha ht =>
    obtain ⟨top, htp⟩ := (hu.opened (hb rfl rfl ha hcn)).top_eq_some
    simp [ht] at htp
  | quiesced hs hc =>
    refine ⟨hg, fun t ht => ?_, fun _ => hu.awaiting (by simp [hs, isAwaiting]), hu.unopened, hu.opened,
      by simp, fun _ => hu.after (by simp [hs, isOpen])⟩
    obtain ⟨a, hmm, hcm, haw⟩ := hu.active t ht
    rw [hs] at haw
    exact ⟨a, hol a hmm, hcm, haw⟩
  | settling hs hc =>
    have hgn := hu.after (by rcases hs with hs | hs <;> simp [hs, isOpen])
    exact .of_sent hg (hnw _ (issueTerminal_mem _)) rfl rfl (.inr rfl) rfl hgn (hu.opened hgn)
  | returnedLate hs he ha hc =>
    exact ⟨hg, by simp [returned], by simp [returned, isAwaiting], hu.unopened, hu.opened,
      by simp [returned], by simp [returned, isOpen]⟩
  | answered | expired | cancelled | unproved => exact .of_settledAs hu.unopened hu.opened hg
  | queued hf =>
    refine {hu.mono hol with gated := hg, unopened := fun hnn => ?_, opened := fun hgn => ?_}
    · obtain ⟨top, rest, hfr, -⟩ := queueEffect_ok.mp hf
      simp [hu.unopened hnn] at hfr
    · exact rooted_queueEffect (hu.opened hgn) hf

/-- Induction on the run: a move keeps the command and the frame stack in step with the state. -/
theorem underway_of_run (run : RunFrom kindMatched expected budgets start maxDepth h r) : Underway h r := by
  refine run.invariant Underway ?_ fun _ hu he ht => hu.move he (step_move ht)
  exact ⟨gated_admitted, by simp [admitTransaction, DeadlineSlot.armInitial],
    by simp [admitTransaction, DeadlineSlot.armInitial, isAwaiting],
    fun _ => rfl, fun h => absurd rfl h, fun _ => rfl, fun h => by cases h⟩

end Zeroship.Tx
