import Zeroship.Tx.Moves

/-! The moves are complete.

One lemma for each handler says that what it returns is a listed move;
`move_of_step` collects them. This is the only module in which the handlers are
unfolded for an arbitrary event. -/
namespace Zeroship.Tx

open TxReducer

section
variable {r : TxReducer} {now : Instant} {token : CommandToken} {acts : List Action} {r' r₀ : TxReducer} {e : TxEvent}
  {frame : FrameId} {replies : List Action} {reply : Action} {ok : Bool} {close : FrameClose}

theorem isReply_of_mem {a b : Action} (h : a ∈ [b]) (hb : b.isReply) : a.isReply := by
  rwa [List.mem_singleton.mp h]

theorem refuse_none : r.refuseIfCleaningUp = none ↔ r.cleanup = none := by simp [refuseIfCleaningUp]

theorem isReply_of_refused (h : r.refuseIfCleaningUp = some replies) : ∀ a ∈ replies, a.isReply := by
  obtain ⟨latched, _, rfl⟩ := Option.map_eq_some_iff.mp h
  exact fun _ ha => isReply_of_mem ha rfl

theorem commandReturned_inv (h : r.commandReturnedDuringCleanup = some (r', acts)) :
    ∃ latched, r.cleanup = some latched ∧ r' = r.returned r.state ∧
      acts = [.reply (.error (.cleanup latched.cause))] := by
  unfold commandReturnedDuringCleanup at h
  split at h
  · rename_i latched hc
    simp only [Option.some.injEq, Prod.mk.injEq] at h
    exact ⟨latched, hc, h.1.symm, h.2.symm⟩
  · simp at h

theorem Move.refusal (hr : reply.isReply) (hst : ∀ t, e.returning = some t → r.active ≠ some t ∨ r.state = .settled) :
    Move r (.event e now) r [reply] :=
  .refused (fun _ ha => isReply_of_mem ha hr) hst

theorem Move.stale (hr : reply.isReply) (he : ∀ t, e.returning = some t → t = token) (ha : r.active ≠ some token) :
    Move r (.event e now) r [reply] :=
  .refusal hr fun t ht => Or.inl (he t ht ▸ ha)

theorem Move.declined (he : e.returning = none) (hr : ∀ a ∈ replies, a.isReply) : Move r (.event e now) r replies :=
  .refused hr (by simp [he])

theorem Move.told {a : Action} (he : e.returning = none) (ha : a.isReply) : Move r (.event e now) r [a] :=
  .declined he fun _ hm => isReply_of_mem hm ha

section
variable (hs : r.state ≠ .settled) (hi : Interrupted r e r₀)
include hs hi

variable (cause : CleanupCause)

/-- Whoever publishes a force, the gate decides what it does. -/
theorem move_force {replies : List Action} (hr : ∀ a ∈ replies, a.isReply) :
    Move r (.event e now) (r₀.force cause now).1 ((r₀.force cause now).2.2 ++ replies) := by
  by_cases hg : r₀.GateOpen
  · rw [force_won hg]
    exact .forced hs hi hg hr
  · obtain ⟨gate, hf⟩ := force_lost hg cause now
    rw [hf]
    exact .late hs hi hg hr

theorem move_force_silent :
    Move r (.event e now) (r₀.force cause now).1 (r₀.force cause now).2.2 := by
  rw [← List.append_nil (r₀.force cause now).2.2]
  exact move_force hs hi cause (by simp)

theorem move_verdict_forcing {verdict : Verdict} (hv : ∀ ceiling, verdict ≠ .current ceiling) :
    Move r (.event e now) (r₀.onVerdict verdict now).1 (r₀.onVerdict verdict now).2 := by
  cases verdict with
  | current ceiling => exact absurd rfl (hv ceiling)
  | reResolve | deny reason => exact move_force hs hi _ fun _ ha => isReply_of_mem ha rfl

end

theorem onVerdict_current_fold {ceiling : MaskCeiling} (hp : r.state ≠ .preparing) :
    ∃ c, r.onVerdict (.current ceiling) now = ({r with effectiveCeiling := some c}, []) := by
  simp only [onVerdict]
  exact ⟨_, rfl⟩

theorem move_authority {a : EventAuthority} {observed : ObservedAuthority} (hs : r.state ≠ .settled) :
    Move r (.event (.authorityObserved a observed) now) (r.onAuthority observed now).1
      (r.onAuthority observed now).2 := by
  unfold onAuthority
  cases hv : classify observed r.expected with
  | current ceiling =>
    by_cases hp : r.state = .preparing
    · simp only [onVerdict, hp, mintToken]
      exact .began hp
    · obtain ⟨c, hc⟩ := onVerdict_current_fold hp
      rw [hc]
      exact .folded hs
  | reResolve | deny reason => exact move_verdict_forcing hs (.published rfl) (by simp)

theorem move_beginCompleted {outcome : BeginOutcome} (hs : r.state ≠ .settled) :
    Move r (.event (.beginCompleted token outcome) now) (r.onBeginCompleted token outcome now).1
      (r.onBeginCompleted token outcome now).2 := by
  by_cases ha : r.active = some token
  · by_cases hst : r.state = .starting
    · have hi : Interrupted r (.beginCompleted token outcome) {r with active := none} := .beginFailed hst ha
      rw [onBeginCompleted, checkToken, if_pos ha]
      dsimp only
      rw [if_neg (not_not.mpr hst)]
      cases outcome with
      | opened generation => exact .opened hst ha
      | setupFailed | failed => exact move_force_silent hs hi _
      | reResolve | denied reason => exact move_verdict_forcing hs hi (by simp)
    · simp only [onBeginCompleted, checkToken, ha, if_true, ne_eq, hst, not_false_eq_true]
      exact .told rfl rfl
  · simp only [onBeginCompleted, checkToken, ha, if_false]
    exact .told rfl rfl

theorem move_operationRequested : Move r (.event .operationRequested now) r.onOperationRequested.1
    r.onOperationRequested.2 := by
  unfold onOperationRequested
  cases hc : r.refuseIfCleaningUp with
  | some replies => exact .declined rfl (isReply_of_refused hc)
  | none =>
    dsimp only
    split
    · rename_i hst
      exact .issuedData hst (refuse_none.mp hc)
    all_goals exact .told rfl rfl

/-- What a returning command does to a reducer under cleanup. -/
theorem move_returnedLate (hst : r.state = .cancelling) (he : e.returning = some token) (ha : r.active = some token)
    (h : r.commandReturnedDuringCleanup = some (r', acts)) : Move r (.event e now) r' acts := by
  obtain ⟨latched, hc, rfl, rfl⟩ := commandReturned_inv h
  rw [hst]
  exact .returnedLate hst he ha hc

/-- A completion is stale, finds the transaction under cleanup, or is handled. -/
theorem move_completed {han : Option (TxReducer × List Action)} (he : e.returning = some token)
    (h : (match r.checkToken token with
      | some reply => some (r, reply)
      | none => if r.state = .cancelling then r.commandReturnedDuringCleanup else han) = some (r', acts))
    (hm : r.active = some token → r.state ≠ .cancelling → han = some (r', acts) → Move r (.event e now) r' acts) :
    Move r (.event e now) r' acts := by
  unfold checkToken at h
  by_cases ha : r.active = some token
  · rw [if_pos ha] at h
    dsimp only at h
    by_cases hc : r.state = .cancelling
    · rw [if_pos hc] at h
      exact move_returnedLate hc he ha h
    · rw [if_neg hc] at h
      exact hm ha hc h
  · rw [if_neg ha] at h
    cases h
    exact .stale rfl (fun t ht => Option.mem_unique ht he) ha

theorem move_operationCompleted {errored : Bool}
    (hs : r.state ≠ .settled) (h : r.onOperationCompleted token errored now = some (r', acts)) :
    Move r (.event (.operationCompleted token errored) now) r' acts := by
  refine move_completed rfl h fun ha hc h => ?_
  by_cases hq : r.state = .quiescing
  · rw [if_pos hq] at h
    cases hint : r.settleIntent with
    | none => simp [hint] at h
    | some intent =>
      simp only [hint] at h
      cases h
      rw [← hint, beginTerminal_eq]
      exact .dataSettled hq ha hint
  · rw [if_neg hq] at h
    cases h
    exact .dataReturned hs hc hq ha

theorem move_openFrame : Move r (.event .openFrame now) r.onOpenFrame.1 r.onOpenFrame.2 := by
  unfold onOpenFrame
  cases hc : r.refuseIfCleaningUp with
  | some replies => exact .declined rfl (isReply_of_refused hc)
  | none =>
    dsimp only
    by_cases hst : r.state = .idle
    · rw [if_neg (by simp [TxState.admitsCreatorSql, hst])]
      cases ho : r.frames.openChild with
      | ok opened =>
        obtain ⟨frames, id, name⟩ := opened
        exact .issuedSavepoint hst (refuse_none.mp hc) ho
      | error error => exact .told rfl rfl
    · rw [if_pos (by simp [TxState.admitsCreatorSql, hst])]
      exact .told rfl rfl

theorem move_openFrameCompleted
    (hs : r.state ≠ .settled) (h : r.onOpenFrameCompleted token frame ok = some (r', acts)) :
    Move r (.event (.openFrameCompleted token frame ok) now) r' acts := by
  refine move_completed rfl h fun ha hc h => ?_
  cases ok with
  | true =>
    cases h
    exact .savepointReturned hs hc ha
  | false =>
    cases h
    exact .savepointFailed hs hc ha

theorem move_closeFrame (h : r.onCloseFrame frame close = some (r', acts)) :
    Move r (.event (.closeFrame frame close) now) r' acts := by
  unfold onCloseFrame at h
  cases hc : r.refuseIfCleaningUp with
  | some replies =>
    simp only [hc] at h
    cases h
    exact .declined rfl (isReply_of_refused hc)
  | none =>
    simp only [hc] at h
    split at h
    · cases h
      exact .told rfl rfl
    rename_i hstt
    split at h
    · cases h
      exact .told rfl rfl
    rename_i top ht
    split at h
    · cases h
      exact .told rfl rfl
    rename_i hid
    split at h
    · cases h
      exact .told rfl rfl
    split at h
    · simp at h
    rename_i name hn
    cases h
    have hc := refuse_none.mp hc
    have hid := not_not.mp hid
    cases close with
    | released =>
      have hst : r.state = .idle := by simpa [TxState.admitsCreatorSql] using hstt
      exact .issuedRelease hst hc ht hid hn
    | rolledBackTo =>
      have hst : r.state = .idle ∨ r.state = .poisoned := by
        simpa [TxState.admitsCreatorSql, or_iff_not_imp_left] using hstt
      exact .issuedRollbackTo hst hc ht hid hn

theorem move_closeFrameCompleted (hs : r.state ≠ .settled)
    (h : r.onCloseFrameCompleted token frame close ok = some (r', acts)) :
    Move r (.event (.closeFrameCompleted token frame close ok) now) r' acts := by
  refine move_completed rfl h fun ha hc h => ?_
  cases ok with
  | false =>
    cases h
    exact .closeFailed hs hc ha
  | true =>
    rw [if_neg (by simp)] at h
    cases close with
    | rolledBackTo =>
      dsimp only at h
      split at h
      · simp at h
      rename_i name hn
      cases h
      obtain ⟨top, ht, hn⟩ := Option.bind_eq_some_iff.mp hn
      exact .rolledBack hs hc ha ht hn
    | released =>
      dsimp only at h
      split at h
      · simp at h
      · rename_i frames id hf
        cases h
        exact .released hs hc ha hf
      · rename_i error hf
        split at h
        · rename_i top ht
          split at h
          · simp at h
          · rename_i frames id hfr
            cases h
            exact .releasedTop hs hc ha hf ht (.inr ⟨id, hfr⟩)
          · cases h
            exact .releasedTop hs hc ha hf ht (.inl rfl)
        · rename_i ht
          cases h
          exact .releasedNothing hs hc ha ht

theorem move_settleRequested {intent : SettleIntent} :
    Move r (.event (.settleRequested intent) now) (r.onSettleRequested intent now).1
      (r.onSettleRequested intent now).2 := by
  unfold onSettleRequested
  cases hc : r.refuseIfCleaningUp with
  | some replies => exact .declined rfl (isReply_of_refused hc)
  | none =>
    have hc := refuse_none.mp hc
    dsimp only
    split
    · rename_i hst
      rw [beginTerminal_eq]
      exact .settling (.inl hst) hc
    · rename_i hst
      rw [beginTerminal_eq]
      exact .settling (.inr hst) hc
    · rename_i hst
      exact .quiesced hst hc
    all_goals first
      | exact .told rfl rfl
      | split
        · exact .declined rfl (by simp)
        · exact .told rfl rfl

theorem move_terminalCompleted {result : TerminalResult} (h : r.onTerminalCompleted token result = some (r', acts)) :
    Move r (.event (.terminalCompleted token result) now) r' acts := by
  unfold onTerminalCompleted checkToken at h
  by_cases ha : r.active = some token
  · rw [if_pos ha] at h
    dsimp only at h
    by_cases hst : r.state = .settling
    · rw [if_neg (not_not.mpr hst)] at h
      split at h
      · simp at h
      rename_i intent hint
      rw [settleNow_eq] at h
      cases h
      exact .answered hst ha hint
    · rw [if_pos hst] at h
      cases h
      exact .told rfl rfl
  · rw [if_neg ha] at h
    cases h
    exact .told rfl rfl

theorem move_deadlineFired {kind : DeadlineKind} {generation : DeadlineGeneration} (hs : r.state ≠ .settled) :
    Move r (.event (.deadlineFired kind generation) now) (r.onDeadlineFired kind generation now).1
      (r.onDeadlineFired kind generation now).2 := by
  have hst : Move r (.event (.deadlineFired kind generation) now) r [] :=
    .declined rfl (by simp)
  unfold onDeadlineFired
  by_cases hp : r.preflightLegal kind
  · rw [if_neg (by simp [hp])]
    cases hf : r.slot.claimFire kind generation with
    | error _ => exact hst
    | ok slot =>
      obtain ⟨⟨deadline, ha⟩, rfl⟩ := DeadlineSlot.claimFire_ok hf
      cases kind with
      | execution => exact move_force_silent hs (.expired ha hp) _
      | cancellationSql =>
        dsimp only
        rw [settleNow_eq]
        exact .expired (.inl ⟨rfl, of_decide_eq_true hp⟩) ha
      | terminalSql =>
        dsimp only
        rw [settleNow_eq]
        exact .expired (.inr ⟨rfl, of_decide_eq_true hp⟩) ha
  · rw [if_pos (by simp [hp])]
    exact hst

theorem move_acknowledged {ack : CleanupAck} (h : r.onCancellationAcknowledged token ack = some (r', acts)) :
    Move r (.event (.cancellationAcknowledged token ack) now) r' acts := by
  unfold onCancellationAcknowledged at h
  split at h
  · cases h
    exact .told rfl rfl
  rename_i ht
  split at h
  · cases h
    exact .told rfl rfl
  rename_i hst
  split at h
  · simp at h
  rename_i latched hc
  split at h
  · rename_i hp
    dsimp only at h
    rw [settleNow_eq] at h
    cases h
    exact .cancelled (not_not.mp hst) (not_not.mp ht) hc hp
  · rename_i hp
    dsimp only at h
    rw [settleNow_eq] at h
    cases h
    exact .unproved (not_not.mp hst) (not_not.mp ht) hc hp

end

variable {acts : List Action} {r r' : TxReducer} {i : TxInput}

theorem move_of_some {p : TxReducer × List Action}
    (hm : Move r i p.1 p.2) (h : some p = some (r', acts)) : Move r i r' acts := by
  rw [Option.some.inj h] at hm
  exact hm

theorem move_of_dispatch {e : TxEvent} {now : Instant}
    (hs : r.state ≠ .settled) (h : r.dispatch e now = some (r', acts)) : Move r (.event e now) r' acts := by
  cases e with
  | authorityObserved a observed => exact move_of_some (move_authority hs) h
  | beginCompleted token outcome => exact move_of_some (move_beginCompleted hs) h
  | operationRequested => exact move_of_some move_operationRequested h
  | operationCompleted token errored => exact move_operationCompleted hs h
  | openFrame => exact move_of_some move_openFrame h
  | openFrameCompleted token frame ok => exact move_openFrameCompleted hs h
  | closeFrame frame close => exact move_closeFrame h
  | closeFrameCompleted token frame close ok => exact move_closeFrameCompleted hs h
  | settleRequested intent => exact move_of_some move_settleRequested h
  | terminalCompleted token result => exact move_terminalCompleted h
  | cancel a | detachRequested a => exact move_of_some (move_force_silent hs (.published rfl) _) h
  | deadlineFired kind generation => exact move_of_some (move_deadlineFired hs) h
  | cancellationAcknowledged token ack => exact move_acknowledged h

theorem isReply_settledAnswer (e : TxEvent) : ∀ a ∈ settledAnswer e, a.isReply := by
  cases e <;> simp [settledAnswer, Action.isReply]

/-- Every step of the reducer is one of the listed moves. -/
theorem move_of_step (h : r.step i = some (r', acts)) : Move r i r' acts := by
  cases i with
  | event e now =>
    change r.apply e now = some (r', acts) at h
    unfold apply at h
    split at h
    · rename_i hf
      cases h
      refine .refusal rfl fun t ht => ?_
      -- no returning completion carries an authority
      cases e <;> simp_all [foreign, eventAuthority, TxEvent.returning]
    split at h
    · rename_i hst
      cases h
      exact .refused (isReply_settledAnswer e) fun _ _ => .inr hst
    · rename_i hs
      exact move_of_dispatch hs h
  | queue effect =>
    simp only [step, TxReducer.queueEffect] at h
    cases hq : r.frames.queueEffect effect with
    | ok frames =>
      simp only [hq] at h
      cases h
      exact .queued hq
    | error error =>
      simp only [hq] at h
      cases h
      exact .queueRefused hq

end Zeroship.Tx
