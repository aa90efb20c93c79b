import Zeroship.Tx.Database

/-! The server's savepoints follow the frame stack.

`Aligned` relates the two stacks while the transaction is live: they agree, except
that a child whose `SAVEPOINT` is still out is on the frame stack alone. Which frame
command is out decides what its completion does to both, and every failure row
leaves both alone. -/
namespace Zeroship.Tx

open TxReducer List Tx.Action FrameStack Database TxEvent TxInput

/-! ### The two stacks -/

variable (acts : List Action)

/-- The frame commands among the actions. -/
def frameCommands : List Action := acts.filter Action.isFrameCommand

theorem frameCommands_loud : frameCommands (loud acts) = frameCommands acts := by
  rw [frameCommands, loud, filter_filter]
  refine filter_congr fun a _ => ?_
  cases a <;> rfl

section
variable {d : Database} {t : Base.Step TxReducer TxInput Action} {a : Action}

theorem Database.after_none (hp : d.pending = []) : d.after t = ⟨d.stack, frameCommands t.outputs⟩ := by
  simp [after, hp, frameCommands]

theorem Database.after_waiting (hp : d.pending = [a]) (hn : t.input.answers a = false) :
    d.after t = ⟨d.stack, a :: frameCommands t.outputs⟩ := by simp [after, hp, hn, frameCommands]

theorem Database.after_answered (hp : d.pending = [a]) (hn : t.input.answers a) :
    d.after t = ⟨if t.input.succeeded then a.execute d.stack else d.stack, frameCommands t.outputs⟩ := by
  simp [after, hp, hn, frameCommands]

end

def topSavepoint (s : FrameStack) : Option String := s.top.bind Frame.savepoint

/-- How server and frame stack stand to each other while the transaction is live, by
the frame command that is out. -/
inductive Aligned (h : History) (r : TxReducer) (d : Database) : Prop
  | level (hp : d.pending = []) (hs : d.stack = names r.frames.frames)
      (hq : ∀ t a, r.active = some t → a ∈ h.outputs → a.command = some t → a.isFrameCommand = false)
  | opening {t : CommandToken} {name : String} (ha : r.active = some t)
      (hp : d.pending = [.issueSavepoint t name]) (hmem : .issueSavepoint t name ∈ h.outputs)
      (ht : topSavepoint r.frames = some name) (hs : names r.frames.frames = name :: d.stack)
  | closing {t : CommandToken} {name : String} {a : Action} (ha : r.active = some t) (hp : d.pending = [a])
      (hmem : a ∈ h.outputs) (hcmd : a = .issueRollbackTo t name ∨ a = .issueRelease t name)
      (ht : topSavepoint r.frames = some name) (hs : d.stack = names r.frames.frames)

section
variable {h : History} {r r' : TxReducer} {d : Database} {i : TxInput} {acts : List Action} {now : Instant}
  {t : CommandToken} {e : TxEvent} {frame : FrameId} {ok : Bool}

theorem Aligned.of_inactive (hal : Aligned h r d) (ha : r.active = none) :
    d.pending = [] ∧ d.stack = names r.frames.frames := by
  cases hal with
  | level hp hs hq => exact ⟨hp, hs⟩
  | opening hac | closing hac => simp [ha] at hac

/-- A step that sends nothing, and neither answers the active command nor changes what
the frames are, keeps the alignment. -/
theorem Aligned.keep (hal : Aligned h r d) (hsn : loud acts = []) (han : ∀ a ∈ d.pending, i.answers a = false)
    (hac : r'.active = r.active) (ht' : topSavepoint r'.frames = topSavepoint r.frames)
    (hn : names r'.frames.frames = names r.frames.frames) :
    Aligned (h ++ [⟨r, i, acts, r'⟩]) r' (d.after ⟨r, i, acts, r'⟩) := by
  have hf : frameCommands acts = [] := by rw [← frameCommands_loud, hsn]; rfl
  have hcm : commands acts = [] := by rw [← commands_loud, hsn]; rfl
  cases hal with
  | level hp hs hq =>
    rw [after_none hp]
    refine .level hf (hs.trans hn.symm) fun t a ha hm hc => ?_
    rcases Base.History.mem_outputs_snoc.mp hm with hm | hm
    · exact hq t a (hac ▸ ha) hm hc
    · have : t ∈ commands acts := mem_commands.mpr ⟨a, hm, hc⟩
      simp [hcm] at this
  | opening ha hp hm ht hs =>
    rw [after_waiting hp (han _ (by simp [hp]))]
    exact .opening (hac ▸ ha) (by simp [hf]) (by simp [hm]) (ht'.trans ht) (hn.trans hs)
  | closing ha hp hm hc ht hs =>
    rw [after_waiting hp (han _ (by simp [hp]))]
    exact .closing (hac ▸ ha) (by simp [hf]) (by simp [hm]) hc (ht'.trans ht) (hs.trans hn.symm)

/-- Level stacks stay level over a step that keeps the names and sends a command of
another kind, or none. -/
theorem Aligned.of_level (ht : ∀ t ∈ commands h.outputs, t.get ≤ r.nextToken) (hs : (d.after ⟨r, i, acts, r'⟩).stack =
      names r'.frames.frames) (hp : (d.after ⟨r, i, acts, r'⟩).pending = [])
    (hac : r'.active = none ∨ r'.active = some r.fresh) (hfc : frameCommands acts = []) :
    Aligned (h ++ [⟨r, i, acts, r'⟩]) r' (d.after ⟨r, i, acts, r'⟩) := by
  refine .level hp hs fun t a ha hm hc => ?_
  rcases hac with hac | hac
  · simp [ha] at hac
  rcases Base.History.mem_outputs_snoc.mp hm with hm | hm
  · have hle := ht t (mem_commands.mpr ⟨a, hm, hc⟩)
    rw [ha] at hac
    simp [Option.some.inj hac, fresh] at hle
  · by_contra hf
    have : a ∈ frameCommands acts := mem_filter.mpr ⟨hm, by simpa using hf⟩
    simp [hfc] at this

/-- A command that is still out is not answered by anything else. -/
theorem Aligned.not_answered (hal : Aligned h r d)
    (hen : frameMatched h r (.event e now)) (he : ∀ t, e.returning = some t → r.active ≠ some t) :
    ∀ a ∈ d.pending, (event e now).answers a = false := by
  have hk {a : Action} {t : CommandToken} (ha : r.active = some t) (hm : a ∈ h.outputs)
      (hc : a.command = some t) (hf : a.isFrameCommand) : (event e now).answers a = false := by
    by_contra han
    have han : a.answered e := by simpa [answers] using han
    have hkn := (hen a hm han).1
    have hcm : e.completes = some t := by
      simp only [answered, decide_eq_true_eq] at han
      rw [← han.2, hc]
    refine he t ?_ ha
    cases a <;> cases e <;>
      simp_all [kindOf, isFrameCommand, returning, completes]
  intro a hpn
  cases hal with
  | level hp hs hq => simp [hp] at hpn
  | opening ha hp hm ht hs =>
    obtain rfl : a = _ := by simpa [hp] using hpn
    exact hk ha hm rfl rfl
  | closing ha hp hm hc ht hs =>
    obtain rfl : a = _ := by simpa [hp] using hpn
    rcases hc with rfl | rfl <;> exact hk ha hm rfl rfl

theorem Aligned.level_of_completed (hal : Aligned h r d)
    (hen : frameMatched h r (.event e now)) (ha : r.active = some t) (he : e.completes = some t)
    (ho : ∀ a : Action, a.isFrameCommand → a.kindOf e = false) :
    d.pending = [] ∧ d.stack = names r.frames.frames := by
  have hk {a : Action} (hm : a ∈ h.outputs) (hc : a.command = some t) (hf : a.isFrameCommand) :
      False := by
    have hkn := (hen a hm (by simp [answered, hc, he])).1
    simp [ho a hf] at hkn
  cases hal with
  | level hp hs hq => exact ⟨hp, hs⟩
  | opening hac hp hm ht hs =>
    obtain rfl := Option.mem_unique ha hac
    exact (hk hm rfl rfl).elim
  | closing hac hp hm hc ht hs =>
    obtain rfl := Option.mem_unique ha hac
    rcases hc with rfl | rfl <;> exact (hk hm rfl rfl).elim

theorem top_of_topSavepoint {s : FrameStack} (h : topSavepoint s = some (savepointName frame)) :
    ∃ top rest, s.frames = top :: rest ∧ top.id = frame ∧ top.savepoint = some (savepointName frame) := by
  obtain ⟨top, ht, hn⟩ := Option.bind_eq_some_iff.mp h
  obtain ⟨rest, hs⟩ := head?_eq_some_iff.mp ht
  have hid := s.minted.named top (by simp [hs]) _ hn
  exact ⟨top, rest, hs, (savepoint_injective hid).symm, hn⟩

theorem Aligned.opening_of_completed
    (hal : Aligned h r d) (hu : Underway h r) (he : frameMatched h r (.event (.openFrameCompleted t frame ok) now))
    (ha : r.active = some t) :
    d.pending = [.issueSavepoint t (savepointName frame)] ∧ names r.frames.frames = savepointName frame :: d.stack ∧
      ∃ top rest, r.frames.frames = top :: rest ∧ top.id = frame ∧ top.savepoint = some (savepointName frame) := by
  cases hal with
  | level hp hs hq =>
    obtain ⟨a, hm, hc, -, hk⟩ := hu.awaited (kind_of_frame he) ha rfl
    have hn := hq t a ha hm hc
    cases a <;> simp_all [kindOf, isFrameCommand]
  | opening hac hp hm ht hs =>
    obtain rfl := Option.mem_unique ha hac
    have hf := (he _ hm (by simp [answered, command, completes])).2
    simp only [frameOf, decide_eq_true_eq] at hf
    subst hf
    exact ⟨hp, hs, top_of_topSavepoint ht⟩
  | closing hac hp hm hc ht hs =>
    obtain rfl := Option.mem_unique ha hac
    rcases hc with rfl | rfl <;>
    · have hk := (he _ hm (by simp [answered, command, completes])).1
      simp [kindOf] at hk

/-- The command a close completes, by how it closes. -/
def closeCommand (t : CommandToken) (name : String) : FrameClose → Action
  | .released => .issueRelease t name
  | .rolledBackTo => .issueRollbackTo t name

theorem Aligned.closing_of_completed {close : FrameClose} (hal : Aligned h r d) (hu : Underway h r)
    (he : frameMatched h r (.event (.closeFrameCompleted t frame close ok) now)) (ha : r.active = some t) :
    d.pending = [closeCommand t (savepointName frame) close] ∧ d.stack = names r.frames.frames ∧
      ∃ top rest, r.frames.frames = top :: rest ∧ top.id = frame ∧ top.savepoint = some (savepointName frame) := by
  cases hal with
  | level hp hs hq =>
    obtain ⟨a, hm, hc, -, hk⟩ := hu.awaited (kind_of_frame he) ha rfl
    have hn := hq t a ha hm hc
    cases a <;> simp_all [kindOf, isFrameCommand]
  | opening hac hp hm ht hs =>
    obtain rfl := Option.mem_unique ha hac
    have hk := (he _ hm (by simp [answered, command, completes])).1
    simp [kindOf] at hk
  | @closing _ name a hac hp hm hc ht hs =>
    obtain rfl := Option.mem_unique ha hac
    rcases hc with rfl | rfl <;>
    · obtain ⟨hk, hf⟩ := he _ hm (by simp [answered, command, completes])
      simp only [frameOf, decide_eq_true_eq] at hf
      subst hf
      refine ⟨?_, hs, top_of_topSavepoint ht⟩
      cases close <;> simp_all [kindOf, closeCommand]

end

theorem topSavepoint_queueEffect {s s' : FrameStack} {effect : Effect} (h : s.queueEffect effect = .ok s') :
    topSavepoint s' = topSavepoint s ∧ names s'.frames = names s.frames := by
  obtain ⟨top, rest, hf, -, hb⟩ := queueEffect_ok.mp h
  rw [topSavepoint, topSavepoint, FrameStack.top, FrameStack.top, hb.frames, hf]
  exact ⟨rfl, names_retop rfl rest⟩

theorem answers_savepoint (t : CommandToken) (frame : FrameId) (ok : Bool) (now : Instant) (name : String) :
    (event (.openFrameCompleted t frame ok) now).answers (.issueSavepoint t name) := by
  simp [answers, answered, command, completes]

theorem answers_close (t : CommandToken) (frame : FrameId) (close : FrameClose) (ok : Bool) (now : Instant)
    (name : String) : (event (.closeFrameCompleted t frame close ok) now).answers (closeCommand t name close) := by
  cases close <;> simp [answers, answered, closeCommand, command, completes]

/-- Rolling back to the innermost savepoint leaves it defined; releasing it removes it. -/
theorem execute_rollbackTo_top (t : CommandToken) (name : String) (stack : List String) :
    (issueRollbackTo t name).execute (name :: stack) = name :: stack := by
  simp [execute, rollbackTo]

theorem execute_release_top (t : CommandToken) (name : String) (stack : List String) :
    (issueRelease t name).execute (name :: stack) = stack := by simp [execute, release]

theorem isRoot_of_savepoint {f : Frame} {name : String} (h : f.savepoint = some name) : f.isRoot = false := by
  simp [Frame.isRoot, h]

variable {h : History} {r : TxReducer} {expected : ExpectedAuthority} {budgets : TxBudgets} {start : Instant}
  {maxDepth : Nat}

/-- A completed release names the top frame, so it is never refused. -/
theorem Aligned.closeTop_released {d : Database} {t : CommandToken} {frame : FrameId} {ok : Bool} {now : Instant}
    (hal : Aligned h r d) (hu : Underway h r)
    (he : frameMatched h r (.event (.closeFrameCompleted t frame .released ok) now)) (ha : r.active = some t) :
    ∃ s', r.frames.closeTop frame .released = some (.ok (s', frame)) := by
  obtain ⟨-, -, top, rest, hf, hid, hn⟩ := hal.closing_of_completed hu he ha
  have hg : r.generation ≠ none := by
    intro hnn
    simp [hu.unopened hnn] at hf
  have hr := hu.opened hg
  rw [hf] at hr
  cases rest with
  | nil => simp [Rooted, hn] at hr
  | cons parent below =>
    have hm : Minted (top :: parent :: below) r.frames.nextSequence := hf ▸ r.frames.minted
    exact ⟨_, FrameStack.closeTop_released.mpr
      ⟨top, parent, below, hf, hid, isRoot_of_savepoint hn, rfl, hm.pop.retop rfl rfl, rfl⟩⟩

/-- One move keeps the stacks aligned while the transaction is live. -/
theorem Aligned.move {r' : TxReducer} {d : Database} {i : TxInput} {acts : List Action}
    (hal : Aligned h r d) (hu : Underway h r)
    (htk : ∀ t ∈ commands h.outputs, t.get ≤ r.nextToken) (he : frameMatched h r i) (hm : Move r i r' acts)
    (hc' : r'.state ≠ .cancelling) (hs' : r'.state ≠ .settled) :
    Aligned (h ++ [⟨r, i, acts, r'⟩]) r' (d.after ⟨r, i, acts, r'⟩) := by
  have hsn : ∀ a ∈ acts, a ∈ Base.History.outputs (h ++ [⟨r, i, acts, r'⟩]) :=
    fun a ha => Base.History.mem_outputs_snoc.mpr (.inr ha)
  -- the commands other than frame commands leave both stacks alone
  have hlv {r' : TxReducer} {acts : List Action} (hl : d.pending = [] ∧ d.stack = names r.frames.frames)
      (hac : r'.active = none ∨ r'.active = some r.fresh) (hna : names r'.frames.frames = names r.frames.frames)
      (hfc : frameCommands acts = []) : Aligned (h ++ [⟨r, i, acts, r'⟩]) r' (d.after ⟨r, i, acts, r'⟩) := by
    refine .of_level htk ?_ ?_ hac hfc
    · rw [after_none hl.1, hna, hl.2]
    · rw [after_none hl.1, hfc]
  cases hm with
  | refused hr hstl =>
    exact hal.keep (loud_replies hr) (hal.not_answered he fun t ht => (hstl t ht).resolve_right hs') rfl rfl rfl
  | folded hs | quiesced hs hc =>
    exact hal.keep rfl (hal.not_answered he (by simp [returning])) rfl rfl rfl
  | began hs =>
    have hl := hal.of_inactive (hu.active_none (.inl hs))
    exact hlv hl (.inr rfl) rfl rfl
  | opened hs ha =>
    have hl := hal.level_of_completed he ha rfl
      (fun a _ => by cases a <;> simp_all [kindOf, isFrameCommand])
    exact hlv hl (.inl rfl) (by simp [openRoot, names]) rfl
  | forced | returnedLate => exact absurd rfl hc'
  | late hs hi hg hr =>
    obtain ⟨rfl, hrt⟩ := hu.gated.late hi hg
    exact hal.keep (loud_replies hr) (hal.not_answered he (by simp [hrt])) rfl rfl rfl
  | issuedData hs =>
    have hl := hal.of_inactive (hu.active_none (.inr (.inl hs)))
    exact hlv hl (.inr rfl) rfl rfl
  | @dataReturned _ errored _ _ hs hcn hq ha =>
    have hl := hal.level_of_completed he ha rfl
      (fun a _ => by cases a <;> simp_all [kindOf, isFrameCommand])
    exact hlv hl (.inl rfl) rfl rfl
  | dataSettled hs ha hint =>
    have hl := hal.level_of_completed he ha rfl
      (fun a _ => by cases a <;> simp_all [kindOf, isFrameCommand])
    refine hlv hl (.inr rfl) rfl ?_
    rw [← frameCommands_loud]
    simp [frameCommands, isQuiet, isFrameCommand]
  | @issuedSavepoint _ frames id name hs hc ho =>
    obtain ⟨hp, hst⟩ := hal.of_inactive (hu.active_none (.inr (.inl hs)))
    obtain ⟨-, -, -, -, hf, -, -⟩ := openChild_ok ho
    rw [after_none hp]
    refine @Aligned.opening _ _ _ r.fresh name rfl rfl (hsn _ (.head _)) ?_ ?_
    · simp [topSavepoint, top, issued, hf]
    · simp [issued, hf, names, hst]
  | @savepointReturned token frame _ _ hs hcn ha =>
    obtain ⟨hp, hn, top, rest, hf, hid, hnm⟩ := hal.opening_of_completed hu he ha
    refine .of_level htk ?_ ?_ (.inl rfl) rfl <;> rw [after_answered hp (answers_savepoint ..)]
    · simp only [returned, confirmChildOpen_top hf hid]
      rw [hf] at hn
      exact hn.symm
    · rfl
  | @savepointFailed token frame _ _ hs hcn ha =>
    obtain ⟨hp, hn, top, rest, hf, hid, hnm⟩ := hal.opening_of_completed hu he ha
    refine .of_level htk ?_ ?_ (.inl rfl) rfl <;> rw [after_answered hp (answers_savepoint ..)]
    · simp only [returned, abandon_top hf hid (isRoot_of_savepoint hnm)]
      rw [hf, names_cons hnm] at hn
      exact (cons.inj hn).2.symm
    · rfl
  | @issuedRelease _ _ top name hs hc ht hid hn =>
    obtain ⟨hp, hst⟩ := hal.of_inactive (hu.active_none (.inr (.inl hs)))
    rw [after_none hp]
    exact @Aligned.closing _ _ _ r.fresh name _ rfl rfl (hsn _ (.head _)) (.inr rfl)
      (by simp [topSavepoint, issued, ht, hn]) hst
  | @issuedRollbackTo _ _ top name hs hc ht hid hn =>
    obtain ⟨hp, hst⟩ := hal.of_inactive (hu.active_none (.inr hs))
    rw [after_none hp]
    exact @Aligned.closing _ _ _ r.fresh name _ rfl rfl (hsn _ (.head _)) (.inl rfl)
      (by simp [topSavepoint, issued, ht, hn]) hst
  | closeFailed hs hcn ha =>
    obtain ⟨hp, hn, -⟩ := hal.closing_of_completed hu he ha
    refine .of_level htk ?_ ?_ (.inl rfl) rfl <;> rw [after_answered hp (answers_close ..)]
    · exact hn
    · rfl
  | @rolledBack token frame _ top' name hs hcn ha ht' hn' =>
    obtain ⟨hp, hn, top, rest, hf, hid, hnm⟩ := hal.closing_of_completed hu he ha
    have hmr := markRolledBack_top hf hid (isRoot_of_savepoint hnm)
    obtain rfl : name = savepointName frame := by
      rw [FrameStack.top, hmr] at ht'
      obtain rfl := Option.some.inj ht'
      exact Option.mem_unique hn' hnm
    rw [after_answered hp (answers_close ..)]
    refine @Aligned.closing _ _ _ r.fresh (savepointName frame) _ rfl rfl (hsn _ (.head _)) (.inr rfl) ?_ ?_
    · simp [topSavepoint, issued, ht', hn']
    · simp only [issued, hmr, succeeded, if_true, closeCommand]
      rw [hn, hf, names_cons hnm, execute_rollbackTo_top, ← names_cons hnm]
      rfl
  | @released token frame id _ frames _ hs hcn ha hfr =>
    obtain ⟨hp, hn, top, rest, hf, hid, hnm⟩ := hal.closing_of_completed hu he ha
    obtain ⟨_, parent, below, hf', -, -, -, hb⟩ := FrameStack.closeTop_released.mp hfr
    obtain ⟨rfl, rfl⟩ := cons.inj (hf.symm.trans hf')
    refine .of_level htk ?_ ?_ (.inl rfl) rfl <;> rw [after_answered hp (answers_close ..)]
    · simp only [returned, hb.frames, succeeded, if_true, closeCommand]
      rw [hn, hf, names_cons hnm, execute_release_top]
      rfl
    · rfl
  | releasedTop hs hcn ha hfr ht' _ =>
    obtain ⟨s', hcl⟩ := hal.closeTop_released hu he ha
    simp [hfr] at hcl
  | releasedNothing hs hcn ha ht' =>
    obtain ⟨-, -, top, rest, hf, -⟩ := hal.closing_of_completed hu he ha
    simp [FrameStack.top, hf] at ht'
  | settling hs hc =>
    have hl := hal.of_inactive (hu.active_none (.inr hs))
    refine hlv hl (.inr rfl) rfl ?_
    rw [← frameCommands_loud]
    simp [frameCommands, isFrameCommand]
  | answered | expired | cancelled | unproved => exact absurd rfl hs'
  | queued hf =>
    obtain ⟨ht, hn⟩ := topSavepoint_queueEffect hf
    exact hal.keep rfl (fun _ _ => rfl) rfl ht hn
  | queueRefused => exact hal.keep rfl (fun _ _ => rfl) rfl rfl rfl

/-- While the transaction is live, the server's savepoints are those of the frame stack. -/
theorem aligned_of_run (run : RunFrom frameMatched expected budgets start maxDepth h r) :
    r.state ≠ .cancelling → r.state ≠ .settled → Aligned h r (database h) := by
  refine run.invariant (fun h r => r.state ≠ .cancelling → r.state ≠ .settled → Aligned h r (database h))
    (fun _ _ => .level rfl rfl (by simp)) fun run ha he ht hc' hs' => ?_
  have hm := step_move ht
  obtain ⟨hc, hs⟩ := hm.live hc' hs'
  rw [database_snoc]
  exact .move (ha hc hs) (underway_of_run (run.weaken fun _ _ _ => kind_of_frame))
    (tokens_of_run run).1 he hm hc' hs'

/-- The server never has, nor may come to have, more savepoints than the depth allows. -/
theorem potential_of_run (run : RunFrom frameMatched expected budgets start maxDepth h r) :
    r.frames.maxDepth = maxDepth ∧ (database h).potential ≤ maxDepth := by
  refine run.invariant (fun h r => r.frames.maxDepth = maxDepth ∧ (database h).potential ≤ maxDepth)
    ⟨rfl, by simp [database, potential]⟩ fun {h r r' i acts} run hi he ht => ?_
  have hm := step_move ht
  have hle := (database h).potential_after_le ⟨r, i, acts, r'⟩
  rw [← length_savepointNames] at hle
  refine ⟨hm.continues.2.trans hi.1, ?_⟩
  rw [database_snoc]
  rcases hm.sent_savepoint with hz | ⟨ho, -, hs, hr⟩
  · simp only [hz] at hle
    exact hle.trans hi.2
  -- an idle transaction has its savepoints on the server and none on the way
  have hu := underway_of_run (run.weaken fun _ _ _ => kind_of_frame)
  obtain ⟨hp, hst⟩ := (aligned_of_run run (by simp [hs]) (by simp [hs])).of_inactive
    (hu.active_none (.inr (.inl hs)))
  have hl := (hu.opened (hu.after (by simp [hs, TxState.isOpen]))).length_names
  have hpt : (database h).potential + 1 = r.frames.frames.length := by simp [potential, hp, hst, hl]
  rw [ho, length_singleton, hpt] at hle
  exact hle.trans (hi.1 ▸ hr)

/-- Savepoint refinement, in every run whose completions have the kind and the frame of
the action that minted their token. An idle transaction finds its frames on the server,
name by name; every `ROLLBACK TO` and `RELEASE` names the savepoint of the frame that is
on top when it is sent; no name is sent with two `SAVEPOINT`s; and the server never holds
more than `maxDepth` of them. -/
theorem savepoints_refine_frames {expected : ExpectedAuthority} {budgets : TxBudgets} {start : Instant}
    {maxDepth : Nat} {h : History} {r : TxReducer} (run : RunFrom frameMatched expected budgets start maxDepth h r) :
    (r.state = .idle → (database h).stack = names r.frames.frames) ∧
    (∀ t ∈ h, ∀ token name, .issueRollbackTo token name ∈ t.outputs ∨ .issueRelease token name ∈ t.outputs →
      ∃ top, t.after.frames.top = some top ∧ top.savepoint = some name) ∧ (savepointNames h.outputs).Nodup ∧
    (database h).stack.length ≤ maxDepth := by
  refine ⟨fun hs => ?_, fun t ht token name ha => ?_, (savepointNames_of_run run).2, ?_⟩
  · have hu := underway_of_run (run.weaken fun _ _ _ => kind_of_frame)
    exact ((aligned_of_run run (by simp [hs]) (by simp [hs])).of_inactive (hu.active_none (.inr (.inl hs)))).2
  · obtain ⟨h₁, h₂, hh⟩ := append_of_mem ht
    exact (move_at run hh).names_top ha
  · exact (Nat.le_add_right _ _).trans (potential_of_run run).2

/-- The sample transaction with one child open. -/
theorem savepoints_refine_one_child : (database (machine.trace sample (sampleOpened ++ [.event .openFrame 3,
      .event (.openFrameCompleted ⟨2⟩ ⟨2⟩ true) 4]))).stack = ["zs_sp_2"] :=
  (savepoints_refine_frames (.of_trace (by decide))).1 (by decide)

end Zeroship.Tx
