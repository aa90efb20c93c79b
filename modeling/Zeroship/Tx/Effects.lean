import Zeroship.Tx.Publication
import Zeroship.Tx.Savepoints

/-! What is published.

The reducer keeps effects in per-frame buffers, which a release merges, a confirmed
`ROLLBACK TO` empties and a commit concatenates. `survivors` says the same of the history
alone: an effect survives unless a frame that was on the stack when it was accepted is
rolled back to later. `Buffered` cuts the survivors into the buffers, frame by frame. -/
namespace Zeroship.Tx

open TxReducer List FrameStack

/-- An effect that `queueEffect` took, and the frames that were on the stack then. -/
structure Accepted where
  frames : List FrameId
  effect : Effect

variable (a : Accepted) (past future : History) (t : Base.Step TxReducer TxInput Action)

def accepted : Option Accepted :=
  match t.input with
  | .queue effect => match t.before.queueEffect effect with
    | .ok _ => some ⟨t.before.frames.frames.map Frame.id, effect⟩
    | .error _ => none
  | .event _ _ => none

/-- The frame whose `ROLLBACK TO` an input confirms: it is out, and answered with success. -/
def rolledBackBy : TxInput → Option FrameId
  | .event (.closeFrameCompleted token frame .rolledBackTo true) _ =>
    if .issueRollbackTo token (savepointName frame) ∈ (database past).pending then some frame else none
  | _ => none

/-- The frames rolled back to in `future`. -/
def rolledBackIn (past : History) : History → List FrameId
  | [] => []
  | t :: future => (rolledBackBy past t.input).toList ++ rolledBackIn (past ++ [t]) future

def Accepted.outlives (rolledBack : List FrameId) : Bool :=
  a.frames.all fun f => f ∉ rolledBack

/-- The effects accepted in `future`, in order, except those accepted while a frame was on
the stack that is rolled back to later. -/
def surviving (past : History) : History → List Accepted
  | [] => []
  | t :: future =>
    ((accepted t).toList.filter fun a => a.outlives (rolledBackIn (past ++ [t]) future)) ++
      surviving (past ++ [t]) future

def survivors (h : History) : List Accepted := surviving [] h

theorem rolledBackIn_snoc :
    rolledBackIn past (future ++ [t]) =
      rolledBackIn past future ++ (rolledBackBy (past ++ future) t.input).toList := by
  induction future generalizing past with
  | nil => simp [rolledBackIn]
  | cons u future ih => simp [rolledBackIn, ih]

theorem Accepted.outlives_append (fs gs : List FrameId) :
    a.outlives (fs ++ gs) = (a.outlives gs && a.outlives fs) := by
  rw [Bool.eq_iff_iff]
  simp only [outlives, all_eq_true, Bool.and_eq_true, decide_eq_true_eq, mem_append, not_or]
  exact ⟨fun h => ⟨fun f hf => (h f hf).2, fun f hf => (h f hf).1⟩, fun h f hf => ⟨h.2 f hf, h.1 f hf⟩⟩

theorem surviving_snoc :
    surviving past (future ++ [t]) =
      ((surviving past future).filter fun a => a.outlives (rolledBackBy (past ++ future) t.input).toList) ++
        (accepted t).toList := by
  induction future generalizing past with
  | nil => simp [surviving, rolledBackIn, Accepted.outlives]
  | cons u future ih =>
    simp only [cons_append, surviving, ih, rolledBackIn_snoc, append_assoc, filter_append,
      filter_filter, Accepted.outlives_append, nil_append]

/-- One step drops what it rolls back, and adds what it accepts. -/
theorem survivors_snoc (h : History) (t : Base.Step TxReducer TxInput Action) : survivors (h ++ [t]) =
      ((survivors h).filter fun a => a.outlives (rolledBackBy h t.input).toList) ++ (accepted t).toList := by
  rw [survivors, surviving_snoc]
  rfl

/-- The survivors cut into the buffers of the frames: those of the top frame come last and
were accepted with every frame of the stack in place, the others before that frame was there. -/
def Buffered : List Frame → List Accepted → Prop
  | [], all => all = []
  | top :: rest, all => ∃ below own, all = below ++ own ∧ own.map Accepted.effect = top.effects ∧
      (∀ a ∈ below, top.id ∉ a.frames) ∧ (∀ a ∈ own, ∀ f ∈ top :: rest, f.id ∈ a.frames) ∧ Buffered rest below

namespace Buffered
variable {top parent top' : Frame} {rest : List Frame} {all : List Accepted} {frames : List Frame}

/-- The buffers hold exactly the survivors, outermost frame first. -/
theorem retained (h : Buffered frames all) : frames.reverse.flatMap Frame.effects = all.map Accepted.effect := by
  induction frames generalizing all with
  | nil =>
    obtain rfl : all = [] := h
    rfl
  | cons top rest ih =>
    obtain ⟨below, own, rfl, ho, -, -, hr⟩ := h
    simp [ih hr, ho]

theorem push (h : Buffered frames all) (he : top.effects = [])
    (hn : ∀ a ∈ all, top.id ∉ a.frames) : Buffered (top :: frames) all :=
  ⟨all, [], by simp, by simp [he], hn, by simp, h⟩

theorem pop (h : Buffered (top :: rest) all) (he : top.effects = []) : Buffered rest all := by
  obtain ⟨below, own, rfl, ho, -, -, hr⟩ := h
  rw [he, map_eq_nil_iff] at ho
  rw [ho, append_nil]
  exact hr

theorem mem_retop {f : Frame} (top : Frame) (hf : f ∈ top' :: rest) (hid : top'.id = top.id) :
    ∃ g ∈ top :: rest, f.id = g.id := by
  rcases mem_cons.mp hf with rfl | hf
  · exact ⟨top, .head _, hid⟩
  · exact ⟨f, .tail _ hf, rfl⟩

theorem retop (h : Buffered (top :: rest) all) (hid : top'.id = top.id) (he : top'.effects = top.effects) :
    Buffered (top' :: rest) all := by
  obtain ⟨below, own, hal, ho, hb, hfr, hr⟩ := h
  refine ⟨below, own, hal, ho.trans he.symm, by rwa [hid], fun a ha f hf => ?_, hr⟩
  obtain ⟨g, hg, hfg⟩ := mem_retop top hf hid
  rw [hfg]
  exact hfr a ha g hg

/-- Rolling back to the top frame drops exactly its buffer. -/
theorem rollBack (h : Buffered (top :: rest) all) (hid : top'.id = top.id) (he : top'.effects = []) :
    Buffered (top' :: rest) (all.filter fun a => a.outlives [top.id]) := by
  obtain ⟨below, own, rfl, -, hb, hfr, hr⟩ := h
  have hk : below.filter (fun a => a.outlives [top.id]) = below := by
    refine filter_eq_self.mpr fun a ha => ?_
    simp only [Accepted.outlives, all_eq_true, mem_singleton, decide_eq_true_eq]
    rintro f hf rfl
    exact hb a ha hf
  have hd : own.filter (fun a => a.outlives [top.id]) = [] := by
    refine filter_eq_nil_iff.mpr fun a ha ho => ?_
    simp only [Accepted.outlives, all_eq_true, mem_singleton, decide_eq_true_eq] at ho
    exact ho _ (hfr a ha top (.head _)) rfl
  rw [filter_append, hk, hd, append_nil]
  exact hr.push he (by rwa [hid])

/-- Releasing the top frame moves its buffer to the end of its parent's. -/
theorem release (h : Buffered (top :: parent :: rest) all) :
    Buffered ({parent with effects := parent.effects ++ top.effects} :: rest) all := by
  obtain ⟨_, own, rfl, ho, -, hfr, below, middle, rfl, hm, hb, hf', hr⟩ := h
  refine ⟨below, middle ++ own, by simp, by simp [ho, hm], hb, fun a ha f hf => ?_, hr⟩
  obtain ⟨g, hg, hfg⟩ := mem_retop parent hf rfl
  rw [hfg]
  rcases mem_append.mp ha with ha | ha
  · exact hf' a ha g hg
  · exact hfr a ha g (.tail _ hg)

theorem queue (h : Buffered (top :: rest) all) (effect : Effect) :
    Buffered ({top with effects := top.effects ++ [effect]} :: rest)
      (all ++ [⟨(top :: rest).map Frame.id, effect⟩]) := by
  obtain ⟨below, own, rfl, ho, hb, hfr, hr⟩ := h
  refine ⟨below, own ++ [_], by rw [append_assoc], by simp [ho], hb, fun a ha f hf => ?_, hr⟩
  obtain ⟨g, hg, hfg⟩ := mem_retop top hf rfl
  rw [hfg]
  rcases mem_append.mp ha with ha | ha
  · exact hfr a ha g hg
  · rw [mem_singleton.mp ha]
    exact mem_map_of_mem hg

end Buffered

/-! ### Over a run -/

variable {h : History}

theorem mem_pending_snoc {t : Base.Step TxReducer TxInput Action} {a : Action} (ha : a ∈ (database (h ++ [t])).pending) :
    (a ∈ (database h).pending ∧ t.input.answers a = false) ∨ a ∈ frameCommands t.outputs := by
  rw [database_snoc] at ha
  simpa [Database.after, frameCommands] using ha

/-- What is not an answer to a frame command that is out rolls nothing back. -/
theorem rolledBackBy_none {i : TxInput} (hn : ∀ a ∈ (database h).pending, i.answers a = false) :
    rolledBackBy h i = none := by
  unfold rolledBackBy
  split
  · refine if_neg fun hm => ?_
    have ha := hn _ hm
    simp [TxInput.answers, Action.answered, Action.command, TxEvent.completes] at ha
  · rfl

/-- The buffers hold the survivors; no survivor knows a frame that is still to come; and
the frame of a `SAVEPOINT` that is out has taken no effect. -/
structure Fated (h : History) (r : TxReducer) : Prop where
  buffered : Buffered r.frames.frames (survivors h)
  known : ∀ a ∈ survivors h, ∀ id ∈ a.frames, id.get ≤ r.frames.nextSequence
  opening : ∀ t name, .issueSavepoint t name ∈ (database h).pending →
    ∃ top rest, r.frames.frames = top :: rest ∧ top.status = .opening ∧ top.effects = []

section
variable {h : History} {r r' : TxReducer} {i : TxInput} {acts : List Action}

theorem survivors_keep {t : Base.Step TxReducer TxInput Action} (hr : rolledBackBy h t.input = none)
    (ha : accepted t = none) : survivors (h ++ [t]) = survivors h := by
  simp [survivors_snoc, hr, ha, Accepted.outlives]

theorem no_savepoint {t : CommandToken} {name : String} (hs : savepointNames acts = []) :
    .issueSavepoint t name ∉ frameCommands acts := by
  intro hm
  have : name ∈ savepointNames acts := mem_filterMap.mpr ⟨_, (mem_filter.mp hm).1, rfl⟩
  simp [hs] at this

theorem Fated.keep (hf : Fated h r) (hfr : r'.frames = r.frames) (hr : rolledBackBy h i = none)
    (ha : accepted ⟨r, i, acts, r'⟩ = none) (hsn : savepointNames acts = []) :
    Fated (h ++ [⟨r, i, acts, r'⟩]) r' := by
  have hs : survivors (h ++ [⟨r, i, acts, r'⟩]) = survivors h := survivors_keep hr ha
  refine ⟨?_, ?_, fun t name hm => ?_⟩
  · rw [hs, hfr]
    exact hf.buffered
  · rw [hs, hfr]
    exact hf.known
  · rw [hfr]
    rcases mem_pending_snoc hm with ⟨hm, -⟩ | hm
    · exact hf.opening t name hm
    · exact absurd hm (no_savepoint hsn)

theorem Fated.change (hb : Buffered r'.frames.frames (survivors (h ++ [⟨r, i, acts, r'⟩])))
    (hsb : ∀ a ∈ survivors (h ++ [⟨r, i, acts, r'⟩]), a ∈ survivors h) (hf : Fated h r)
    (hs : r.frames.nextSequence ≤ r'.frames.nextSequence)
    (hp : ∀ a ∈ (database h).pending, a.isSavepoint → i.answers a) (hsn : savepointNames acts = []) :
    Fated (h ++ [⟨r, i, acts, r'⟩]) r' := by
  refine ⟨hb, fun a ha id hid => (hf.known a (hsb a ha) id hid).trans hs, fun t name hm => ?_⟩
  rcases mem_pending_snoc hm with ⟨hm, han⟩ | hm
  · simp [hp _ hm rfl] at han
  · exact absurd hm (no_savepoint hsn)

/-- The same for a step that rolls nothing back and takes no effect. -/
theorem Fated.reframe (hf : Fated h r) (hb : Buffered r'.frames.frames (survivors h))
    (hr : rolledBackBy h i = none) (ha : accepted ⟨r, i, acts, r'⟩ = none)
    (hs : r.frames.nextSequence ≤ r'.frames.nextSequence)
    (hp : ∀ a ∈ (database h).pending, a.isSavepoint → i.answers a) (hsn : savepointNames acts = []) :
    Fated (h ++ [⟨r, i, acts, r'⟩]) r' := by
  have hsr : survivors (h ++ [⟨r, i, acts, r'⟩]) = survivors h := survivors_keep hr ha
  exact .change (by rwa [hsr]) (by rw [hsr]; exact fun _ => id) hf hs hp hsn

end

/-- One move keeps the buffers and the survivors together while the transaction is live. -/
theorem Fated.move {r r' : TxReducer} {i : TxInput} {acts : List Action}
    (hf : Fated h r) (hal : Aligned h r (database h)) (hu : Underway h r)
    (he : frameMatched h r i) (hm : Move r i r' acts)
    (hc' : r'.state ≠ .cancelling) (hs' : r'.state ≠ .settled) : Fated (h ++ [⟨r, i, acts, r'⟩]) r' := by
  have hsp : ∀ {acts : List Action}, savepointNames (loud acts) = [] → savepointNames acts = [] :=
    fun hl => savepointNames_loud _ ▸ hl
  have hsq := hm.continues.1
  cases hm with
  | refused hr hst =>
    have hn := hal.not_answered he fun t ht => (hst t ht).resolve_right hs'
    exact hf.keep rfl (rolledBackBy_none hn) rfl (hsp (by rw [loud_replies hr]; rfl))
  | folded | began | issuedData | dataReturned | issuedRelease | issuedRollbackTo | quiesced => exact hf.keep rfl rfl rfl rfl
  | opened hs ha =>
    have hnl := hu.unopened (hu.before (.inr hs))
    have hsr : survivors h = [] := by simpa [hnl, Buffered] using hf.buffered
    obtain ⟨hp, -⟩ := hal.level_of_completed he ha rfl
      (fun a _ => by cases a <;> simp_all [Action.kindOf, Action.isFrameCommand])
    refine hf.reframe ?_ rfl rfl hsq (by simp [hp]) rfl
    rw [hsr]
    simp only [openRoot, hnl]
    exact Buffered.push rfl rfl (by simp)
  | forced | returnedLate => exact absurd rfl hc'
  | late hs hi hg hr =>
    obtain ⟨rfl, hrt⟩ := hu.gated.late hi hg
    have hn := hal.not_answered he (by simp [hrt])
    exact hf.keep rfl (rolledBackBy_none hn) rfl (hsp (by rw [loud_replies hr]; rfl))
  | dataSettled hs ha hint =>
    exact hf.keep rfl rfl rfl (hsp (by simp [Action.isQuiet, savepointNames]))
  | @issuedSavepoint _ frames id name hs hc ho =>
    obtain ⟨-, -, hid, -, hfrm, -, -⟩ := openChild_ok ho
    refine ⟨?_, ?_, fun t n hmm => ⟨_, _, hfrm, rfl, rfl⟩⟩
    · rw [survivors_keep rfl rfl]
      simp only [issued, hfrm]
      refine hf.buffered.push rfl fun a ha hmm => ?_
      have := hf.known a ha _ hmm
      simp [hid] at this
    · rw [survivors_keep rfl rfl]
      exact fun a ha id hmm => (hf.known a ha id hmm).trans hsq
  | @savepointReturned token frame _ _ hs hcn ha =>
    obtain ⟨hp, -, top, rest, hfr, hid, -⟩ := hal.opening_of_completed hu he ha
    have hbf := hf.buffered
    rw [hfr] at hbf
    refine hf.reframe ?_ rfl rfl hsq (by simp [hp, answers_savepoint]) rfl
    simp only [returned, confirmChildOpen_top hfr hid]
    exact hbf.retop rfl rfl
  | @savepointFailed token frame _ _ hs hcn ha =>
    obtain ⟨hp, -, top, rest, hfr, hid, hnm⟩ := hal.opening_of_completed hu he ha
    obtain ⟨_, _, hf', -, hem⟩ := hf.opening _ _ (by rw [hp]; exact .head _)
    obtain ⟨rfl, rfl⟩ := cons.inj (hfr.symm.trans hf')
    have hbf := hf.buffered
    rw [hfr] at hbf
    refine hf.reframe ?_ rfl rfl hsq (by simp [hp, answers_savepoint]) rfl
    simp only [returned, abandon_top hfr hid (isRoot_of_savepoint hnm)]
    exact hbf.pop hem
  | closeFailed hs hcn ha => exact hf.keep rfl (by simp [rolledBackBy]) rfl rfl
  | @rolledBack token frame _ top' name hs hcn ha ht' hn' =>
    obtain ⟨hp, -, top, rest, hfr, hid, hnm⟩ := hal.closing_of_completed hu he ha
    have hbf := hf.buffered
    rw [hfr] at hbf
    have hrl {now : Instant} :
        rolledBackBy h (.event (.closeFrameCompleted token frame .rolledBackTo true) now) = some top.id := by
      rw [hid]
      exact if_pos (by rw [hp]; exact .head _)
    have hsr {t : Base.Step TxReducer TxInput Action} {now : Instant}
        (ht : t.input = .event (.closeFrameCompleted token frame .rolledBackTo true) now) :
        survivors (h ++ [t]) = (survivors h).filter fun a => a.outlives [top.id] := by
      simp [survivors_snoc, ht, hrl, accepted]
    refine .change ?_ ?_ hf hsq (by simp [hp, closeCommand, Action.isSavepoint]) rfl
    · rw [hsr rfl]
      simp only [issued, markRolledBack_top hfr hid (isRoot_of_savepoint hnm)]
      exact hbf.rollBack rfl rfl
    · rw [hsr rfl]
      exact fun a ha => (mem_filter.mp ha).1
  | @released token frame id _ frames _ hs hcn ha hcl =>
    obtain ⟨hp, -⟩ := hal.closing_of_completed hu he ha
    obtain ⟨top, parent, below, hfr, -, -, -, hb⟩ := closeTop_released.mp hcl
    have hbf := hf.buffered
    rw [hfr] at hbf
    refine hf.reframe ?_ rfl rfl hsq (by simp [hp, closeCommand, Action.isSavepoint]) rfl
    simp only [returned, hb.frames]
    exact hbf.release
  | releasedTop hs hcn ha hfr ht' _ =>
    obtain ⟨s', hcl⟩ := hal.closeTop_released hu he ha
    simp [hfr] at hcl
  | releasedNothing hs hcn ha ht' =>
    obtain ⟨-, -, top, rest, hfr, -⟩ := hal.closing_of_completed hu he ha
    simp [FrameStack.top, hfr] at ht'
  | settling hs hc =>
    exact hf.keep rfl rfl rfl
      (hsp (by simp [savepointNames]))
  | answered | expired | cancelled | unproved => exact absurd rfl hs'
  | @queued effect frames hq =>
    obtain ⟨top, rest, hfr, hop, hb⟩ := queueEffect_ok.mp hq
    have hbf := hf.buffered
    rw [hfr] at hbf
    have hsr {acts : List Action} {r' : TxReducer} : survivors (h ++ [⟨r, .queue effect, acts, r'⟩]) =
        survivors h ++ [⟨(top :: rest).map Frame.id, effect⟩] := by
      simp [survivors_snoc, rolledBackBy, accepted, TxReducer.queueEffect, hq, hfr, Accepted.outlives]
    refine ⟨?_, ?_, fun t name hmm => ?_⟩
    · rw [hsr]
      simp only [hb.frames]
      exact hbf.queue effect
    · rw [hsr]
      intro a ha id hid
      refine le_trans ?_ hsq
      rcases mem_append.mp ha with ha | ha
      · exact hf.known a ha id hid
      · rw [mem_singleton.mp ha] at hid
        obtain ⟨f, hmm, rfl⟩ := mem_map.mp hid
        exact r.frames.minted.bounded f (hfr ▸ hmm)
    · -- the frame of a `SAVEPOINT` that is out refuses the effect
      rcases mem_pending_snoc hmm with ⟨hmm, -⟩ | hmm
      · obtain ⟨_, _, hf', hopn, -⟩ := hf.opening t name hmm
        obtain ⟨rfl, rfl⟩ := cons.inj (hfr.symm.trans hf')
        simp [hop] at hopn
      · simp [frameCommands] at hmm
  | queueRefused hq => exact hf.keep rfl rfl (by simp [accepted, TxReducer.queueEffect, hq]) rfl

/-- While the transaction is live, the buffers hold the effects that would survive its commit. -/
theorem fated_of_run {expected : ExpectedAuthority} {budgets : TxBudgets} {start : Instant} {maxDepth : Nat}
    {r : TxReducer} (run : RunFrom frameMatched expected budgets start maxDepth h r) :
    r.state ≠ .cancelling → r.state ≠ .settled → Fated h r := by
  refine run.invariant (fun h r => r.state ≠ .cancelling → r.state ≠ .settled → Fated h r)
    (fun _ _ => ?_) fun run hf he ht hc' hs' => ?_
  · exact ⟨show survivors [] = [] from rfl, by simp [survivors, surviving], by simp [database]⟩
  have hm := step_move ht
  obtain ⟨hc, hs⟩ := hm.live hc' hs'
  exact .move (hf hc hs) (aligned_of_run run hc hs)
    (underway_of_run (run.weaken fun _ _ _ => kind_of_frame)) he hm hc' hs'

/-- The fate of an effect, in every run whose completions have the kind and the frame of
the action that minted their token: what the last step publishes is, in queueing order,
every effect that was accepted, except those accepted while a frame was on the stack whose
`ROLLBACK TO` was confirmed later. -/
theorem publishes_survivors {expected : ExpectedAuthority} {budgets : TxBudgets} {start : Instant} {maxDepth : Nat}
    {h h₁ : History} {r : TxReducer} {t : Base.Step TxReducer TxInput Action} {es : List Effect}
    (run : RunFrom frameMatched expected budgets start maxDepth h r) (hh : h = h₁ ++ [t])
    (hes : .publishEffects es ∈ t.outputs) : es = (survivors h).map Accepted.effect := by
  obtain ⟨hs, -, rfl, token, now, -, hi⟩ := (move_at run hh).publishes hes
  have hsr : survivors h = survivors h₁ := by
    rw [hh]
    exact survivors_keep (by rw [hi]; rfl) (by simp [accepted, hi])
  rw [hsr]
  exact (fated_of_run (run.at_step hh).1 (by simp [hs]) (by simp [hs])).buffered.retained

/-- An effect before a child, one in the child, which is rolled back to, and one after it. -/
def rolledBackChild : List TxInput :=
  sampleOpened ++ [.queue ⟨"notes", "before"⟩, .event .openFrame 3,
    .event (.openFrameCompleted ⟨2⟩ ⟨2⟩ true) 4, .queue ⟨"notes", "inside"⟩,
    .event (.closeFrame ⟨2⟩ .rolledBackTo) 5, .event (.closeFrameCompleted ⟨3⟩ ⟨2⟩ .rolledBackTo true) 6,
    .event (.closeFrameCompleted ⟨4⟩ ⟨2⟩ .released true) 7, .queue ⟨"notes", "after"⟩,
    .event (.settleRequested .commit) 8, .event (.terminalCompleted ⟨5⟩ .committed) 9]

theorem publishes_survivors_of_rolled_back_child : [⟨"notes", "before"⟩, ⟨"notes", "after"⟩] =
      (survivors (machine.trace sample rolledBackChild)).map Accepted.effect := by
  have hh : machine.trace sample rolledBackChild = (machine.trace sample rolledBackChild).take 11 ++
      [(machine.trace sample rolledBackChild).get ⟨11, by decide⟩] := rfl
  exact publishes_survivors (.of_trace (by decide)) hh (by decide)

end Zeroship.Tx
