import Zeroship.Tx.Commands

/-! The server's savepoints, and the names they are sent with.

The database is a stack of savepoint names, innermost first. A command changes it
when its completion reports success, once; a failed one changes nothing. Names come
from the frame sequence, which never falls, so none is ever sent twice. -/
namespace Zeroship.Tx
open Tx.Action FrameStack

open Base (Environment)
open TxReducer List

variable (name : String) (stack : List String)

/-- `ROLLBACK TO`: the most recent savepoint of that name becomes the innermost. -/
def rollbackTo : List String :=
  if name ∈ stack then stack.dropWhile fun n => n ≠ name else stack

/-- `RELEASE`: it goes, with everything above it. -/
def release : List String :=
  if name ∈ stack then (stack.dropWhile fun n => n ≠ name).tail else stack

/-- What a successful command does to the savepoints. -/
def Action.execute : Action → List String → List String
  | .issueSavepoint _ name, stack => name :: stack
  | .issueRollbackTo _ name, stack => rollbackTo name stack
  | .issueRelease _ name, stack => release name stack
  | _, stack => stack

def Action.isSavepoint : Action → Bool
  | .issueSavepoint _ _ => true
  | _ => false

def Action.isFrameCommand : Action → Bool
  | .issueSavepoint _ _ | .issueRollbackTo _ _ | .issueRelease _ _ => true
  | _ => false

/-- The savepoints of the server, and the frame commands it has not answered. -/
structure Database where
  stack : List String := []
  pending : List Action := []

def TxInput.answers : TxInput → Action → Bool
  | .event e _, a => a.answered e
  | .queue _, _ => false

def TxInput.succeeded : TxInput → Bool
  | .event (.openFrameCompleted _ _ ok) _ => ok
  | .event (.closeFrameCompleted _ _ _ ok) _ => ok
  | _ => false

variable (acts : List Action) (d : Database) (s : FrameStack) (t : Base.Step TxReducer TxInput Action)

/-- The input answers the commands it completes; the actions send new ones. -/
def Database.after : Database where
  stack := (d.pending.filter t.input.answers).foldl
    (fun stack a => if t.input.succeeded then a.execute stack else stack) d.stack
  pending := (d.pending.filter fun a => !t.input.answers a) ++ t.outputs.filter Action.isFrameCommand

def database (h : History) : Database := h.foldl Database.after {}

theorem database_snoc (h : History) (t : Base.Step TxReducer TxInput Action) :
    database (h ++ [t]) = (database h).after t := by simp [database, foldl_append]

theorem length_dropWhile_le (name : String) (stack : List String) :
    (stack.dropWhile fun n => n ≠ name).length ≤ stack.length :=
  (dropWhile_suffix _).length_le

theorem length_execute_le (a : Action) (stack : List String) :
    (a.execute stack).length ≤ stack.length + if a.isSavepoint then 1 else 0 := by
  have hd := length_dropWhile_le
  cases a with
  | issueRollbackTo _ name =>
    simp only [execute, rollbackTo, isSavepoint]
    split
    · exact hd name stack
    · exact le_rfl
  | issueRelease _ name =>
    simp only [execute, release, isSavepoint]
    split
    · have := hd name stack
      simp only [length_tail]
      omega
    · exact le_rfl
  | _ => simp [execute, isSavepoint]

/-- So however many commands one input answers, the stack grows by the `SAVEPOINT`s
among them at most. -/
theorem length_execute_all_le (ok : Bool) (acts : List Action) (stack : List String) :
    (acts.foldl (fun stack a => if ok then a.execute stack else stack) stack).length ≤
      stack.length + acts.countP isSavepoint := by
  induction acts generalizing stack with
  | nil => simp
  | cons a rest ih =>
    have hs := length_execute_le a stack
    rw [foldl_cons, countP_cons]
    refine (ih _).trans ?_
    cases ok
    · simp only [Bool.false_eq_true, if_false]
      omega
    · simp only [if_true]
      omega

/-- Savepoints that are there or may still appear. -/
def Database.potential : Nat := d.stack.length + d.pending.countP Action.isSavepoint

theorem Database.potential_after_le :
    (d.after t).potential ≤ d.potential + t.outputs.countP isSavepoint := by
  have hl := length_execute_all_le t.input.succeeded (d.pending.filter t.input.answers) d.stack
  have hs : d.pending.countP isSavepoint =
      (d.pending.filter t.input.answers).countP isSavepoint +
        (d.pending.filter fun a => !t.input.answers a).countP isSavepoint := by
    rw [← countP_append]
    exact (filter_append_perm _ _).countP_eq _ |>.symm
  have hn : (t.outputs.filter isFrameCommand).countP isSavepoint =
      t.outputs.countP isSavepoint := by
    rw [countP_filter]
    refine countP_congr fun a _ => ?_
    cases a <;> simp [isSavepoint, isFrameCommand]
  simp only [potential, after, countP_append, hn]
  omega

/-! ### Names -/

/-- The savepoint names of the frames that have one, innermost first. -/
def names (frames : List Frame) : List String := frames.filterMap Frame.savepoint

variable {f : Frame} {name : String}

theorem names_cons (h : f.savepoint = some name) (frames : List Frame) :
    names (f :: frames) = name :: names frames := by simp [names, h]

theorem names_retop {g : Frame} (h : g.savepoint = f.savepoint) (frames : List Frame) :
    names (g :: frames) = names (f :: frames) := by simp [names, filterMap_cons, h]

variable {frames : List Frame}

theorem Rooted.length_names (h : Rooted frames) : (names frames).length + 1 = frames.length := by
  induction frames with
  | nil => exact h.elim
  | cons top rest ih =>
    cases rest with
    | nil =>
      have hr : top.savepoint = none := h
      simp [names, hr]
    | cons parent rest =>
      obtain ⟨name, hn⟩ := Option.ne_none_iff_exists'.mp h.1
      rw [names_cons hn, length_cons, ih h.2]
      rfl

/-- The savepoint names that `SAVEPOINT` was sent with. -/
def savepointNames : List String :=
  acts.filterMap fun
    | .issueSavepoint _ name => some name
    | _ => none

@[simp] theorem savepointNames_append (a b : List Action) :
    savepointNames (a ++ b) = savepointNames a ++ savepointNames b := List.filterMap_append

theorem savepointNames_loud : savepointNames (loud acts) = savepointNames acts := by
  induction acts with
  | nil => rfl
  | cons a rest ih => cases a <;> simp_all [savepointNames, isQuiet]

theorem length_savepointNames : (savepointNames acts).length = acts.countP isSavepoint := by
  induction acts with
  | nil => rfl
  | cons a rest ih => cases a <;> simp_all [savepointNames, isSavepoint, countP_cons]

variable {acts : List Action} {i : TxInput} {r r' : TxReducer}

/-- A move sends at most one `SAVEPOINT`, from an idle transaction with room for it, and
names it by a fresh id. -/
theorem Move.sent_savepoint (hm : Move r i r' acts) : savepointNames acts = [] ∨
      (savepointNames acts = [savepointName ⟨r.frames.nextSequence + 1⟩] ∧
        r'.frames.nextSequence = r.frames.nextSequence + 1 ∧ r.state = .idle ∧
        r.frames.frames.length ≤ r.frames.maxDepth) := by
  rw [← savepointNames_loud]
  cases hm with
  | refused hr | late hs hi hg hr => exact .inl (by rw [loud_replies hr]; rfl)
  | forced hs hi hg hr => exact .inl (by simp [loud_replies hr, savepointNames])
  | issuedSavepoint hs hc ho =>
    obtain ⟨-, hrm, rfl, rfl, -, hn, -⟩ := openChild_ok ho
    exact .inr ⟨rfl, hn, hs, hrm⟩
  | dataSettled | settling => exact .inl (by simp [savepointNames, isQuiet])
  | answered | expired | cancelled | unproved =>
    rw [loud_settleActions]
    split <;> split <;> exact .inl rfl
  | _ => exact .inl rfl

/-- The sequence of a stack never falls and its depth cap never changes. -/
def Continues (s' : FrameStack) : Prop := s.nextSequence ≤ s'.nextSequence ∧ s'.maxDepth = s.maxDepth

theorem Continues.refl : Continues s s := ⟨le_rfl, rfl⟩

theorem Continues.of_becomes {s s' : FrameStack} (h : s.Becomes s' frames) : Continues s s' :=
  ⟨h.nextSequence.ge, h.maxDepth⟩

theorem Move.continues (hm : Move r i r' acts) : Continues r.frames r'.frames := by
  cases hm with
  | forced hs hi | late hs hi =>
    obtain ⟨active, slot, -, rfl⟩ := hi.eq
    exact .refl _
  | opened => exact ⟨Nat.le_succ _, rfl⟩
  | issuedSavepoint hs hc ho =>
    obtain ⟨-, -, -, -, -, hn, hd⟩ := openChild_ok ho
    exact ⟨hn ▸ Nat.le_succ _, hd⟩
  | savepointReturned =>
    refine getD_cases (Continues r.frames) (.refl _) fun s' hs => ?_
    obtain ⟨_, _, _, _, hb⟩ := confirmChildOpen_ok.mp hs
    exact .of_becomes hb
  | savepointFailed =>
    refine getD_cases (Continues r.frames) (.refl _) fun s' hs => ?_
    obtain ⟨_, _, _, _, _, hb⟩ := abandonOpeningChild_ok.mp hs
    exact .of_becomes hb
  | rolledBack =>
    refine getD_cases (Continues r.frames) (.refl _) fun s' hs => ?_
    obtain ⟨_, _, _, _, _, hb⟩ := markRolledBack_ok.mp hs
    exact .of_becomes hb
  | released hs hcn ha hf =>
    obtain ⟨_, _, _, _, _, _, _, hb⟩ := closeTop_released.mp hf
    exact .of_becomes hb
  | releasedTop hs hcn ha hf ht hfr =>
    rcases hfr with rfl | ⟨id, hfr⟩
    · exact .refl _
    · obtain ⟨_, _, _, _, _, _, hb⟩ := closeTop_rolledBackTo.mp hfr
      exact .of_becomes hb
  | queued hf =>
    obtain ⟨_, _, _, _, hb⟩ := queueEffect_ok.mp hf
    exact .of_becomes hb
  | _ => exact .refl _

/-- No name is ever issued twice, in any run. -/
theorem savepointNames_of_run {env : Environment TxReducer TxInput Action} {expected : ExpectedAuthority}
    {budgets : TxBudgets} {start : Instant} {maxDepth : Nat} {h : History}
    (run : RunFrom env expected budgets start maxDepth h r) :
    (∀ n ∈ savepointNames h.outputs, ∃ id, n = savepointName ⟨id⟩ ∧ id ≤ r.frames.nextSequence) ∧
      (savepointNames h.outputs).Nodup := by
  refine run.invariant (fun h r =>
    (∀ n ∈ savepointNames h.outputs, ∃ id, n = savepointName ⟨id⟩ ∧ id ≤ r.frames.nextSequence) ∧
      (savepointNames h.outputs).Nodup) ⟨by simp [savepointNames], by simp [savepointNames]⟩
    fun {h r r' i acts} _ hi _ ht => ?_
  obtain ⟨ho, hnd⟩ := hi
  rw [Base.History.outputs_snoc, savepointNames_append]
  rcases (step_move ht).sent_savepoint with hn | ⟨hn, hle, -, -⟩
  · rw [hn, append_nil]
    refine ⟨fun n hmm => ?_, hnd⟩
    obtain ⟨id, rfl, hid⟩ := ho n hmm
    exact ⟨id, rfl, hid.trans (step_move ht).continues.1⟩
  · rw [hn]
    refine ⟨fun n hmm => ?_, ?_⟩
    · rcases mem_append.mp hmm with hmm | hmm
      · obtain ⟨id, rfl, hid⟩ := ho n hmm
        exact ⟨id, rfl, by omega⟩
      · exact ⟨_, mem_singleton.mp hmm, hle.ge⟩
    · refine nodup_append.mpr ⟨hnd, nodup_singleton _, fun n hmm m hm => ?_⟩
      rw [mem_singleton.mp hm]
      rintro rfl
      obtain ⟨id, heq, hid⟩ := ho _ hmm
      have := congrArg FrameId.get (savepoint_injective heq)
      simp only at this
      omega

theorem Move.names_top {token : CommandToken} (hm : Move r i r' acts)
    (ha : .issueRollbackTo token name ∈ acts ∨ .issueRelease token name ∈ acts) :
    ∃ top, r'.frames.top = some top ∧ top.savepoint = some name := by
  have ha : .issueRollbackTo token name ∈ loud acts ∨ .issueRelease token name ∈ loud acts :=
    ha.imp (mem_loud rfl).mpr (mem_loud rfl).mpr
  cases hm with
  | refused hr | forced hs hi hg hr | late hs hi hg hr => simp [loud_replies hr] at ha
  | @issuedRelease _ _ top _ _ _ ht _ hn | @issuedRollbackTo _ _ top _ _ _ ht _ hn | @rolledBack _ _ _ top _ _ _ _ ht hn =>
    refine ⟨top, ht, ?_⟩
    simp_all [isQuiet]
  | answered | expired | cancelled | unproved =>
    rw [loud_settleActions] at ha
    split at ha <;> split at ha <;> simp at ha
  | _ => simp [isQuiet] at ha

end Zeroship.Tx
