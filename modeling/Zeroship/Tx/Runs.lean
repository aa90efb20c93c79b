import Zeroship.Tx.Dispatch

/-! Runs of the reducer.

The reducer is a machine over events and queued effects; a run starts from an
admitted transaction. `anything` offers every input. `kindMatched` offers a completion
only with the kind of the action that minted its token; a token that is stale, repeated
or never minted is still allowed. In `frameMatched` a frame completion also names the
frame whose savepoint its action named. -/
namespace Zeroship.Tx

open Base (Machine Environment)
open Base.Machine (Run)

def machine : Machine TxReducer TxInput Action := ⟨TxReducer.step⟩

abbrev History := Base.History TxReducer TxInput Action

/-- A run from the admission of a transaction. -/
abbrev RunFrom (env : Environment TxReducer TxInput Action) (expected : ExpectedAuthority)
    (budgets : TxBudgets) (start : Instant) (maxDepth : Nat) (h : History) (r : TxReducer) : Prop :=
  Run machine env (TxReducer.admitTransaction expected budgets start maxDepth).1 h r

/-- The token of a command an action sends to the backend. -/
def Action.command : Action → Option CommandToken
  | .issueBegin token => some token
  | .issueDataSql token => some token
  | .issueSavepoint token _ => some token
  | .issueRollbackTo token _ => some token
  | .issueRelease token _ => some token
  | .issueTerminal token _ => some token
  | .issueCancellation token _ => some token
  | _ => none

/-- The token of a completion. -/
def TxEvent.completes : TxEvent → Option CommandToken
  | .beginCompleted token _ => some token
  | .operationCompleted token _ => some token
  | .openFrameCompleted token _ _ => some token
  | .closeFrameCompleted token _ _ _ => some token
  | .terminalCompleted token _ => some token
  | .cancellationAcknowledged token _ => some token
  | _ => none

/-- Is the event a completion of the kind of command the action sends? -/
def Action.kindOf : Action → TxEvent → Bool
  | .issueBegin _, .beginCompleted _ _ => true
  | .issueDataSql _, .operationCompleted _ _ => true
  | .issueSavepoint _ _, .openFrameCompleted _ _ _ => true
  | .issueRollbackTo _ _, .closeFrameCompleted _ _ .rolledBackTo _ => true
  | .issueRelease _ _, .closeFrameCompleted _ _ .released _ => true
  | .issueTerminal _ _, .terminalCompleted _ _ => true
  | .issueCancellation _ _, .cancellationAcknowledged _ _ => true
  | _, _ => false

/-- Does a frame completion name the frame of the action's savepoint? -/
def Action.frameOf : Action → TxEvent → Bool
  | .issueSavepoint _ name, .openFrameCompleted _ frame _ => name = savepointName frame
  | .issueRollbackTo _ name, .closeFrameCompleted _ frame _ _ => name = savepointName frame
  | .issueRelease _ name, .closeFrameCompleted _ frame _ _ => name = savepointName frame
  | _, _ => true

/-- The event answers this action: it carries the token the action minted. -/
def Action.answered (a : Action) (e : TxEvent) : Bool := a.command.isSome ∧ a.command = e.completes

/-- Completions have the kind of the action that minted their token. -/
def kindMatched : Environment TxReducer TxInput Action := fun h _ i =>
  match i with
  | .event e _ => ∀ a ∈ h.outputs, a.answered e → a.kindOf e
  | .queue _ => True

/-- Completions have the kind and the frame of the action that minted their token. -/
def frameMatched : Environment TxReducer TxInput Action := fun h _ i =>
  match i with
  | .event e _ => ∀ a ∈ h.outputs, a.answered e → a.kindOf e ∧ a.frameOf e
  | .queue _ => True

instance (h : History) (r : TxReducer) (i : TxInput) : Decidable (kindMatched h r i) := by
  cases i <;> unfold kindMatched <;> infer_instance

instance (h : History) (r : TxReducer) (i : TxInput) : Decidable (frameMatched h r i) := by
  cases i <;> unfold frameMatched <;> infer_instance

variable {h : History} {r : TxReducer} {i : TxInput}

theorem kind_of_frame (hf : frameMatched h r i) : kindMatched h r i := by
  cases i with
  | event e now => exact fun a ha han => (hf a ha han).1
  | queue effect => trivial

theorem step_move {r' : TxReducer} {acts : List Action}
    (h : machine.step r i = some (r', acts)) : Move r i r' acts := move_of_step h

theorem move_at {env : Environment TxReducer TxInput Action} {r₀ : TxReducer} {h₁ h₂ : History}
    {t : Base.Step TxReducer TxInput Action} (run : Run machine env r₀ h r) (hh : h = h₁ ++ t :: h₂) :
    Move t.before t.input t.after t.outputs :=
  step_move (run.at_step hh).2.2

def sampleAuthority : ExpectedAuthority := ⟨⟨"app", 1⟩, ⟨7, 1⟩, ⟨3⟩⟩

/-- A transaction admitted at instant 0 with the default budgets and eight savepoints. -/
def sample : TxReducer := (TxReducer.admitTransaction sampleAuthority {} 0 8).1

/-- The authority read `preparing` waits on, answered as current. -/
def sampleCurrent : TxInput :=
  .event (.authorityObserved ⟨⟨"app", 1⟩, ⟨7, 1⟩⟩ ⟨⟨"app", 1⟩, ⟨7, 1⟩, ⟨3⟩, .stable, ⟨∅⟩⟩) 1

/-- The two inputs that open the transaction. -/
def sampleOpened : List TxInput := [sampleCurrent, .event (.beginCompleted ⟨1⟩ (.opened ⟨1⟩)) 2]

end Zeroship.Tx
