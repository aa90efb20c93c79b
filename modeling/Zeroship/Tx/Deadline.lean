import Mathlib.Logic.Basic

/-! The transaction's single deadline slot.

One slot holds the deadline a transaction is under. It is replaced as the
transaction moves, never merely cancelled, and a fire is claimed by the exact
`(kind, generation)` pair. Instants and durations are counts of nanoseconds. -/
namespace Zeroship.Tx

abbrev Instant := Nat
abbrev Duration := Nat

inductive DeadlineKind
  | execution | cancellationSql | terminalSql
deriving DecidableEq

/-- A generation, minted fresh at every arming. -/
structure DeadlineGeneration where
  get : Nat
deriving DecidableEq

structure DeadlineGenerations where
  next : Nat := 0

def DeadlineGenerations.mint (g : DeadlineGenerations) : DeadlineGenerations × DeadlineGeneration :=
  (⟨g.next + 1⟩, ⟨g.next + 1⟩)

inductive DeadlineState
  | disarmed
  | armed (kind : DeadlineKind) (generation : DeadlineGeneration) («at» : Instant)
  | fired (kind : DeadlineKind) (generation : DeadlineGeneration)
deriving DecidableEq

inductive DeadlineError
  | stale

structure ScheduleTimer where
  kind : DeadlineKind
  generation : DeadlineGeneration
  «at» : Instant
deriving DecidableEq

structure DeadlineSlot where
  state : DeadlineState := .disarmed

namespace DeadlineSlot

variable (s : DeadlineSlot) (kind : DeadlineKind) (generation : DeadlineGeneration)

/-- Mutator 1, legal from `disarmed` only. -/
def armInitial (deadline : Instant) : Except DeadlineError (DeadlineSlot × ScheduleTimer) :=
  if s.state ≠ .disarmed then .error .stale
  else .ok (⟨.armed kind generation deadline⟩, ⟨kind, generation, deadline⟩)

/-- Mutator 2, legal from `armed` on that exact pair. -/
def claimFire :
    Except DeadlineError DeadlineSlot :=
  match s.state with
  | .armed armedKind armedGeneration _ =>
    if armedKind = kind ∧ armedGeneration = generation then .ok ⟨.fired kind generation⟩
    else .error .stale
  | _ => .error .stale

/-- Mutator 3, legal from `armed` or `fired` of the expected kind. -/
def replaceCurrent (expectedKind nextKind : DeadlineKind)
    (nextGeneration : DeadlineGeneration) (nextAt : Instant) :
    Except DeadlineError (DeadlineSlot × ScheduleTimer) :=
  let replace (currentKind : DeadlineKind) :=
    if currentKind ≠ expectedKind then .error .stale
    else .ok (⟨.armed nextKind nextGeneration nextAt⟩, ⟨nextKind, nextGeneration, nextAt⟩)
  match s.state with
  | .armed kind _ _ => replace kind
  | .fired kind _ => replace kind
  | .disarmed => .error .stale

/-- Mutator 4, legal from any state. -/
def disarm (_ : DeadlineSlot) : DeadlineSlot := ⟨.disarmed⟩

variable {s : DeadlineSlot} {kind : DeadlineKind} {generation : DeadlineGeneration}

theorem claimFire_ok {s' : DeadlineSlot} (h : s.claimFire kind generation = .ok s') :
    (∃ deadline, s.state = .armed kind generation deadline) ∧ s' = ⟨.fired kind generation⟩ := by
  unfold claimFire at h
  split at h
  · rename_i deadline hs
    split at h
    · rename_i hp
      obtain ⟨rfl, rfl⟩ := hp
      exact ⟨⟨deadline, hs⟩, by simpa using h.symm⟩
    · simp at h
  · simp at h

theorem claimFire_armed {deadline : Instant} (h : s.state = .armed kind generation deadline) :
    s.claimFire kind generation = .ok ⟨.fired kind generation⟩ := by simp [claimFire, h]

/-- The deadline of a slot that is armed or has fired. -/
def kind? (s : DeadlineSlot) : Option DeadlineKind :=
  match s.state with
  | .armed kind _ _ => some kind
  | .fired kind _ => some kind
  | .disarmed => none

theorem replaceCurrent_expected {expected : DeadlineKind} (h : s.kind? = some expected)
    (kind : DeadlineKind) (generation : DeadlineGeneration) (deadline : Instant) :
    s.replaceCurrent expected kind generation deadline =
      .ok (⟨.armed kind generation deadline⟩, ⟨kind, generation, deadline⟩) := by
  unfold kind? at h
  unfold replaceCurrent
  split at h <;> simp_all

end DeadlineSlot

end Zeroship.Tx
