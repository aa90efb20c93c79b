import Zeroship.Migrate.Ordering

/-! Applying a set of migrations under the project's lock.

The set is checked as a whole before anything runs: against rollback markers, for malformed
repeatables, for drift from the journal, for a contract before its expand, for squashes that
overlap or stand for what was applied, and for an order. Then the pending versioned migrations
run one by one, and after them the repeatables whose checksum changed. What the database
answers is the backend's. A call that fails keeps what ran before. -/
namespace Zeroship.Migrate
open Base

variable {V : Type} [LinearOrder V]

inductive PreconditionVerdict where
  | met | skip
  /-- An unmet halt check, or one that could not be evaluated. -/
  | failed
deriving DecidableEq

/-- What applying one migration came to. -/
inductive Applied where
  | completed (recovered : Bool)
  /-- Nothing is journaled, but a marker may stay. -/
  | failed (marked : Bool)

/-- The answers of a database to one call. It asks about each migration at most once. -/
structure Backend (V : Type) where
  guard : String → Bool
  (usesTwoPhasePath validateNonTxn : Migration V → Bool)
  evaluatePreconditions : Migration V → PreconditionVerdict
  applyOne : Migration V → Applied

structure ApplyOutcome (V : Type) where
  applied : List V := []
  skipped : List V := []
  recovered : List V := []

/-- An `up` that ran, with the journal at that moment. -/
structure Execution (V : Type) where
  migration : Migration V
  journal : Journal V
  completed : Bool

structure Progress (V : Type) where
  journal : Journal V
  skippedThisRun : List V := []
  outcome : ApplyOutcome V := {}
  executed : List (Execution V) := []

variable (b : Backend V) (j : Journal V) (migrations : List (Migration V))

/-! ### The checks -/

def checkRollbackMarkers : Except (ApplyError V) Unit :=
  match j.rollbackMarkers.find? (· ∈ versions migrations) with
  | some v => throw (.unresolvedRollbackMarker v)
  | none => pure ()

/-- In the order of the versions, so that the first refusal is always the same. -/
def checkRepeatableWellformed : Except (ApplyError V) Unit :=
  forM (migrations.insertionSort (·.version ≤ ·.version)) fun m =>
    if m.flags.repeatable then do
      if m.supersedes ≠ [] then throw (.repeatableCannotSquash m.version)
      if m.down.isSome then throw (.repeatableHasDown m.version)
    else forM m.dependsOn fun dep =>
      if ∃ r ∈ migrations, r.flags.repeatable ∧ r.version = dep then
        throw (.onceOnlyDependsOnRepeatable m.version dep)
      else pure ()

/-- A net-applied version against the set: the kind it was journaled as has to agree with the
supplied flag, and only a repeatable may have changed. -/
def checkDrift (entry : AppliedEntry V) : Except (ApplyError V) Unit :=
  match byVersion migrations entry.version with
  | none => pure ()
  | some m =>
    if entry.kind = .repeatable ∧ m.flags.repeatable then pure ()
    else if decide (entry.kind = .repeatable) ≠ m.flags.repeatable ∨ entry.checksum ≠ m.checksum then
      throw (.checksumDrift entry.version entry.checksum m.checksum)
    else pure ()

def checkChecksumDrift : Except (ApplyError V) Unit :=
  forM j.applied (checkDrift migrations)

variable (p : Progress V) (completed : V → Bool)

def checkExpandContractGate : Except (ApplyError V) Unit :=
  forM migrations fun m =>
    if m.flags.phase ≠ some .contract ∨ completed m.version then pure ()
    else do
      if m.dependsOn = [] then throw (.expandNotApplied m.version none)
      forM m.dependsOn fun dep =>
        if completed dep then pure ()
        else match byVersion migrations dep with
          | some d => if d.flags.phase = some .expand then throw (.expandNotApplied m.version (some dep)) else pure ()
          | none => throw (.expandNotApplied m.version (some dep))

/-- A version that a pending squash stands for belongs to the first that names it. -/
def claimOwner (squash : V) (owner : List (V × V)) (dep : V) : Except (ApplyError V) (List (V × V)) :=
  match owner.find? (·.1 = dep) with
  | some (_, first) => if first = squash then pure owner else throw (.overlappingSquashes first squash dep)
  | none => pure ((dep, squash) :: owner)

def checkNoOverlappingSquashes :
    Except (ApplyError V) Unit := do
  let _ ← (migrations.filter fun m => m.supersedes ≠ [] ∧ ¬ completed m.version).foldlM
    (fun owner m => m.supersedes.foldlM (claimOwner m.version) owner) []
  pure ()

/-- A pending squash runs only if nothing it stands for is satisfied. -/
def checkSquashAllOrNone (satisfied : V → Bool) :
    Except (ApplyError V) Unit :=
  forM migrations fun m =>
    if m.supersedes = [] ∨ completed m.version ∨ m.supersedes.countP satisfied = 0 then pure ()
    else if m.supersedes.countP satisfied = m.supersedes.length then throw (.squashAlreadyApplied m.version)
    else throw (.squashPartialOverlap m.version (m.supersedes.countP satisfied) m.supersedes.length)

/-- The checks of the texts of all pending migrations, before any runs. -/
def checkStatic (pending : List (Migration V)) : Except (ApplyError V) Unit :=
  forM pending fun m => do
    if ¬ b.guard m.up then throw (.guard m.version)
    if b.usesTwoPhasePath m ∧ ¬ b.validateNonTxn m then throw (.nonIdempotentNonTxn m.version)

def guardRepeatableBatch (repeatables : List (Migration V)) : Except (ApplyError V) Unit :=
  forM repeatables fun m => if b.guard m.up then pure () else throw (.guard m.version)

def versioned : List (Migration V) := migrations.filter (!·.flags.repeatable)

def repeatables : List (Migration V) := migrations.filter (·.flags.repeatable)

namespace Journal

/-- Net-applied, or covered by a net-applied squash. -/
def satisfies (j : Journal V) (v : V) : Bool := j.isApplied v || v ∈ j.supersededVersions

/-- What the journal or a squash of the set makes redundant. -/
def supersedes? (j : Journal V) (migrations : List (Migration V)) (v : V) : Bool :=
  computeSuperseded (versioned migrations) j.supersededVersions v

end Journal

/-- The checks of a set, and the pending migrations in their order. -/
def checkedPending :
    Except (ApplyError V) (List (Migration V)) := do
  checkRollbackMarkers j migrations
  checkRepeatableWellformed migrations
  checkChecksumDrift j migrations
  checkExpandContractGate (versioned migrations) j.isApplied
  checkNoOverlappingSquashes (versioned migrations) j.isApplied
  checkSquashAllOrNone (versioned migrations) j.isApplied j.satisfies
  let pending ← orderPending (versioned migrations) j.isApplied (j.supersedes? migrations)
  checkStatic b pending
  pure pending

/-- Runs the `up` of a migration and journals it. -/
def Progress.run (m : Migration V) (kind : JournaledKind) (supersedes : List V) :
    Progress V × Option (ApplyError V) :=
  match b.applyOne m with
  | .completed recovered =>
    ({ p with
        journal := p.journal.record m kind supersedes
        outcome := { p.outcome with
          applied := p.outcome.applied ++ [m.version]
          recovered := p.outcome.recovered ++ if recovered then [m.version] else [] }
        executed := p.executed ++ [⟨m, p.journal, true⟩] }, none)
  | .failed marked =>
    ({ p with
        journal := if marked then p.journal.mark m else p.journal
        executed := p.executed ++ [⟨m, p.journal, false⟩] }, some (.migrationFailed m.version))

def Progress.skip (m : Migration V) : Progress V :=
  { p with outcome := { p.outcome with skipped := p.outcome.skipped ++ [m.version] } }

/-- Whether a pending migration is skipped. A marker outranks every route to a skip. -/
def skips (inflight : Option String) (skippedThisRun : List V) (m : Migration V) :
    Except (ApplyError V) Bool :=
  if inflight.isSome then
    if b.evaluatePreconditions m = .failed then throw (.preconditionFailed m.version) else pure false
  else if ∃ d ∈ m.dependsOn, d ∈ skippedThisRun then pure true
  else match b.evaluatePreconditions m with
    | .failed => throw (.preconditionFailed m.version)
    | .skip => pure true
    | .met => pure false

/-- One pending migration. `started` are the markers as the call found them. -/
def executeOne (started : V → Option String) (p : Progress V) (m : Migration V) :
    Progress V × Option (ApplyError V) :=
  match (started m.version).filter (fun recorded => recorded ≠ "" ∧ recorded ≠ m.checksum) with
  | some recorded => (p, some (.checksumDrift m.version recorded m.checksum))
  | none => match skips b (started m.version) p.skippedThisRun m with
    | .error e => (p, some e)
    | .ok true => ({ p.skip m with skippedThisRun := m.version :: p.skippedThisRun }, none)
    | .ok false => p.run b m (if m.supersedes = [] then .apply else .squash) m.supersedes

def executePending (started : V → Option String) (p : Progress V) (pending : List (Migration V)) :
    Progress V × Option (ApplyError V) :=
  untilError (executeOne b started) p pending

/-- One repeatable: it runs if its checksum is not the one it last ran with. -/
def applyRepeatable (latest : V → Option String) (p : Progress V) (m : Migration V) :
    Progress V × Option (ApplyError V) :=
  if latest m.version = some m.checksum then (p.skip m, none)
  else match b.evaluatePreconditions m with
    | .failed => (p, some (.preconditionFailed m.version))
    | .skip => (p.skip m, none)
    | .met => p.run b m .repeatable []

/-- The repeatables, over what the versioned migrations left satisfied. -/
def applyRepeatables (repeatables : List (Migration V)) :
    Progress V × Option (ApplyError V) :=
  if repeatables = [] then (p, none)
  else match (do
      let ordered ← orderRepeatables repeatables p.journal.satisfies
      guardRepeatableBatch b ordered
      pure ordered) with
    | .error e => (p, some e)
    | .ok ordered => untilError (applyRepeatable b p.journal.latestCompletedChecksum) p ordered

/-- Before anything runs; what is redundant counts as skipped. -/
def Progress.start : Progress V :=
  { journal := j
    outcome.skipped := ((versioned migrations).filter fun m =>
      j.isApplied m.version || j.supersedes? migrations m.version).map (·.version) }

def applyLocked :
    Progress V × Option (ApplyError V) :=
  match checkedPending b j migrations with
  | .error e => ({ journal := j }, some e)
  | .ok pending => match executePending b j.started (.start j migrations) pending with
    | (p, some e) => (p, some e)
    | (p, none) => applyRepeatables b p (repeatables migrations)

end Zeroship.Migrate
