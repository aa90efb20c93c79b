import Mathlib

/-! Migrations, and the journal of what was done with them.

The journal is append-only. A version is net-applied when its latest event is one that
applied it, and the kind of that event says what it was applied as. Beside the events stand
the markers of migrations that were begun outside a transaction, and the edges from a squash to
the versions it stands for, which count as long as the squash is net-applied as one. -/
namespace Zeroship.Migrate

inductive OnlinePhase where
  | expand | contract
deriving DecidableEq

structure MigrationFlags where
  transactional : Bool := true
  phase : Option OnlinePhase := none
  repeatable : Bool := false
deriving DecidableEq

structure Migration (V : Type) where
  version : V
  name : String := ""
  up : String := ""
  /-- The reverse, or nothing for a migration that is explicitly irreversible. -/
  down : Option String := none
  checksum : String := ""
  flags : MigrationFlags := {}
  dependsOn : List V := []
  /-- The versions that a squash stands for; empty for any other migration. -/
  supersedes : List V := []
deriving DecidableEq

inductive JournaledKind where
  | apply | baseline | squash | repeatable
deriving DecidableEq

inductive EventKind where
  | applied (kind : JournaledKind)
  | rolledBack
deriving DecidableEq

structure Event (V : Type) where
  version : V
  checksum : String
  event : EventKind
deriving DecidableEq

structure Journal (V : Type) where
  /-- The newest event first. -/
  events : List (Event V) := []
  /-- The checksums of what was begun outside a transaction. -/
  inflight : List (V × String) := []
  supersedes : List (V × V) := []
  /-- What an interrupted rollback left in an unknown shape. -/
  rollbackMarkers : List V := []
deriving DecidableEq

/-- A net-applied version, as its latest event has it. -/
structure AppliedEntry (V : Type) where
  version : V
  checksum : String
  kind : JournaledKind
  eventSeq : Nat

variable {V : Type} [LinearOrder V]

scoped instance decidableMem (v : V) (l : List V) : Decidable (v ∈ l) :=
  decidable_of_iff (l.any (· = v)) (by simp)

/-- The latest event of a version and its place in the order of events. -/
def latest (v : V) : List (Event V) → Option (Event V × Nat)
  | [] => none
  | e :: older => if e.version = v then some (e, older.length + 1) else latest v older

namespace Journal
variable (j : Journal V) (m : Migration V) (v : V)

def netApplied : Option (AppliedEntry V) :=
  match latest v j.events with
  | none => none
  | some (e, seq) => match e.event with
    | .applied kind => some ⟨v, e.checksum, kind, seq⟩
    | .rolledBack => none

def isApplied : Bool := (j.netApplied v).isSome

/-- The net-applied versions, in their order. -/
def applied : List (AppliedEntry V) :=
  ((j.events.map (·.version)).dedup.insertionSort (· ≤ ·)).filterMap j.netApplied

/-- The marker of a version that was begun and is not net-applied. -/
def started : Option String :=
  if j.isApplied v then none else (j.inflight.find? (·.1 = v)).map (·.2)

def isSquash : Bool := (j.netApplied v).any (·.kind = .squash)

/-- What the net-applied squashes stand for. -/
def supersededVersions : List V := (j.supersedes.filter (fun e => j.isSquash e.1)).map (·.2)

/-- The checksum with which a repeatable last ran. -/
def latestCompletedChecksum : Option String :=
  (j.events.find? (fun e => e.version = v ∧ e.event = .applied .repeatable)).map (·.checksum)

variable (kind : JournaledKind) (supersedes : List V)

/-- The event and the edges of an applied migration, in one transaction. A marker has then served. -/
def record : Journal V :=
  { j with
    events := ⟨m.version, m.checksum, .applied kind⟩ :: j.events
    inflight := j.inflight.filter (·.1 ≠ m.version)
    supersedes := supersedes.map (m.version, ·) ++ j.supersedes }

/-- The marker of a migration that is begun outside a transaction. -/
def mark : Journal V :=
  { j with inflight := (m.version, m.checksum) :: j.inflight.filter (·.1 ≠ m.version) }

def rollBack : Journal V :=
  { j with events := ⟨m.version, m.checksum, .rolledBack⟩ :: j.events }

theorem netApplied_record (v : V) :
    (j.record m kind supersedes).netApplied v =
      if m.version = v then some ⟨v, m.checksum, kind, j.events.length + 1⟩ else j.netApplied v := by
  by_cases hv : m.version = v <;> simp [netApplied, record, latest, hv]

theorem netApplied_rollBack :
    (j.rollBack m).netApplied v = if m.version = v then none else j.netApplied v := by
  by_cases hv : m.version = v <;> simp [netApplied, rollBack, latest, hv]

@[simp] theorem isApplied_mark : (j.mark m).isApplied v = j.isApplied v := rfl

variable {j} {v : V} {m : Migration V} {kind : JournaledKind} {supersedes : List V} {e : AppliedEntry V}

theorem isApplied_record : (j.record m kind supersedes).isApplied v ↔ m.version = v ∨ j.isApplied v := by
  rw [isApplied, isApplied, netApplied_record]
  split <;> simp_all

theorem isSquash_record :
    (j.record m kind supersedes).isSquash v ↔ m.version = v ∧ kind = .squash ∨ m.version ≠ v ∧ j.isSquash v := by
  rw [isSquash, isSquash, netApplied_record]
  split <;> simp_all

theorem applied_of_squash (h : j.isSquash v) : j.isApplied v := by
  unfold isSquash at h
  unfold isApplied
  cases hv : j.netApplied v <;> simp_all

theorem mem_superseded : v ∈ j.supersededVersions ↔ ∃ s, (s, v) ∈ j.supersedes ∧ j.isSquash s := by
  simp [supersededVersions]

theorem version_of_netApplied (h : j.netApplied v = some e) : e.version = v := by
  unfold netApplied at h
  split at h
  · cases h
  · split at h <;> cases h
    rfl

theorem latest_mem {events : List (Event V)} {e : Event V} {seq : Nat} (h : latest v events = some (e, seq)) :
    e ∈ events ∧ e.version = v := by
  induction events with
  | nil => cases h
  | cons first older ih =>
    rw [latest] at h
    split at h
    · next hv =>
      cases h
      exact ⟨List.mem_cons_self, hv⟩
    · exact ⟨List.mem_cons_of_mem _ (ih h).1, (ih h).2⟩

theorem mem_applied : e ∈ j.applied ↔ j.netApplied e.version = some e := by
  rw [applied, List.mem_filterMap]
  constructor
  · rintro ⟨v, _, hv⟩
    rwa [version_of_netApplied hv]
  intro he
  refine ⟨e.version, ?_, he⟩
  rw [List.mem_insertionSort, List.mem_dedup, List.mem_map]
  unfold netApplied at he
  split at he
  · cases he
  · next event seq hl => exact ⟨event, latest_mem hl⟩

end Journal
end Zeroship.Migrate
