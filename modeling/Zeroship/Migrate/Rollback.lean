import Zeroship.Migrate.Dependencies

/-! Planning a rollback, and what its steps leave behind.

A target selects net-applied versions by the order in which they were applied. Each needs a
way back, or is skipped by force; what stays must not depend on what goes; and what goes is
undone in the reverse of the order in which it could be applied. A dependency of what stays that
only a squash stands for is not looked at, so the squash may go. -/
namespace Zeroship.Migrate
open Base List Journal

variable {V : Type} [LinearOrder V]

inductive RollbackTarget (V : Type) where
  /-- What was applied after this version, which stays. -/
  | toVersion (version : V)
  | steps (count : Nat)
  | all

structure RollbackOptions where
  force : Bool := false
  backupAcknowledged : Bool := false

structure RollbackRequest (V : Type) where
  target : RollbackTarget V
  options : RollbackOptions := {}

inductive Approval where
  | none | approved
deriving DecidableEq

structure AppliedRecord (V : Type) where
  version : V
  checksum : String
  eventSeq : Nat

/-- A step of a recorded inverse. -/
inductive PlanStep where
  | dml (transactional : Bool)
  | other (kind : String)

/-- An online rename that waits for its second half. -/
structure PendingContract (V : Type) where
  planVersion : V
  contractVersions : List V
  table : String

inductive RollbackError (V : Type) where
  | approvalRequired
  | unknownTarget (version : V)
  | missingFromSet (version : V)
  | checksumDrift (version : V) (recorded expected : String)
  | irreversibleSquash (version : V) (name : String) (superseded : Nat)
  | irreversible (version : V) (name : String)
  | recordedInverseUnsupported (version : V) (reason : String)
  | nonTransactionalDown (version : V) (reason : String)
  | guard (version : V)
  | forceSkipDependencyConflict (kept dependency : V)
  | keptDependsOnRolledBack (kept dependency : V)
  | pendingContractOutstanding (version : V) (table : String) (planVersion : V)
  | dependencyCycle (versions : List V)
  | backend
deriving DecidableEq

structure RollbackPlan (V : Type) where
  steps : List (Migration V)
  skippedIrreversible : List V
deriving DecidableEq

/-- What a rollback is planned with, besides the request and the supplied migrations. -/
structure Unwinding (V : Type) where
  inversePlans : V → Option (List PlanStep)
  outstanding : List (PendingContract V)
  nonTxnDowns : V → Option String
  approval : Approval
  guard : String → Bool

/-- Applied later; of what was applied at one place, the higher version. -/
def Newer (a b : AppliedRecord V) : Prop :=
  b.eventSeq < a.eventSeq ∨ b.eventSeq = a.eventSeq ∧ b.version ≤ a.version

instance (a b : AppliedRecord V) : Decidable (Newer a b) := inferInstanceAs (Decidable (_ ∨ _))

def selectRollbackVersions (target : RollbackTarget V) (applied : List (AppliedRecord V)) :
    Except (RollbackError V) (List (AppliedRecord V)) :=
  let newestFirst := applied.insertionSort Newer
  match target with
  | .all => pure newestFirst
  | .steps n => pure (newestFirst.take n)
  | .toVersion v => match applied.find? (·.version = v) with
    | none => throw (.unknownTarget v)
    | some anchor => pure (newestFirst.filter (anchor.eventSeq < ·.eventSeq))

variable (request : RollbackRequest V) (u : Unwinding V) (m : Migration V) (migrations : List (Migration V))

/-- The supplied migration of a selected record, if it is the one that was applied. -/
def chooseMigration (record : AppliedRecord V) :
    Except (RollbackError V) (Migration V) :=
  match byVersion migrations record.version with
  | none => throw (.missingFromSet record.version)
  | some m =>
    if record.checksum ≠ "" ∧ record.checksum ≠ m.checksum then
      throw (.checksumDrift record.version record.checksum m.checksum)
    else pure m

def checkInverseStep (version : V) (step : PlanStep × Nat) : Except (RollbackError V) Unit :=
  match step with
  | (.dml true, _) => pure ()
  | (.dml false, index) => throw (.recordedInverseUnsupported version
      ("inverse step " ++ toString (index + 1) ++ " declares transaction:false; rollback must commit the complete " ++
        "inverse and rolled_back journal event atomically"))
  | (.other kind, index) => throw (.recordedInverseUnsupported version
      ("inverse step " ++ toString (index + 1) ++ " lowers to " ++ kind ++
        "; recorded inverse rollback currently supports transactional DML only"))

/-- The text of a down. A recorded inverse was checked when it was recorded. -/
def checkDown : Except (RollbackError V) Unit :=
  if (u.inversePlans m.version).isSome then pure ()
  else match u.nonTxnDowns m.version, m.down with
    | some reason, _ => throw (.nonTransactionalDown m.version reason)
    | none, some down => if u.guard down then pure () else throw (.guard m.version)
    | none, none => pure ()

/-- The way back of a migration. -/
def checkReversal : Except (RollbackError V) Unit := do
  forM ((u.inversePlans m.version).getD []).zipIdx (checkInverseStep m.version)
  if ¬ m.flags.transactional then throw (.nonTransactionalDown m.version "the migration declares transaction:false")
  checkDown u m

/-- Whether a selected migration is undone; if not, it is skipped by force. -/
def undoes : Except (RollbackError V) Bool :=
  if m.down = none ∧ u.inversePlans m.version = none then
    if m.supersedes ≠ [] then throw (.irreversibleSquash m.version m.name m.supersedes.length)
    else if request.options.force ∧ request.options.backupAcknowledged then pure false
    else throw (.irreversible m.version m.name)
  else do
    checkReversal u m
    pure true

/-- What stays applied must not depend on what is undone. -/
def checkKept (rolledBack skipped : List V) (kept : V) :
    Except (RollbackError V) Unit :=
  if kept ∈ rolledBack then pure ()
  else match byVersion migrations kept with
    | none => pure ()
    | some m => forM m.dependsOn fun dep =>
      if dep ∉ rolledBack then pure ()
      else if kept ∈ skipped then throw (.forceSkipDependencyConflict kept dep)
      else throw (.keptDependsOnRolledBack kept dep)

def checkOutstanding (outstanding : List (PendingContract V)) (v : V) : Except (RollbackError V) Unit :=
  match outstanding.find? (fun c => c.planVersion = v ∨ v ∈ c.contractVersions) with
  | some c => throw (.pendingContractOutstanding v c.table c.planVersion)
  | none => pure ()

variable (j : Journal V) (judged : List (Migration V × Bool)) (steps : List (Migration V))

/-- The order of the steps, with a cycle told from the errors that cannot happen here. -/
def orderSteps (preSatisfied : V → Bool) : Except (RollbackError V) (List (Migration V)) :=
  match topoOrderVersionTiebroken steps preSatisfied with
  | .ok ordered => pure ordered
  | .error (.dependencyCycle cycle) => throw (.dependencyCycle cycle)
  | .error _ => throw .backend

/-- Of the selected migrations, with whether each is undone, those that are. -/
def undone : List (Migration V) := (judged.filter (·.2)).map (·.1)

/-- And the versions of those that are skipped. -/
def left : List V := (judged.filter (!·.2)).map (·.1.version)

def planSelected (u : Unwinding V)
    (applied selected : List (AppliedRecord V)) : Except (RollbackError V) (RollbackPlan V) := do
  let chosen ← selected.mapM (chooseMigration migrations)
  let judged ← chosen.mapM fun m => do pure (m, ← undoes request u m)
  forM applied fun record => checkKept migrations (versions (undone judged)) (left judged) record.version
  forM (undone judged) fun m => checkOutstanding u.outstanding m.version
  let ordered ← orderSteps (undone judged) fun v => v ∈ selected.map (·.version) ∨ v ∈ applied.map (·.version)
  pure ⟨ordered.reverse, left judged⟩

def planRollback (u : Unwinding V)
    (applied : List (AppliedRecord V)) : Except (RollbackError V) (RollbackPlan V) :=
  if u.approval ≠ .approved then throw .approvalRequired
  else do
    let selected ← selectRollbackVersions request.target applied
    if selected = [] then pure ⟨[], []⟩ else planSelected request migrations u applied selected

def Journal.records : List (AppliedRecord V) :=
  j.applied.map fun e => ⟨e.version, e.checksum, e.eventSeq⟩

/-- The journal after some downs. -/
def Journal.unwound : Journal V := steps.foldl Journal.rollBack j

/-! ### What a plan guarantees -/

namespace Journal
variable {j : Journal V} {v : V}

theorem map_version_records (j : Journal V) :
    j.records.map (·.version) = ((j.events.map (·.version)).dedup.insertionSort (· ≤ ·)).filter j.isApplied := by
  rw [records, map_map, applied, map_filterMap, ← filterMap_eq_filter]
  refine filterMap_congr fun v _ => ?_
  cases hv : j.netApplied v with
  | none => simp [isApplied, hv, Option.guard]
  | some e => simp [isApplied, hv, Option.guard, version_of_netApplied hv]

theorem nodup_records (j : Journal V) : (j.records.map (·.version)).Nodup := by
  rw [map_version_records]
  exact ((perm_insertionSort _ _).nodup_iff.mpr (nodup_dedup _)).filter _

theorem mem_records : v ∈ j.records.map (·.version) ↔ j.isApplied v := by
  rw [records, map_map, mem_map]
  constructor
  · rintro ⟨e, he, rfl⟩
    exact Option.isSome_iff_exists.mpr ⟨e, mem_applied.mp he⟩
  intro hv
  obtain ⟨e, he⟩ := Option.isSome_iff_exists.mp hv
  have hvr := version_of_netApplied he
  exact ⟨e, mem_applied.mpr (hvr ▸ he), hvr⟩

theorem netApplied_unwound (steps : List (Migration V)) :
    (j.unwound steps).netApplied v = if v ∈ versions steps then none else j.netApplied v := by
  unfold unwound
  induction steps generalizing j with
  | nil => rfl
  | cons m rest ih =>
    rw [foldl_cons, ih, netApplied_rollBack, versions_cons]
    by_cases hv : m.version = v
    · simp [hv]
    · simp [hv, Ne.symm hv]

theorem isApplied_unwound {steps : List (Migration V)} :
    (j.unwound steps).isApplied v ↔ v ∉ versions steps ∧ j.isApplied v := by
  rw [isApplied, isApplied, netApplied_unwound]
  split <;> simp_all

theorem isSquash_unwound {steps : List (Migration V)} :
    (j.unwound steps).isSquash v ↔ v ∉ versions steps ∧ j.isSquash v := by
  rw [isSquash, isSquash, netApplied_unwound]
  split <;> simp_all

omit [LinearOrder V] in
theorem supersedes_unwound (steps : List (Migration V)) : (j.unwound steps).supersedes = j.supersedes := by
  unfold unwound
  induction steps generalizing j with
  | nil => rfl
  | cons m rest ih => rw [foldl_cons, ih, rollBack]

end Journal

variable {request : RollbackRequest V} {migrations steps : List (Migration V)} {u : Unwinding V} {m : Migration V}
  {d v : V} {applied selected : List (AppliedRecord V)} {judged : List (Migration V × Bool)} {plan : RollbackPlan V}
  {j : Journal V}

theorem select_sublist {target : RollbackTarget V} (h : selectRollbackVersions target applied = .ok selected) :
    selected.Sublist (applied.insertionSort Newer) := by
  unfold selectRollbackVersions at h
  cases target with
  | all =>
    cases h
    exact Sublist.refl _
  | steps n =>
    cases h
    exact take_sublist _ _
  | toVersion v =>
    dsimp only at h
    split at h
    · cases h
    · cases h
      exact filter_sublist

theorem chooseMigration_ok {record : AppliedRecord V} (h : chooseMigration migrations record = .ok m) :
    byVersion migrations record.version = some m := by
  unfold chooseMigration at h
  split at h
  · cases h
  · next hm =>
    split at h <;> cases h
    exact hm

omit [LinearOrder V] in
theorem undoes_ok {undone : Bool} (h : undoes request u m = .ok undone) :
    (undone ↔ m.down ≠ none ∨ u.inversePlans m.version ≠ none) ∧
      (undone = false → request.options.force ∧ request.options.backupAcknowledged) := by
  unfold undoes at h
  split_ifs at h with hn hs hfr
  · cases h
    exact ⟨by simp [hn.1, hn.2], fun _ => hfr⟩
  · obtain ⟨_, _, h⟩ := bind_ok.mp h
    cases h
    exact ⟨by simpa [imp_iff_not_or] using hn, fun hf => absurd hf (by simp)⟩

/-- The selected migrations, each with whether it is undone. -/
structure Judged (request : RollbackRequest V) (migrations : List (Migration V)) (u : Unwinding V)
    (selected : List (AppliedRecord V)) (judged : List (Migration V × Bool)) : Prop where
  selected : judged.map (·.1.version) = selected.map (·.version)
  supplied : ∀ p ∈ judged, byVersion migrations p.1.version = some p.1
  undone : ∀ p ∈ judged, undoes request u p.1 = .ok p.2

theorem judged_of_mapM {chosen : List (Migration V)} (hc : selected.mapM (chooseMigration migrations) = .ok chosen)
    (hj : (chosen.mapM fun m => do pure (m, ← undoes request u m)) = .ok judged) :
    Judged request migrations u selected judged := by
  rw [mapM_ok] at hc hj
  induction hc generalizing judged with
  | nil =>
    cases hj
    exact ⟨rfl, by simp, by simp⟩
  | cons hf _ ih =>
    obtain ⟨p, rest, hp, hr, rfl⟩ := forall₂_cons_left_iff.mp hj
    obtain ⟨hs, hsp, hun⟩ := ih hr
    obtain ⟨undone, hu, hp⟩ := bind_ok.mp hp
    cases pure_ok.mp hp
    have hb := chooseMigration_ok hf
    have hv := (mem_of_byVersion hb).2
    refine ⟨by simp [hs, hv], ?_, ?_⟩
    · exact forall_mem_cons.mpr ⟨hv ▸ hb, hsp⟩
    · exact forall_mem_cons.mpr ⟨hu, hun⟩

/-- How a plan came about. -/
structure Planned (request : RollbackRequest V) (migrations : List (Migration V)) (u : Unwinding V)
    (applied selected : List (AppliedRecord V)) (judged : List (Migration V × Bool)) (plan : RollbackPlan V) : Prop where
  select : selectRollbackVersions request.target applied = .ok selected
  verdicts : Judged request migrations u selected judged
  kept : ∀ r ∈ applied, checkKept migrations (versions (undone judged)) (left judged) r.version = .ok ()
  ordered : Ordered (undone judged) (fun v => v ∈ selected.map (·.version) ∨ v ∈ applied.map (·.version)) plan.steps.reverse
  skipped : plan.skippedIrreversible = left judged

theorem orderSteps_ok {l : List (Migration V)} {preSatisfied : V → Bool} (h : orderSteps steps preSatisfied = .ok l) :
    Ordered steps preSatisfied l := by
  unfold orderSteps at h
  split at h <;> cases h
  exact topoOrder_ok ‹_›

theorem checkKept_nil (migrations : List (Migration V)) (skipped : List V) (v : V) :
    checkKept migrations [] skipped v = .ok () := by
  unfold checkKept
  rw [if_neg not_mem_nil]
  split
  · rfl
  · exact forM_ok.mpr fun d _ => if_pos not_mem_nil

theorem planRollback_ok (h : planRollback request migrations u applied = .ok plan) :
    ∃ selected judged, Planned request migrations u applied selected judged plan := by
  unfold planRollback at h
  split at h
  · cases h
  obtain ⟨selected, hs, h⟩ := bind_ok.mp h
  split at h
  · next hn =>
    cases h
    refine ⟨selected, [], hs, ⟨by simp [hn], by simp, by simp⟩, fun r _ => checkKept_nil _ _ _, ?_, rfl⟩
    exact ⟨.nil, .nil, by simp, by simp [ExistsSplit]⟩
  · simp only [planSelected, bind_ok] at h
    obtain ⟨chosen, hc, judged, hj, _, hk, _, _, ordered, ho, h⟩ := h
    cases h
    refine ⟨selected, judged, hs, judged_of_mapM hc hj, forM_ok.mp hk, ?_, rfl⟩
    rw [reverse_reverse]
    exact orderSteps_ok ho

/-! ### What stays -/

/-- Every net-applied migration of the set has its dependencies. -/
def Coherent (migrations : List (Migration V)) (j : Journal V) : Prop :=
  ∀ m ∈ migrations, byVersion migrations m.version = some m → j.isApplied m.version →
    ∀ d ∈ m.dependsOn, Satisfied migrations j d

instance (migrations : List (Migration V)) (j : Journal V) : Decidable (Coherent migrations j) :=
  inferInstanceAs (Decidable (∀ _, _))

/-- What a request undoes: of the versions it selects, those with a way back. -/
def rollsBack (request : RollbackRequest V) (migrations : List (Migration V)) (u : Unwinding V) (j : Journal V) (v : V) :
    Bool :=
  match selectRollbackVersions request.target j.records with
  | .error _ => false
  | .ok selected => v ∈ selected.map (·.version) ∧
    (byVersion migrations v).any fun m => m.down ≠ none ∨ u.inversePlans v ≠ none

/-- A net-applied squash that stands for a version and is not undone. -/
def StaysCovered (migrations : List (Migration V)) (j : Journal V) (rolled : V → Bool) (d : V) : Prop :=
  (∃ e ∈ j.supersedes, e.2 = d ∧ j.isSquash e.1 ∧ ¬ rolled e.1) ∨
  ∃ s ∈ migrations, j.isApplied s.version ∧ d ∈ s.supersedes ∧ ¬ rolled s.version

instance (migrations : List (Migration V)) (j : Journal V) (rolled : V → Bool) (d : V) :
    Decidable (StaysCovered migrations j rolled d) := inferInstanceAs (Decidable (_ ∨ _))

/-- What stays keeps a squash for each dependency that only squashes stand for. -/
def Anchored (request : RollbackRequest V) (migrations : List (Migration V)) (u : Unwinding V) (j : Journal V) : Prop :=
  ∀ m ∈ migrations, byVersion migrations m.version = some m → j.isApplied m.version →
    ¬ rollsBack request migrations u j m.version →
    ∀ d ∈ m.dependsOn, ¬ j.isApplied d → StaysCovered migrations j (rollsBack request migrations u j) d

instance (request : RollbackRequest V) (migrations : List (Migration V)) (u : Unwinding V) (j : Journal V) :
    Decidable (Anchored request migrations u j) := inferInstanceAs (Decidable (∀ _, _))

/-- A version is satisfied after some downs if it stays itself or a squash stays that stands for it. -/
theorem satisfied_unwound : Satisfied migrations (j.unwound steps) d ↔
      (d ∉ versions steps ∧ j.isApplied d) ∨ StaysCovered migrations j (· ∈ versions steps) d := by
  unfold Satisfied StaysCovered
  rw [isApplied_unwound, mem_superseded, supersedes_unwound]
  refine or_congr_right (or_congr ?_ ?_)
  · constructor
    · rintro ⟨s, he, hs⟩
      obtain ⟨ho, hs⟩ := isSquash_unwound.mp hs
      exact ⟨(s, d), he, rfl, hs, by simpa using ho⟩
    · rintro ⟨⟨s, _⟩, he, rfl, hs, ho⟩
      exact ⟨s, he, isSquash_unwound.mpr ⟨by simpa using ho, hs⟩⟩
  · refine exists_congr fun s => and_congr_right fun _ => ?_
    rw [isApplied_unwound]
    simp only [decide_eq_true_eq]
    tauto

namespace Planned

section
variable (h : Planned request migrations u j.records selected judged plan)
include h

theorem mem_selected (hv : v ∈ selected.map (·.version)) : j.isApplied v := by
  obtain ⟨r, hr, rfl⟩ := mem_map.mp hv
  have hr := (mem_insertionSort _).mp ((select_sublist h.select).subset hr)
  exact mem_records.mp (mem_map_of_mem hr)

theorem nodup_selected : (selected.map (·.version)).Nodup :=
  ((select_sublist h.select).map _).nodup
    (((perm_insertionSort _ _).map _).nodup_iff.mpr (nodup_records j))

theorem mem_steps : m ∈ plan.steps ↔ (m, true) ∈ judged := by
  rw [← mem_reverse, h.ordered.perm.mem_iff, undone]
  simp

theorem mem_versions_steps : v ∈ versions plan.steps ↔ rollsBack request migrations u j v := by
  unfold rollsBack
  rw [h.select]
  simp only [← h.verdicts.selected, Bool.decide_and, Bool.decide_eq_true, Bool.and_eq_true, decide_eq_true_eq]
  constructor
  · intro hv
    obtain ⟨m, hm, rfl⟩ := mem_map.mp hv
    have hj := h.mem_steps.mp hm
    refine ⟨mem_map.mpr ⟨_, hj, rfl⟩, ?_⟩
    rw [h.verdicts.supplied _ hj]
    simpa using (undoes_ok (h.verdicts.undone _ hj)).1
  · rintro ⟨hv, hb⟩
    obtain ⟨⟨m, undone⟩, hj, rfl⟩ := mem_map.mp hv
    rw [h.verdicts.supplied _ hj] at hb
    have hu := (undoes_ok (h.verdicts.undone _ hj)).1.mpr (by simpa using hb)
    exact mem_map_of_mem (h.mem_steps.mpr (by rw [← show undone = true from hu]; exact hj))

theorem supplied (hm : m ∈ plan.steps) : byVersion migrations m.version = some m :=
  h.verdicts.supplied _ (h.mem_steps.mp hm)

theorem resolved (hm : m ∈ plan.steps) (hd : d ∈ m.dependsOn) : j.isApplied d := by
  obtain hst | hmt := h.ordered.resolved m (mem_reverse.mpr hm) d hd
  · obtain ⟨q, hq, rfl⟩ := mem_map.mp hst
    refine h.mem_selected ?_
    rw [← h.verdicts.selected]
    exact mem_map.mpr ⟨_, h.mem_steps.mp (mem_reverse.mp hq), rfl⟩
  · obtain hs | ha := of_decide_eq_true hmt
    · exact h.mem_selected hs
    · exact mem_records.mp ha

/-- A step is undone before what it depends on. -/
theorem backwards {earlier later : List (Migration V)} (hs : plan.steps = earlier ++ m :: later)
    (hd : d ∈ m.dependsOn) : d ∉ versions earlier := by
  intro he
  have hr : plan.steps.reverse = later.reverse ++ m :: earlier.reverse := by simp [hs]
  have hds := h.ordered.distinct
  rw [hr] at hds
  have he' : d ∈ versions earlier.reverse := by simpa [versions] using he
  refine h.ordered.before ⟨later.reverse, m, earlier.reverse, hr, d, hd, ?_, fun hl => ?_⟩
  · rw [hr]
    exact mem_versions_append.mpr (.inr (mem_cons_of_mem _ he'))
  · rw [versions, map_append] at hds
    exact disjoint_of_nodup_append hds hl (mem_cons_of_mem _ he')

theorem kept_dependency (hm : byVersion migrations m.version = some m) (ha : j.isApplied m.version)
    (hs : m.version ∉ versions plan.steps) (hd : d ∈ m.dependsOn) : d ∉ versions plan.steps := by
  have hsm : ∀ v, v ∈ versions (undone judged) ↔ v ∈ versions plan.steps := fun v => by
    rw [versions, ← (h.ordered.perm.map _).mem_iff, versions, map_reverse, mem_reverse]
  obtain ⟨r, hr, hv⟩ := mem_map.mp (mem_records.mpr ha)
  have hc := h.kept r hr
  rw [checkKept, hv, if_neg (by rwa [hsm]), hm] at hc
  have hdp := forM_ok.mp hc d hd
  rw [← hsm]
  by_contra hrl
  rw [if_neg (not_not.mpr hrl)] at hdp
  split at hdp <;> cases hdp

/-- The steps and what is skipped by force are exactly what was selected. -/
theorem exact : (versions plan.steps ++ plan.skippedIrreversible).Perm (selected.map (·.version)) := by
  rw [← h.verdicts.selected, h.skipped]
  have hs : (versions plan.steps).Perm ((judged.filter (·.2)).map (·.1.version)) := by
    refine ((reverse_perm _).symm.map _).trans ((h.ordered.perm.map _).trans ?_)
    rw [undone, map_map]
    exact .refl _
  refine (hs.append_right _).trans ?_
  rw [left, ← map_append]
  exact (filter_append_perm _ _).map _

theorem forced (hs : plan.skippedIrreversible ≠ []) : request.options.force ∧ request.options.backupAcknowledged := by
  rw [h.skipped] at hs
  obtain ⟨v, hv⟩ := exists_mem_of_ne_nil _ hs
  obtain ⟨p, hp, rfl⟩ := mem_map.mp hv
  obtain ⟨hp, hl⟩ := mem_filter.mp hp
  exact (undoes_ok (h.verdicts.undone p hp)).2 (by simpa using hl)

theorem step_dependency {n : Nat} (hm : byVersion migrations m.version = some m)
    (hst : m.version ∈ versions plan.steps) (hstn : m.version ∉ versions (plan.steps.take n))
    (hd : d ∈ m.dependsOn) : d ∉ versions (plan.steps.take n) ∧ j.isApplied d := by
  obtain ⟨q, hq, hv⟩ := mem_map.mp hst
  obtain rfl : q = m := Option.some.inj (by rw [← h.supplied hq, hv, hm])
  have hdr : q ∈ plan.steps.drop n := by
    rw [← take_append_drop n plan.steps] at hq
    obtain hq | hq := mem_append.mp hq
    · exact absurd (mem_map_of_mem hq) hstn
    · exact hq
  obtain ⟨before, after, ha⟩ := append_of_mem hdr
  have hs : plan.steps = (plan.steps.take n ++ before) ++ q :: after := by
    rw [append_assoc, ← ha, take_append_drop]
  exact ⟨fun hmm => h.backwards hs hd (mem_versions_append.mpr (.inl hmm)), h.resolved hq hd⟩

/-- Nothing is stranded on the way if what stays is anchored. -/
theorem coherent_unwound
    (han : Anchored request migrations u j) (n : Nat) : Coherent migrations (j.unwound (plan.steps.take n)) := by
  intro m hm hsp ha d hd
  obtain ⟨hstn, ha⟩ := isApplied_unwound.mp ha
  have ht : ∀ {v : V}, v ∈ versions (plan.steps.take n) → v ∈ versions plan.steps := fun hv =>
    ((take_sublist n plan.steps).map _).subset hv
  rw [satisfied_unwound]
  by_cases hst : m.version ∈ versions plan.steps
  · exact .inl (h.step_dependency hsp hst hstn hd)
  by_cases hdp : j.isApplied d
  · exact .inl ⟨fun hmm => h.kept_dependency hsp ha hst hd (ht hmm), hdp⟩
  -- only squashes stand for the dependency, and one of them is not undone at all
  have hk : ∀ {v : V}, ¬ rollsBack request migrations u j v → ¬ decide (v ∈ versions (plan.steps.take n)) :=
    fun hv hmm => hv (h.mem_versions_steps.mp (ht (of_decide_eq_true hmm)))
  refine .inr ((han m hm hsp ha (by rwa [← h.mem_versions_steps]) d hd hdp).imp ?_ ?_)
  · rintro ⟨e, he, hd', hsq, hsty⟩
    exact ⟨e, he, hd', hsq, hk hsty⟩
  · rintro ⟨s, hs, hsq, hd', hsty⟩
    exact ⟨s, hs, hsq, hd', hk hsty⟩

theorem anchored_of_coherent (hc : Coherent migrations (j.unwound plan.steps)) : Anchored request migrations u j := by
  intro m hm hsp ha hsty d hd hn
  have hs' : m.version ∉ versions plan.steps := fun hmm => hsty (h.mem_versions_steps.mp hmm)
  have hst := hc m hm hsp (isApplied_unwound.mpr ⟨hs', ha⟩) d hd
  obtain ⟨_, ha⟩ | hcv := satisfied_unwound.mp hst
  · exact absurd ha hn
  have hk : ∀ {v : V}, ¬ decide (v ∈ versions plan.steps) → ¬ rollsBack request migrations u j v := fun hv hr =>
    hv (decide_eq_true (h.mem_versions_steps.mpr hr))
  refine hcv.imp ?_ ?_
  · rintro ⟨e, he, hd', hsq, ho⟩
    exact ⟨e, he, hd', hsq, hk ho⟩
  · rintro ⟨s, hs, hsq, hd', ho⟩
    exact ⟨s, hs, hsq, hd', hk ho⟩

end

end Planned

/-- **A rollback that is accepted strands nothing after any of its downs exactly if what stays
keeps a squash for each dependency that only squashes stand for.** Its steps, with what is skipped
by force, are the selected net-applied versions, each once. -/
theorem rollback_strands_nothing_iff (request : RollbackRequest V) (migrations : List (Migration V)) (u : Unwinding V)
    (j : Journal V) (plan : RollbackPlan V) (hplan : planRollback request migrations u j.records = .ok plan) :
    ((∀ n, Coherent migrations (j.unwound (plan.steps.take n))) ↔ Anchored request migrations u j) ∧
    ∃ selected, selectRollbackVersions request.target j.records = .ok selected ∧
      (∀ r ∈ selected, j.isApplied r.version) ∧ (selected.map (·.version)).Nodup ∧
      (versions plan.steps ++ plan.skippedIrreversible).Perm (selected.map (·.version)) ∧
      (plan.skippedIrreversible ≠ [] → request.options.force ∧ request.options.backupAcknowledged) := by
  obtain ⟨selected, judged, hp⟩ := planRollback_ok hplan
  refine ⟨⟨fun ha => hp.anchored_of_coherent ?_, fun han n => hp.coherent_unwound han n⟩,
    selected, hp.select, fun r hr => hp.mem_selected (mem_map_of_mem hr), hp.nodup_selected,
    hp.exact, hp.forced⟩
  have he := ha plan.steps.length
  rwa [take_length] at he

/-- A squash that ran on an empty journal, after it what depends on one of its versions, and a third. -/
def squashed : Journal Nat where
  events := [⟨5, "", .applied .apply⟩, ⟨4, "", .applied .apply⟩, ⟨3, "", .applied .squash⟩]
  supersedes := [(3, 1)]

def squashedSet : List (Migration Nat) :=
  [{ version := 3, supersedes := [1], down := some "undo 3" }, { version := 4, dependsOn := [1] },
    { version := 5, dependsOn := [4], down := some "undo 5" }]

def approved : Unwinding Nat where
  inversePlans _ := none
  outstanding := []
  nonTxnDowns _ := none
  approval := .approved
  guard _ := true

def undoLast : RollbackPlan Nat := ⟨[{ version := 5, dependsOn := [4], down := some "undo 5" }], []⟩

/-- The last one goes alone. -/
theorem last_undone : planRollback ⟨.steps 1, {}⟩ squashedSet approved squashed.records = .ok undoLast ∧
    ∀ n, Coherent squashedSet (squashed.unwound (undoLast.steps.take n)) := by
  have hp : planRollback ⟨.steps 1, {}⟩ squashedSet approved squashed.records = .ok undoLast := by decide +kernel
  exact ⟨hp, (rollback_strands_nothing_iff _ _ _ _ _ hp).1.mpr (by decide +kernel)⟩

def undoSquash : RollbackPlan Nat :=
  ⟨[{ version := 5, dependsOn := [4], down := some "undo 5" },
    { version := 3, supersedes := [1], down := some "undo 3" }], [4]⟩

/-- A dependent without a way back is skipped by force, and its squash is undone. -/
theorem squash_undone_under_dependent : Coherent squashedSet squashed ∧
    planRollback ⟨.all, { force := true, backupAcknowledged := true }⟩ squashedSet approved squashed.records =
      .ok undoSquash ∧
    ¬ Coherent squashedSet (squashed.unwound (undoSquash.steps.take 2)) := by decide +kernel

end Zeroship.Migrate
