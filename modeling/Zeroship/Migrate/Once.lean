import Zeroship.Base.Machine
import Zeroship.Migrate.Dependencies

/-! One project, any number of calls: what runs, runs once.

A versioned migration is in the journal from the moment it ran, and what is there is not
pending. A squash runs only where nothing it stands for is satisfied, and its edges then
keep that from running. A repeatable that a squash stands for runs all the same, and one that
shares the version of a squash is journaled over it, which voids the edges. A squash that is
refused because another one covers what it stands for can neither run nor be recorded. -/
namespace Zeroship.Migrate
open Base List

variable {V : Type} [LinearOrder V] {j : Journal V} {j₀ : Journal V}

inductive SquashError (V : Type) where
  | noSupersedes (version : V)
  | guard (version : V)
  | notAllApplied (version : V) (applied total : Nat)
  | partialOverlap (version : V) (applied total : Nat)
  | journal
deriving DecidableEq

structure SquashOutcome (V : Type) where
  version : V
  superseded : List V
  alreadyPresent : Bool
deriving DecidableEq

/-- The event and the edges of a squash whose `up` does not run. -/
def Journal.recordSquash (j : Journal V) (m : Migration V) : Journal V :=
  { j with
    events := ⟨m.version, m.checksum, .applied .squash⟩ :: j.events
    supersedes := m.supersedes.map (m.version, ·) ++ j.supersedes }

/-- Records a squash where all that it stands for is net-applied. `written` is whether the
journal took it. -/
def squash (guard : String → Bool) (written : Bool) (j : Journal V) (m : Migration V) :
    Except (SquashError V) (SquashOutcome V × Journal V) :=
  if m.supersedes = [] then throw (.noSupersedes m.version)
  else if ¬ guard m.up then throw (.guard m.version)
  else if j.isApplied m.version then pure (⟨m.version, m.supersedes, true⟩, j)
  else if m.supersedes.countP j.isApplied = 0 then throw (.notAllApplied m.version 0 m.supersedes.length)
  else if m.supersedes.countP j.isApplied ≠ m.supersedes.length then
    throw (.partialOverlap m.version (m.supersedes.countP j.isApplied) m.supersedes.length)
  else if ¬ written then throw .journal
  else pure (⟨m.version, m.supersedes, false⟩, j.recordSquash m)

/-! ### The project -/

inductive Call (V : Type) where
  | apply (backend : Backend V) (migrations : List (Migration V))
  | squash (guard : String → Bool) (written : Bool) (migration : Migration V)

/-- The journal under a sequence of calls. It answers with the migrations whose `up` ran. -/
def project : Machine (Journal V) (Call V) (Migration V) where
  step j
    | .apply b migrations =>
      some ((applyLocked b j migrations).1.journal, completedOf (applyLocked b j migrations).1.executed)
    | .squash guard written m => match Migrate.squash guard written j m with
      | .ok (_, j') => some (j', [])
      | .error _ => some (j, [])

abbrev Calls (V : Type) := History (Journal V) (Call V) (Migration V)

/-- No version of a versioned migration ran twice. -/
def AtMostOnce (h : Calls V) : Prop := (versions (versioned h.outputs)).Nodup

/-- Nothing ran that a squash stands for which ran. -/
def Exclusive (h : Calls V) : Prop := ∀ s ∈ h.outputs, ∀ v ∈ s.supersedes, v ∉ versions h.outputs

instance (h : Calls V) : Decidable (Exclusive h) := inferInstanceAs (Decidable (∀ _, _))

/-- A call keeps its repeatables apart from the versioned migrations: none shares a version with
one, and none is what a squash of the set or of the journal stands for. -/
def Separate : Environment (Journal V) (Call V) (Migration V) := fun _ j c =>
  match c with
  | .apply _ migrations =>
    Unmixed migrations ∧ ∀ r ∈ repeatables migrations, ¬ j.supersedes? migrations r.version
  | .squash .. => True

instance (h : Calls V) (j : Journal V) (c : Call V) : Decidable (Separate h j c) :=
  match c with
  | .apply _ _ => inferInstanceAs (Decidable (_ ∧ _))
  | .squash .. => .isTrue trivial

section
variable {j j' : Journal V} {m : Migration V}

theorem squash_ok {guard : String → Bool} {written : Bool} {outcome : SquashOutcome V}
    (h : squash guard written j m = .ok (outcome, j')) :
    j' = j ∧ j.isApplied m.version ∨ ¬ j.isApplied m.version ∧ j' = j.recordSquash m := by
  unfold squash at h
  split_ifs at h with _ _ ha
  all_goals cases h
  · exact .inl ⟨rfl, ha⟩
  · exact .inr ⟨ha, rfl⟩

theorem isApplied_recordSquash {v : V} : (j.recordSquash m).isApplied v ↔ m.version = v ∨ j.isApplied v := by
  show (j.record m .squash m.supersedes).isApplied v ↔ _
  exact Journal.isApplied_record

theorem superseded_recordSquash (hm : ¬ j.isApplied m.version) :
    j.supersededVersions ⊆ (j.recordSquash m).supersededVersions := by
  have hr : Recorded (fun _ => .squash) (·.supersedes) j ([] ++ [m]) (j.record m .squash m.supersedes) :=
    .completed m .nothing
  refine hr.superseded fun x hx hs => hm ?_
  rw [← mem_singleton.mp hx]
  exact Journal.applied_of_squash hs

end

/-- What a call does: it runs nothing and forgets nothing, or it applies a set. -/
theorem project_step {j' : Journal V} {c : Call V} {os : List (Migration V)} (h : project.step j c = some (j', os)) :
    (os = [] ∧ (∀ v, j.isApplied v → j'.isApplied v) ∧ j.supersededVersions ⊆ j'.supersededVersions) ∨
    ∃ b migrations pending ran rerun middle, c = .apply b migrations ∧ Admitted j migrations pending ∧
      ran.Sublist pending ∧ Recorded kindOf (·.supersedes) j ran middle ∧ rerun ⊆ repeatables migrations ∧
      Recorded (fun _ => .repeatable) (fun _ => []) middle rerun j' ∧ os = ran ++ rerun := by
  cases c with
  | apply b migrations =>
    cases h
    obtain ⟨hj, he⟩ | ⟨pending, ran, rerun, middle, hadmitted, hran, hf, hsb, hs, ho⟩ :=
      applyLocked_advanced (Prod.mk.eta (p := applyLocked b j migrations)).symm
    · rw [hj, he]
      exact .inl ⟨rfl, fun _ hv => hv, fun _ hv => hv⟩
    · exact .inr ⟨b, migrations, pending, ran, rerun, middle, rfl, hadmitted, hran, hf, hsb, hs, ho⟩
  | squash guard written m =>
    simp only [project] at h
    split at h
    · next hsq =>
      cases h
      obtain ⟨rfl, -⟩ | ⟨hm, rfl⟩ := squash_ok hsq
      · exact .inl ⟨rfl, fun _ hv => hv, fun _ hv => hv⟩
      · exact .inl ⟨rfl, fun v hv => isApplied_recordSquash.mpr (.inr hv), superseded_recordSquash hm⟩
    · cases h
      exact .inl ⟨rfl, fun _ hv => hv, fun _ hv => hv⟩

theorem versioned_ran {migrations pending ran : List (Migration V)} (hadmitted : Admitted j migrations pending) (hran : ran.Sublist pending) : versioned ran = ran :=
  filter_eq_self.mpr fun m hm => by
    simpa using (mem_versioned.mp (hadmitted.mem_iff.mp (hran.subset hm)).1).2

/-- What ran is in the journal, and no versioned migration ran twice. -/
theorem atMostOnce_of_run {env : Environment (Journal V) (Call V) (Migration V)} {h : Calls V}
    (run : project.Run env j₀ h j) : (∀ v ∈ versions h.outputs, j.isApplied v) ∧ AtMostOnce h := by
  refine run.invariant (fun h j => (∀ v ∈ versions h.outputs, j.isApplied v) ∧ AtMostOnce h) ⟨by simp [versions], by
    simp [AtMostOnce, versioned, versions]⟩ ?_
  rintro h j j' c os - ⟨hj, hon⟩ - hst
  obtain ⟨rfl, hg, -⟩ | ⟨b, migrations, pending, ran, rerun, middle, -, hadmitted, hran, hf, hsb, hs, rfl⟩ :=
    project_step hst
  · simp only [AtMostOnce, History.outputs_snoc, append_nil]
    exact ⟨fun v hv => hg v (hj v hv), hon⟩
  simp only [AtMostOnce, History.outputs_snoc]
  refine ⟨fun v hv => ?_, ?_⟩
  · rw [hs.isApplied, hf.isApplied]
    obtain hv | hv := mem_versions_append.mp hv
    · exact .inr (.inr (hj v hv))
    · obtain hv | hv := mem_versions_append.mp hv
      · exact .inr (.inl hv)
      · exact .inl hv
  · rw [versioned_append, versioned_append, versioned_ran hadmitted hran, versioned_repeatables hsb, append_nil, versions,
      map_append]
    refine nodup_append.mpr ⟨hon, (hran.map _).nodup hadmitted.ordered.distinct, ?_⟩
    rintro v ho w hn rfl
    obtain ⟨m, hm, rfl⟩ := mem_map.mp hn
    obtain ⟨q, hq, hsm⟩ := mem_map.mp ho
    refine (hadmitted.mem_iff.mp (hran.subset hm)).2.1 (hsm ▸ hj _ (mem_map_of_mem ?_))
    exact (mem_versioned.mp hq).1

section
variable {j j' middle : Journal V} {migrations pending ran rerun : List (Migration V)} {h : Calls V} {b : Backend V}

section
variable (hseparate : Separate h j (.apply b migrations))
  (hadmitted : Admitted j migrations pending)
  (hran : ran.Sublist pending)
include hseparate hadmitted hran

/-- In a call that keeps its repeatables apart, what is superseded stays so, and what the
squashes stand for that ran becomes so. -/
theorem superseded_of_separate (hf : Recorded kindOf (·.supersedes) j ran middle)
    (hsb : rerun ⊆ repeatables migrations) (hsc : Recorded (fun _ => .repeatable) (fun _ => []) middle rerun j') :
    j.supersededVersions ⊆ j'.supersededVersions ∧ ∀ s ∈ ran, ∀ v ∈ s.supersedes, v ∈ j'.supersededVersions := by
  have hk : middle.supersededVersions ⊆ j'.supersededVersions :=
    hsc.superseded fun r hr => hf.not_isSquash hadmitted hseparate.1 hran (hsb hr)
  refine ⟨fun v hv => hk (hf.superseded (fun m hm hsq => ?_) hv), fun s hs v hv => hk ?_⟩
  · exact (hadmitted.mem_iff.mp (hran.subset hm)).2.1 (Journal.applied_of_squash hsq)
  · refine Journal.mem_superseded.mpr ⟨s.version, hf.edge_of_mem hs hv, ?_⟩
    refine (hf.isSquash_of_mem ((hran.map _).nodup hadmitted.ordered.distinct) hs).mpr ?_
    rw [kindOf, if_neg (ne_nil_of_mem hv)]

/-- Nothing that such a call runs is superseded, by the journal or by the set. -/
theorem not_superseded_of_separate (hs : rerun ⊆ repeatables migrations) {v : V}
    (hv : v ∈ versions (ran ++ rerun)) : ¬ j.supersedes? migrations v := by
  obtain hv | hv := mem_versions_append.mp hv
  · obtain ⟨m, hm, rfl⟩ := mem_map.mp hv
    exact (hadmitted.mem_iff.mp (hran.subset hm)).2.2
  · obtain ⟨r, hr, rfl⟩ := mem_map.mp hv
    exact hseparate.2 r (hs hr)

end

end

/-- What the squashes stand for that ran is superseded in the journal, and has not run. -/
theorem exclusive_of_run {h : Calls V} (run : project.Run Separate j₀ h j) :
    (∀ s ∈ h.outputs, ∀ v ∈ s.supersedes, v ∈ j.supersededVersions) ∧ Exclusive h := by
  refine run.invariant (fun h j => (∀ s ∈ h.outputs, ∀ v ∈ s.supersedes, v ∈ j.supersededVersions) ∧ Exclusive h)
    ⟨by simp, by simp [Exclusive]⟩ ?_
  rintro h j j' c os hr ⟨hc, he⟩ hseparate hst
  obtain ⟨rfl, -, hg⟩ | ⟨b, migrations, pending, ran, rerun, middle, rfl, hadmitted, hran, hf, hsb, hsc, rfl⟩ :=
    project_step hst
  · simp only [Exclusive, History.outputs_snoc, append_nil]
    exact ⟨fun s hs v hv => hg (hc s hs v hv), he⟩
  obtain ⟨hg, ha⟩ := superseded_of_separate hseparate hadmitted hran hf hsb hsc
  have hnw : ∀ {v : V}, v ∈ versions (ran ++ rerun) → ¬ j.supersedes? migrations v :=
    not_superseded_of_separate hseparate hadmitted hran hsb
  have hpl : ∀ s ∈ rerun, s.supersedes = [] := fun s hs =>
    hadmitted.plain s (mem_repeatables.mp (hsb hs)).1 (mem_repeatables.mp (hsb hs)).2
  simp only [Exclusive, History.outputs_snoc]
  -- a squash of an earlier call, one of this call, or a repeatable, which stands for nothing
  refine ⟨fun s hs v hv => ?_, fun s hs v hv hr' => ?_⟩
  · obtain hs | hs := mem_append.mp hs
    · exact hg (hc s hs v hv)
    obtain hs | hs := mem_append.mp hs
    · exact ha s hs v hv
    · rw [hpl s hs] at hv
      exact absurd hv not_mem_nil
  · obtain hs | hs := mem_append.mp hs
    · obtain ho | hn := mem_versions_append.mp hr'
      · exact he s hs v hv ho
      · exact hnw hn (supersedes?_iff.mpr (.inl (hc s hs v hv)))
    obtain hs | hs := mem_append.mp hs
    · have hp := hran.subset hs
      obtain ho | hn := mem_versions_append.mp hr'
      · exact hadmitted.fresh s hp v hv (satisfies_iff.mpr (.inl ((atMostOnce_of_run hr).1 v ho)))
      · exact hnw hn (supersedes?_iff.mpr (.inr ⟨s, (hadmitted.mem_iff.mp hp).1, hv⟩))
    · rw [hpl s hs] at hv
      exact absurd hv not_mem_nil

/-- **No versioned migration runs twice on a project, whatever sets are supplied, and where every
call keeps its repeatables apart, nothing runs before or after a squash that stands for it.** -/
theorem applied_once (j₀ j : Journal V) (h : Calls V) (run : project.Run .anything j₀ h j) :
    AtMostOnce h ∧ (Machine.Offered Separate [] h → Exclusive h) :=
  ⟨(atMostOnce_of_run run).2, fun hseparate => (exclusive_of_run (run.restrict hseparate)).2⟩

/-- A squash on an empty journal, what it stands for with a migration that depends on it, and a
squash that is only recorded. -/
def squashedTwice : List (Call Nat) :=
  [.apply agreeable [{ version := 3, supersedes := [1] }],
    .apply agreeable [{ version := 1 }, { version := 3, supersedes := [1] }, { version := 4, dependsOn := [1] }],
    .squash (fun _ => true) true { version := 5, supersedes := [3, 4] }]

theorem squashedTwice_once : (project.trace {} squashedTwice).outputs.map (·.version) = [3, 4] ∧
    AtMostOnce (project.trace {} squashedTwice) ∧ Exclusive (project.trace {} squashedTwice) := by
  have ho := applied_once {} _ _ (Machine.Run.of_trace (Machine.offered_anything [] (project.trace {} squashedTwice)))
  exact ⟨by decide +kernel, ho.1, ho.2 (by decide +kernel)⟩

/-- A squash, and a repeatable that it stands for. -/
def coveredRepeatable : List (Call Nat) :=
  [.apply agreeable [{ version := 3, supersedes := [1] }, { version := 1, flags.repeatable := true }]]

/-- A squash, and a repeatable of the same version; then what the squash stands for. -/
def overwrittenSquash : List (Call Nat) :=
  [.apply agreeable [{ version := 3, supersedes := [1] }, { version := 3, flags.repeatable := true }],
    .apply agreeable [{ version := 1 }]]

theorem superseded_ran : (project.trace {} coveredRepeatable).outputs.map (·.version) = [3, 1] ∧
    ¬ Exclusive (project.trace {} coveredRepeatable) ∧
    (project.trace {} overwrittenSquash).outputs.map (fun m => (m.version, m.flags.repeatable)) =
      [(3, false), (3, true), (1, false)] ∧ ¬ Exclusive (project.trace {} overwrittenSquash) := by
  decide +kernel

/-! ### The route that a refusal names -/

section
variable {b : Backend V} {migrations : List (Migration V)} {version : V}

theorem raises_topoOrder {nodes : List (Migration V)} {preSatisfied : V → Bool} :
    Raises (· ≠ .squashAlreadyApplied version) (topoOrderVersionTiebroken nodes preSatisfied) := by
  refine .bind (.forM fun m => .forM fun dep => ?_) fun _ => ?_
  · exact .ite (.pure _) (.throw nofun)
  · exact .ite (.pure _) (.throw nofun)

/-- Of the checks before a run only the gate of the squashes refuses one as applied already. -/
theorem gate_of_checkedPending (h : checkedPending b j migrations = .error (.squashAlreadyApplied version)) :
    checkSquashAllOrNone (versioned migrations) j.isApplied j.satisfies = .error (.squashAlreadyApplied version) := by
  by_contra hn
  have hr : Raises (· ≠ .squashAlreadyApplied version) (checkedPending b j migrations) := by
    refine .bind ?_ fun _ => .bind ?_ fun _ => .bind ?_ fun _ => .bind ?_ fun _ => .bind ?_ fun _ => .bind ?_ fun _ =>
      .bind raises_topoOrder fun pending => .bind ?_ fun _ => .pure _
    · unfold checkRollbackMarkers
      split
      · exact .throw nofun
      · exact .pure _
    · refine .forM fun m => .ite (.unless nofun fun _ => .ite (.throw nofun) (.pure _)) ?_
      exact .forM fun dep => .ite (.throw nofun) (.pure _)
    · refine .forM fun entry => ?_
      unfold checkDrift
      split
      · exact .pure _
      · exact .ite (.pure _) (.ite (.throw nofun) (.pure _))
    · refine .forM fun m => .ite (.pure _) (.unless nofun fun _ => .forM fun dep => .ite (.pure _) ?_)
      split
      · exact .ite (.throw nofun) (.pure _)
      · exact .throw nofun
    · refine .bind (.foldlM (fun owner m => .foldlM (fun owner dep => ?_) owner) _) fun _ => .pure _
      unfold claimOwner
      split
      · exact .ite (.pure _) (.throw nofun)
      · exact .pure _
    · exact fun e he heq => hn (heq ▸ he)
    · exact .forM fun m => .unless nofun fun _ => .ite (.throw nofun) (.pure _)
  exact hr _ h rfl

theorem run_raises {p p' : Progress V} {m : Migration V} {kind : JournaledKind} {supersedes : List V} {e : ApplyError V}
    (h : p.run b m kind supersedes = (p', some e)) : e ≠ .squashAlreadyApplied version := by
  unfold Progress.run at h
  split at h <;> cases h
  nofun

theorem executeOne_raises {p p' : Progress V} {m : Migration V} {started : V → Option String} {e : ApplyError V}
    (h : executeOne b started p m = (p', some e)) : e ≠ .squashAlreadyApplied version := by
  unfold executeOne at h
  split at h
  · cases h
    nofun
  split at h
  · next hs =>
    cases h
    have hr : Raises (· ≠ .squashAlreadyApplied version) (skips b (started m.version) p.skippedThisRun m) := by
      refine .ite (.ite (.throw nofun) (.pure _)) (.ite (.pure _) ?_)
      split
      · exact .throw nofun
      · exact .pure _
      · exact .pure _
    exact hr _ hs
  · cases h
  · exact run_raises h

theorem applyRepeatable_raises {p p' : Progress V} {m : Migration V} {latest : V → Option String} {e : ApplyError V}
    (h : applyRepeatable b latest p m = (p', some e)) : e ≠ .squashAlreadyApplied version := by
  unfold applyRepeatable at h
  split at h
  · cases h
  split at h
  · cases h
    nofun
  · cases h
  · exact run_raises h

/-- Only the gate refuses a squash as applied already: whatever runs ends with another error. -/
theorem gate_of_applyLocked (h : (applyLocked b j migrations).2 = some (.squashAlreadyApplied version)) :
    checkSquashAllOrNone (versioned migrations) j.isApplied j.satisfies = .error (.squashAlreadyApplied version) := by
  unfold applyLocked at h
  split at h
  · next hc =>
    cases h
    exact gate_of_checkedPending hc
  split at h
  · next hu =>
    cases h
    exact absurd rfl (untilError_error (· ≠ .squashAlreadyApplied version) executeOne_raises hu)
  unfold applyRepeatables at h
  split at h
  · cases h
  split at h
  · next ho =>
    cases h
    have hr (ordered : List (Migration V)) :
        Raises (· ≠ .squashAlreadyApplied version) (guardRepeatableBatch b ordered) :=
      .forM fun m => .ite (.pure _) (.throw nofun)
    exact absurd rfl (Raises.bind raises_topoOrder (fun ordered => .bind (hr ordered) fun _ => .pure ordered) _ ho)
  · exact absurd rfl (untilError_error (· ≠ .squashAlreadyApplied version) applyRepeatable_raises (Prod.ext rfl h))

/-- What `apply` refuses as applied already is a pending squash, and all that it stands for is
net-applied or covered. -/
theorem refused_squash (h : (applyLocked b j migrations).2 = some (.squashAlreadyApplied version)) :
    ∃ m ∈ migrations, m.version = version ∧ m.supersedes ≠ [] ∧ ¬ j.isApplied m.version ∧
      ∀ v ∈ m.supersedes, j.satisfies v := by
  obtain ⟨m, hm, hf⟩ := forM_error (gate_of_applyLocked h)
  split_ifs at hf with hs ha
  · cases hf
  · cases hf
    simp only [not_or] at hs
    exact ⟨m, (mem_versioned.mp hm).1, rfl, hs.1, hs.2.1, countP_eq_length.mp ha⟩
  · cases hf

/-- A call of the history ran a migration of the version, or recorded a squash of it. -/
def Journaled (h : Calls V) (v : V) : Prop := ∃ t ∈ h, match t.input with
  | .apply .. => v ∈ versions t.outputs
  | .squash guard written m => m.version = v ∧ (squash guard written t.before m).isOk

theorem journaled_snoc {h : Calls V} {t : Step (Journal V) (Call V) (Migration V)} {v : V} :
    Journaled (h ++ [t]) v ↔ Journaled h v ∨ Journaled [t] v := by
  simp [Journaled, or_and_right, exists_or]

/-- What is net-applied is what the calls have journaled. -/
theorem isApplied_iff_journaled {env : Environment (Journal V) (Call V) (Migration V)} {h : Calls V}
    (run : project.Run env {} h j) : ∀ v, j.isApplied v ↔ Journaled h v := by
  refine run.invariant (fun h j => ∀ v, j.isApplied v ↔ Journaled h v) (fun v => by simp [Journaled]; rfl) ?_
  intro h j j' c os _ ih _ hst v
  rw [journaled_snoc, ← ih v]
  cases c with
  | apply b migrations =>
    cases hst
    simp only [Journaled, mem_singleton, exists_eq_left]
    obtain ⟨hj, he⟩ | ⟨pending, ran, rerun, middle, -, -, hf, -, hs, ho⟩ :=
      applyLocked_advanced (Prod.mk.eta (p := applyLocked b j migrations)).symm
    · rw [hj, he]
      simp [versions, completedOf]
    · rw [ho, hs.isApplied, hf.isApplied, mem_versions_append]
      tauto
  | squash guard written m =>
    simp only [project] at hst
    simp only [Journaled, mem_singleton, exists_eq_left]
    split at hst
    · next hsq =>
      cases hst
      simp only [hsq, Except.isOk, Except.toBool, and_true]
      obtain ⟨rfl, ha⟩ | ⟨-, rfl⟩ := squash_ok hsq
      · exact ⟨.inl, fun h => h.elim id fun heq => heq ▸ ha⟩
      · rw [isApplied_recordSquash, or_comm]
    · next hsq =>
      cases hst
      simp [hsq, Except.isOk, Except.toBool]

/-- **Where `apply` refuses a squash as applied already, recording it is open just if the calls have
journaled all that it stands for.** What another squash covers counts for the one and not for the
other. -/
theorem named_route_open {h : Calls V} (run : project.Run .anything {} h j)
    (hrefused : (applyLocked b j migrations).2 = some (.squashAlreadyApplied version)) :
    ∃ m ∈ migrations, m.version = version ∧ ∀ guard : String → Bool, guard m.up →
      ((∃ outcome j', squash guard true j m = .ok (outcome, j')) ↔ ∀ v ∈ m.supersedes, Journaled h v) := by
  obtain ⟨m, hm, hv, hs, hpn, -⟩ := refused_squash hrefused
  refine ⟨m, hm, hv, fun guard hguard => ?_⟩
  simp only [← isApplied_iff_journaled run]
  rw [← countP_eq_length]
  have hl : m.supersedes.length ≠ 0 := by simpa using hs
  unfold squash
  rw [if_neg hs, if_neg (not_not.mpr hguard), if_neg hpn]
  split_ifs with hz hp hw
  · exact iff_of_false (by rintro ⟨_, _, ⟨⟩⟩) (by omega)
  · exact iff_of_false (by rintro ⟨_, _, ⟨⟩⟩) hp
  · exact iff_of_true ⟨_, _, rfl⟩ (not_not.mp hp)
  · exact absurd rfl hw

end

/-- A squash of a migration that ran, supplied beside another one, is refused and can be recorded. -/
theorem applied_squash_recorded : ∃ h j, project.Run .anything {} h j ∧
    (applyLocked agreeable j [{ version := 5, supersedes := [1] }, { version := 6 }]).2 = some (.squashAlreadyApplied 5) ∧
    ∃ outcome j', squash (fun _ => true) true j { version := 5, supersedes := [1] } = .ok (outcome, j') := by
  have run := Machine.Run.of_trace (Machine.offered_anything [] (project.trace {} [.apply agreeable [{ version := 1 }]]))
  have hr : (applyLocked agreeable (project.reach {} [.apply agreeable [{ version := 1 }]])
    [{ version := 5, supersedes := [1] }, { version := 6 }]).2 = some (.squashAlreadyApplied 5) := by decide +kernel
  refine ⟨_, _, run, hr, ?_⟩
  obtain ⟨m, hm, hv, ho⟩ := named_route_open run hr
  rcases mem_pair.mp hm with rfl | rfl
  · refine (ho _ rfl).mpr fun v hv => ⟨_, .head _, ?_⟩
    rw [mem_singleton.mp hv]
    decide +kernel
  · cases hv

/-- A squash that ran on an empty journal, and a second one for what it stands for: `apply` says
that it is applied already, and it is not recorded because nothing of it is. -/
theorem covered_squash_wedged : ∃ h j, project.Run .anything {} h j ∧
    (applyLocked agreeable j [{ version := 5, supersedes := [1] }]).2 = some (.squashAlreadyApplied 5) ∧
    squash (fun _ => true) true j { version := 5, supersedes := [1] } = .error (.notAllApplied 5 0 1) :=
  ⟨_, _, .of_trace (Machine.offered_anything [] (project.trace {} [.apply agreeable [{ version := 3, supersedes := [1] }]])),
    by decide +kernel, by decide +kernel⟩

end Zeroship.Migrate
