import Zeroship.Migrate.Apply

/-! What the checks of a set guarantee, and what one migration does to a call's progress. -/
namespace Zeroship.Migrate
open Base List Journal

variable {V : Type} {migrations pending : List (Migration V)} {m : Migration V} {v : V} {p p' : Progress V}
  {failed : Option (ApplyError V)}

theorem mem_versioned : m ∈ versioned migrations ↔ m ∈ migrations ∧ m.flags.repeatable = false := by
  simp [versioned]

theorem mem_repeatables : m ∈ repeatables migrations ↔ m ∈ migrations ∧ m.flags.repeatable := by
  simp [repeatables]

theorem versioned_append (a b : List (Migration V)) : versioned (a ++ b) = versioned a ++ versioned b := List.filter_append ..

theorem versioned_repeatables {rerun : List (Migration V)} (hs : rerun ⊆ repeatables migrations) : versioned rerun = [] :=
  filter_eq_nil_iff.mpr fun m hm => by simpa using (mem_repeatables.mp (hs hm)).2

theorem mem_versions_append {a b : List (Migration V)} : v ∈ versions (a ++ b) ↔ v ∈ versions a ∨ v ∈ versions b := by
  rw [versions, map_append, mem_append]
  rfl

/-- The migrations that ran and were journaled, in order. -/
def completedOf (executed : List (Execution V)) : List (Migration V) :=
  (executed.filter (·.completed)).map (·.migration)

@[simp] theorem completedOf_append (a b : List (Execution V)) : completedOf (a ++ b) = completedOf a ++ completedOf b := by
  simp [completedOf]

theorem fresh_of_allOrNone {completed satisfied : V → Bool} (h : checkSquashAllOrNone migrations completed satisfied = .ok ())
    (hm : m ∈ migrations) (hp : ¬ completed m.version) {d : V} (hd : d ∈ m.supersedes) : ¬ satisfied d := by
  have hc := forM_ok.mp h m hm
  split at hc
  · next hf =>
    obtain hn | hcm | hcn := hf
    · rw [hn] at hd
      exact absurd hd not_mem_nil
    · exact absurd hcm hp
    · exact countP_eq_zero.mp hcn d hd
  · split at hc <;> cases hc

variable [LinearOrder V] {b : Backend V} {j : Journal V} {started latest : V → Option String}

theorem supersedes?_iff :
    j.supersedes? migrations v ↔ v ∈ j.supersededVersions ∨ ∃ s ∈ versioned migrations, v ∈ s.supersedes := by
  simp [supersedes?, computeSuperseded]

theorem satisfies_iff : j.satisfies v ↔ j.isApplied v ∨ v ∈ j.supersededVersions := by
  simp [satisfies]

/-- What the checks of a set guarantee. -/
structure Admitted (j : Journal V) (migrations pending : List (Migration V)) : Prop where
  ordered : Ordered (pendingOf (versioned migrations) j.isApplied (j.supersedes? migrations))
    (fun v => j.isApplied v || j.supersedes? migrations v) pending
  arranged : pending = arrange (pendingOf (versioned migrations) j.isApplied (j.supersedes? migrations))
  plain : ∀ m ∈ migrations, m.flags.repeatable → m.supersedes = []
  undrifted : ∀ entry ∈ j.applied, checkDrift migrations entry = .ok ()
  /-- Nothing that a pending squash stands for is satisfied. -/
  fresh : ∀ m ∈ pending, ∀ d ∈ m.supersedes, ¬ j.satisfies d

theorem Admitted.mem_iff (h : Admitted j migrations pending) :
    m ∈ pending ↔ m ∈ versioned migrations ∧ ¬ j.isApplied m.version ∧ ¬ j.supersedes? migrations m.version := by
  rw [h.ordered.perm.mem_iff, pendingOf, mem_filter]
  simp

theorem plain_of_wellformed (h : checkRepeatableWellformed migrations = .ok ()) (hm : m ∈ migrations)
    (hr : m.flags.repeatable) : m.supersedes = [] := by
  have hc := forM_ok.mp h m ((mem_insertionSort _).mpr hm)
  rw [if_pos hr] at hc
  by_contra hs
  rw [if_pos hs] at hc
  cases hc

theorem checkedPending_ok (h : checkedPending b j migrations = .ok pending) : Admitted j migrations pending := by
  simp only [checkedPending, bind_ok, pure_ok] at h
  obtain ⟨_, _, _, hw, _, hd, _, _, _, _, _, hs, _, hor, _, _, rfl⟩ := h
  have ho := topoOrder_ok hor
  refine ⟨ho, topoOrder_arranged hor, fun m hm => plain_of_wellformed hw hm, forM_ok.mp hd, fun m hm d => ?_⟩
  obtain ⟨hm, hp⟩ := mem_filter.mp (ho.perm.mem_iff.mp hm)
  refine fresh_of_allOrNone hs hm ?_
  simp at hp
  simp [hp.1]

/-- A version that the journal has as a squash is not supplied as a repeatable, unless it is supplied
as something else besides. -/
theorem Admitted.not_isSquash (h : Admitted j migrations pending) {r : Migration V} (hr : r ∈ migrations)
    (hu : ∀ m ∈ migrations, m.version = r.version → m.flags.repeatable) : ¬ j.isSquash r.version := by
  intro hs
  obtain ⟨entry, he, hk⟩ : ∃ entry, j.netApplied r.version = some entry ∧ entry.kind = .squash := by
    unfold isSquash at hs
    cases he : j.netApplied r.version with
    | none => simp [he] at hs
    | some entry => exact ⟨entry, rfl, by simpa [he] using hs⟩
  have hv := version_of_netApplied he
  have hc := h.undrifted entry (mem_applied.mpr (by rw [hv, he]))
  obtain ⟨m, hm⟩ := byVersion_isSome (mem_map_of_mem hr : r.version ∈ versions migrations)
  obtain ⟨hmm, hsm⟩ := mem_of_byVersion hm
  rw [checkDrift, hv, hm] at hc
  simp [hk, hu m hmm hsm] at hc

/-! ### One migration -/

/-- The journal after some migrations were journaled, and some marked. -/
inductive Recorded (kind : Migration V → JournaledKind) (supersedes : Migration V → List V) (j : Journal V) :
    List (Migration V) → Journal V → Prop where
  | nothing : Recorded kind supersedes j [] j
  | marked {ran : List (Migration V)} {j' : Journal V} (m : Migration V) :
    Recorded kind supersedes j ran j' → Recorded kind supersedes j ran (j'.mark m)
  | completed {ran : List (Migration V)} {j' : Journal V} (m : Migration V) :
    Recorded kind supersedes j ran j' → Recorded kind supersedes j (ran ++ [m]) (j'.record m (kind m) (supersedes m))

namespace Recorded
variable {kind : Migration V → JournaledKind} {supersedes : Migration V → List V} {ran : List (Migration V)}
  {j' : Journal V} {v : V}

section
variable (h : Recorded kind supersedes j ran j')
include h

theorem isApplied : j'.isApplied v ↔ v ∈ versions ran ∨ j.isApplied v := by
  induction h with
  | nothing => simp [versions]
  | marked m _ ih => rwa [isApplied_mark]
  | completed m _ ih =>
    rw [isApplied_record, ih, versions, versions, map_append, mem_append]
    simp only [map_cons, map_nil, mem_singleton, eq_comm]
    tauto

theorem netApplied (hv : v ∉ versions ran) : j'.netApplied v = j.netApplied v := by
  induction h with
  | nothing => rfl
  | marked m _ ih => exact ih hv
  | completed m _ ih =>
    simp only [versions, map_append, mem_append, not_or] at hv
    rw [netApplied_record, if_neg (fun heq => hv.2 (by simp [heq]))]
    exact ih hv.1

theorem isSquash_of_not_mem (hv : v ∉ versions ran) : j'.isSquash v ↔ j.isSquash v := by
  rw [isSquash, isSquash, h.netApplied hv]

theorem isSquash_of_mem (hd : (versions ran).Nodup) {m : Migration V}
    (hm : m ∈ ran) : j'.isSquash m.version ↔ kind m = .squash := by
  induction h with
  | nothing => simp at hm
  | marked _ _ ih => exact ih hd hm
  | completed last _ ih =>
    simp only [versions, map_append, map_cons, map_nil] at hd
    obtain ⟨hr, _, hds⟩ := nodup_append.mp hd
    rw [isSquash_record]
    obtain hm | hm := mem_append.mp hm
    · have hne : last.version ≠ m.version := fun heq =>
        hds _ (mem_map_of_mem hm) _ (mem_singleton_self _) heq.symm
      rw [ih hr hm]
      simp [hne]
    · rw [mem_singleton.mp hm]
      simp

theorem edges : j.supersedes ⊆ j'.supersedes := by
  induction h with
  | nothing => exact fun _ he => he
  | marked _ _ ih => exact ih
  | completed _ _ ih => exact fun e he => mem_append_right _ (ih he)

theorem edge_of_mem {m : Migration V} (hm : m ∈ ran) {d : V}
    (hd : d ∈ supersedes m) : (m.version, d) ∈ j'.supersedes := by
  induction h with
  | nothing => simp at hm
  | marked _ _ ih => exact ih hm
  | completed last _ ih =>
    obtain hm | hm := mem_append.mp hm
    · exact mem_append_right _ (ih hm)
    · rw [← mem_singleton.mp hm]
      exact mem_append_left _ (mem_map_of_mem hd)

theorem superseded (hk : ∀ m ∈ ran, ¬ j.isSquash m.version) : j.supersededVersions ⊆ j'.supersededVersions := by
  intro v hv
  obtain ⟨s, he, hsq⟩ := mem_superseded.mp hv
  refine mem_superseded.mpr ⟨s, h.edges he, ?_⟩
  rwa [h.isSquash_of_not_mem fun hs => by
    obtain ⟨m, hm, rfl⟩ := mem_map.mp hs
    exact hk m hm hsq]

/-- Only a repeatable changes what the repeatables last ran with. -/
theorem latestCompletedChecksum (hk : ∀ m, kind m ≠ .repeatable) (v : V) :
    j'.latestCompletedChecksum v = j.latestCompletedChecksum v := by
  induction h with
  | nothing => rfl
  | marked _ _ ih => exact ih
  | completed m _ ih =>
    rw [← ih]
    simp [Journal.latestCompletedChecksum, Journal.record, hk m]

end

end Recorded

/-- What a phase may do with a migration: refuse it, skip it or run it. -/
inductive Moved (b : Backend V) (kind : Migration V → JournaledKind) (supersedes : Migration V → List V) (p : Progress V)
    (m : Migration V) : Progress V → Option (ApplyError V) → Prop where
  | refused (e : ApplyError V) : Moved b kind supersedes p m p (some e)
  | skipped {p' : Progress V} : p'.journal = p.journal → p'.executed = p.executed → Moved b kind supersedes p m p' none
  | ran {p' : Progress V} {failed : Option (ApplyError V)} :
    p.run b m (kind m) (supersedes m) = (p', failed) → Moved b kind supersedes p m p' failed

theorem run_completed {kind : JournaledKind} {supersedes : List V} (h : p.run b m kind supersedes = (p', none)) :
    p'.journal = p.journal.record m kind supersedes ∧ p'.executed = p.executed ++ [⟨m, p.journal, true⟩] ∧
      p'.skippedThisRun = p.skippedThisRun := by
  rw [Progress.run] at h
  split at h <;> cases h
  exact ⟨rfl, rfl, rfl⟩

theorem run_failed {kind : JournaledKind} {supersedes : List V} {e : ApplyError V}
    (h : p.run b m kind supersedes = (p', some e)) :
    (p'.journal = p.journal ∨ p'.journal = p.journal.mark m) ∧ p'.executed = p.executed ++ [⟨m, p.journal, false⟩] := by
  rw [Progress.run] at h
  split at h <;> cases h
  refine ⟨?_, rfl⟩
  split
  · exact .inr rfl
  · exact .inl rfl

/-- The kind that a versioned migration is journaled as. -/
def kindOf (m : Migration V) : JournaledKind := if m.supersedes = [] then .apply else .squash

theorem executeOne_cases (h : executeOne b started p m = (p', failed)) : (∃ e, failed = some e ∧ p' = p) ∨
    (failed = none ∧ p' = { p.skip m with skippedThisRun := m.version :: p.skippedThisRun } ∧ started m.version = none ∧
      ((∃ d ∈ m.dependsOn, d ∈ p.skippedThisRun) ∨ b.evaluatePreconditions m = .skip)) ∨
    (p.run b m (kindOf m) m.supersedes = (p', failed) ∧
      (started m.version = none → ∀ d ∈ m.dependsOn, d ∉ p.skippedThisRun)) := by
  rw [executeOne] at h
  split at h
  · cases h
    exact .inl ⟨_, rfl, rfl⟩
  split at h
  · cases h
    exact .inl ⟨_, rfl, rfl⟩
  · next hs =>
    cases h
    unfold skips at hs
    split at hs
    · split at hs <;> cases hs
    next hm =>
    refine .inr (.inl ⟨rfl, rfl, by simpa using hm, ?_⟩)
    split at hs
    · next hd => exact .inl hd
    · split at hs <;> cases hs
      exact .inr ‹_›
  · next hs =>
    refine .inr (.inr ⟨h, fun hm d hd hsk => ?_⟩)
    rw [skips, if_neg (by simp [hm]), if_pos ⟨d, hd, hsk⟩] at hs
    cases hs

theorem applyRepeatable_cases (h : applyRepeatable b latest p m = (p', failed)) : (∃ e, failed = some e ∧ p' = p) ∨
    (failed = none ∧ p' = p.skip m ∧ (latest m.version = some m.checksum ∨ b.evaluatePreconditions m = .skip)) ∨
    p.run b m .repeatable [] = (p', failed) := by
  rw [applyRepeatable] at h
  split at h
  · next hsm =>
    cases h
    exact .inr (.inl ⟨rfl, rfl, .inl hsm⟩)
  split at h
  · cases h
    exact .inl ⟨_, rfl, rfl⟩
  · next hs =>
    cases h
    exact .inr (.inl ⟨rfl, rfl, .inr hs⟩)
  · exact .inr (.inr h)

theorem executeOne_moved (h : executeOne b started p m = (p', failed)) :
    Moved b kindOf (·.supersedes) p m p' failed := by
  obtain ⟨e, rfl, rfl⟩ | ⟨rfl, rfl, _⟩ | ⟨hr, _⟩ := executeOne_cases h
  · exact .refused e
  · exact .skipped rfl rfl
  · exact .ran hr

theorem applyRepeatable_moved (h : applyRepeatable b latest p m = (p', failed)) :
    Moved b (fun _ => .repeatable) (fun _ => []) p m p' failed := by
  obtain ⟨e, rfl, rfl⟩ | ⟨rfl, rfl, _⟩ | hr := applyRepeatable_cases h
  · exact .refused e
  · exact .skipped rfl rfl
  · exact .ran hr

/-- What a phase did from `p₀` on: it journaled some of its migrations, in their order. -/
structure Advanced (kind : Migration V → JournaledKind) (supersedes : Migration V → List V) (p₀ : Progress V)
    (ran : List (Migration V)) (p : Progress V) : Prop where
  journal : Recorded kind supersedes p₀.journal ran p.journal
  executed : completedOf p.executed = completedOf p₀.executed ++ ran

section
variable {kind : Migration V → JournaledKind} {supersedes : Migration V → List V} {p₀ p p' : Progress V}
  {ran : List (Migration V)} {m : Migration V}

theorem Advanced.step (h : Advanced kind supersedes p₀ ran p) (hm : Moved b kind supersedes p m p' none) :
    Advanced kind supersedes p₀ ran p' ∨ Advanced kind supersedes p₀ (ran ++ [m]) p' := by
  cases hm with
  | skipped hj he => exact .inl ⟨hj ▸ h.journal, he ▸ h.executed⟩
  | ran hr =>
    obtain ⟨hj, he, _⟩ := run_completed hr
    refine .inr ⟨hj ▸ .completed m h.journal, ?_⟩
    rw [he, completedOf_append, h.executed, append_assoc]
    rfl

theorem Advanced.stop (h : Advanced kind supersedes p₀ ran p) {e : ApplyError V}
    (hm : Moved b kind supersedes p m p' (some e)) : Advanced kind supersedes p₀ ran p' := by
  cases hm with
  | refused => exact h
  | ran hr =>
    obtain ⟨hj, he⟩ := run_failed hr
    refine ⟨?_, ?_⟩
    · obtain hj | hj := hj <;> rw [hj]
      · exact h.journal
      · exact .marked m h.journal
    · rw [he, completedOf_append, h.executed]
      simp [completedOf]

theorem untilError_advanced {f : Progress V → Migration V → Progress V × Option (ApplyError V)}
    (hf : ∀ {p m p' failed}, f p m = (p', failed) → Moved b kind supersedes p m p' failed)
    {l : List (Migration V)} {failed : Option (ApplyError V)} (h : untilError f p₀ l = (p, failed)) :
    ∃ ran, ran.Sublist l ∧ Advanced kind supersedes p₀ ran p := by
  have hal := untilError_invariant (f := f) (fun before p => ∃ ran, ran.Sublist before ∧ Advanced kind supersedes p₀ ran p)
    (fun p => ∃ ran, ran.Sublist l ∧ Advanced kind supersedes p₀ ran p)
    ⟨[], .slnil, .nothing, (append_nil _).symm⟩ ?_ ?_ h
  · obtain ⟨_, hr⟩ | ⟨_, hr⟩ := hal <;> exact hr
  · rintro before a after p p' - ⟨ran, hr, ha⟩ hs
    obtain hsm | hm := ha.step (hf hs)
    · exact ⟨ran, hr.trans (sublist_append_left _ _), hsm⟩
    · exact ⟨ran ++ [a], hr.append (Sublist.refl _), hm⟩
  · rintro before a after p p' e hl ⟨ran, hr, ha⟩ hs
    exact ⟨ran, hr.trans (hl ▸ sublist_append_left _ _), ha.stop (hf hs)⟩

end

/-- **What a call does**: nothing, or it journals some of the pending versioned migrations and
after them some of the repeatables. -/
theorem applyLocked_advanced (h : applyLocked b j migrations = (p, failed)) : (p.journal = j ∧ p.executed = []) ∨
    ∃ pending ran rerun middle, Admitted j migrations pending ∧ ran.Sublist pending ∧
      Recorded kindOf (·.supersedes) j ran middle ∧ rerun ⊆ repeatables migrations ∧
      Recorded (fun _ => .repeatable) (fun _ => []) middle rerun p.journal ∧ completedOf p.executed = ran ++ rerun := by
  rw [applyLocked] at h
  split at h
  · cases h
    exact .inl ⟨rfl, rfl⟩
  next pending hadm =>
  have had := checkedPending_ok hadm
  split at h
  · next p₁ e he =>
    cases h
    obtain ⟨ran, hrn, ha⟩ := untilError_advanced executeOne_moved he
    exact .inr ⟨pending, ran, [], p.journal, had, hrn, ha.journal, nil_subset _, .nothing, by
      rw [ha.executed, append_nil]; rfl⟩
  · next p₁ he =>
    obtain ⟨ran, hrn, ha⟩ := untilError_advanced executeOne_moved he
    suffices hr : ∃ rerun, rerun ⊆ repeatables migrations ∧
        Advanced (fun _ => .repeatable) (fun _ => []) p₁ rerun p by
      obtain ⟨rerun, hs, hr⟩ := hr
      refine .inr ⟨pending, ran, rerun, p₁.journal, had, hrn, ha.journal, hs, hr.journal, ?_⟩
      rw [hr.executed, ha.executed]
      rfl
    rw [applyRepeatables] at h
    split at h
    · cases h
      exact ⟨[], nil_subset _, .nothing, (append_nil _).symm⟩
    split at h
    · cases h
      exact ⟨[], nil_subset _, .nothing, (append_nil _).symm⟩
    next ordered ho =>
    simp only [bind_ok, pure_ok] at ho
    obtain ⟨_, hor, _, _, rfl⟩ := ho
    obtain ⟨rerun, hr, ha⟩ := untilError_advanced applyRepeatable_moved h
    exact ⟨rerun, fun m hm => (topoOrder_ok hor).perm.mem_iff.mp (hr.subset hm), ha⟩

end Zeroship.Migrate
