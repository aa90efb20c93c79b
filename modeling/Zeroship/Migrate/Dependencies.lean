import Zeroship.Migrate.Steps

/-! Whether what a migration depends on is there when it runs.

A dependency is satisfied by the version itself or by a squash that stands for it. The order of
the pending migrations and the skipping of what depends on a skipped one see to that, with three
gaps. A dependency that a squash of the same set stands for counts as met before the squash ran.
A marker makes a migration run although a dependency was skipped. And a repeatable runs although
one that it depends on was skipped. `dependencies_satisfied` is for the calls without them. -/
namespace Zeroship.Migrate
open Base List

variable {V : Type} [LinearOrder V] {b : Backend V} {j : Journal V} {migrations pending : List (Migration V)}
  {before after : List (Migration V)} {m : Migration V} {p p' : Progress V}

/-- Net-applied, or listed by a squash that is net-applied. -/
def Satisfied (migrations : List (Migration V)) (j : Journal V) (v : V) : Prop :=
  j.isApplied v ∨ v ∈ j.supersededVersions ∨ ∃ s ∈ migrations, j.isApplied s.version ∧ v ∈ s.supersedes

instance (migrations : List (Migration V)) (j : Journal V) (v : V) : Decidable (Satisfied migrations j v) :=
  inferInstanceAs (Decidable (_ ∨ _))

/-- No version is supplied both as a repeatable and as a versioned migration. -/
def Unmixed (migrations : List (Migration V)) : Prop :=
  ∀ r ∈ repeatables migrations, ∀ m ∈ versioned migrations, m.version ≠ r.version

instance (migrations : List (Migration V)) : Decidable (Unmixed migrations) := inferInstanceAs (Decidable (∀ _, _))

/-- Supplied, versioned and neither applied nor redundant. -/
def Pending (j : Journal V) (migrations : List (Migration V)) (m : Migration V) : Prop :=
  m ∈ versioned migrations ∧ ¬ j.isApplied m.version ∧ ¬ j.supersedes? migrations m.version

instance (j : Journal V) (migrations : List (Migration V)) (m : Migration V) : Decidable (Pending j migrations m) :=
  inferInstanceAs (Decidable (_ ∧ _))

/-- Pending and without a marker, and skipped by its precondition or with something that it depends on. -/
inductive Skipped (b : Backend V) (j : Journal V) (migrations : List (Migration V)) : Migration V → Prop
  | verdict {m : Migration V} (pending : Pending j migrations m) (unmarked : j.started m.version = none)
      (skip : b.evaluatePreconditions m = .skip) : Skipped b j migrations m
  | inherited {m d : Migration V} (pending : Pending j migrations m) (unmarked : j.started m.version = none)
      (dependency : d.version ∈ m.dependsOn) (skipped : Skipped b j migrations d) : Skipped b j migrations m

/-- The order of the pending migrations has one before the other. -/
def Precedes (j : Journal V) (migrations : List (Migration V)) (s m : Migration V) : Prop :=
  let order := versions (arrange (pendingOf (versioned migrations) j.isApplied (j.supersedes? migrations)))
  order.idxOf s.version < order.idxOf m.version

instance (j : Journal V) (migrations : List (Migration V)) (s m : Migration V) : Decidable (Precedes j migrations s m) :=
  inferInstanceAs (Decidable (_ < _))

/-- A call in which nothing runs ahead of what it depends on. -/
structure Sequenced (b : Backend V) (j : Journal V) (migrations : List (Migration V)) : Prop where
  unmixed : Unmixed migrations
  /-- What a squash of the set stands for is there already, or the dependent waits for a pending one
  too, or one runs that comes before it. -/
  covered : ∀ m, Pending j migrations m → ∀ d ∈ m.dependsOn, j.supersedes? migrations d →
    Satisfied migrations j d ∨ ∃ s, Pending j migrations s ∧ d ∈ s.supersedes ∧
      (s.version ∈ m.dependsOn ∨ Precedes j migrations s m ∧ ¬ Skipped b j migrations s)
  /-- Where a marker forces a migration to run, nothing that it depends on is skipped. -/
  marked : ∀ m, Pending j migrations m → (j.started m.version).isSome → ∀ d, d.version ∈ m.dependsOn →
    ¬ Skipped b j migrations d
  /-- A repeatable that another depends on is there already, or is not skipped. -/
  rerun : ∀ r ∈ repeatables migrations, ∀ d ∈ repeatables migrations, d.version ∈ r.dependsOn →
    Satisfied migrations j d.version ∨
      b.evaluatePreconditions d ≠ .skip ∧ j.latestCompletedChecksum d.version ≠ some d.checksum

section
variable {kind : Migration V → JournaledKind} {supersedes : Migration V → List V} {ran : List (Migration V)}
  {j' : Journal V}

theorem Recorded.satisfied (h : Recorded kind supersedes j ran j') (hk : ∀ m ∈ ran, ¬ j.isSquash m.version) {v : V}
    (hv : Satisfied migrations j v) : Satisfied migrations j' v := by
  obtain hv | hv | ⟨s, hs, ha, hv⟩ := hv
  · exact .inl (h.isApplied.mpr (.inr hv))
  · exact .inr (.inl (h.superseded hk hv))
  · exact .inr (.inr ⟨s, hs, h.isApplied.mpr (.inr ha), hv⟩)

end

/-- Every `up` ran on satisfied dependencies. -/
def Founded (migrations : List (Migration V)) (executed : List (Execution V)) : Prop :=
  ∀ x ∈ executed, ∀ d ∈ x.migration.dependsOn, Satisfied migrations x.journal d

instance (migrations : List (Migration V)) (executed : List (Execution V)) : Decidable (Founded migrations executed) :=
  inferInstanceAs (Decidable (∀ _, _))

theorem Founded.snoc {executed : List (Execution V)} (h : Founded migrations executed) {x : Execution V}
    (hx : ∀ d ∈ x.migration.dependsOn, Satisfied migrations x.journal d) : Founded migrations (executed ++ [x]) := by
  intro y hy
  obtain hy | hy := mem_append.mp hy
  · exact h y hy
  · rw [mem_singleton.mp hy]
    exact hx

/-! ### The versioned phase -/

/-- After some of the pending migrations: each is in the journal or skipped. -/
structure Executing (b : Backend V) (migrations : List (Migration V)) (j : Journal V) (before : List (Migration V))
    (p : Progress V) : Prop where
  recorded : ∃ ran, ran.Sublist before ∧ Recorded kindOf (·.supersedes) j ran p.journal
  reached : ∀ m ∈ before, p.journal.isApplied m.version ∨ m.version ∈ p.skippedThisRun
  skipped : ∀ v ∈ p.skippedThisRun, ∃ m, m.version = v ∧ Skipped b j migrations m
  founded : Founded migrations p.executed

section
variable (hadmitted : Admitted j migrations pending) (hsequenced : Sequenced b j migrations)
include hadmitted hsequenced

omit hsequenced in
/-- What was reached and is not skipped is in the journal. -/
theorem Executing.applied (h : Executing b migrations j before p) (hsplit : pending = before ++ after) {s : Migration V}
    (hs : s ∈ before) (hsk : ¬ Skipped b j migrations s) : p.journal.isApplied s.version := by
  obtain ha | hv := h.reached s hs
  · exact ha
  obtain ⟨q, hq, hskq⟩ := h.skipped s.version hv
  have hqp : q ∈ pending := hadmitted.mem_iff.mpr (by cases hskq <;> assumption)
  have hsp : s ∈ pending := hsplit ▸ mem_append_left _ hs
  exact absurd (inj_on_of_nodup_map hadmitted.ordered.distinct hqp hsp hq ▸ hskq) hsk

/-- A pending migration that runs has its pending dependencies in the journal. -/
theorem Executing.dependency_applied (h : Executing b migrations j before p) (hsplit : pending = before ++ m :: after)
    (hr : j.started m.version = none → ∀ d ∈ m.dependsOn, d ∉ p.skippedThisRun) {d : V} (hd : d ∈ m.dependsOn)
    (hp : d ∈ versions pending) : p.journal.isApplied d := by
  have hb : d ∈ versions before := by
    by_contra ho
    exact hadmitted.ordered.before ⟨before, m, after, hsplit, d, hd, hp, ho⟩
  obtain ⟨q, hq, rfl⟩ := mem_map.mp hb
  by_cases hmr : j.started m.version = none
  · exact (h.reached q hq).resolve_right (hr hmr q.version hd)
  · have hm : Pending j migrations m := hadmitted.mem_iff.mp (hsplit ▸ by simp)
    exact h.applied hadmitted hsplit hq (hsequenced.marked m hm (Option.isSome_iff_ne_none.mpr hmr) q hd)

theorem Executing.satisfied (h : Executing b migrations j before p) (hsplit : pending = before ++ m :: after)
    (hr : j.started m.version = none → ∀ d ∈ m.dependsOn, d ∉ p.skippedThisRun) :
    ∀ d ∈ m.dependsOn, Satisfied migrations p.journal d := by
  intro d hd
  have hm : m ∈ pending := hsplit ▸ by simp
  have hp : Pending j migrations m := hadmitted.mem_iff.mp hm
  obtain ⟨ran, hrn, hrc⟩ := h.recorded
  have hmn : ∀ {v : V}, Satisfied migrations j v → Satisfied migrations p.journal v := by
    refine hrc.satisfied fun q hq hsq => ?_
    have hq : q ∈ pending := hsplit ▸ mem_append_left _ (hrn.subset hq)
    exact (hadmitted.mem_iff.mp hq).2.1 (Journal.applied_of_squash hsq)
  obtain hin | hmt := hadmitted.ordered.resolved m hm d hd
  · exact .inl (h.dependency_applied hadmitted hsequenced hsplit hr hd hin)
  obtain ha | hsp := (Bool.or_eq_true _ _).mp hmt
  · exact hmn (.inl ha)
  obtain hst | ⟨s, hw, hc, hs⟩ := hsequenced.covered m hp d hd hsp
  · exact hmn hst
  have hsm : s ∈ migrations := (mem_versioned.mp hw.1).1
  have hs' : s ∈ pending := hadmitted.mem_iff.mpr hw
  refine .inr (.inr ⟨s, hsm, ?_, hc⟩)
  obtain hdp | ⟨hlt, hsk⟩ := hs
  · exact h.dependency_applied hadmitted hsequenced hsplit hr hdp (mem_map_of_mem hs')
  · -- it comes before in the order, so it was reached
    refine h.applied hadmitted hsplit ?_ hsk
    have hv : versions pending = versions before ++ m.version :: versions after := by simp [hsplit, versions]
    have hnd := hadmitted.ordered.distinct
    rw [Precedes, ← hadmitted.arranged, hv, idxOf_append, idxOf_append] at hlt
    rw [hv, nodup_append, nodup_cons] at hnd
    rw [if_neg fun hmb => hnd.2.2 _ hmb _ mem_cons_self rfl, idxOf_cons_self] at hlt
    split at hlt
    · next hsb =>
      obtain ⟨q, hq, hqs⟩ := mem_map.mp hsb
      have hqp : q ∈ pending := hsplit ▸ mem_append_left _ hq
      rwa [← inj_on_of_nodup_map hadmitted.ordered.distinct hqp hs' hqs]
    · omega

theorem Executing.step (hsplit : pending = before ++ m :: after) (h : Executing b migrations j before p)
    (hst : executeOne b j.started p m = (p', none)) : Executing b migrations j (before ++ [m]) p' := by
  obtain ⟨ran, hrn, hr⟩ := h.recorded
  obtain ⟨_, hf, _⟩ | ⟨_, rfl, hm, hwhy⟩ | ⟨hru, hc⟩ := executeOne_cases hst
  · cases hf
  · refine ⟨⟨ran, hrn.trans (sublist_append_left _ _), hr⟩, fun q hq => ?_, fun v hv => ?_, h.founded⟩
    · obtain hq | hq := mem_append.mp hq
      · exact (h.reached q hq).imp_right (mem_cons_of_mem _)
      · rw [mem_singleton.mp hq]
        exact .inr mem_cons_self
    · obtain rfl | hv := mem_cons.mp hv
      · have hp : Pending j migrations m := hadmitted.mem_iff.mp (hsplit ▸ by simp)
        obtain ⟨d, hd, hs⟩ | hs := hwhy
        · obtain ⟨q, rfl, hq⟩ := h.skipped d hs
          exact ⟨m, rfl, .inherited hp hm hd hq⟩
        · exact ⟨m, rfl, .verdict hp hm hs⟩
      · exact h.skipped v hv
  · obtain ⟨hj, he, hs⟩ := run_completed hru
    refine ⟨⟨ran ++ [m], hrn.append (Sublist.refl _), hj ▸ .completed m hr⟩, fun q hq => ?_, ?_, ?_⟩
    · rw [hj, hs, Journal.isApplied_record]
      obtain hq | hq := mem_append.mp hq
      · exact (h.reached q hq).imp_left .inr
      · exact .inl (.inl (by rw [mem_singleton.mp hq]))
    · exact hs ▸ h.skipped
    · exact he ▸ h.founded.snoc (h.satisfied hadmitted hsequenced hsplit hc)

theorem Executing.stop {e : ApplyError V}
    (hsplit : pending = before ++ m :: after) (h : Executing b migrations j before p)
    (hs : executeOne b j.started p m = (p', some e)) : Founded migrations p'.executed := by
  obtain ⟨_, _, rfl⟩ | ⟨hf, _⟩ | ⟨hr, hc⟩ := executeOne_cases hs
  · exact h.founded
  · cases hf
  · exact (run_failed hr).2 ▸ h.founded.snoc (h.satisfied hadmitted hsequenced hsplit hc)

end

/-! ### The repeatable phase -/

/-- After some of the repeatables: each is in the journal or was left as it was. -/
structure Rerunning (b : Backend V) (migrations : List (Migration V)) (j : Journal V) (before : List (Migration V))
    (p : Progress V) : Prop where
  recorded : ∃ ran, ran.Sublist before ∧ Recorded (fun _ => .repeatable) (fun _ => []) j ran p.journal
  reached : ∀ m ∈ before, p.journal.isApplied m.version ∨ j.latestCompletedChecksum m.version = some m.checksum ∨
    b.evaluatePreconditions m = .skip
  founded : Founded migrations p.executed

/-- What the repeatables of a call find when their phase begins. -/
structure Ready (b : Backend V) (migrations ordered : List (Migration V)) (j : Journal V) : Prop where
  ordered : Ordered (repeatables migrations) j.satisfies ordered
  kept : ∀ r ∈ repeatables migrations, ¬ j.isSquash r.version
  rerun : ∀ r ∈ repeatables migrations, ∀ d ∈ repeatables migrations, d.version ∈ r.dependsOn →
    Satisfied migrations j d.version ∨
      b.evaluatePreconditions d ≠ .skip ∧ j.latestCompletedChecksum d.version ≠ some d.checksum

variable {ordered : List (Migration V)}

theorem Rerunning.satisfied (hready : Ready b migrations ordered j) (h : Rerunning b migrations j before p)
    (hsplit : ordered = before ++ m :: after) : ∀ d ∈ m.dependsOn, Satisfied migrations p.journal d := by
  intro d hd
  have hm : ∀ x ∈ ordered, x ∈ repeatables migrations := fun x hx => hready.ordered.perm.mem_iff.mp hx
  obtain ⟨ran, hrn, hr⟩ := h.recorded
  have hmn : ∀ {v : V}, Satisfied migrations j v → Satisfied migrations p.journal v :=
    hr.satisfied fun q hq => hready.kept q (hm q (hsplit ▸ mem_append_left _ (hrn.subset hq)))
  obtain hin | hmt := hready.ordered.resolved m (hsplit ▸ by simp) d hd
  · have hb : d ∈ versions before := by
      by_contra ho
      exact hready.ordered.before ⟨before, m, after, hsplit, d, hd, hin, ho⟩
    obtain ⟨q, hq, rfl⟩ := mem_map.mp hb
    have hskp := hready.rerun m (hm m (hsplit ▸ by simp)) q (hm q (hsplit ▸ by simp [hq])) hd
    obtain ha | hl := h.reached q hq
    · exact .inl ha
    obtain hs | ⟨hv, hc⟩ := hskp
    · exact hmn hs
    · obtain hsm | hsk := hl
      · exact absurd hsm hc
      · exact absurd hsk hv
  · exact hmn ((satisfies_iff.mp hmt).imp_right .inl)

section
variable (hready : Ready b migrations ordered j)
  (hsplit : ordered = before ++ m :: after)
  (h : Rerunning b migrations j before p)
include hready hsplit h

theorem Rerunning.step (hs : applyRepeatable b j.latestCompletedChecksum p m = (p', none)) :
    Rerunning b migrations j (before ++ [m]) p' := by
  obtain ⟨ran, hrn, hr⟩ := h.recorded
  obtain ⟨_, hf, _⟩ | ⟨_, rfl, hl⟩ | hru := applyRepeatable_cases hs
  · cases hf
  · refine ⟨⟨ran, hrn.trans (sublist_append_left _ _), hr⟩, fun q hq => ?_, h.founded⟩
    obtain hq | hq := mem_append.mp hq
    · exact h.reached q hq
    · rw [mem_singleton.mp hq]
      exact .inr hl
  · obtain ⟨hj, he, _⟩ := run_completed hru
    refine ⟨⟨ran ++ [m], hrn.append (Sublist.refl _), hj ▸ .completed m hr⟩, fun q hq => ?_, ?_⟩
    · rw [hj, Journal.isApplied_record]
      obtain hq | hq := mem_append.mp hq
      · exact (h.reached q hq).imp_left .inr
      · exact .inl (.inl (by rw [mem_singleton.mp hq]))
    · exact he ▸ h.founded.snoc (h.satisfied hready hsplit)

theorem Rerunning.stop {e : ApplyError V} (hs : applyRepeatable b j.latestCompletedChecksum p m = (p', some e)) :
    Founded migrations p'.executed := by
  obtain ⟨_, _, rfl⟩ | ⟨hf, _⟩ | hr := applyRepeatable_cases hs
  · exact h.founded
  · cases hf
  · exact (run_failed hr).2 ▸ h.founded.snoc (h.satisfied hready hsplit)

end

/-- No repeatable of an unmixed set has the version of a squash, before or after the versioned phase. -/
theorem Recorded.not_isSquash {ran : List (Migration V)} {j' : Journal V} (hadmitted : Admitted j migrations pending)
    (hu : Unmixed migrations) (hrn : ran.Sublist pending) (h : Recorded kindOf (·.supersedes) j ran j')
    {r : Migration V} (hr : r ∈ repeatables migrations) : ¬ j'.isSquash r.version := by
  rw [h.isSquash_of_not_mem fun hmm => by
    obtain ⟨m, hm, hs⟩ := mem_map.mp hmm
    exact hu r hr m (hadmitted.mem_iff.mp (hrn.subset hm)).1 hs]
  refine hadmitted.not_isSquash (mem_repeatables.mp hr).1 fun m hm hs => ?_
  by_contra ho
  exact hu r hr m (mem_versioned.mpr ⟨hm, by simpa using ho⟩) hs

/-- The versioned phase leaves what the repeatables need. -/
theorem Executing.ready (hadmitted : Admitted j migrations pending)
    (hsequenced : Sequenced b j migrations) (h : Executing b migrations j pending p)
    (ho : orderRepeatables (repeatables migrations) p.journal.satisfies = .ok ordered) :
    Ready b migrations ordered p.journal := by
  obtain ⟨ran, hrn, hrc⟩ := h.recorded
  have hp : ∀ m ∈ ran, Pending j migrations m := fun m hm => hadmitted.mem_iff.mp (hrn.subset hm)
  refine ⟨topoOrder_ok ho, fun r hr => hrc.not_isSquash hadmitted hsequenced.unmixed hrn hr,
    fun r hr d hd hdp => (hsequenced.rerun r hr d hd hdp).imp ?_ ?_⟩
  · exact hrc.satisfied fun m hm hs => (hp m hm).2.1 (Journal.applied_of_squash hs)
  · rintro ⟨hv, hc⟩
    refine ⟨hv, ?_⟩
    rwa [hrc.latestCompletedChecksum fun m => by unfold kindOf; split <;> simp]

def agreeable : Backend Nat where
  guard _ := true
  usesTwoPhasePath _ := false
  validateNonTxn _ := true
  evaluatePreconditions _ := .met
  applyOne _ := .completed false

/-- A migration that depends on what a later squash stands for and waits for the squash, and one
that the order has after it. -/
def waiting : List (Migration Nat) :=
  [{ version := 2, dependsOn := [1, 3] }, { version := 3, supersedes := [1] }, { version := 4, dependsOn := [1] }]

end Zeroship.Migrate
