import Zeroship.Base.Fallible
import Zeroship.Base.Kahn
import Zeroship.Migrate.Journal

/-! The order in which a set of migrations runs.

A migration stands after those of the set that it depends on; between migrations that could
both come next the lower version goes first. A dependency outside the set has to be met
already, and a set with a cycle, or with one version twice, has no order. -/
namespace Zeroship.Migrate
open Base List

variable {V : Type} [LinearOrder V] {nodes : List (Migration V)} {preSatisfied : V → Bool} {cycle : List V}

inductive ApplyError (V : Type) where
  | unresolvedRollbackMarker (version : V)
  | repeatableCannotSquash (version : V)
  | repeatableHasDown (version : V)
  | onceOnlyDependsOnRepeatable (version dependency : V)
  | checksumDrift (version : V) (recorded expected : String)
  /-- The expand half a contract waits for; nothing if it declares none. -/
  | expandNotApplied (version : V) (expand : Option V)
  | overlappingSquashes (first second shared : V)
  | squashAlreadyApplied (version : V)
  | squashPartialOverlap (version : V) (applied total : Nat)
  | missingDependency (version missing : V)
  | dependencyCycle (versions : List V)
  | guard (version : V)
  | nonIdempotentNonTxn (version : V)
  | preconditionFailed (version : V)
  | migrationFailed (version : V)
deriving DecidableEq

variable (migrations : List (Migration V))

def versions : List V := migrations.map (·.version)

omit [LinearOrder V] in
@[simp] theorem versions_cons (m : Migration V) (rest : List (Migration V)) :
    versions (m :: rest) = m.version :: versions rest := rfl

/-- The migration of a version; the last one if there are several. -/
def byVersion (v : V) : Option (Migration V) :=
  migrations.reverse.find? (·.version = v)

def dependencies (nodes : List (Migration V)) : List (V × V) :=
  nodes.flatMap fun m => (m.dependsOn.filter (· ∈ versions nodes)).map (·, m.version)

/-- The nodes in order, as far as there is one. -/
def arrange (nodes : List (Migration V)) : List (Migration V) :=
  (Kahn.order (versions nodes) (dependencies nodes)).filterMap (byVersion nodes)

/-- The nodes that still wait for others at the end. -/
def cyclic (nodes : List (Migration V)) : List V :=
  ((versions nodes).dedup.filter (0 < (Kahn.finish (versions nodes) (dependencies nodes)).indegree ·)).insertionSort (· ≤ ·)

def topoOrderVersionTiebroken (nodes : List (Migration V)) (preSatisfied : V → Bool) :
    Except (ApplyError V) (List (Migration V)) := do
  forM nodes fun m => forM m.dependsOn fun dep =>
    if dep ∈ versions nodes ∨ preSatisfied dep then pure () else throw (.missingDependency m.version dep)
  if (arrange nodes).length = nodes.length then pure (arrange nodes) else throw (.dependencyCycle (cyclic nodes))

/-- What a supersession makes redundant: by a net-applied squash, or by one of the set. -/
def computeSuperseded (journalSuperseded : List V) (v : V) : Bool :=
  v ∈ journalSuperseded ∨ ∃ m ∈ migrations, v ∈ m.supersedes

variable (completed satisfied : V → Bool)

def pendingOf : List (Migration V) :=
  migrations.filter fun m => !completed m.version && !satisfied m.version

def orderPending :
    Except (ApplyError V) (List (Migration V)) :=
  topoOrderVersionTiebroken (pendingOf migrations completed satisfied) fun v => completed v || satisfied v

/-- Among themselves; a dependency on anything else has to be in the journal. -/
def orderRepeatables (repeatables : List (Migration V)) (satisfied : V → Bool) :
    Except (ApplyError V) (List (Migration V)) :=
  topoOrderVersionTiebroken repeatables satisfied

section
variable {nodes : List (Migration V)} {m : Migration V} {v d : V}

theorem mem_of_byVersion (h : byVersion nodes v = some m) : m ∈ nodes ∧ m.version = v := by
  have hv := find?_some h
  exact ⟨mem_reverse.mp (mem_of_find?_eq_some h), of_decide_eq_true hv⟩

theorem byVersion_isSome (hv : v ∈ versions nodes) : ∃ m, byVersion nodes v = some m := by
  obtain ⟨m, hm, rfl⟩ := mem_map.mp hv
  exact Option.isSome_iff_exists.mp (find?_isSome.mpr ⟨m, mem_reverse.mpr hm, by simp⟩)

theorem mem_dependencies :
    (d, v) ∈ dependencies nodes ↔ ∃ m ∈ nodes, m.version = v ∧ d ∈ m.dependsOn ∧ d ∈ versions nodes := by
  unfold dependencies
  simp only [mem_flatMap, mem_map, mem_filter, Prod.mk.injEq, decide_eq_true_eq]
  constructor
  · rintro ⟨m, hm, _, ⟨hd, hn⟩, rfl, rfl⟩
    exact ⟨m, hm, rfl, hd, hn⟩
  · rintro ⟨m, hm, rfl, hd, hn⟩
    exact ⟨m, hm, d, ⟨hd, hn⟩, rfl, rfl⟩

theorem dependencies_nodes (nodes : List (Migration V)) : ∀ e ∈ dependencies nodes, e.2 ∈ versions nodes := by
  rintro ⟨d, v⟩ he
  obtain ⟨m, hm, rfl, _⟩ := mem_dependencies.mp he
  exact mem_map_of_mem hm

theorem versions_byVersion {l : List V} (hl : l ⊆ versions nodes) :
    versions (l.filterMap (byVersion nodes)) = l := by
  rw [versions, map_filterMap]
  refine (filterMap_congr fun v hv => ?_).trans filterMap_some
  obtain ⟨m, hm⟩ := byVersion_isSome (hl hv)
  rw [hm, Option.map_some, (mem_of_byVersion hm).2]

end

/-- What an order of the nodes guarantees. -/
structure Ordered (nodes : List (Migration V)) (preSatisfied : V → Bool) (l : List (Migration V)) : Prop where
  perm : l.Perm nodes
  distinct : (versions l).Nodup
  resolved : ∀ m ∈ l, ∀ d ∈ m.dependsOn, d ∈ versions l ∨ preSatisfied d
  /-- Nothing stands before a node it depends on. -/
  before : ¬ ExistsSplit (fun earlier m => ∃ d ∈ m.dependsOn, d ∈ versions l ∧ d ∉ versions earlier) l

theorem versions_arrange (nodes : List (Migration V)) :
    versions (arrange nodes) = Kahn.order (versions nodes) (dependencies nodes) :=
  versions_byVersion (Kahn.order_topological (dependencies_nodes nodes)).sub

theorem topoOrder_arranged {l : List (Migration V)}
    (h : topoOrderVersionTiebroken nodes preSatisfied = .ok l) : l = arrange nodes := by
  rw [topoOrderVersionTiebroken, bind_ok] at h
  obtain ⟨_, -, h⟩ := h
  split at h <;> cases h
  rfl

theorem topoOrder_ok {l : List (Migration V)}
    (h : topoOrderVersionTiebroken nodes preSatisfied = .ok l) : Ordered nodes preSatisfied l := by
  rw [topoOrderVersionTiebroken, bind_ok] at h
  obtain ⟨_, hr, h⟩ := h
  split at h
  · next hl =>
    cases pure_ok.mp h
    have ho := Kahn.order_topological (dependencies_nodes nodes)
    rw [← versions_arrange] at ho
    have hp : (versions (arrange nodes)).Perm (versions nodes) := by
      refine ho.perm ?_
      rw [versions, versions, length_map, length_map, hl]
    have hn : (arrange nodes).Perm nodes := by
      refine ((Nodup.of_map _ ho.nodup).subperm fun m hm => ?_).perm_of_length_le hl.ge
      obtain ⟨v, _, hv⟩ := mem_filterMap.mp hm
      exact (mem_of_byVersion hv).1
    refine ⟨hn, ho.nodup, fun m hm d hd => ?_, ?_⟩
    · have hc := forM_ok.mp (forM_ok.mp hr m (hn.mem_iff.mp hm)) d hd
      rw [hp.mem_iff]
      by_contra hot
      rw [if_neg hot] at hc
      cases hc
    · rintro ⟨earlier, m, later, heq, d, hd, hnd, hot⟩
      have hm : m ∈ nodes := hn.mem_iff.mp (heq ▸ by simp)
      refine ho.sources ⟨versions earlier, m.version, versions later, ?_, d, ?_, hot⟩
      · rw [heq]
        simp [versions]
      · exact mem_dependencies.mpr ⟨m, hm, rfl, hd, hp.mem_iff.mp hnd⟩
  · cases h

theorem topoOrder_error (h : topoOrderVersionTiebroken nodes preSatisfied = .error (.dependencyCycle cycle)) :
    (arrange nodes).length ≠ nodes.length := by
  intro hl
  rw [topoOrderVersionTiebroken, if_pos hl] at h
  cases hr : (forM nodes fun m => forM m.dependsOn fun dep =>
      if dep ∈ versions nodes ∨ preSatisfied dep then pure () else throw (.missingDependency m.version dep) :
        Except (ApplyError V) Unit) with
  | ok _ =>
    rw [hr] at h
    cases h
  | error e =>
    rw [hr] at h
    cases h
    obtain ⟨m, _, hm⟩ := forM_error hr
    obtain ⟨d, _, hd⟩ := forM_error hm
    split at hd <;> cases hd

/-- What is refused for a cycle has a version twice, or some of its nodes all wait for one another. -/
theorem topoOrder_cycle (h : topoOrderVersionTiebroken nodes preSatisfied = .error (.dependencyCycle cycle)) :
    ¬ (versions nodes).Nodup ∨ ∃ stuck ⊆ nodes, stuck ≠ [] ∧ ∀ m ∈ stuck, ∃ d ∈ m.dependsOn, d ∈ versions stuck := by
  by_contra hnt
  obtain ⟨hn, hf⟩ := not_or.mp hnt
  rw [not_not] at hn
  have hor := Kahn.order_topological (dependencies_nodes nodes)
  rw [← versions_arrange] at hor
  have hs : ∀ v ∈ versions nodes, v ∉ versions (arrange nodes) →
      v ∈ versions (nodes.filter (·.version ∉ versions (arrange nodes))) := by
    intro v hv ho
    obtain ⟨m, hm, rfl⟩ := mem_map.mp hv
    exact mem_map_of_mem (mem_filter.mpr ⟨hm, by simpa using ho⟩)
  refine hf ⟨nodes.filter (·.version ∉ versions (arrange nodes)), filter_subset_self _, ?_, ?_⟩
  · intro hnn
    refine topoOrder_error h (le_antisymm ?_ ?_)
    · simpa [versions] using (hor.nodup.subperm hor.sub).length_le
    have hsb : versions nodes ⊆ versions (arrange nodes) := fun v hv => by
      by_contra ho
      have := hs v hv ho
      rw [hnn] at this
      exact not_mem_nil this
    simpa [versions] using (hn.subperm hsb).length_le
  · intro m hm
    obtain ⟨hm, ho⟩ := mem_filter.mp hm
    obtain ⟨d, hd, ho'⟩ := hor.rest m.version (mem_map_of_mem hm) (of_decide_eq_true ho)
    obtain ⟨m', hm', hsm, hdp, hnd⟩ := mem_dependencies.mp hd
    rw [inj_on_of_nodup_map hn hm' hm hsm] at hdp
    exact ⟨d, hdp, hs d hnd ho'⟩

omit [LinearOrder V] in
/-- Nothing in an order waits for itself. -/
theorem Ordered.not_stuck {l stuck : List (Migration V)} (ho : Ordered nodes preSatisfied l) (hs : stuck ⊆ nodes)
    (hw : ∀ m ∈ stuck, ∃ d ∈ m.dependsOn, d ∈ versions stuck) : stuck = [] := by
  have hl : versions stuck ⊆ versions l := map_subset _ fun m hm => ho.perm.mem_iff.mpr (hs hm)
  -- the first of them in the order would stand before one that it depends on
  have hf : ∀ earlier later, l = earlier ++ later → ∀ v ∈ versions stuck, v ∉ versions earlier := by
    intro earlier
    induction earlier using reverseRecOn with
    | nil => simp [versions]
    | append_singleton earlier m ih =>
      intro later heq v hv hm
      rw [append_assoc, singleton_append] at heq
      rw [versions, map_append, mem_append, map_singleton, mem_singleton] at hm
      rcases hm with hm | rfl
      · exact ih _ heq v hv hm
      obtain ⟨m', hm', hv'⟩ := mem_map.mp hv
      have hml : m ∈ l := heq ▸ by simp
      obtain rfl : m' = m := inj_on_of_nodup_map ho.distinct (ho.perm.mem_iff.mpr (hs hm')) hml hv'
      obtain ⟨d, hd, hdv⟩ := hw m' hm'
      exact ho.before ⟨earlier, m', later, heq, d, hd, hl hdv, ih _ heq d hdv⟩
  refine eq_nil_iff_forall_not_mem.mpr fun m hm => ?_
  exact hf l [] (append_nil l).symm _ (mem_map_of_mem hm) (hl (mem_map_of_mem hm))

/-- A set has an order exactly if its versions are distinct, each dependency is in the set or met already,
and no part of the set waits for itself. -/
theorem topoOrder_accepts_iff (nodes : List (Migration V)) (preSatisfied : V → Bool) :
    (∃ l, topoOrderVersionTiebroken nodes preSatisfied = .ok l) ↔ (versions nodes).Nodup ∧
      (∀ m ∈ nodes, ∀ d ∈ m.dependsOn, d ∈ versions nodes ∨ preSatisfied d) ∧
      ∀ stuck ⊆ nodes, (∀ m ∈ stuck, ∃ d ∈ m.dependsOn, d ∈ versions stuck) → stuck = [] := by
  constructor
  · rintro ⟨l, h⟩
    have ho := topoOrder_ok h
    have hv : (versions l).Perm (versions nodes) := ho.perm.map _
    refine ⟨hv.nodup ho.distinct, fun m hm d hd => ?_, fun _ => ho.not_stuck⟩
    exact (ho.resolved m (ho.perm.mem_iff.mpr hm) d hd).imp_left hv.mem_iff.mp
  · rintro ⟨hn, hr, hs⟩
    have hc : (forM nodes fun m => forM m.dependsOn fun dep =>
        if dep ∈ versions nodes ∨ preSatisfied dep then pure () else throw (.missingDependency m.version dep) :
          Except (ApplyError V) Unit) = .ok () :=
      forM_ok.mpr fun m hm => forM_ok.mpr fun d hd => if_pos (hr m hm d hd)
    by_cases hl : (arrange nodes).length = nodes.length
    · exact ⟨_, by rw [topoOrderVersionTiebroken, hc, if_pos hl]; rfl⟩
    have he : topoOrderVersionTiebroken nodes preSatisfied = .error (.dependencyCycle (cyclic nodes)) := by
      rw [topoOrderVersionTiebroken, hc, if_neg hl]
      rfl
    rcases topoOrder_cycle he with hd | ⟨stuck, hsub, hne, hw⟩
    · exact absurd hn hd
    · exact absurd (hs stuck hsub hw) hne

variable {nodes' l : List (Migration V)}

theorem byVersion_eq_some (hn : (versions nodes).Nodup) {m : Migration V} {v : V} :
    byVersion nodes v = some m ↔ m ∈ nodes ∧ m.version = v := by
  refine ⟨mem_of_byVersion, ?_⟩
  rintro ⟨hm, rfl⟩
  obtain ⟨m', h⟩ := byVersion_isSome (mem_map_of_mem hm)
  obtain ⟨hm', hv⟩ := mem_of_byVersion h
  rw [h, inj_on_of_nodup_map hn hm' hm hv]

theorem arrange_perm (hp : nodes.Perm nodes') (hn : (versions nodes).Nodup) : arrange nodes = arrange nodes' := by
  have hv : (versions nodes).Perm (versions nodes') := hp.map _
  have hd : (dependencies nodes).Perm (dependencies nodes') := by
    unfold dependencies
    simp only [hv.mem_iff]
    exact hp.flatMap_right _
  have hb : byVersion nodes = byVersion nodes' := by
    ext v m
    rw [byVersion_eq_some hn, byVersion_eq_some (hv.nodup hn), hp.mem_iff]
  unfold arrange
  rw [Kahn.order_perm hv hd, hb]

/-- An order of a set is the order of it in any other listing. -/
theorem topoOrder_perm (hp : nodes.Perm nodes') (h : topoOrderVersionTiebroken nodes preSatisfied = .ok l) :
    topoOrderVersionTiebroken nodes' preSatisfied = .ok l := by
  have ho := topoOrder_ok h
  have hn : (versions nodes).Nodup := (ho.perm.map _).nodup ho.distinct
  have hv : ∀ d, d ∈ versions nodes' ↔ d ∈ versions nodes := fun d => (hp.map _).symm.mem_iff
  rw [topoOrderVersionTiebroken, bind_ok] at h ⊢
  obtain ⟨_, hr, h⟩ := h
  split at h
  case isFalse => cases h
  case isTrue hl =>
    refine ⟨(), forM_ok.mpr fun m hm => ?_, ?_⟩
    · simp only [hv]
      exact forM_ok.mp hr m (hp.mem_iff.mpr hm)
    · rw [← arrange_perm hp hn, ← hp.length_eq, if_pos hl]
      exact h

/-- Whether a set runs, and in which order, does not depend on how it is listed. -/
theorem topoOrder_unlisted (hp : nodes.Perm nodes') :
    topoOrderVersionTiebroken nodes preSatisfied = .ok l ↔ topoOrderVersionTiebroken nodes' preSatisfied = .ok l :=
  ⟨topoOrder_perm hp, topoOrder_perm hp.symm⟩

theorem topoOrder_unlisted_pair :
    topoOrderVersionTiebroken [({ version := 1, dependsOn := [2] } : Migration Nat), { version := 2 }] (fun _ => false) =
      .ok [{ version := 2 }, { version := 1, dependsOn := [2] }] :=
  (topoOrder_unlisted (.swap ..)).mp (by decide +kernel)

end Zeroship.Migrate
