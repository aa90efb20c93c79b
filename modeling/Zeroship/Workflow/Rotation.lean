import Zeroship.Workflow.Retirement

/-! Claims go round.

A claim takes the first job of the app in dispatch order that it admits, and moves it behind
every other one. So a job that was there when another one was claimed is taken before that one
is claimed again, unless the second claim does not admit it. A job that was published in between
stands behind, and may wait. -/
namespace Zeroship.Workflow

open Base List Manager

variable (t : Entry) (id : JobId)

def claims : Bool := (t.outputs.filterMap granted).any (·.job.id = id)

/-- The job is there and the step could have taken it. -/
def admitted : Bool := t.before.jobs.any fun job => job.id = id && t.input.admits job

/-- The job is in the queue that the step is about. -/
def queued : Bool := t.before.jobs.any fun job => job.id = id && job.appId = t.input.call.app

namespace Change

variable {q : Queue} {r : Request} {s s' : Store} {reply : Reply} {job row : Job}

/-- A row has the order that it had, or a new one because it is new or was claimed. -/
theorem origin (hc : Change q r s s' reply) (hr : row ∈ s'.jobs) :
    (∃ job ∈ s.jobs, row.spec = job.spec ∧ row.dispatchOrder = job.dispatchOrder) ∨
    ∃ c, s.Ticket s' row.appId c ∧ row.dispatchOrder = c + 1 ∧
      ((∀ job ∈ s.jobs, job.id ≠ row.id) ∨ ∃ d, granted (.ok reply) = some d ∧ d.job.id = row.id) := by
  cases hc.entered hr with
  | kept old => exact .inl ⟨row, old, rfl, rfl⟩
  | ticketed app ticket order why => exact .inr ⟨_, ticket, order, why⟩
  | used app held hs order => exact .inl ⟨_, held.row, hs.spec, order⟩
  | rejected app abandoned mem spec order => exact .inl ⟨_, mem, spec, order⟩

theorem keeps_order (hc : Change q r s s' reply) (hk : s.Keyed) (hj : job ∈ s.jobs)
    (hnt : ∀ d, granted (.ok reply) = some d → d.job.id ≠ job.id) :
    ∃ row ∈ s'.jobs, row.spec = job.spec ∧ row.dispatchOrder = job.dispatchOrder := by
  obtain ⟨row, hr, hs⟩ := hc.succeeds hk hj
  refine ⟨row, hr, hs.spec, ?_⟩
  rcases hc.origin hr with ⟨old, ho, hsp, hor⟩ | ⟨c, -, -, hn | ⟨d, hd, hid⟩⟩
  · have hsm : old.id = job.id := congrArg JobSpec.id (hsp.symm.trans hs.spec)
    rw [hor, hk.eq ho hj hsm]
  · exact absurd hs.id.symm (hn job hj)
  · exact absurd (hid.trans hs.id) (hnt d hd)

end Change

/-- No row has an order that its app has not given out. -/
def Store.Ordered (s : Store) : Prop := ∀ job ∈ s.jobs, ∃ c, s.cursor job.appId = some c ∧ job.dispatchOrder ≤ c

theorem Change.ordered {q : Queue} {r : Request} {s s' : Store} {reply : Reply} (hc : Change q r s s' reply)
    (h : s.Ordered) : s'.Ordered := by
  intro row hr
  rcases hc.origin hr with ⟨job, hj, hsp, ho⟩ | ⟨c, ticket, ho, -⟩
  · obtain ⟨c, hcr, hle⟩ := h job hj
    rw [ho, show row.appId = job.appId from congrArg JobSpec.appId hsp]
    exact hc.cursor hcr hle
  · exact ⟨c + 1, ticket.after, ho.le⟩

/-! ### What a claim takes -/

namespace Manager

variable {m : Manager} {env : Environment Store Request (Except Error Reply)} {s s' : Store} {h h₁ h₂ : Log} {t u : Entry}
  {j k : JobId} {job : Job}

/-- A claimed job was the first one that was admitted. It takes the next order of the app's
cursor, which is above the order of every other row of the app. -/
structure Claiming (t : Entry) (job : Job) : Prop where
  row : job ∈ t.before.jobs
  app : job.appId = t.input.call.app
  first : ∀ other ∈ t.before.jobs, t.input.admits other → Store.dispatchLe job other
  last : ∃ c, t.before.cursor job.appId = some c ∧ ∃ row ∈ t.after.jobs, row.spec = job.spec ∧ row.dispatchOrder = c + 1
  others : ∀ other ∈ t.before.jobs, other.id ≠ job.id → other ∈ t.after.jobs

theorem claims_ok (hk : t.before.Keyed) (h : m.machine.step t.before t.input = some (t.after, t.outputs))
    (hc : claims t k) : ∃ job, job.id = k ∧ Claiming t job := by
  obtain ⟨delivery, hd, hid⟩ := any_eq_true.mp hc
  obtain ⟨job, grant, c, rfl, leasing⟩ := step_granted hk h hd
  refine ⟨job, ?_, leasing.row, leasing.app.symm, leasing.first,
    ⟨c, leasing.ticket.before, _, Change.leased_mem leasing, rfl, rfl⟩, ?_⟩
  · rw [decide_eq_true_eq, leasing.spec] at hid
    exact hid
  · intro other ho hne
    rw [leasing.jobs]
    exact Store.mem_put_of_ne ho hne

/-- One job comes before another one in dispatch order. -/
def Before (s : Store) (j k : JobId) : Prop :=
  ∃ first ∈ s.jobs, ∃ second ∈ s.jobs, first.id = j ∧ second.id = k ∧ first.dispatchOrder < second.dispatchOrder

theorem Before.step {r : Request} {os : List (Except Error Reply)} (hb : Before s j k) (hk : s.Keyed)
    (h : m.machine.step s r = some (s', os)) (hn : claims ⟨s, r, os, s'⟩ j = false) : Before s' j k := by
  rcases step_ok hk h with ⟨e, -, rfl⟩ | ⟨reply, rfl, effect⟩
  · exact hb
  obtain ⟨first, hf, second, hsc, rfl, rfl, hlt⟩ := hb
  obtain ⟨first', hf', hsp, ho⟩ := effect.change.keeps_order hk hf fun d hd heq => by
    simp [claims, hd, heq] at hn
  obtain ⟨second', hs', hs⟩ := effect.change.succeeds hk hsc
  exact ⟨first', hf', second', hs', congrArg JobSpec.id hsp, hs.id,
    ho ▸ hlt.trans_le hs.order⟩

theorem Before.run (run : m.machine.Run env Store.empty h s) (hh : h = h₁ ++ t :: h₂) (hb : Before t.after j k)
    (hn : ∀ v ∈ h₂, claims v j = false) : Before s j k := by
  refine run.after (C := fun h₂ s => (∀ v ∈ h₂, claims v j = false) → Before s j k) hh (fun _ _ _ _ => hb) ?_ hn
  intro h₃ s s' r os hr ih ht hn
  obtain ⟨hn, hl⟩ := forall_mem_append.mp hn
  exact (ih hn).step (run_keyed hr) ht (hl _ (mem_singleton_self _))

theorem Claiming.before (hc : Claiming t job) (ho : t.before.Ordered) (hj : queued t j) (hne : j ≠ job.id) :
    Before t.after j job.id := by
  simp only [queued, any_eq_true, Bool.and_eq_true, decide_eq_true_eq] at hj
  obtain ⟨other, hot, rfl, ha⟩ := hj
  obtain ⟨c, hcr, row, hr, hsp, hor⟩ := hc.last
  obtain ⟨d, hd, hle⟩ := ho other hot
  rw [ha, ← hc.app, hcr] at hd
  cases hd
  exact ⟨other, hc.others other hot hne, row, hr, rfl, congrArg JobSpec.id hsp, by omega⟩

theorem run_ordered (run : m.machine.Run env Store.empty h s) : s.Ordered := by
  refine (run.holds (fun s => s.Keyed ∧ s.Ordered) ⟨nodup_nil, by simp [Store.Ordered, Store.empty]⟩ ?_).2
  intro s s' r os ⟨hk, ho⟩ ht
  refine ⟨step_keyed hk ht, ?_⟩
  rcases step_ok hk ht with ⟨e, -, rfl⟩ | ⟨reply, -, effect⟩
  · exact ho
  · exact effect.change.ordered ho

end Manager

/-- Between two claims of a job, every job of the app that was in the queue at the first one
and that the second one admits was claimed. Each claim takes the first job in dispatch order
that it admits, and moves it behind all others. -/
theorem claimed_in_turn {m : Manager} {env : Environment Store Request (Except Error Reply)} {h : Log} {s : Store}
    (run : m.machine.Run env Store.empty h s) :
    (∀ h₁ t h₂ u h₃ j k, h = h₁ ++ t :: (h₂ ++ u :: h₃) → claims t k → claims u k → j ≠ k →
      queued t j → admitted u j → ∃ v ∈ h₂, claims v j) ∧
    ∀ h₁ t h₂ k, h = h₁ ++ t :: h₂ → claims t k → ∃ job, job.id = k ∧ Manager.Claiming t job := by
  refine ⟨?_, ?_⟩
  · intro h₁ t h₂ u h₃ j k hh ht hu hne hq ha
    obtain ⟨hr, -, htk⟩ := run.at_step hh
    obtain ⟨hr', -, ht'⟩ := run.at_step (show h = (h₁ ++ t :: h₂) ++ u :: h₃ by simpa using hh)
    obtain ⟨job, rfl, hc⟩ := claims_ok (run_keyed hr) htk ht
    obtain ⟨job', hid, hc'⟩ := claims_ok (run_keyed hr') ht' hu
    by_contra hn
    have hb := Before.run hr' rfl (hc.before (run_ordered hr) hq hne) (by simpa using hn)
    obtain ⟨first, hf, second, hs, rfl, hsi, hlt⟩ := hb
    have hk := run_keyed hr'
    simp only [admitted, any_eq_true, Bool.and_eq_true, decide_eq_true_eq] at ha
    obtain ⟨other, ho, hot, had⟩ := ha
    obtain rfl := hk.eq ho hf hot
    obtain rfl := hk.eq hs hc'.row (hsi.trans hid.symm)
    have hle := hc'.first other ho had
    simp only [Store.dispatchLe, Bool.or_eq_true, Bool.and_eq_true, decide_eq_true_eq] at hle
    omega
  · intro h₁ t h₂ k hh ht
    obtain ⟨hr, -, htk⟩ := run.at_step hh
    exact claims_ok (run_keyed hr) htk ht

def lateJob : JobSpec := ⟨"late", "app", .fanout "b" 2, 0⟩

/-- Each of two jobs is claimed before the first one is claimed again. -/
theorem two_jobs_in_turn :
    let h := Manager.plain.machine.trace Store.empty [.plain "w" 0 (.registerScope "app" "zone"),
      .plain "w" 1 (.submit fanoutJob), .plain "w" 1 (.submit lateJob), .plain "w" 2 (.claim (anyJob "app" "w")),
      .plain "w" 3 (.claim (anyJob "app" "w")), .plain "w" 60 (.claim (anyJob "app" "w"))]
    (h.outputs.filterMap granted).map (·.job.id) = ["job", "late", "job"] ∧
    ∀ h₁ t h₂ u h₃ j k, h = h₁ ++ t :: (h₂ ++ u :: h₃) → claims t k → claims u k → j ≠ k →
      queued t j → admitted u j → ∃ v ∈ h₂, claims v j = true :=
  ⟨by decide +kernel, (claimed_in_turn (.of_trace (Machine.offered_anything _ _))).1⟩

def Call.isClaim : Call → Bool
  | .claim _ => true
  | _ => false

/-- Between two claims of a job, one that every claim since the first one admits is claimed. -/
def Rotates (h : Log) : Prop :=
  ∀ h₁ t h₂ u h₃ j k, h = h₁ ++ t :: (h₂ ++ u :: h₃) → claims t k → claims u k →
    (∀ v ∈ h₂, claims v k = false) → j ≠ k →
    (∀ v ∈ h₂ ++ [u], v.input.call.isClaim → admitted v j) → ∃ v ∈ h₂, claims v j

def submittedLate : List Request :=
  [ .plain "w" 0 (.registerScope "app" "zone"), .plain "w" 1 (.submit fanoutJob),
    .plain "w" 2 (.claim (anyJob "app" "w")), .plain "w" 3 (.submit lateJob), .plain "w" 60 (.claim (anyJob "app" "w")) ]

/-- A job that is submitted after a claim stands behind the job that was claimed. -/
theorem late_job_waits : ¬ ∀ requests, Rotates (Manager.plain.machine.trace Store.empty requests) := by
  intro h
  have hr := h submittedLate
  have hs : (plain.machine.trace Store.empty submittedLate).map
      (fun t => (t.input.call.isClaim, claims t "job", claims t "late", admitted t "late")) =
      [(false, false, false, false), (false, false, false, false), (true, true, false, false),
        (false, false, false, false), (true, true, false, true)] := by decide +kernel
  generalize plain.machine.trace Store.empty _ = trace at hr hs
  simp only [map_eq_cons_iff, map_eq_nil_iff, Prod.mk.injEq] at hs
  obtain ⟨a, _, rfl, -, b, _, rfl, -, t, _, rfl, ht, v, _, rfl, hv, u, _, rfl, hu, rfl⟩ := hs
  obtain ⟨w, hw, hc⟩ := hr [a, b] t [v] u [] "late" "job" rfl ht.2.1 hu.2.1 (by simp [hv]) (by decide)
    (by simp [hv, hu])
  simp [mem_singleton.mp hw, hv] at hc

end Zeroship.Workflow
