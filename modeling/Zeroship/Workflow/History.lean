import Zeroship.Workflow.Change

/-! What a job keeps through a history of the manager.

A row never goes away, its attempts and its tickets only grow, and a settled row stays as it
is. -/
namespace Zeroship.Workflow

open Base List Store

/-! ### Rows across a change -/

namespace Change

variable {q : Queue} {r : Request} {s s' : Store} {reply : Reply} {grant : DeliveryGrant} {job row : Job} {c : Int}
  {delivery : Delivery}

theorem leased_mem (h : Leasing q r s s' job grant c) :
    job.leasedTo grant.delivery.workerId grant.delivery.attempt grant.delivery.deadline r.reading.second.millis (c + 1) ∈
      s'.jobs := by
  rw [h.jobs]
  exact row_mem_put h.row rfl

/-- What any change keeps of a row. -/
structure Succeeds (job job' : Job) : Prop where
  spec : job'.spec = job.spec
  attempt : job.attempt ≤ job'.attempt
  order : job.dispatchOrder ≤ job'.dispatchOrder
  settled : job.state = .settled → job' = job

theorem Succeeds.refl (job : Job) : Succeeds job job := ⟨rfl, le_refl _, le_refl _, fun _ => rfl⟩

theorem Succeeds.trans {a b c : Job} (h : Succeeds a b) (h' : Succeeds b c) : Succeeds a c where
  spec := h'.spec.trans h.spec
  attempt := h.attempt.trans h'.attempt
  order := h.order.trans h'.order
  settled hs := by
    obtain rfl := h.settled hs
    exact h'.settled hs

theorem Succeeds.id {job' : Job} (h : Succeeds job job') : job'.id = job.id := congrArg JobSpec.id h.spec

theorem succeeds_reject (app : AppId) (job : Job) : Succeeds job (reject app job) := by
  unfold reject
  split
  · rename_i h
    exact ⟨rfl, le_refl _, le_refl _, fun hs => absurd hs h.2.2⟩
  · exact .refl job

theorem leased_of_after {now : Int} (h : job.leasedAfter now) : job.state = .leased := by
  simp only [Job.leasedAfter, Bool.and_eq_true, decide_eq_true_eq] at h
  exact h.1

theorem succeeds_leasing (h : Leasing q r s s' job grant c) :
    Succeeds job (job.leasedTo grant.delivery.workerId grant.delivery.attempt grant.delivery.deadline
      r.reading.second.millis (c + 1)) := by
  refine ⟨rfl, ?_, ?_, ?_⟩
  · show job.attempt ≤ grant.delivery.attempt
    rw [h.attempt]
    omega
  · have := h.order
    show job.dispatchOrder ≤ c + 1
    omega
  · intro hs
    rcases h.free with hf | ⟨hf, -⟩ <;> simp [hs] at hf

theorem succeeds_renewing {leasedAt : Int}
    (h : Renewing q r s s' job delivery grant leasedAt row) : Succeeds job row := by
  have hl := leased_of_after h.held.live
  obtain ⟨n, e, rfl⟩ := renewal_ok h.renewal
  exact ⟨rfl, le_refl _, le_refl _, fun hs => by simp [hs] at hl⟩

theorem succeeds_returning {defer : GiveBack} (h : Returning q r s s' job delivery defer row) : Succeeds job row := by
  have hl := leased_of_after h.held.live
  obtain ⟨u, n, e, d, rfl⟩ := givenBack_ok h.given
  exact ⟨rfl, le_refl _, le_refl _, fun hs => by simp [hs] at hl⟩

theorem succeeds_settling {settlement : JournalSettlement} {digest : String}
    (h : Settling r s s' job settlement digest) :
    Succeeds job {job with state := .settled, outcome := some settlement.outcome, settlementDigest := some digest} := by
  have hl := leased_of_after h.held.live
  exact ⟨rfl, le_refl _, le_refl _, fun hs => by simp [hs] at hl⟩

theorem succeeds_put (hk : s.Keyed) (hjb : job ∈ s.jobs) (hr : Succeeds job row) {j : Job}
    (hj : j ∈ s.jobs) : ∃ j' ∈ put row s.jobs, Succeeds j j' := by
  by_cases h : j.id = row.id
  · obtain rfl := hk.eq hj hjb (h.trans hr.id)
    exact ⟨row, row_mem_put hj h, hr⟩
  · exact ⟨j, mem_put_of_ne hj h, .refl j⟩

/-- Every row has a successor. -/
theorem succeeds (h : Change q r s s' reply) (hk : s.Keyed) (hj : job ∈ s.jobs) :
    ∃ job' ∈ s'.jobs, Succeeds job job' := by
  cases h with
  | still quiet jobs cursors | replayed call row spec state outcome jobs => exact ⟨job, jobs ▸ hj, .refl job⟩
  | published quiet app fresh ticket jobs =>
    rw [jobs]
    exact ⟨job, mem_append_left _ hj, .refl job⟩
  | claimed leasing =>
    rw [leasing.jobs]
    exact succeeds_put hk leasing.row (succeeds_leasing leasing) hj
  | renewed renewing =>
    rw [renewing.jobs]
    exact succeeds_put hk renewing.held.row (succeeds_renewing renewing) hj
  | returned returning =>
    rw [returning.jobs]
    exact succeeds_put hk returning.held.row (succeeds_returning returning) hj
  | settled settling =>
    rw [settling.jobs]
    exact succeeds_put hk settling.held.row (succeeds_settling settling) hj
  | rejected quiet call jobs scopes abandoned =>
    rw [jobs]
    exact ⟨_, mem_map_of_mem hj, succeeds_reject _ job⟩

theorem leased_of_quiet (h : Change q r s s' reply) (hq : reply.quiet) (hj : job ∈ s'.jobs)
    (hs : job.state = .leased) : job ∈ s.jobs := by
  cases h with
  | still quiet jobs cursors => exact jobs ▸ hj
  | published quiet app fresh ticket jobs =>
    rw [jobs] at hj
    rcases mem_append.mp hj with ho | hn
    · exact ho
    · rw [mem_singleton.mp hn] at hs
      cases hs
  | rejected quiet call jobs scopes abandoned =>
    rw [jobs] at hj
    obtain ⟨old, ho, rfl⟩ := mem_map.mp hj
    unfold reject at hs ⊢
    split at hs
    · cases hs
    · rename_i hot
      rw [if_neg hot]
      exact ho
  | claimed | renewed | returned | settled | replayed => cases hq

theorem keyed (h : Change q r s s' reply) (hk : s.Keyed) : s'.Keyed := by
  cases h with
  | still quiet jobs cursors =>
    rw [Keyed, jobs]
    exact hk
  | published quiet app fresh ticket jobs =>
    rw [Keyed, jobs, map_append, nodup_append]
    refine ⟨hk, nodup_singleton _, ?_⟩
    intro a ha b hb
    obtain ⟨j, hj, rfl⟩ := mem_map.mp ha
    rw [mem_singleton.mp hb]
    exact fresh j hj
  | claimed leasing | renewed leasing | returned leasing | settled leasing =>
    rw [Keyed, leasing.jobs, ids_put]
    exact hk
  | replayed call row spec state outcome same => exact same ▸ hk
  | rejected quiet call jobs scopes abandoned =>
    rw [Keyed, jobs, map_map]
    have hi (app : AppId) : Job.id ∘ reject app = Job.id := by
      funext job
      exact (succeeds_reject app job).id
    rw [hi]
    exact hk

end Change

abbrev Log := History Store Request (Except Error Reply)

abbrev Entry := Step Store Request (Except Error Reply)

namespace Manager

variable {m : Manager} {os : List (Except Error Reply)} {r : Request} {s s' : Store}

/-- A step is refused and changes nothing, or it has an effect. -/
theorem step_ok (hk : s.Keyed) (h : m.machine.step s r = some (s', os)) :
    (∃ e, os = [.error e] ∧ s' = s) ∨ ∃ reply, os = [.ok reply] ∧ Effect m r s s' reply := by
  simp only [machine] at h
  split at h
  · rename_i reply t ht
    cases h
    exact .inr ⟨reply, rfl, transact_ok hk ht⟩
  · cases h
    exact .inl ⟨_, rfl, rfl⟩

theorem step_keyed (hk : s.Keyed) (h : m.machine.step s r = some (s', os)) : s'.Keyed := by
  rcases step_ok hk h with ⟨e, -, rfl⟩ | ⟨reply, -, effect⟩
  · exact hk
  · exact effect.change.keyed hk

theorem run_keyed {env : Environment Store Request (Except Error Reply)} {h : Log}
    (run : m.machine.Run env empty h s) : s.Keyed := by
  refine run.holds Keyed ?_ step_keyed
  exact nodup_nil

theorem step_settled {job : Job} (hk : s.Keyed)
    (hj : job ∈ s.jobs) (hs : job.state = .settled) (h : m.machine.step s r = some (s', os)) : job ∈ s'.jobs := by
  rcases step_ok hk h with ⟨e, -, rfl⟩ | ⟨reply, -, effect⟩
  · exact hj
  · obtain ⟨job', hj', hsc⟩ := effect.change.succeeds hk hj
    rw [← hsc.settled hs]
    exact hj'

end Manager

/-- Operations on one app exclude each other, so a later one reads the clock later. -/
def serialised : Environment Store Request (Except Error Reply) := fun h _ r =>
  ∀ u ∈ h, u.input.call.app = r.call.app → u.input.reading.third.millis ≤ r.reading.first.millis

instance (h : Log) (s : Store) (r : Request) : Decidable (serialised h s r) :=
  inferInstanceAs (Decidable (∀ u ∈ h, u.input.call.app = r.call.app → u.input.reading.third.millis ≤ r.reading.first.millis))

/-- Nothing stands against any job. -/
def Guards.permissive : Guards where
  requireHeld _ _ := .ok ()
  prepared _ _ := .ok true
  validatePending _ := .ok ()
  validateDelivery _ := .ok ()
  validateJob _ := .ok ()
  settleManagement _ _ _ := .ok ()
  eligible _ := true
  archived _ := .ok false

def Host.trusting (worker : WorkerId) : Host := ⟨fun _ => .ok worker, .ok worker⟩

/-- Both clocks show the same, and stand still during the operation. -/
def Reading.frozen (now : Nat) : Reading where
  first := ⟨now, now⟩
  second := ⟨now, now⟩
  third := ⟨now, now⟩
  ordered := ⟨le_refl _, le_refl _⟩
  budget := now + 1000
  instant _ := now

/-- Leases of 30 and attempts of 100, with texts that cost nothing. -/
def Manager.plain : Manager where
  queue :=
    { options := ⟨30, 100, 1000, 1, 10⟩
      codec := ⟨fun _ => 0, fun _ _ => 0, fun _ _ _ _ => "0"⟩ }
  pacing := ⟨10, 100, 50, 5, 40⟩

def Request.plain (worker : WorkerId) (now : Nat) (call : Call) : Request :=
  ⟨call, .permissive, .trusting worker, .frozen now⟩

end Zeroship.Workflow
