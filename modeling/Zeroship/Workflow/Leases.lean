import Zeroship.Workflow.Fencing

/-! A lease never outlives its row.

A grant counts time on the manager's clock and the row on the database's. What is left of a
grant is rounded down to whole milliseconds and one more is taken off, so it runs out before
the deadline that it names; and a row is claimed again only at or after its deadline. -/
namespace Zeroship.Workflow

open Base List Store Manager Option Change JobSpec

variable (h : Log) (offset : ℝ) (sample : Sample)

/-- The database's clock is `offset` ahead, and by this time of the manager it has shown this
sample at an instant that is not before the sample's start. -/
def Sample.ReadBy (now : ℝ) : Prop :=
  ∃ instant : ℝ, (sample.started : ℝ) ≤ instant ∧ instant ≤ now ∧ sample.millis = ⌊instant + offset⌋

def Sample.Observed : Prop := ∃ now, sample.ReadBy offset now

/-- Both clocks advance at the same rate. -/
def clocked : Environment Store Request (Except Error Reply) := fun h s r =>
  serialised h s r ∧ r.reading.first.Observed offset ∧ r.reading.second.Observed offset ∧ r.reading.third.Observed offset

variable {offset : ℝ} {sample : Sample}

/-- What is left of a deadline ends before it. -/
theorem Expires.lt_deadline {deadline : Int} {e : ℚ} (h : Expires sample deadline e)
    (ho : sample.Observed offset) : (e : ℝ) + offset < deadline := by
  obtain ⟨d, hd, hle⟩ := h
  obtain ⟨_, instant, hs, -, hm⟩ := ho
  have hf := Int.lt_floor_add_one (instant + offset)
  rw [← hm] at hf
  unfold localDeadline at hd
  split at hd
  · cases hd
  rename_i remaining hr
  split at hd
  · obtain ⟨a, ha, hb⟩ := bind_eq_some_iff.mp hr
    have hr : remaining = deadline - sample.millis - 1 := by
      rw [checkedAdd_some hb, checkedAdd_some ha, resolutionMillis]
      omega
    cases hd
    have he : (e : ℝ) ≤ sample.started + (deadline - sample.millis - 1) := by
      rw [hr] at hle
      exact_mod_cast hle
    linarith
  · cases hd

theorem Sample.ReadBy.le {now : ℝ} (h : sample.ReadBy offset now) : (sample.millis : ℝ) ≤ now + offset := by
  obtain ⟨instant, -, hn, hm⟩ := h
  rw [hm]
  have := Int.floor_le (instant + offset)
  linarith

theorem remaining_none {grant : DeliveryGrant} {now : ℚ} {millis : Int}
    (hd : (grant.expiresAt : ℝ) + offset < grant.delivery.deadline) (hle : grant.delivery.deadline ≤ millis)
    (hn : (millis : ℝ) ≤ now + offset) : grant.remaining now = none := by
  have hc : (grant.delivery.deadline : ℝ) ≤ millis := by exact_mod_cast hle
  have hlt : (grant.expiresAt : ℝ) < now := by linarith
  have he : grant.expiresAt ≤ now := by
    have : grant.expiresAt < now := by exact_mod_cast hlt
    exact this.le
  unfold DeliveryGrant.remaining
  rw [if_neg (not_lt.mpr he)]

/-- The grant that a step handed to a worker, by a claim or a renewal. -/
def issued : Except Error Reply → Option DeliveryGrant
  | .ok (.claimed (.granted grant)) => some grant
  | .ok (.renewed grant) => some grant
  | _ => none

def Issues (t : Entry) (grant : DeliveryGrant) : Prop := grant ∈ t.outputs.filterMap issued

/-- The holder has given the delivery back. -/
def GivenBack (grant : DeliveryGrant) : Prop :=
  ∃ u ∈ h, ∃ delivery, returned u = some delivery ∧ delivery.job.id = grant.delivery.job.id ∧
    delivery.workerId = grant.delivery.workerId ∧ delivery.attempt = grant.delivery.attempt

/-- The attempt of a job began then. -/
def BeganAt (id : JobId) (attempt leasedAt : Int) : Prop :=
  ∃ u ∈ h, ∃ delivery ∈ u.outputs.filterMap granted, delivery.job.id = id ∧ delivery.attempt = attempt ∧
    ∃ job ∈ u.after.jobs, job.id = id ∧ job.leasedAt = some leasedAt

/-- The row answers for the grant. -/
structure Backs (job : Job) (grant : DeliveryGrant) (deadline : Int) : Prop where
  attempt : grant.delivery.attempt = job.attempt
  taken : job.state ≠ .ready
  worker : job.workerId = some grant.delivery.workerId
  row : job.leaseDeadline = some deadline
  within : grant.delivery.deadline ≤ deadline

/-- How a grant stands to the row of its job: the row answers for it, it was given back, or
its deadline has passed. -/
def Tied (job : Job) (grant : DeliveryGrant) : Prop :=
  (∃ deadline, Backs job grant deadline) ∨ GivenBack h grant ∨
    ∃ u ∈ h, u.input.call.app = job.appId ∧ grant.delivery.deadline ≤ u.input.reading.first.millis

/-- A leased row was leased or renewed by some step, within its attempt. -/
structure LeaseOf (q : Queue) (h : Log) (job : Job) (deadline leasedAt : Int) : Prop where
  row : job.leaseDeadline = some deadline
  since : job.leasedAt = some leasedAt
  began : BeganAt h job.id job.attempt leasedAt
  attempt : deadline ≤ leasedAt + q.options.maxAttempt
  lease : ∃ u ∈ h, u.input.call.app = job.appId ∧ deadline ≤ u.input.reading.second.millis + q.options.lease

structure Leases (q : Queue) (h : Log) (s : Store) : Prop where
  rows : ∀ job ∈ s.jobs, job.state = .leased → ∃ deadline leasedAt, LeaseOf q h job deadline leasedAt
  grants : ∀ u ∈ h, ∀ grant, Issues u grant → ∃ job ∈ s.jobs, job.id = grant.delivery.job.id ∧
    grant.delivery.attempt ≤ job.attempt ∧ Tied h job grant
  capped : ∀ u ∈ h, ∀ grant, Issues u grant → ∃ leasedAt, BeganAt h grant.delivery.job.id grant.delivery.attempt leasedAt ∧
    grant.delivery.deadline ≤ leasedAt + q.options.maxAttempt

section

variable {q : Queue} {h : Log} {s s' : Store} {t : Entry} {job row : Job} {grant : DeliveryGrant}
  {leasedAt deadline : Int}

theorem GivenBack.snoc (hg : GivenBack h grant) : GivenBack (h ++ [t]) grant := by
  obtain ⟨u, hu, rest⟩ := hg
  exact ⟨u, mem_append_left _ hu, rest⟩

theorem BeganAt.snoc {id : JobId} {attempt : Int} (hb : BeganAt h id attempt leasedAt) :
    BeganAt (h ++ [t]) id attempt leasedAt := by
  obtain ⟨u, hu, rest⟩ := hb
  exact ⟨u, mem_append_left _ hu, rest⟩

theorem LeaseOf.snoc (hl : LeaseOf q h job deadline leasedAt) : LeaseOf q (h ++ [t]) job deadline leasedAt := by
  obtain ⟨u, hu, rest⟩ := hl.lease
  exact ⟨hl.row, hl.since, hl.began.snoc, hl.attempt, u, mem_append_left _ hu, rest⟩

/-- Only a grant that the row answered for can be tied differently after a step. -/
theorem Tied.snoc (ht : Tied h job grant) (ha : row.appId = job.appId)
    (hbc : ∀ deadline, Backs job grant deadline → Tied (h ++ [t]) row grant) : Tied (h ++ [t]) row grant := by
  rcases ht with ⟨deadline, hb⟩ | hg | ⟨u, hu, hap, hle⟩
  · exact hbc deadline hb
  · exact .inr (.inl hg.snoc)
  · exact .inr (.inr ⟨u, mem_append_left _ hu, hap.trans ha.symm, hle⟩)

theorem Backs.of_same (hb : Backs job grant deadline) (ha : row.attempt = job.attempt)
    (ht : job.state ≠ .ready → row.state ≠ .ready) (hw : row.workerId = job.workerId)
    (hd : row.leaseDeadline = job.leaseDeadline) : Backs row grant deadline :=
  ⟨hb.attempt.trans ha.symm, ht hb.taken, hw.trans hb.worker, hd.trans hb.row, hb.within⟩

/-! ### Steps -/

namespace Leases

theorem start (q : Queue) : Leases q [] empty := by
  refine ⟨?_, ?_, ?_⟩
  · intro job hj
    exact absurd hj not_mem_nil
  · intro u hu
    exact absurd hu not_mem_nil
  · intro u hu
    exact absurd hu not_mem_nil

section
variable (hl : Leases q h s) {delivery : Delivery}
include hl

/-- What a step has to establish, for rows before and after it that belong together. -/
theorem extend
    (hrw : ∀ job ∈ s'.jobs, job.state = .leased → ∃ deadline leasedAt, LeaseOf q (h ++ [t]) job deadline leasedAt)
    (ho : ∀ job ∈ s.jobs, ∃ row ∈ s'.jobs, row.spec = job.spec ∧ job.attempt ≤ row.attempt ∧
      ∀ grant, grant.delivery.job.id = job.id → ∀ deadline, Backs job grant deadline → Tied (h ++ [t]) row grant)
    (hn : ∀ grant, Issues t grant → ∃ row ∈ s'.jobs, row.id = grant.delivery.job.id ∧
      grant.delivery.attempt ≤ row.attempt ∧ Tied (h ++ [t]) row grant ∧
      ∃ leasedAt, BeganAt (h ++ [t]) grant.delivery.job.id grant.delivery.attempt leasedAt ∧
        grant.delivery.deadline ≤ leasedAt + q.options.maxAttempt) : Leases q (h ++ [t]) s' := by
  refine ⟨hrw, ?_, ?_⟩
  · intro u hu grant hi
    rcases mem_append.mp hu with hu | hu
    · obtain ⟨job, hj, hid, hle, ht⟩ := hl.grants u hu grant hi
      obtain ⟨row, hr, hsp, ha, hb⟩ := ho job hj
      refine ⟨row, hr, (congrArg JobSpec.id hsp).trans hid, hle.trans ha, ?_⟩
      exact ht.snoc (congrArg appId hsp) (hb grant hid.symm)
    · rw [mem_singleton.mp hu] at hi
      obtain ⟨row, hr, hid, hle, ht, -⟩ := hn grant hi
      exact ⟨row, hr, hid, hle, ht⟩
  · intro u hu grant hi
    rcases mem_append.mp hu with hu | hu
    · obtain ⟨leasedAt, hbg, hle⟩ := hl.capped u hu grant hi
      exact ⟨leasedAt, hbg.snoc, hle⟩
    · rw [mem_singleton.mp hu] at hi
      obtain ⟨row, -, -, -, -, hc⟩ := hn grant hi
      exact hc

theorem keep (hn : t.outputs.filterMap issued = []) (hrw : ∀ job ∈ s'.jobs, job.state = .leased → job ∈ s.jobs)
    (ho : ∀ job ∈ s.jobs, ∃ row ∈ s'.jobs, row.spec = job.spec ∧ row.attempt = job.attempt ∧
      (job.state ≠ .ready → row.state ≠ .ready) ∧ row.workerId = job.workerId ∧ row.leaseDeadline = job.leaseDeadline) :
    Leases q (h ++ [t]) s' := by
  apply hl.extend
  · intro job hj hs
    obtain ⟨deadline, leasedAt, hls⟩ := hl.rows job (hrw job hj hs) hs
    exact ⟨deadline, leasedAt, hls.snoc⟩
  · intro job hj
    obtain ⟨row, hr, hsp, ha, ht, hw, hd⟩ := ho job hj
    refine ⟨row, hr, hsp, ha.ge, ?_⟩
    intro grant _ deadline hb
    exact .inl ⟨deadline, hb.of_same ha ht hw hd⟩
  · intro grant hi
    rw [Issues, hn] at hi
    cases hi

theorem put (hk : s.Keyed) (hjo : job ∈ s.jobs) (hjb : s'.jobs = put row s.jobs) (hr : Succeeds job row)
    (hlsd : row.state = .leased → ∃ deadline leasedAt, LeaseOf q (h ++ [t]) row deadline leasedAt)
    (hbc : ∀ grant, grant.delivery.job.id = job.id → ∀ deadline, Backs job grant deadline → Tied (h ++ [t]) row grant)
    (hn : ∀ grant, Issues t grant → grant.delivery.job.id = job.id ∧
      grant.delivery.attempt ≤ row.attempt ∧ Tied (h ++ [t]) row grant ∧
      ∃ leasedAt, BeganAt (h ++ [t]) grant.delivery.job.id grant.delivery.attempt leasedAt ∧
        grant.delivery.deadline ≤ leasedAt + q.options.maxAttempt) : Leases q (h ++ [t]) s' := by
  have hm : row ∈ s'.jobs := by
    rw [hjb]
    exact row_mem_put hjo hr.id.symm
  apply hl.extend
  · intro j hj hs
    rw [hjb] at hj
    rcases mem_put hj with rfl | ⟨ho, -⟩
    · exact hlsd hs
    · obtain ⟨deadline, leasedAt, hls⟩ := hl.rows j ho hs
      exact ⟨deadline, leasedAt, hls.snoc⟩
  · intro j hj
    by_cases hid : j.id = row.id
    · obtain rfl := hk.eq hj hjo (hid.trans hr.id)
      exact ⟨row, hm, hr.spec, hr.attempt, hbc⟩
    · refine ⟨j, hjb ▸ mem_put_of_ne hj hid, rfl, le_refl _, ?_⟩
      intro grant _ deadline hb
      exact .inl ⟨deadline, hb⟩
  · intro grant hi
    obtain ⟨hid, rest⟩ := hn grant hi
    exact ⟨row, hm, hr.id.trans hid.symm, rest⟩

/-- A claim takes a row that nobody has, or whose deadline has passed. -/
theorem claim {c : Int} (hk : s.Keyed) (hc : Leasing q t.input s t.after job grant c)
    (ho : t.outputs = [.ok (.claimed (.granted grant))]) : Leases q (h ++ [t]) t.after := by
  have hs : t ∈ h ++ [t] := mem_append_right _ (mem_singleton_self t)
  have hid : grant.delivery.job.id = job.id := by
    rw [hc.spec]
    rfl
  have hbg : BeganAt (h ++ [t]) job.id grant.delivery.attempt t.input.reading.second.millis :=
    ⟨t, hs, grant.delivery, by rw [ho]; exact mem_singleton_self _, hid, rfl, _, leased_mem hc, rfl, rfl⟩
  have ha : grant.delivery.deadline ≤ t.input.reading.second.millis + q.options.maxAttempt := by
    rw [hc.due.eq]
    exact min_le_right _ _
  refine hl.put hk hc.row hc.jobs (succeeds_leasing hc) ?_ ?_ ?_
  · intro _
    refine ⟨grant.delivery.deadline, t.input.reading.second.millis, rfl, rfl, hbg, ha, t, hs, hc.app, ?_⟩
    rw [hc.due.eq]
    exact min_le_left _ _
  · intro earlier _ deadline hb
    refine .inr (.inr ⟨t, hs, hc.app, ?_⟩)
    rcases hc.free with hr | ⟨-, hlp⟩
    · exact absurd hr hb.taken
    · simp only [Job.lapsed, hb.row, any_some, decide_eq_true_eq] at hlp
      exact hb.within.trans hlp
  · intro other hi
    rw [Issues, ho] at hi
    obtain rfl : other = grant := mem_singleton.mp hi
    refine ⟨hid, le_refl _, .inl ⟨_, rfl, nofun, rfl, rfl, le_refl _⟩, _, hid ▸ hbg, ha⟩

/-- A renewal never shortens the lease, since the clock has not gone back. -/
theorem renew {leasedAt : Int} (hk : s.Keyed) (hs : serialised h s t.input)
    (hr : Renewing q t.input s t.after job delivery grant leasedAt row) (ho : t.outputs = [.ok (.renewed grant)]) :
    Leases q (h ++ [t]) t.after := by
  have hsl : t ∈ h ++ [t] := mem_append_right _ (mem_singleton_self t)
  have hap : t.input.call.app = job.appId := by
    rw [hr.call]
    exact congrArg appId hr.held.spec.symm
  have hid : grant.delivery.job.id = job.id := by
    rw [hr.delivered]
    exact congrArg JobSpec.id hr.held.spec.symm
  have ha : grant.delivery.attempt = job.attempt := by
    rw [hr.delivered]
    exact hr.held.attempt.symm
  have hw : job.workerId = some grant.delivery.workerId := by
    rw [hr.delivered]
    exact hr.held.worker
  obtain ⟨n, e, hrw⟩ := renewal_ok hr.renewal
  obtain ⟨deadline, since, hls⟩ := hl.rows job hr.held.row (leased_of_after hr.held.live)
  obtain rfl : since = leasedAt := mem_unique hls.since hr.leased
  have hc : grant.delivery.deadline ≤ since + q.options.maxAttempt := by
    rw [hr.due.eq]
    exact min_le_right _ _
  have hln : deadline ≤ grant.delivery.deadline := by
    obtain ⟨u, hu, hua, hle⟩ := hls.lease
    have hlt := hs u hu (hua.trans hap.symm)
    have hor := u.input.reading.ordered.2
    have ha := hls.attempt
    rw [hr.due.eq]
    omega
  have hst : row.state = job.state := by rw [hrw]
  have hbc : Backs row grant grant.delivery.deadline := by
    refine ⟨?_, ?_, ?_, by rw [hrw], le_refl _⟩
    · rw [hrw]
      exact ha
    · rw [hst, leased_of_after hr.held.live]
      nofun
    · rw [hrw]
      exact hw
  have hbg : BeganAt (h ++ [t]) job.id job.attempt since := hls.began.snoc
  refine hl.put hk hr.held.row hr.jobs (succeeds_renewing hr) ?_ ?_ ?_
  · intro _
    refine ⟨grant.delivery.deadline, since, by rw [hrw], by rw [hrw]; exact hls.since, ?_, hc, t, hsl, ?_, ?_⟩
    · rw [(succeeds_renewing hr).id, hrw]
      exact hbg
    · rw [hap, hrw]
      rfl
    · have hor := t.input.reading.ordered.1
      rw [hr.due.eq]
      omega
  · intro earlier _ old hb
    obtain rfl : old = deadline := mem_unique hb.row hls.row
    refine .inl ⟨grant.delivery.deadline, ?_, hbc.taken, ?_, hbc.row, hb.within.trans hln⟩
    · rw [hb.attempt, hrw]
    · rw [hrw]
      exact hb.worker
  · intro other hi
    rw [Issues, ho] at hi
    obtain rfl : other = grant := mem_singleton.mp hi
    exact ⟨hid, hbc.attempt.le, .inl ⟨_, hbc⟩, since, by rw [hid, ha]; exact hbg, hc⟩

theorem giveBack {defer : GiveBack} (hk : s.Keyed)
    (hr : Returning q t.input s t.after job delivery defer row) (ho : t.outputs = [.ok .returned]) :
    Leases q (h ++ [t]) t.after := by
  have hsl : t ∈ h ++ [t] := mem_append_right _ (mem_singleton_self t)
  have hrt : returned t = some delivery := by simp only [returned, hr.call, ho]
  refine hl.put hk hr.held.row hr.jobs (succeeds_returning hr) ?_ ?_ ?_
  · intro hs
    obtain ⟨u, n, e, d, rfl⟩ := givenBack_ok hr.given
    cases hs
  · intro grant hid deadline hb
    have hsp := congrArg JobSpec.id hr.held.spec
    have hw := hr.held.worker.symm.trans hb.worker
    exact .inr (.inl ⟨t, hsl, delivery, hrt, hsp.symm.trans hid.symm, some.inj hw,
      hr.held.attempt.symm.trans hb.attempt.symm⟩)
  · intro other hi
    rw [Issues, ho] at hi
    cases hi

theorem settle {settlement : JournalSettlement} {digest : String} {receipt : SettlementReceipt}
    (hk : s.Keyed) (hs : Settling t.input s t.after job settlement digest) (ho : t.outputs = [.ok (.settled receipt)]) :
    Leases q (h ++ [t]) t.after := by
  refine hl.put hk hs.held.row hs.jobs (succeeds_settling hs) nofun ?_ ?_
  · intro grant _ deadline hb
    exact .inl ⟨deadline, hb.of_same rfl nofun rfl rfl⟩
  · intro other hi
    rw [Issues, ho] at hi
    cases hi

end

variable {reply : Reply}

theorem issued_quiet (hq : reply.quiet) : issued (.ok reply) = none := by
  cases reply with
  | claimed c =>
    cases c with
    | granted grant => cases hq
    | empty | atCap => rfl
  | renewed grant => cases hq
  | _ => rfl

theorem same (hl : Leases q h s) (hn : t.outputs.filterMap issued = []) (hjb : s'.jobs = s.jobs) : Leases q (h ++ [t]) s' := by
  refine hl.keep hn (fun job hj _ => hjb ▸ hj) ?_
  intro job hj
  exact ⟨job, hjb ▸ hj, rfl, rfl, fun hs => hs, rfl, rfl⟩

theorem change (hl : Leases q h s) (hk : s.Keyed) (hsr : serialised h s t.input)
    (hc : Change q t.input s t.after reply) (ho : t.outputs = [.ok reply]) : Leases q (h ++ [t]) t.after := by
  have hn (hg : issued (.ok reply) = none) : t.outputs.filterMap issued = [] := by simp [ho, hg]
  have hkp (quiet : reply.quiet) :=
    hl.keep (hn (issued_quiet quiet)) fun _ hj hst => hc.leased_of_quiet quiet hj hst
  cases hc with
  | still quiet jobs cursors => exact hl.same (hn (issued_quiet quiet)) jobs
  | published quiet app fresh ticket jobs =>
    refine hkp quiet fun job hj => ?_
    rw [jobs]
    exact ⟨job, mem_append_left _ hj, rfl, rfl, fun hs => hs, rfl, rfl⟩
  | claimed leasing => exact hl.claim hk leasing ho
  | renewed renewing => exact hl.renew hk hsr renewing ho
  | returned returning => exact hl.giveBack hk returning ho
  | settled settling => exact hl.settle hk settling ho
  | replayed call row spec state outcome same => exact hl.same (hn rfl) (by rw [same])
  | rejected quiet call jobs scopes abandoned =>
    refine hkp quiet fun job hj => ?_
    rw [jobs]
    refine ⟨_, mem_map_of_mem hj, ?_⟩
    unfold reject
    split
    · exact ⟨rfl, rfl, nofun, rfl, rfl⟩
    · exact ⟨rfl, rfl, fun hs => hs, rfl, rfl⟩

/-- The leases are in order after every run under clocks that are a constant apart. -/
theorem of_run {m : Manager} {offset : ℝ} (run : m.machine.Run (clocked offset) empty h s) : Leases m.queue h s := by
  refine run.invariant (Leases m.queue) (start m.queue) ?_
  intro h s s' r os hr hl ho ht
  have hk := run_keyed hr
  rcases step_ok hk ht with ⟨e, rfl, rfl⟩ | ⟨reply, rfl, effect⟩
  · exact hl.same rfl rfl
  · exact hl.change (t := ⟨s, r, [.ok reply], s'⟩) hk ho.1 effect.change rfl

end Leases

end

/-! ### Exclusive leases -/

section

variable {m : Manager} {offset : ℝ} {h h₁ h₂ : Log} {s : Store} {t u : Entry} {grant grant' : DeliveryGrant} {now : ℚ}

theorem issued_expires (run : m.machine.Run (clocked offset) empty h s) (hu : u ∈ h) (hi : Issues u grant) :
    (grant.expiresAt : ℝ) + offset < grant.delivery.deadline := by
  obtain ⟨h₁, h₂, rfl⟩ := append_of_mem hu
  obtain ⟨hr, hof, ht⟩ := run.at_step rfl
  obtain ⟨-, hf, hs, -⟩ := hof
  rcases step_ok (run_keyed hr) ht with ⟨e, ho, -⟩ | ⟨reply, ho, effect⟩
  · rw [Issues, ho] at hi
    cases hi
  rw [Issues, ho] at hi
  cases effect.change with
  | still quiet | published quiet | rejected quiet =>
    simp [Leases.issued_quiet quiet] at hi
  | claimed leasing =>
    obtain rfl := mem_singleton.mp hi
    exact leasing.expires.lt_deadline hs
  | renewed renewing =>
    obtain rfl := mem_singleton.mp hi
    exact renewing.expires.lt_deadline hf
  | returned | settled | replayed => cases hi

/-- When a grant is issued, every earlier one of its job was given back, is of the same
attempt and worker, or has a deadline in the past. A claim starts a new attempt. -/
theorem issued_after (run : m.machine.Run (clocked offset) empty h s) (hh : h = h₁ ++ t :: h₂) (hu : u ∈ h₁)
    (hg : Issues u grant) (hg' : Issues t grant') (hid : grant.delivery.job.id = grant'.delivery.job.id) :
    GivenBack h₁ grant ∨ grant.delivery.deadline ≤ t.input.reading.first.millis ∨
      (grant.delivery.workerId = grant'.delivery.workerId ∧ t.outputs.filterMap granted = []) := by
  obtain ⟨hr, hof, htk⟩ := run.at_step hh
  have hk := run_keyed hr
  obtain ⟨job, hjb, hj, hle, ht⟩ := (Leases.of_run hr).grants u hu grant hg
  have hps (ha : t.input.call.app = job.appId)
      (hp : ∃ u ∈ h₁, u.input.call.app = job.appId ∧ grant.delivery.deadline ≤ u.input.reading.first.millis) :
      grant.delivery.deadline ≤ t.input.reading.first.millis := by
    obtain ⟨v, hv, hva, hvl⟩ := hp
    have hlt := hof.1 v hv (hva.trans ha.symm)
    have hor := v.input.reading.ordered
    omega
  rcases step_ok hk htk with ⟨e, ho, -⟩ | ⟨reply, ho, effect⟩
  · rw [Issues, ho] at hg'
    cases hg'
  rw [Issues, ho] at hg'
  cases effect.change with
  | still quiet | published quiet | rejected quiet =>
    simp [Leases.issued_quiet quiet] at hg'
  | claimed leasing =>
    obtain rfl := mem_singleton.mp hg'
    rw [leasing.spec] at hid
    obtain rfl := hk.eq hjb leasing.row (hj.trans hid)
    rcases ht with ⟨deadline, hb⟩ | hbc | hp
    · rcases leasing.free with hrd | ⟨-, hlp⟩
      · exact absurd hrd hb.taken
      · simp only [Job.lapsed, hb.row, any_some, decide_eq_true_eq] at hlp
        exact .inr (.inl (hb.within.trans hlp))
    · exact .inl hbc
    · exact .inr (.inl (hps leasing.app hp))
  | renewed renewing =>
    obtain rfl := mem_singleton.mp hg'
    rw [renewing.delivered] at hid
    have hsp := renewing.held.spec
    obtain rfl := hk.eq hjb renewing.held.row (hj.trans (hid.trans (congrArg JobSpec.id hsp.symm)))
    rcases ht with ⟨deadline, hb⟩ | hbc | hp
    · refine .inr (.inr ⟨?_, by rw [ho]; rfl⟩)
      rw [renewing.delivered]
      exact mem_unique hb.worker renewing.held.worker
    · exact .inl hbc
    · refine .inr (.inl (hps ?_ hp))
      rw [renewing.call]
      exact congrArg appId hsp.symm
  | returned | settled | replayed => cases hg'

theorem GivenBack.mono {h h' : Log} (hg : GivenBack h grant) (hs : ∀ u ∈ h, u ∈ h') : GivenBack h' grant := by
  obtain ⟨u, hu, rest⟩ := hg
  exact ⟨u, hs u hu, rest⟩

/-- An earlier grant that has a later one of its job, and was not given back, is one of the
same worker's or has run out. -/
theorem worker_or_expired (run : m.machine.Run (clocked offset) empty h s) (hh : h = h₁ ++ t :: h₂) (hu : u ∈ h₁)
    (hg : Issues u grant) (hg' : Issues t grant') (hid : grant.delivery.job.id = grant'.delivery.job.id)
    (hk : ¬ GivenBack h₁ grant) (hr : t.input.reading.first.ReadBy offset now) : grant.remaining now = none ∨
      (grant.delivery.workerId = grant'.delivery.workerId ∧ t.outputs.filterMap granted = []) := by
  rcases issued_after run hh hu hg hg' hid with hb | hp | hs
  · exact absurd hb hk
  · have hm : u ∈ h := by
      rw [hh]
      exact mem_append_left _ hu
    exact .inl (remaining_none (issued_expires run hm hg) hp hr.le)
  · exact .inr hs

/-- The grant gives its worker authority at this time. -/
structure Authority (h : Log) (offset : ℝ) (now : ℚ) (grant : DeliveryGrant) : Prop where
  issued : ∃ u ∈ h, Issues u grant ∧ u.input.reading.first.ReadBy offset now
  kept : ¬ GivenBack h grant
  unexpired : grant.remaining now ≠ none

theorem authority_worker (run : m.machine.Run (clocked offset) empty h s) (ha : Authority h offset now grant)
    (ha' : Authority h offset now grant') (hid : grant.delivery.job.id = grant'.delivery.job.id) :
    grant.delivery.workerId = grant'.delivery.workerId := by
  obtain ⟨u, hu, hg, hr⟩ := ha.issued
  obtain ⟨u', hu', hg', hr'⟩ := ha'.issued
  obtain ⟨a, b, hh⟩ := append_of_mem hu
  have hbf (v : Entry) (hv : v ∈ a) : v ∈ h := by
    rw [hh]
    exact mem_append_left _ hv
  rw [hh] at hu'
  rcases mem_append.mp hu' with hu' | hu'
  · rcases worker_or_expired run hh hu' hg' hg hid.symm (fun hb => ha'.kept (hb.mono hbf)) hr with hn | hs
    · exact absurd hn ha'.unexpired
    · exact hs.1.symm
  rcases mem_cons.mp hu' with rfl | hu'
  · obtain ⟨hrn, -, ht⟩ := run.at_step hh
    obtain ⟨o, ho⟩ : ∃ o, u'.outputs = [o] := by
      rcases step_ok (run_keyed hrn) ht with ⟨e, ho, -⟩ | ⟨reply, ho, -⟩
      · exact ⟨_, ho⟩
      · exact ⟨_, ho⟩
    rw [Issues, ho, mem_filterMap] at hg hg'
    obtain ⟨x, hx, hxg⟩ := hg
    obtain ⟨y, hy, hyg⟩ := hg'
    rw [mem_singleton.mp hx] at hxg
    rw [mem_singleton.mp hy, hxg] at hyg
    cases hyg
    rfl
  · obtain ⟨b₁, b₂, rfl⟩ := append_of_mem hu'
    have hh' : h = (a ++ u :: b₁) ++ u' :: b₂ := by rw [hh]; simp
    have hb' (v : Entry) (hv : v ∈ a ++ u :: b₁) : v ∈ h := by
      rw [hh']
      exact mem_append_left _ hv
    have hm : u ∈ a ++ u :: b₁ := mem_append_right _ mem_cons_self
    rcases worker_or_expired run hh' hm hg hg' hid (fun hb => ha.kept (hb.mono hb')) hr' with hn | hs
    · exact absurd hn ha.unexpired
    · exact hs.1

end

/-- When a claim commits, every earlier grant of the job has run out unless it was given
back; so no two workers have authority over one job at a time, and no grant reaches beyond
the longest attempt. -/
theorem lease_within_row {m : Manager} {offset : ℝ} {h : Log} {s : Store}
    (run : m.machine.Run (clocked offset) Store.empty h s) :
    (∀ h₁ t h₂, h = h₁ ++ t :: h₂ → ∀ delivery ∈ t.outputs.filterMap granted, ∀ u ∈ h₁, ∀ grant, Issues u grant →
      grant.delivery.job.id = delivery.job.id → ¬ GivenBack h₁ grant →
        ∀ now : ℚ, t.input.reading.first.ReadBy offset now → grant.remaining now = none) ∧
    (∀ (now : ℚ) grant grant', Authority h offset now grant → Authority h offset now grant' →
      grant.delivery.job.id = grant'.delivery.job.id → grant.delivery.workerId = grant'.delivery.workerId) ∧
    ∀ u ∈ h, ∀ grant, Issues u grant → ∃ leasedAt, BeganAt h grant.delivery.job.id grant.delivery.attempt leasedAt ∧
      (grant.expiresAt : ℝ) + offset < leasedAt + m.queue.options.maxAttempt := by
  refine ⟨?_, ?_, ?_⟩
  · intro h₁ t h₂ hh delivery hd u hu grant hg hid hk now hr
    obtain ⟨o, ho, hgr⟩ := mem_filterMap.mp hd
    obtain ⟨grant', hg', rfl⟩ : ∃ grant', Issues t grant' ∧ grant'.delivery = delivery := by
      unfold granted at hgr
      split at hgr
      · rename_i grant'
        exact ⟨grant', mem_filterMap.mpr ⟨_, ho, rfl⟩, some.inj hgr⟩
      · cases hgr
    rcases worker_or_expired run hh hu hg hg' hid hk hr with hn | ⟨-, he⟩
    · exact hn
    · rw [he] at hd
      cases hd
  · intro now grant grant' ha ha' hid
    exact authority_worker run ha ha' hid
  · intro u hu grant hg
    obtain ⟨leasedAt, hb, hle⟩ := (Leases.of_run run).capped u hu grant hg
    refine ⟨leasedAt, hb, ?_⟩
    have hc : (grant.delivery.deadline : ℝ) ≤ leasedAt + m.queue.options.maxAttempt := by exact_mod_cast hle
    have := issued_expires run hu hg
    linarith

theorem observed_frozen (now : Nat) : (Reading.frozen now).first.ReadBy 0 now := by
  refine ⟨now, ?_, le_refl _, ?_⟩
  · simp [Reading.frozen]
  · simp [Reading.frozen]

theorem taken_twice_clocked : Machine.Offered (clocked 0) [] (plain.machine.trace empty takenTwice) := by
  have hs : Machine.Offered serialised [] (plain.machine.trace empty takenTwice) := by decide +kernel
  refine Machine.offered_and hs ?_
  intro t ht
  have hi := Machine.input_of_trace ht
  obtain ⟨worker, now, call, hp⟩ : ∃ worker now call, t.input = Request.plain worker now call := by
    simp only [takenTwice, mem_cons, not_mem_nil, or_false] at hi
    rcases hi with h | h | h | h | h | h | h <;> exact ⟨_, _, _, h⟩
  rw [hp]
  exact ⟨⟨_, observed_frozen now⟩, ⟨_, observed_frozen now⟩, ⟨_, observed_frozen now⟩⟩

/-- The two grants of the first worker have run out when the second one takes the job. -/
theorem taken_twice_expired :
    let log := Manager.plain.machine.trace Store.empty takenTwice
    ((log.take 4).flatMap fun u => u.outputs.filterMap issued).length = 2 ∧
      ∀ u ∈ log.take 4, ∀ grant, Issues u grant → grant.remaining 60 = none := by
  intro log
  refine ⟨by decide +kernel, ?_⟩
  intro u hu grant hg
  have hgr : ∀ u ∈ log.take 4, returned u = none ∧ ∀ g ∈ u.outputs.filterMap issued, g.delivery.job.id = "job" := by
    decide +kernel
  have hc : (log.drop 4).head?.map (fun t => ((t.outputs.filterMap granted).map (·.job.id), t.input.reading.first)) =
      some (["job"], ⟨60, 60⟩) := by decide +kernel
  cases hdr : log.drop 4 with
  | nil => simp [hdr] at hc
  | cons t rest =>
    have hs : log = log.take 4 ++ t :: rest := by rw [← hdr, take_append_drop]
    simp only [hdr, head?_cons, map_some, some.injEq, Prod.mk.injEq, map_eq_singleton_iff] at hc
    obtain ⟨⟨delivery, hdl, hid⟩, hf⟩ := hc
    have hk : ¬ GivenBack (log.take 4) grant := by
      rintro ⟨v, hv, d, hd, -⟩
      rw [(hgr v hv).1] at hd
      cases hd
    refine (lease_within_row (.of_trace taken_twice_clocked)).1 _ t rest hs delivery ?_ u hu grant hg ?_ hk 60 ?_
    · rw [hdl]
      exact mem_singleton_self _
    · rw [(hgr u hu).2 grant hg, hid]
    · rw [hf]
      exact observed_frozen 60

end Zeroship.Workflow
