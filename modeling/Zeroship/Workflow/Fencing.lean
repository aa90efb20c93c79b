import Zeroship.Workflow.History

/-! Deliveries are fenced, and a job settles once.

The history decides who holds a job: the worker of its last grant, until it gives the
delivery back. The row of a leased job names that worker and that attempt, so a call that
has to match the row is a call of the holder. -/
namespace Zeroship.Workflow

open Base List Store Manager JobSpec Change Workflow

/-- The delivery that a reply hands out. -/
def granted : Except Error Reply → Option Delivery
  | .ok (.claimed (.granted grant)) => some grant.delivery
  | _ => none

variable (h : Log) (id : JobId)

def grants : List Delivery := (h.outputs.filterMap granted).filter (·.job.id = id)

/-- The delivery that a step gave back. -/
def returned (t : Entry) : Option Delivery :=
  match t.input.call, t.outputs with
  | .giveBack _ delivery _, [.ok .returned] => some delivery
  | _, _ => none

/-- Who holds a job after a step. -/
def held (holder : Option (WorkerId × Int)) (t : Entry) : Option (WorkerId × Int) :=
  match t.outputs.filterMap granted with
  | [delivery] => if delivery.job.id = id then some (delivery.workerId, delivery.attempt) else holder
  | _ => if (returned t).any (·.job.id = id) then none else holder

/-- The worker and the attempt of the last grant of a job, unless it was given back. -/
def holder : Option (WorkerId × Int) := h.foldl (held id) none

/-- The step renewed a delivery for a worker, gave it back, or settled it for the first time. -/
inductive Uses (t : Entry) : WorkerId → Delivery → Prop
  | renewed {worker : WorkerId} {delivery : Delivery} {grant : DeliveryGrant}
      (call : t.input.call = .heartbeat worker delivery) (reply : .ok (.renewed grant) ∈ t.outputs) : Uses t worker delivery
  | returned {worker : WorkerId} {delivery : Delivery} {defer : Store.GiveBack}
      (call : t.input.call = .giveBack worker delivery defer) (reply : .ok .returned ∈ t.outputs) : Uses t worker delivery
  | settled {worker : WorkerId} {settlement : Store.JournalSettlement} {receipt : SettlementReceipt}
      (call : t.input.call = .settle worker settlement) (reply : .ok (.settled receipt) ∈ t.outputs)
      (first : ∀ job ∈ t.before.jobs, job.id = settlement.delivery.job.id → job.state ≠ .settled) :
      Uses t worker settlement.delivery

theorem holder_snoc (t : Entry) (id : JobId) : holder (h ++ [t]) id = held id (holder h id) t := by
  simp [holder, foldl_append]

theorem grants_snoc (t : Entry) (id : JobId) :
    grants (h ++ [t]) id = grants h id ++ (t.outputs.filterMap granted).filter (·.job.id = id) := by
  simp [grants, filterMap_append, filter_append]

variable {reply : Reply} {t : Entry} {q : Queue} {delivery : Delivery} {r : Request}

theorem granted_quiet (h : reply.quiet) : granted (.ok reply) = none := by
  cases reply with
  | claimed c =>
    cases c with
    | granted grant => cases h
    | empty | atCap => rfl
  | _ => rfl

/-- A step that hands nothing out and takes nothing back leaves the holder. -/
theorem held_of_none (holder : Option (WorkerId × Int))
    (hg : t.outputs.filterMap granted = []) (hr : returned t = none) : held id holder t = holder := by
  simp [held, hg, hr]

theorem returned_ne (ho : t.outputs = [.ok reply]) (h : reply ≠ .returned) :
    returned t = none := by
  unfold returned
  split
  · rename_i hr
    rw [ho] at hr
    cases hr
    exact absurd rfl h
  · rfl

/-! ### The invariant -/

structure Fenced (h : Log) (s : Store) : Prop where
  keyed : s.Keyed
  leased : ∀ job ∈ s.jobs, job.state = .leased → ∃ worker, job.workerId = some worker ∧ holder h job.id = some (worker, job.attempt)
  granted : ∀ id, ∀ delivery ∈ grants h id, ∃ job ∈ s.jobs, job.id = id ∧ delivery.attempt ≤ job.attempt
  increasing : ∀ id, ((grants h id).map (·.attempt)).Pairwise (· < ·)

namespace Fenced

variable {h : Log} {s s' : Store} {t : Entry} {q : Queue} {row job : Job}

theorem start : Fenced [] empty := by
  refine ⟨nodup_nil, ?_, ?_, ?_⟩
  · intro job hj
    exact absurd hj not_mem_nil
  · intro id delivery hd
    exact absurd hd not_mem_nil
  · intro id
    exact Pairwise.nil

theorem granted_of_succeeds (hf : Fenced h s) (hs : ∀ job ∈ s.jobs, ∃ job' ∈ s'.jobs, Succeeds job job') (id : JobId) :
    ∀ delivery ∈ grants h id, ∃ job ∈ s'.jobs, job.id = id ∧ delivery.attempt ≤ job.attempt := by
  intro delivery hd
  obtain ⟨job, hj, rfl, hle⟩ := hf.granted id delivery hd
  obtain ⟨job', hj', hsc⟩ := hs job hj
  exact ⟨job', hj', hsc.id, hle.trans hsc.attempt⟩

/-- A step that hands nothing out and takes nothing back keeps the invariant, if it leases
no row anew. -/
theorem keep (hf : Fenced h s) (hk : s'.Keyed) (hs : ∀ job ∈ s.jobs, ∃ job' ∈ s'.jobs, Succeeds job job')
    (hgr : t.outputs.filterMap Workflow.granted = []) (hr : returned t = none)
    (hl : ∀ job' ∈ s'.jobs, job'.state = .leased → ∃ job ∈ s.jobs, job.state = .leased ∧ job.id = job'.id ∧
      job.workerId = job'.workerId ∧ job.attempt = job'.attempt) : Fenced (h ++ [t]) s' := by
  have hg (id : JobId) : grants (h ++ [t]) id = grants h id := by
    rw [grants_snoc, hgr]
    exact append_nil _
  refine ⟨hk, ?_, ?_, ?_⟩
  · intro job' hj' hst
    obtain ⟨job, hj, hs', hid, hwr, ha⟩ := hl job' hj' hst
    obtain ⟨worker, hw, hh⟩ := hf.leased job hj hs'
    refine ⟨worker, hwr ▸ hw, ?_⟩
    rw [holder_snoc, held_of_none _ _ hgr hr, ← hid, hh, ha]
  · intro id
    rw [hg]
    exact hf.granted_of_succeeds hs id
  · intro id
    rw [hg]
    exact hf.increasing id

theorem leased_put (hr : row.state = .leased → ∃ job ∈ s.jobs, job.state = .leased ∧ job.id = row.id ∧
    job.workerId = row.workerId ∧ job.attempt = row.attempt) :
    ∀ job' ∈ put row s.jobs, job'.state = .leased → ∃ job ∈ s.jobs, job.state = .leased ∧ job.id = job'.id ∧
      job.workerId = job'.workerId ∧ job.attempt = job'.attempt := by
  intro job' hj' hs
  rcases mem_put hj' with rfl | ⟨ho, -⟩
  · exact hr hs
  · exact ⟨job', ho, hs, rfl, rfl, rfl⟩

theorem claim (hf : Fenced h s) {r : Request} {grant : DeliveryGrant} {c : Int}
    (hl : Leasing q r s s' job grant c) (ho : t.outputs = [.ok (.claimed (.granted grant))]) : Fenced (h ++ [t]) s' := by
  have hgr : t.outputs.filterMap Workflow.granted = [grant.delivery] := by
    rw [ho]
    rfl
  have hid : grant.delivery.job.id = job.id := by
    rw [hl.spec]
    rfl
  have hh (id : JobId) (o : Option (WorkerId × Int)) :
      held id o t = if grant.delivery.job.id = id then some (grant.delivery.workerId, grant.delivery.attempt) else o := by
    simp only [held, hgr]
  have hg (id : JobId) : grants (h ++ [t]) id = if grant.delivery.job.id = id then grants h id ++ [grant.delivery]
      else grants h id := by
    rw [grants_snoc, hgr, filter_singleton]
    split <;> simp_all
  have hbl : ∀ delivery ∈ grants h job.id, delivery.attempt < grant.delivery.attempt := by
    intro delivery hd
    obtain ⟨job', hj', hi', hle⟩ := hf.granted job.id delivery hd
    rw [hf.keyed.eq hj' hl.row hi'] at hle
    rw [hl.attempt]
    omega
  have hs (j : Job) (hj : j ∈ s.jobs) := succeeds (.claimed hl) hf.keyed hj
  refine ⟨Change.keyed (.claimed hl) hf.keyed, ?_, ?_, ?_⟩
  · intro job' hj' hst
    rw [holder_snoc, hh]
    rw [hl.jobs] at hj'
    rcases mem_put hj' with rfl | ⟨hol, hne⟩
    · exact ⟨_, rfl, if_pos hid⟩
    · rw [if_neg (fun heq => hne (heq.symm.trans hid))]
      exact hf.leased job' hol hst
  · intro id delivery hd
    rw [hg] at hd
    split at hd
    · rename_i heq
      rcases mem_append.mp hd with hol | hn
      · exact hf.granted_of_succeeds hs id delivery hol
      · rw [mem_singleton.mp hn]
        exact ⟨_, leased_mem hl, hid.symm.trans heq, le_refl _⟩
    · exact hf.granted_of_succeeds hs id delivery hd
  · intro id
    rw [hg]
    split
    · rename_i heq
      rw [map_append, pairwise_append]
      refine ⟨hf.increasing id, pairwise_singleton _ _, ?_⟩
      intro a ha b hb
      obtain ⟨delivery, hd, rfl⟩ := mem_map.mp ha
      rw [mem_singleton.mp hb]
      exact hbl delivery (hid.symm.trans heq ▸ hd)
    · exact hf.increasing id

theorem giveBack (hf : Fenced h s) {delivery : Delivery} {defer : GiveBack}
    (hr : Returning q t.input s s' job delivery defer row) (ho : t.outputs = [.ok .returned]) : Fenced (h ++ [t]) s' := by
  have hgr : t.outputs.filterMap Workflow.granted = [] := by
    rw [ho]
    rfl
  have hrt : returned t = some delivery := by simp only [returned, hr.call, ho]
  have hg (id : JobId) : grants (h ++ [t]) id = grants h id := by
    rw [grants_snoc, hgr]
    exact append_nil _
  have hid : job.id = delivery.job.id := congrArg JobSpec.id hr.held.spec
  refine ⟨Change.keyed (.returned hr) hf.keyed, ?_, ?_, ?_⟩
  · intro job' hj' hs
    rw [hr.jobs] at hj'
    rcases mem_put hj' with rfl | ⟨hol, hne⟩
    · obtain ⟨u, n, e, d, rfl⟩ := givenBack_ok hr.given
      cases hs
    rw [holder_snoc]
    have hk : held job'.id (holder h job'.id) t = holder h job'.id := by
      simp only [held, hgr, hrt, Option.any_some]
      rw [if_neg]
      rw [decide_eq_true_eq, ← hid, ← (succeeds_returning hr).id]
      exact hne.symm
    rw [hk]
    exact hf.leased job' hol hs
  · intro id
    rw [hg]
    exact hf.granted_of_succeeds (fun j hj => succeeds (.returned hr) hf.keyed hj) id
  · intro id
    rw [hg]
    exact hf.increasing id

/-- A change keeps the invariant, whatever it is. -/
theorem change (hf : Fenced h s) {reply : Reply} (hc : Change q t.input s s' reply) (ho : t.outputs = [.ok reply]) :
    Fenced (h ++ [t]) s' := by
  have hn (hg : Workflow.granted (.ok reply) = none) : t.outputs.filterMap Workflow.granted = [] := by
    simp [ho, hg]
  have hk := hf.keep (t := t) (hc.keyed hf.keyed) fun job hj => hc.succeeds hf.keyed hj
  have hq (quiet : reply.quiet) : Fenced (h ++ [t]) s' := by
    refine hk (hn (granted_quiet quiet)) (returned_ne ho ?_) ?_
    · rintro rfl
      cases quiet
    · intro job hj hs
      exact ⟨job, hc.leased_of_quiet quiet hj hs, hs, rfl, rfl, rfl⟩
  cases hc with
  | still quiet | published quiet | rejected quiet => exact hq quiet
  | claimed leasing => exact hf.claim leasing ho
  | renewed renewing =>
    refine hk (hn rfl) (returned_ne ho nofun) ?_
    rw [renewing.jobs]
    apply leased_put
    intro _
    have hl := leased_of_after renewing.held.live
    obtain ⟨n, e, hr⟩ := renewal_ok renewing.renewal
    exact ⟨_, renewing.held.row, hl, by rw [hr]; rfl, by rw [hr], by rw [hr]⟩
  | returned returning => exact hf.giveBack returning ho
  | settled settling =>
    refine hk (hn rfl) (returned_ne ho nofun) ?_
    rw [settling.jobs]
    apply leased_put
    intro hs
    cases hs
  | replayed call row spec state outcome same =>
    subst same
    refine hk (hn rfl) (returned_ne ho nofun) ?_
    intro job hj hs
    exact ⟨job, hj, hs, rfl, rfl, rfl⟩

theorem refused (hf : Fenced h s) {e : Error} (ho : t.outputs = [.error e]) : Fenced (h ++ [t]) s := by
  have hg : t.outputs.filterMap Workflow.granted = [] := by
    rw [ho]
    rfl
  have hr : returned t = none := by
    unfold returned
    rw [ho]
    split
    · rename_i h
      cases h
    · rfl
  refine hf.keep hf.keyed (fun job hj => ⟨job, hj, .refl job⟩) hg hr ?_
  intro job hj hs
  exact ⟨job, hj, hs, rfl, rfl, rfl⟩

/-- Every run of the manager is fenced: the step lemma is that of `step_ok`. -/
theorem of_run {m : Manager} {env : Environment Store Request (Except Error Reply)}
    (run : m.machine.Run env empty h s) : Fenced h s := by
  refine run.invariant Fenced start ?_
  intro h s s' r os _ hf _ ht
  rcases step_ok hf.keyed ht with ⟨e, rfl, rfl⟩ | ⟨reply, rfl, effect⟩
  · exact hf.refused rfl
  · exact hf.change (t := ⟨s, r, [.ok reply], s'⟩) effect.change rfl

end Fenced

/-! ### What the invariant says of a step -/

theorem Uses.held {worker : WorkerId}
    (hu : Uses t worker delivery) (ho : t.outputs = [.ok reply]) (hc : Change q t.input t.before t.after reply) :
    worker = delivery.workerId ∧ ∃ job, Held t.before job delivery t.input.reading.first.millis := by
  cases hu with
  | renewed call hr =>
    rw [ho, mem_singleton] at hr
    cases hr
    cases hc with
    | still quiet | published quiet | rejected quiet => cases quiet
    | renewed renewing =>
      have hcl := call.symm.trans renewing.call
      cases hcl
      exact ⟨rfl, _, renewing.held⟩
  | returned call hr =>
    rw [ho, mem_singleton] at hr
    cases hr
    cases hc with
    | still quiet | published quiet | rejected quiet => cases quiet
    | returned returning =>
      have hcl := call.symm.trans returning.call
      cases hcl
      exact ⟨rfl, _, returning.held⟩
  | settled call hr first =>
    rw [ho, mem_singleton] at hr
    cases hr
    cases hc with
    | still quiet | published quiet | rejected quiet => cases quiet
    | settled settling =>
      have hcl := call.symm.trans settling.call
      cases hcl
      exact ⟨rfl, _, settling.held⟩
    | replayed call' row spec state outcome same =>
      have hcl := call.symm.trans call'
      cases hcl
      exact absurd state (first _ row (congrArg JobSpec.id spec))

theorem Change.receipt {s s' : Store} {receipt : SettlementReceipt} (hc : Change q r s s' (.settled receipt)) :
    ∃ job ∈ s'.jobs, job.appId = receipt.appId ∧ job.id = receipt.jobId ∧ job.state = .settled ∧
      job.outcome = some receipt.outcome := by
  cases hc with
  | still quiet | published quiet | rejected quiet => cases quiet
  | @settled job settlement digest settling =>
    have hsp := settling.held.spec
    rw [settling.jobs]
    refine ⟨{job with state := .settled, outcome := some settlement.outcome, settlementDigest := some digest},
      row_mem_put settling.held.row rfl, ?_, ?_, rfl, rfl⟩
    · exact congrArg appId hsp
    · exact congrArg JobSpec.id hsp
  | replayed call row spec state outcome same =>
    exact ⟨_, same ▸ row, congrArg JobSpec.appId spec, congrArg JobSpec.id spec, state, outcome⟩

/-- How a row has come into the table: it was there, it has a new ticket because it is new or
was handed out, its delivery was used, or its app was abandoned. -/
inductive Entered (r : Request) (s s' : Store) (reply : Reply) (row : Job) : Prop
  | kept (old : row ∈ s.jobs)
  | ticketed {c : Int} (app : r.call.app = row.appId) (ticket : s.Ticket s' row.appId c) (order : row.dispatchOrder = c + 1)
      (why : (∀ job ∈ s.jobs, job.id ≠ row.id) ∨ ∃ d, granted (.ok reply) = some d ∧ d.job.id = row.id)
  | used {old : Job} {delivery : Delivery} (app : r.call.app = row.appId) (held : Held s old delivery r.reading.first.millis)
      (succeeds : Change.Succeeds old row) (order : row.dispatchOrder = old.dispatchOrder)
  | rejected {old : Job} (app : r.call.app = row.appId) (abandoned : ∃ x, s'.scopeOf row.appId = some x ∧ x.state = .abandoned)
      (mem : old ∈ s.jobs) (spec : row.spec = old.spec) (order : row.dispatchOrder = old.dispatchOrder)

theorem Change.entered {s s' : Store} {row : Job} (hc : Change q r s s' reply) (hr : row ∈ s'.jobs) :
    Entered r s s' reply row := by
  have hp {old new : Job} {delivery : Delivery} (hd : r.call.app = delivery.job.appId)
      (held : Held s old delivery r.reading.first.millis) (hs : Succeeds old new)
      (hor : new.dispatchOrder = old.dispatchOrder) (hj : row ∈ put new s.jobs) : Entered r s s' reply row := by
    rcases mem_put hj with rfl | ⟨hm, -⟩
    · exact .used (hd.trans (congrArg appId (hs.spec.trans held.spec)).symm) held hs hor
    · exact .kept hm
  cases hc with
  | still quiet jobs cursors | replayed call row spec state outcome jobs => exact .kept (jobs ▸ hr)
  | published quiet app fresh ticket jobs =>
    rw [jobs] at hr
    rcases mem_append.mp hr with ho | hn
    · exact .kept ho
    · obtain rfl := mem_singleton.mp hn
      exact .ticketed app ticket rfl (.inl fresh)
  | @claimed job grant c leasing =>
    rw [leasing.jobs] at hr
    rcases mem_put hr with rfl | ⟨hm, -⟩
    · exact .ticketed leasing.app leasing.ticket rfl (.inr ⟨grant.delivery, rfl, congrArg JobSpec.id leasing.spec⟩)
    · exact .kept hm
  | renewed renewing =>
    have hs := succeeds_renewing renewing
    obtain ⟨n, e, rfl⟩ := renewal_ok renewing.renewal
    exact hp (by rw [renewing.call]; rfl) renewing.held hs rfl (renewing.jobs ▸ hr)
  | returned returning =>
    have hs := succeeds_returning returning
    obtain ⟨u, n, e, d, rfl⟩ := givenBack_ok returning.given
    exact hp (by rw [returning.call]; rfl) returning.held hs rfl (returning.jobs ▸ hr)
  | settled settling =>
    exact hp (by rw [settling.call]; rfl) settling.held (succeeds_settling settling) rfl (settling.jobs ▸ hr)
  | rejected quiet call jobs scopes abandoned =>
    rw [jobs] at hr
    obtain ⟨old, ho, rfl⟩ := mem_map.mp hr
    unfold reject
    split
    · rename_i hcn
      obtain rfl := hcn.1
      exact .rejected (by rw [call]; rfl) abandoned ho rfl rfl
    · exact .kept ho

/-- What is handed out is what a claim leases. -/
theorem Change.of_granted {s s' : Store} (hc : Change q t.input s s' reply)
    (ho : t.outputs = [.ok reply]) (hd : delivery ∈ t.outputs.filterMap granted) :
    ∃ job grant c, grant.delivery = delivery ∧ Leasing q t.input s s' job grant c := by
  rw [ho] at hd
  cases hc with
  | still quiet | published quiet | rejected quiet => simp [granted_quiet quiet] at hd
  | claimed leasing => exact ⟨_, _, _, (mem_singleton.mp hd).symm, leasing⟩
  | renewed | returned | settled | replayed => cases hd

theorem Manager.step_granted {m : Manager} (hk : t.before.Keyed)
    (h : m.machine.step t.before t.input = some (t.after, t.outputs)) (hd : delivery ∈ t.outputs.filterMap granted) :
    ∃ job grant c, grant.delivery = delivery ∧ Leasing m.queue t.input t.before t.after job grant c := by
  rcases step_ok hk h with ⟨e, ho, -⟩ | ⟨reply, ho, effect⟩
  · rw [ho] at hd
    cases hd
  · exact effect.change.of_granted ho hd

/-! ### Whole histories -/

section

variable {m : Manager} {env : Environment Store Request (Except Error Reply)} {h h₁ h₂ : Log} {s : Store} {t : Entry}

theorem used_by_holder (run : m.machine.Run env empty h s) (hh : h = h₁ ++ t :: h₂) {worker : WorkerId}
    {delivery : Delivery} (hu : Uses t worker delivery) :
    holder h₁ delivery.job.id = some (worker, delivery.attempt) ∧
      ∃ job, Held t.before job delivery t.input.reading.first.millis := by
  obtain ⟨hrn, -, ht⟩ := run.at_step hh
  have hf := Fenced.of_run hrn
  rcases step_ok hf.keyed ht with ⟨e, ho, -⟩ | ⟨reply, ho, effect⟩
  · cases hu with
    | renewed call hr | returned call hr | settled call hr =>
      rw [ho, mem_singleton] at hr
      cases hr
  · obtain ⟨rfl, job, hhl⟩ := hu.held ho effect.change
    obtain ⟨worker, hw, hho⟩ := hf.leased job hhl.row (leased_of_after hhl.live)
    refine ⟨?_, job, hhl⟩
    have hid : job.id = delivery.job.id := congrArg JobSpec.id hhl.spec
    rw [hhl.worker] at hw
    cases hw
    rw [← hid, hho, hhl.attempt]

theorem settled_for_good (run : m.machine.Run env empty h s) (hh : h = h₁ ++ t :: h₂) {job : Job}
    (hj : job ∈ t.after.jobs) (hs : job.state = .settled) :
    s.load job.appId job.id = some job ∧ ∀ u ∈ h₂, u.after.load job.appId job.id = some job ∧
      ∀ delivery ∈ u.outputs.filterMap granted, delivery.job.id ≠ job.id := by
  have hk {s s' : Store} {r : Request} {os : List (Except Error Reply)} (hq : s.Keyed ∧ job ∈ s.jobs)
      (ht : m.machine.step s r = some (s', os)) : s'.Keyed ∧ job ∈ s'.jobs :=
    ⟨step_keyed hq.1 ht, step_settled hq.1 hq.2 hs ht⟩
  have ha : t.after.Keyed := run_keyed (run.through hh)
  obtain ⟨he, hst⟩ := run.stable (fun s => s.Keyed ∧ job ∈ s.jobs) hk hh ⟨ha, hj⟩
  refine ⟨load_eq he.1 he.2, ?_⟩
  intro u hu
  obtain ⟨hb, ha⟩ := hst u hu
  refine ⟨load_eq ha.1 ha.2, ?_⟩
  intro delivery hd
  obtain ⟨h₃, h₄, rfl⟩ := append_of_mem hu
  have hsp : h = (h₁ ++ t :: h₃) ++ u :: h₄ := by
    rw [hh]
    simp
  obtain ⟨-, -, ht⟩ := run.at_step hsp
  obtain ⟨row, grant, c, rfl, leasing⟩ := step_granted hb.1 ht hd
  intro hid
  rw [leasing.spec] at hid
  obtain rfl := hb.1.eq leasing.row hb.2 hid
  rcases leasing.free with hf | ⟨hf, -⟩ <;> simp [hs] at hf

/-- The receipts of a step tell what is stored, and a refusal changes no row. -/
theorem step_answers (run : m.machine.Run env empty h s) (hh : h = h₁ ++ t :: h₂) :
    (∀ receipt, .ok (.settled receipt) ∈ t.outputs →
      ∃ job, t.after.load receipt.appId receipt.jobId = some job ∧ job.state = .settled ∧ job.outcome = some receipt.outcome) ∧
    ∀ e, .error e ∈ t.outputs → t.after.jobs = t.before.jobs := by
  obtain ⟨hrn, -, ht⟩ := run.at_step hh
  have ha : t.after.Keyed := run_keyed (run.through hh)
  rcases step_ok (run_keyed hrn) ht with ⟨e, ho, hsm⟩ | ⟨reply, ho, effect⟩
  · rw [ho]
    refine ⟨?_, fun _ _ => by rw [hsm]⟩
    intro receipt hr
    cases mem_singleton.mp hr
  · rw [ho]
    refine ⟨?_, fun e he => by cases mem_singleton.mp he⟩
    intro receipt hr
    cases mem_singleton.mp hr
    obtain ⟨job, hj, hap, hid, hs, hot⟩ := effect.change.receipt
    refine ⟨job, ?_, hs, hot⟩
    rw [← hap, ← hid]
    exact load_eq ha hj

end

/-- In every history of the manager the grants of a job count up, a delivery is renewed,
given back and first settled only by its holder while the lease lasts, a settled job stays
settled as it is, receipts tell the stored outcome, and refusals change no row. -/
theorem deliveries_fenced {m : Manager} {env : Environment Store Request (Except Error Reply)} {h : Log} {s : Store}
    (run : m.machine.Run env Store.empty h s) : (∀ id, ((grants h id).map (·.attempt)).Pairwise (· < ·)) ∧
    ∀ h₁ t h₂, h = h₁ ++ t :: h₂ → (∀ worker delivery, Uses t worker delivery →
        holder h₁ delivery.job.id = some (worker, delivery.attempt) ∧
          ∃ job, Held t.before job delivery t.input.reading.first.millis) ∧
      (∀ job ∈ t.after.jobs, job.state = .settled →
        s.load job.appId job.id = some job ∧ ∀ u ∈ h₂, u.after.load job.appId job.id = some job ∧
          ∀ delivery ∈ u.outputs.filterMap granted, delivery.job.id ≠ job.id) ∧
      (∀ receipt, .ok (.settled receipt) ∈ t.outputs →
        ∃ job, t.after.load receipt.appId receipt.jobId = some job ∧ job.state = .settled ∧
          job.outcome = some receipt.outcome) ∧ ∀ e, .error e ∈ t.outputs → t.after.jobs = t.before.jobs := by
  refine ⟨(Fenced.of_run run).increasing, ?_⟩
  intro h₁ t h₂ hh
  refine ⟨?_, ?_, step_answers run hh⟩
  · intro worker delivery hu
    exact used_by_holder run hh hu
  · intro job hj hs
    exact settled_for_good run hh hj hs

def fanoutJob : JobSpec := ⟨"job", "app", .fanout "b" 1, 0⟩

def anyJob (app : AppId) (worker : WorkerId) : Store.ClaimRequest := ⟨app, worker, .maintenance, .ok 5, none⟩

/-- Two workers take a job in turn, and the first one comes back too late. -/
def takenTwice : List Request :=
  [ .plain "w" 0 (.registerScope "app" "zone"),
    .plain "w" 1 (.submit fanoutJob),
    .plain "w" 2 (.claim (anyJob "app" "w")),
    .plain "w" 20 (.heartbeat "w" ⟨fanoutJob, "w", 1, 32⟩),
    .plain "v" 60 (.claim (anyJob "app" "v")),
    .plain "w" 61 (.settle "w" ⟨⟨fanoutJob, "w", 1, 50⟩, .completed, rfl⟩),
    .plain "v" 62 (.settle "v" ⟨⟨fanoutJob, "v", 2, 90⟩, .completed, rfl⟩) ]

theorem taken_twice_fenced :
    (grants (Manager.plain.machine.trace Store.empty takenTwice) "job").map (·.attempt) = [1, 2] ∧
    ((grants (Manager.plain.machine.trace Store.empty takenTwice) "job").map (·.attempt)).Pairwise (· < ·) :=
  ⟨by decide +kernel, (deliveries_fenced (.of_trace (Machine.offered_anything _ _))).1 "job"⟩

/-- No job is lost: whatever the manager is asked, a row stays, as what it was submitted as; its attempts
and its place in the dispatch order never go back, and once it is settled nothing of it changes. -/
theorem jobs_persist {m : Manager} {env : Environment Store Request (Except Error Reply)} {h h₁ h₂ : Log} {s : Store}
    {t : Entry} (run : m.machine.Run env empty h s) (hh : h = h₁ ++ t :: h₂) {job : Job} (hj : job ∈ t.after.jobs) :
    ∃ job', s.load job.appId job.id = some job' ∧ Succeeds job job' := by
  have hk {s s' : Store} {r : Request} {os : List (Except Error Reply)}
      (hq : s.Keyed ∧ ∃ job' ∈ s.jobs, Succeeds job job') (ht : m.machine.step s r = some (s', os)) :
      s'.Keyed ∧ ∃ job' ∈ s'.jobs, Succeeds job job' := by
    obtain ⟨hk, job', hj', hs⟩ := hq
    refine ⟨step_keyed hk ht, ?_⟩
    rcases step_ok hk ht with ⟨e, -, rfl⟩ | ⟨reply, -, effect⟩
    · exact ⟨job', hj', hs⟩
    · obtain ⟨job'', hj'', hs'⟩ := effect.change.succeeds hk hj'
      exact ⟨job'', hj'', hs.trans hs'⟩
  obtain ⟨⟨he, job', hj', hs⟩, -⟩ :=
    run.stable _ hk hh ⟨run_keyed (run.through hh), job, hj, .refl job⟩
  refine ⟨job', ?_, hs⟩
  rw [Job.appId, Job.id, ← hs.spec]
  exact load_eq he hj'

/-- The job is there after two claims of it, a lapsed lease and two settlements. -/
theorem taken_twice_persists : ∃ job, (Manager.plain.machine.reach Store.empty takenTwice).load "app" "job" = some job ∧
    job.spec = fanoutJob := by
  have hs : ∃ t ∈ Manager.plain.machine.trace Store.empty takenTwice, ∃ job ∈ t.after.jobs, job.spec = fanoutJob := by
    decide +kernel
  obtain ⟨t, ht, job, hj, hs⟩ := hs
  obtain ⟨h₁, h₂, hh⟩ := append_of_mem ht
  obtain ⟨job', hl, hsc⟩ := jobs_persist (.of_trace (Machine.offered_anything _ _)) hh hj
  rw [Job.appId, Job.id, hs] at hl
  exact ⟨job', hl, hsc.spec.trans hs⟩

end Zeroship.Workflow
