import Zeroship.Workflow.Turn

/-! What a transaction of the manager does to the jobs.

`Change` lists it, with what the transaction has checked. Everything that is said about
histories of the manager is derived from this list and from `Turn`. -/
namespace Zeroship.Workflow

open Base List Store Recovered

/-- The reply grants, renews, returns and settles nothing. -/
def Reply.quiet : Reply → Bool
  | .claimed (.granted _) | .renewed _ | .returned | .settled _ => false
  | _ => true

/-- A deadline of a lease, and of the attempt that began at `leasedAt`. -/
structure Due (q : Queue) (now leasedAt deadline : Int) : Prop where
  eq : deadline = min (now + q.options.lease) (leasedAt + q.options.maxAttempt)
  future : now < deadline

/-- What is left of a deadline when the database's clock was read. -/
def Expires (sample : Sample) (deadline : Int) (expiresAt : ℚ) : Prop :=
  ∃ e, localDeadline sample deadline = .ok e ∧ expiresAt ≤ e

/-- The row of a delivery that is the last one handed out and has not run out. -/
structure Held (s : Store) (job : Job) (delivery : Delivery) (now : Int) : Prop where
  row : job ∈ s.jobs
  spec : job.spec = delivery.job
  worker : job.workerId = some delivery.workerId
  attempt : job.attempt = delivery.attempt
  live : job.leasedAfter now

def Request.admits (r : Request) (job : Job) : Bool :=
  match r.call with
  | .claim ⟨app, _, claimant, .ok ceiling, _⟩ =>
    Store.candidates r.guards app r.reading.first.millis claimant ceiling job
  | _ => false

structure Leasing (q : Queue) (r : Request) (s s' : Store) (job : Job) (grant : DeliveryGrant) (c : Int) : Prop where
  app : r.call.app = job.appId
  row : job ∈ s.jobs
  free : job.state = .ready ∨ (job.state = .leased ∧ job.lapsed r.reading.first.millis)
  first : ∀ other ∈ s.jobs, r.admits other → Store.dispatchLe job other
  spec : grant.delivery.job = job.spec
  attempt : grant.delivery.attempt = job.attempt + 1
  due : Due q r.reading.second.millis r.reading.second.millis grant.delivery.deadline
  expires : Expires r.reading.second grant.delivery.deadline grant.expiresAt
  ticket : Store.Ticket s s' job.appId c
  order : job.dispatchOrder ≤ c
  jobs : s'.jobs = Store.put (job.leasedTo grant.delivery.workerId grant.delivery.attempt grant.delivery.deadline
    r.reading.second.millis (c + 1)) s.jobs
  intents : job.spec.producesIntents → ∀ x, s'.scopeOf job.appId = some x → x.state ≠ .retired

structure Renewing (q : Queue) (r : Request) (s s' : Store) (job : Job) (delivery : Delivery) (grant : DeliveryGrant)
    (leasedAt : Int) (row : Job) : Prop where
  call : r.call = .heartbeat delivery.workerId delivery
  held : Held s job delivery r.reading.first.millis
  still : job.leasedAfter r.reading.second.millis
  leased : job.leasedAt = some leasedAt
  due : Due q r.reading.first.millis leasedAt grant.delivery.deadline
  delivered : grant.delivery = {delivery with deadline := grant.delivery.deadline}
  expires : Expires r.reading.first grant.delivery.deadline grant.expiresAt
  renewal : job.renewal delivery grant.delivery.deadline = .ok row
  jobs : s'.jobs = Store.put row s.jobs
  scopes : s'.scopes = s.scopes

structure Returning (q : Queue) (r : Request) (s s' : Store) (job : Job) (delivery : Delivery) (defer : Store.GiveBack)
    (row : Job) : Prop where
  call : r.call = .giveBack delivery.workerId delivery defer
  held : Held s job delivery r.reading.first.millis
  given : Store.givenBack q job delivery defer r.reading.first.millis = .ok row
  jobs : s'.jobs = Store.put row s.jobs
  scopes : s'.scopes = s.scopes

structure Settling (r : Request) (s s' : Store) (job : Job) (settlement : Store.JournalSettlement) (digest : String) :
    Prop where
  call : r.call = .settle settlement.delivery.workerId settlement
  held : Held s job settlement.delivery r.reading.first.millis
  still : job.leasedAfter r.reading.second.millis
  jobs : s'.jobs = Store.put {job with state := .settled, outcome := some settlement.outcome, settlementDigest := some digest}
    s.jobs
  scopes : s'.scopes = s.scopes

/-- The jobs before and after a transaction, by its reply. -/
inductive Change (q : Queue) (r : Request) (s s' : Store) : Reply → Prop
  | still {reply : Reply} (quiet : reply.quiet) (jobs : s'.jobs = s.jobs) (cursors : s.SameCursors s') :
      Change q r s s' reply
  | published {reply : Reply} {spec : JobSpec} {c now : Int} (quiet : reply.quiet) (app : r.call.app = spec.appId)
      (fresh : ∀ j ∈ s.jobs, j.id ≠ spec.id) (ticket : s.Ticket s' spec.appId c)
      (jobs : s'.jobs = s.jobs ++ [Job.published spec (c + 1) now]) : Change q r s s' reply
  | claimed {job : Job} {grant : DeliveryGrant} {c : Int} (leasing : Leasing q r s s' job grant c) :
      Change q r s s' (.claimed (.granted grant))
  | renewed {job : Job} {delivery : Delivery} {grant : DeliveryGrant} {leasedAt : Int} {row : Job}
      (renewing : Renewing q r s s' job delivery grant leasedAt row) : Change q r s s' (.renewed grant)
  | returned {job : Job} {delivery : Delivery} {defer : Store.GiveBack} {row : Job}
      (returning : Returning q r s s' job delivery defer row) : Change q r s s' .returned
  | settled {job : Job} {settlement : Store.JournalSettlement} {digest : String}
      (settling : Settling r s s' job settlement digest) : Change q r s s' (.settled (Store.receiptOf settlement))
  | replayed {job : Job} {worker : WorkerId} {settlement : Store.JournalSettlement} (call : r.call = .settle worker settlement)
      (row : job ∈ s.jobs) (spec : job.spec = settlement.delivery.job) (state : job.state = .settled)
      (outcome : job.outcome = some settlement.outcome) (same : s' = s) :
      Change q r s s' (.settled (Store.receiptOf settlement))
  | rejected {app : AppId} {reply : Reply} (quiet : reply.quiet) (call : r.call = .abandon app)
      (jobs : s'.jobs = s.jobs.map (Store.reject app)) (scopes : s'.scopes = s.scopes)
      (abandoned : ∃ x, s'.scopeOf app = some x ∧ x.state = .abandoned) : Change q r s s' reply

variable {attemptDeadline deadline : Int}

theorem deadline_ok {q : Queue} {now leasedAt : Int}
    (ha : q.attemptDeadline leasedAt = .ok attemptDeadline) (h : q.deadline now attemptDeadline = .ok deadline) :
    Due q now leasedAt deadline := by
  simp only [Queue.attemptDeadline, bind_ok, orElse_ok, millis] at ha
  simp only [Queue.deadline, bind_ok, orElse_ok, millis, demand_ok, pure_ok] at h
  obtain ⟨max, hm, ha⟩ := ha
  obtain ⟨lease, hl, d, hd, _, hf, rfl⟩ := h
  split at hm <;> cases hm
  split at hl <;> cases hl
  rw [checkedAdd_some ha, checkedAdd_some hd] at hf ⊢
  exact ⟨rfl, hf⟩

variable {now : ℚ} {sample : Sample} {grant : DeliveryGrant}

theorem new_ok {delivery : Delivery} (h : DeliveryGrant.new delivery sample attemptDeadline now = .ok grant) :
    grant.delivery = delivery ∧ Expires sample delivery.deadline grant.expiresAt := by
  simp only [DeliveryGrant.new, bind_ok, demand_ok, pure_ok] at h
  obtain ⟨e, he, a, _, _, _, rfl⟩ := h
  exact ⟨rfl, e, he, le_refl e⟩

theorem cap_ok {grant' : DeliveryGrant} (h : grant.cap sample now = .ok grant') :
    grant'.delivery = grant.delivery ∧ grant'.expiresAt ≤ grant.expiresAt := by
  simp only [DeliveryGrant.cap, bind_ok, demand_ok, pure_ok] at h
  obtain ⟨e, _, _, _, rfl⟩ := h
  exact ⟨rfl, (min_le_left _ _).trans (min_le_left _ _)⟩

theorem Expires.mono {e e' : ℚ} (h : Expires sample deadline e) (hle : e' ≤ e) : Expires sample deadline e' := by
  obtain ⟨d, hd, he⟩ := h
  exact ⟨d, hd, hle.trans he⟩

theorem capLiveDelivery_ok {budget b : ℚ} {job : Job}
    (h : capLiveDelivery budget job sample now = .ok b) : job.leasedAfter sample.millis := by
  simp only [capLiveDelivery, bind_ok, Job.live, demand_ok] at h
  obtain ⟨_, hl, _⟩ := h
  exact hl

/-! ### Claims -/

namespace Store

variable {B R : Responsibility → Prop} {q : Queue} {r : Request} {s s' : Store} {app : AppId} {job : Job} {now : Int}
  {delivery : Delivery} {worker : WorkerId} {reply : Reply} {m : Manager} {minted : JobId} {guards : Guards}
  {ceiling : Int} {request : ClaimRequest} {claimed : Claimed} {row : Job} {defer : GiveBack} {t : Store}
  {current : Responsibility} {settlement : JournalSettlement} {receipt : SettlementReceipt} {zone : ZoneId}

theorem Turned.effect (h : Turned B R app s s') (hq : reply.quiet) : Change q r s s' reply ∧ Recovered B R app s s' :=
  ⟨.still hq h.frame.jobs (sameCursors h.frame.scopes), h.recovered⟩

theorem answers {α : Type} {a b : α} {f : α → Reply} (h : (pure (a, s) : Except Error _) = .ok (b, s'))
    (hq : (f a).quiet) : Change q r s s' (f b) ∧ Recovered B R app s s' := by
  cases h
  exact (Turned.refl app s).effect hq

theorem candidate_ok {claimant : Claimant} (h : s.candidate guards app now claimant ceiling = some job) :
    job ∈ s.jobs ∧ job.appId = app ∧ (job.state = .ready ∨ (job.state = .leased ∧ job.lapsed now)) := by
  have hm := mem_of_mem_head? h
  rw [mem_insertionSort, mem_filter] at hm
  obtain ⟨hj, ha⟩ := hm
  simp only [candidates, Bool.and_eq_true, decide_eq_true_eq, claimable, Bool.or_eq_true] at ha
  obtain ⟨⟨⟨hap, ⟨hs, -⟩, -⟩, -⟩, -⟩ := ha
  refine ⟨hj, hap, ?_⟩
  rcases hs with ⟨hr, -⟩ | hl
  · exact .inl hr
  · exact .inr hl

theorem dispatchLe_iff {a b : Job} : dispatchLe a b ↔ toLex (a.dispatchOrder, a.id) ≤ toLex (b.dispatchOrder, b.id) := by
  simp [dispatchLe, Prod.Lex.toLex_le_toLex]

theorem candidate_first (hcl : r.call = .claim request) (hc : request.maxDeliveryAttempts = .ok ceiling)
    (h : s.candidate r.guards request.app r.reading.first.millis request.claimant ceiling = some job) {other : Job}
    (ho : other ∈ s.jobs) (ha : r.admits other) : dispatchLe job other := by
  have : Std.Total fun a b : Job => dispatchLe a b = true :=
    ⟨fun a b => by simp only [dispatchLe_iff]; exact le_total _ _⟩
  have : IsTrans Job fun a b => dispatchLe a b = true :=
    ⟨fun a b c => by simp only [dispatchLe_iff]; exact le_trans⟩
  obtain ⟨app, worker, claimant, attempts, running⟩ := request
  simp only [Request.admits, hcl, show attempts = .ok ceiling from hc] at ha
  obtain ⟨rest, hr⟩ := head?_eq_some_iff.mp h
  have hm := (mem_insertionSort fun a b : Job => dispatchLe a b).mpr
    (mem_filter.mpr ⟨ho, ha⟩)
  have hs := pairwise_insertionSort (fun a b : Job => dispatchLe a b)
    (s.jobs.filter (candidates r.guards app r.reading.first.millis claimant ceiling))
  rw [hr] at hm hs
  rcases mem_cons.mp hm with rfl | hl
  · exact dispatchLe_iff.mpr le_rfl
  · exact (pairwise_cons.mp hs).1 other hl

theorem lease_ok (hk : s.Keyed) (hcl : r.call = .claim request) (hcln : request.maxDeliveryAttempts = .ok ceiling)
    (hc : s.candidate r.guards request.app r.reading.first.millis request.claimant ceiling = some job)
    (h : s.lease q r.guards r.host r.reading request job = .ok (claimed, s')) :
    Change q r s s' (.claimed claimed) ∧ Recovered B R request.app s s' := by
  obtain ⟨hjo, ha, hf⟩ := candidate_ok hc
  simp only [lease, bind_ok, orElse_ok, demand_ok, discard_ok, pure_ok, Prod.mk.injEq] at h
  obtain ⟨_, _, _, _, _, _, attempt, hatt, attemptDeadline, hcp, deadline, hdd, budget, _, _, _, grant, hg,
    ⟨order, t⟩, hn, u, hu, v, hv, _, _, _, _, _, _, grant', hg', rfl, rfl⟩ := h
  obtain ⟨c, rfl, htc, hp, hjb, hr, hdt⟩ := nextDispatchOrder_ok hn
  have hkt : t.Keyed := by
    rw [Keyed, hjb]
    exact hk
  have hut := by
    refine update_ok hkt (hjb ▸ hjo : job ∈ t.jobs) (by simp [ha]) ?_ rfl hu
    intro j hj
    simp only [Bool.and_eq_true, decide_eq_true_eq] at hj
    exact hj.1.1.1
  obtain ⟨ht, hin⟩ := claimedIn_ok (B := B) (R := R) hv
  have hd : grant'.delivery = ⟨job.spec, request.worker, attempt, deadline⟩ :=
    (cap_ok hg').1.trans (new_ok hg).1
  have hat' : attempt = job.attempt + 1 := by
    obtain ⟨had, -⟩ := Option.filter_eq_some_iff.mp hatt
    exact checkedAdd_some had
  have he := (new_ok hg).2.mono (cap_ok hg').2
  have hs : v.scopes = t.scopes := by rw [ht.frame.scopes, hut]
  have hcr := cursor_congr hs
  have leasing : Leasing q r s v job grant' c := by
    constructor
    · rw [hcl]
      exact ha.symm
    · exact hjo
    · exact hf
    · exact fun _ => candidate_first hcl hcln hc
    · rw [hd]
    · rw [hd]
      exact hat'
    · rw [hd]
      exact deadline_ok hcp hdd
    · rw [hd]
      exact he
    · rw [ha]
      refine ⟨htc.before, (hcr _).trans htc.after, ?_⟩
      intro b hb
      exact (hcr b).trans (htc.others b hb)
    · exact (hp _ rfl).2
    · rw [ht.frame.jobs, hut, hd, hjb]
    · exact hin
  refine ⟨.claimed leasing, ?_⟩
  have ha' : job.spec.appId = request.app := ha
  rw [ha'] at ht
  refine ht.recovered.of_same ?_ fun b => ⟨rfl, rfl⟩
  intro b
  rw [hut]
  exact same_of_tables hr hdt b

theorem claim_ok (hk : s.Keyed) (hcl : r.call = .claim request)
    (h : s.claim q r.guards r.host r.reading request = .ok (claimed, s')) :
    Change q r s s' (.claimed claimed) ∧ Recovered B R request.app s s' := by
  simp only [claim, bind_ok] at h
  obtain ⟨_, _, _, _, ceiling, hcln, _, _, _, _, h⟩ := h
  split at h
  · obtain ⟨_, _, h⟩ := bind_ok.mp h
    exact answers h rfl
  split at h
  · obtain ⟨_, _, h⟩ := bind_ok.mp h
    exact answers h rfl
  · rename_i job hc
    exact lease_ok hk hcl hcln hc h

/-! ### Deliveries in progress -/

theorem deliveredRow_ok (h : s.deliveredRow delivery = .ok job) :
    job ∈ s.jobs ∧ job.spec = delivery.job ∧ job.workerId = some delivery.workerId ∧ job.attempt = delivery.attempt := by
  simp only [deliveredRow, Job.matchesDelivery, bind_ok, orElse_ok, demand_ok, pure_ok] at h
  obtain ⟨row, hl, _, hm, rfl⟩ := h
  exact ⟨(mem_of_load hl).1, hm⟩

theorem fenced_update {patch : Job → Job} (hk : s.Keyed)
    (held : Held s job delivery now) (h : s.update (fence delivery) patch = .ok s') (hp : (patch job).id = job.id) :
    s' = {s with jobs := put (patch job) s.jobs} := by
  have hl := held.live
  simp only [Job.leasedAfter, Bool.and_eq_true, decide_eq_true_eq] at hl
  refine update_ok hk held.row ?_ ?_ hp h
  · simp [fence, Job.id, Job.appId, held.spec, hl.1, held.worker, held.attempt]
  · intro j hj
    simp only [fence, Bool.and_eq_true, decide_eq_true_eq] at hj
    rw [hj.1.1.1.1, Job.id, held.spec]

theorem renewal_ok {deadline : Int} (h : job.renewal delivery deadline = .ok row) :
    ∃ n e, row = {job with leaseDeadline := some deadline, executionAttempts := n, executedAttempt := e, deferrals := 0} := by
  simp only [Job.renewal, Job.counted, bind_ok, pure_ok] at h
  obtain ⟨counted, hc, rfl⟩ := h
  split at hc
  · cases hc
    exact ⟨_, _, rfl⟩
  · simp only [bind_ok, orElse_ok, pure_ok] at hc
    obtain ⟨n, _, rfl⟩ := hc
    exact ⟨_, _, rfl⟩

theorem givenBack_ok (h : givenBack q job delivery defer now = .ok row) :
    ∃ until_ n e d, row = {job.released until_ with executionAttempts := n, executedAttempt := e, deferrals := d} := by
  cases defer with
  | exact _ | after _ | backoff =>
    simp only [givenBack, bind_ok, pure_ok] at h
    obtain ⟨⟨until_, d⟩, _, rfl⟩ := h
    exact ⟨_, _, _, _, rfl⟩
  | unsent =>
    cases h
    exact ⟨_, _, _, _, rfl⟩
  | interrupted =>
    simp only [givenBack, Job.interrupted, Job.counted, bind_ok, pure_ok] at h
    obtain ⟨counted, hc, rfl⟩ := h
    split at hc
    · cases hc
      exact ⟨_, _, _, _, rfl⟩
    · simp only [bind_ok, orElse_ok, pure_ok] at hc
      obtain ⟨n, _, rfl⟩ := hc
      exact ⟨_, _, _, _, rfl⟩

theorem heartbeat_ok {grant : DeliveryGrant} (hk : s.Keyed) (hcl : r.call = .heartbeat worker delivery)
    (h : s.heartbeat q r.guards r.host r.reading worker delivery = .ok (grant, s')) :
    Change q r s s' (.renewed grant) ∧ Recovered B R delivery.job.appId s s' := by
  simp only [heartbeat, bound, bind_ok, orElse_ok, demand_ok, discard_ok, pure_ok, Prod.mk.injEq] at h
  obtain ⟨_, rfl, _, _, _, _, job, hrw, _, _, _, _, budget, hf, leasedAt, hl, attemptDeadline, hc, deadline,
    hdd, _, _, grant', hn, row, hr, t, ht, _, _, _, _, _, hs, grant, hg, rfl, rfl⟩ := h
  obtain ⟨hj, hsp, hw, ha⟩ := deliveredRow_ok hrw
  obtain ⟨_, hs⟩ := hs
  have held : Held s job delivery r.reading.first.millis :=
    ⟨hj, hsp, hw, ha, capLiveDelivery_ok hf⟩
  have hid : row.id = job.id := by
    obtain ⟨n, e, rfl⟩ := renewal_ok hr
    rfl
  have hut := fenced_update hk held ht hid
  have hd : grant.delivery = {delivery with deadline} := (cap_ok hg).1.trans (new_ok hn).1
  have he := (new_ok hn).2.mono (cap_ok hg).2
  have renewing : Renewing q r s t job delivery grant leasedAt row := by
    constructor
    · exact hcl
    · exact held
    · exact capLiveDelivery_ok hs
    · exact hl
    · rw [hd]
      exact deadline_ok hc hdd
    · rw [hd]
    · rw [hd]
      exact he
    · rw [hd]
      exact hr
    · rw [hut]
    · rw [hut]
  refine ⟨.renewed renewing, ?_⟩
  rw [hut]
  exact (Recovered.refl _ s).of_same (fun _ => ⟨rfl, rfl⟩) fun _ => ⟨rfl, rfl⟩

theorem giveBack_ok (hk : s.Keyed) (hc : r.call = .giveBack worker delivery defer)
    (h : s.giveBack q r.host r.reading worker delivery defer = .ok s') :
    Change q r s s' .returned ∧ Recovered B R delivery.job.appId s s' := by
  simp only [giveBack, bound, Job.live, bind_ok, demand_ok] at h
  obtain ⟨_, rfl, _, _, _, _, job, hr, _, hl, row, hg, h⟩ := h
  obtain ⟨hj, hsp, hw, ha⟩ := deliveredRow_ok hr
  have held : Held s job delivery r.reading.first.millis := ⟨hj, hsp, hw, ha, hl⟩
  have hid : row.id = job.id := by
    obtain ⟨u, n, e, d, rfl⟩ := givenBack_ok hg
    rfl
  have hut := fenced_update hk held h hid
  subst hut
  exact ⟨.returned ⟨hc, held, hg, rfl, rfl⟩, (refl _ s).of_same (fun _ => ⟨rfl, rfl⟩) fun _ => ⟨rfl, rfl⟩⟩

/-- What is known when a transaction is about to retire the scope of its app. -/
def Drained (r : Request) (s s' : Store) (current : Responsibility) : Prop :=
  ∃ job settlement digest w, Settling r s s' job settlement digest ∧
    Retires s' settlement.delivery.job r.reading.first.millis current w

theorem Retires.of_jobs {t' : Store} {job : JobSpec} {w : Int}
    (h : Retires t job now current w) (hj : t'.jobs = t.jobs) : Retires t' job now current w where
  closing := h.closing
  closeJob := h.closeJob
  watermark := h.watermark
  unclaimed := by
    rw [claimedAfter, hj]
    exact h.unclaimed
  unleased := by
    rw [leased, hj]
    exact h.unleased

theorem settleFirst_ok {digest : String} (hk : s.Keyed) (hc : r.call = .settle worker settlement)
    (hb : worker = settlement.delivery.workerId) (hrw : s.deliveredRow settlement.delivery = .ok job)
    (h : s.settleFirst r.guards r.host r.reading worker job settlement digest = .ok (receipt, s')) :
    Change q r s s' (.settled receipt) ∧ Recovered B (Drained r s s') settlement.delivery.job.appId s s' := by
  simp only [settleFirst, bind_ok, discard_ok, pure_ok, Prod.mk.injEq] at h
  obtain ⟨_, _, budget, hf, _, _, _, _, _, _, t, ht, u, hu, v, hv, _, _, _, hs, rfl, rfl⟩ := h
  obtain ⟨_, hs⟩ := hs
  obtain ⟨hj, hsp, hwr, ha⟩ := deliveredRow_ok hrw
  have held : Held s job settlement.delivery r.reading.first.millis :=
    ⟨hj, hsp, hwr, ha, capLiveDelivery_ok hf⟩
  have hut := fenced_update hk held ht rfl
  obtain ⟨hjb, hsc, hr, hkn⟩ := settledPage_ok hu
  have htr := settledClose_ok (B := B) hv
  have settling : Settling r s v job settlement digest := by
    refine ⟨hb ▸ hc, held, capLiveDelivery_ok hs, ?_, ?_⟩
    · rw [htr.frame.jobs, hjb, hut]
    · rw [htr.frame.scopes, hsc, hut]
  refine ⟨.settled settling, ?_⟩
  have hd (x : Responsibility) (hx : ∃ w, Retires u settlement.delivery.job r.reading.first.millis x w) :
      Drained r s v x := by
    obtain ⟨w, hw⟩ := hx
    exact ⟨job, settlement, digest, w, settling, hw.of_jobs htr.frame.jobs⟩
  refine Recovered.of_same ⟨htr.frame.elsewhere, htr.turn.mono (fun _ h => h) hd⟩ ?_ fun b => ⟨rfl, rfl⟩
  intro b
  rw [hkn, scopeOf_congr hr, hut]
  exact ⟨rfl, rfl⟩

theorem settle_ok (hk : s.Keyed) (hc : r.call = .settle worker settlement)
    (h : s.settle q r.guards r.host r.reading worker settlement = .ok (receipt, s')) :
    Change q r s s' (.settled receipt) ∧ Recovered B (Drained r s s') settlement.delivery.job.appId s s' := by
  simp only [settle, prepareSettlement, bound, bind_ok, demand_ok, pure_ok] at h
  obtain ⟨digest, ⟨_, hb, _, _, _⟩, _, _, job, hr, h⟩ := h
  split at h
  · rename_i hs
    simp only [replay, bind_ok, demand_ok, pure_ok] at h
    obtain ⟨_, ⟨-, ho⟩, _, _, _, _, _, _, rfl, rfl⟩ := h
    obtain ⟨hj, hsp, -, -⟩ := deliveredRow_ok hr
    exact ⟨.replayed hc hj hsp hs ho rfl, .refl ..⟩
  · exact settleFirst_ok hk hc hb hr h

/-! ### Publication and recovery -/

theorem change_of_insert {spec : JobSpec}
    (hq : reply.quiet) (ha : r.call.app = spec.appId) (h : s.insert q guards spec now = .ok t)
    (hj : s'.jobs = t.jobs) (hs : s'.scopes = t.scopes) : Change q r s s' reply := by
  rcases insert_ok h with ⟨rfl, -⟩ | ⟨c, ticket, fresh, hp, -, -⟩
  · exact .still hq hj (sameCursors hs)
  have hc := cursor_congr hs
  have ht : Ticket s s' spec.appId c :=
    ⟨ticket.before, (hc _).trans ticket.after, fun b hb => (hc b).trans (ticket.others b hb)⟩
  exact .published hq ha fresh ht (hj.trans hp)

theorem submit_ok {job : JobSpec} {retention : Retention} (hc : r.call = .submit job)
    (h : s.submit q r.guards r.reading job = .ok (retention, s')) :
    Change q r s s' (.submitted retention) ∧ Recovered B R job.appId s s' := by
  simp only [submit, bind_ok] at h
  obtain ⟨_, _, _, _, _, _, held, _, h⟩ := h
  cases held with
  | some deployment =>
    exact answers h rfl
  | none =>
    simp only [bind_ok, pure_ok] at h
    obtain ⟨t, ht, rfl, rfl⟩ := h
    refine ⟨change_of_insert rfl ?_ ht rfl rfl, (refl _ s).of_same (fun _ => ⟨rfl, rfl⟩) (insert_same ht)⟩
    rw [hc]
    rfl

theorem publish_ok {job : JobSpec} (hc : r.call = .publish job)
    (h : s.publish q r.guards job now = .ok s') : Change q r s s' .done ∧ Recovered B R job.appId s s' := by
  simp only [publish, bind_ok] at h
  obtain ⟨_, _, h⟩ := h
  refine ⟨change_of_insert rfl ?_ h rfl rfl, (refl _ s).of_same (fun _ => ⟨rfl, rfl⟩) (insert_same h)⟩
  rw [hc]
  rfl

theorem registerScope_ok (h : s.registerScope app zone = .ok s') :
    s'.jobs = s.jobs ∧ SameCursors s s' ∧ s'.responsibilities = s.responsibilities ∧ s'.duties = s.duties := by
  have hs' : s' = if s.scopes.any (·.id = app) then s else {s with scopes := s.scopes ++ [⟨app, zone, 0⟩]} := by
    unfold registerScope at h
    dsimp only at h
    split at h
    · cases h
    · split at h
      · exact (Except.ok.inj h).symm
      · cases h
  subst hs'
  split
  · exact ⟨rfl, sameCursors rfl, rfl, rfl⟩
  refine ⟨rfl, ?_, rfl, rfl⟩
  intro b c hc
  obtain ⟨scope, hs, rfl⟩ := Option.map_eq_some_iff.mp hc
  simp [cursor, find?_append, hs]

theorem ensure_ok {deployment : DeploymentId} {revision : Int}
    (h : s.ensure app zone deployment revision now = .ok s') : Change q r s s' .done ∧ Recovered B R app s s' := by
  simp only [ensure, bind_ok] at h
  obtain ⟨t, ht, _, _, h⟩ := h
  obtain ⟨hj, hcr, hr, hd⟩ := registerScope_ok ht
  have htr := ensureIn_ok (B := B) (R := R) h
  refine ⟨.still rfl (htr.frame.jobs.trans hj) ?_, htr.recovered.of_same (same_of_tables hr hd) ?_⟩
  · intro b c hc
    rw [cursor_congr htr.frame.scopes]
    exact hcr b c hc
  · exact fun _ => ⟨rfl, rfl⟩

theorem dispatch_ok {kind : DutyKind} {job : Option JobSpec}
    (hc : r.call.app = app) (h : s.dispatch m r.guards app kind minted now = .ok (job, s')) :
    Change m.queue r s s' (.job job) ∧ Recovered B R app s s' := by
  simp only [dispatch, bind_ok, orElse_ok] at h
  obtain ⟨_, _, _, _, current, _, h⟩ := h
  split at h
  · exact answers h rfl
  simp only [bind_ok, orElse_ok] at h
  obtain ⟨_, _, duty, _, pending, _, h⟩ := h
  split at h
  · exact answers h rfl
  split at h
  · exact answers h rfl
  simp only [bind_ok, orElse_ok, pure_ok] at h
  obtain ⟨next, _, _, _, t, ht, u, hu, rfl, rfl⟩ := h
  obtain ⟨hj, hs, hr, hk⟩ := updateDuty_ok hu fun _ => ⟨rfl, rfl⟩
  refine ⟨change_of_insert rfl hc ht hj hs, (refl app t).of_same (insert_same ht) ?_⟩
  exact fun b => ⟨scopeOf_congr hr b, hk b⟩

theorem establish_ok {after : Option Int} {admission : Bool} {epoch : Int}
    (h : s.establish app after admission now = .ok (epoch, s')) :
    Change q r s s' (.established epoch) ∧ Recovered B R app s s' := by
  simp only [establish, bind_ok, orElse_ok] at h
  obtain ⟨_, _, _, hl, current, rfl, _, _, _, _, h⟩ := h
  have hs := responsibility_ok hl
  obtain rfl := id_of_scopeOf hs
  split at h
  · exact answers h rfl
  · simp only [bind_ok] at h
    obtain ⟨_, _, h⟩ := h
    exact (reopen_ok hs h).1.effect rfl

theorem noteIngress_ok (h : s.noteIngress app now = .ok s') : Change q r s s' .done ∧ Recovered B R app s s' := by
  simp only [noteIngress, bind_ok] at h
  obtain ⟨_, _, o, hl, h⟩ := h
  have hs := responsibility_ok hl
  cases o with
  | none =>
    cases h
    exact (Turned.refl app s).effect rfl
  | some current =>
    obtain rfl := id_of_scopeOf hs
    exact (touch_ok hs h).1.effect rfl

/-- What is known of a scope when a transaction has begun to close it. -/
def Begun (m : Manager) (r : Request) (s s' : Store) (current : Responsibility) : Prop :=
  ∃ close w, Begins m.queue r.guards s s' r.call.app close r.reading.first.millis w current

theorem beginIn_effect {started : Option JobSpec}
    (hq : reply.quiet) (hcl : r.call.app = current.id) (hc : s.scopeOf current.id = some current)
    (hst : current.state = .opened)
    (h : s.beginIn m.queue r.guards m.pacing current minted r.reading.first.millis = .ok (started, s')) :
    Change m.queue r s s' reply ∧ Recovered (Begun m r s s') R current.id s s' := by
  obtain ⟨hr, hj⟩ := beginIn_ok (R := R) hc hst h
  constructor
  · rcases hj with ⟨hj, hs⟩ | ⟨spec, t, ha, ht, hj, hs⟩
    · exact .still hq hj (sameCursors hs)
    · exact change_of_insert hq (hcl.trans ha.symm) ht hj.symm hs.symm
  · refine ⟨hr.elsewhere, hr.turn.mono ?_ fun _ h => h⟩
    rintro x ⟨w, hw⟩
    exact ⟨minted, w, hcl ▸ hw⟩

theorem beginClose_ok {job : Option JobSpec} (hc : r.call.app = app)
    (h : s.beginClose m r.guards app minted r.reading.first.millis = .ok (job, s')) :
    Change m.queue r s s' (.job job) ∧ Recovered (Begun m r s s') R app s s' := by
  simp only [beginClose, bind_ok, orElse_ok] at h
  obtain ⟨_, _, _, hl, current, rfl, h⟩ := h
  have hsc := responsibility_ok hl
  obtain rfl := id_of_scopeOf hsc
  cases hs : current.state with
  | retired | abandoned =>
    simp only [hs] at h
    exact answers h rfl
  | closing =>
    simp only [hs, bind_ok] at h
    obtain ⟨_, _, h⟩ := h
    exact answers h rfl
  | opened =>
    simp only [hs] at h
    exact beginIn_effect rfl hc hsc hs h

theorem expireClose_ok {expired : Bool} (h : s.expireClose m app now = .ok (expired, s')) :
    Change q r s s' (.answered expired) ∧ Recovered B R app s s' := by
  simp only [expireClose, bind_ok, orElse_ok] at h
  obtain ⟨_, _, _, hl, current, rfl, h⟩ := h
  have hs := responsibility_ok hl
  obtain rfl := id_of_scopeOf hs
  split at h
  · exact answers h rfl
  · rename_i hc
    exact (expireIn_ok hs (not_not.mp hc) h).effect rfl

theorem closingTurn_ok {closing : Closing} (hc : r.call.app = app)
    (h : s.closingTurn m r.guards app minted r.reading.first.millis = .ok (closing, s')) :
    Change m.queue r s s' (.closing closing) ∧ Recovered (Begun m r s s') R app s s' := by
  simp only [closingTurn, bind_ok] at h
  obtain ⟨_, _, o, hl, h⟩ := h
  have hsc := responsibility_ok hl
  cases o with
  | none => exact answers h rfl
  | some current =>
    obtain rfl := id_of_scopeOf hsc
    cases hs : current.state with
    | retired | abandoned =>
      simp only [hs] at h
      exact answers h rfl
    | closing =>
      simp only [hs, bind_ok] at h
      obtain ⟨⟨expired, t⟩, ht, h⟩ := h
      have htr := expireIn_ok (B := Begun m r s t) (R := R) hsc hs ht
      split at h
      · cases h
        exact htr.effect rfl
      · simp only [bind_ok, pure_ok] at h
        obtain ⟨_, _, rfl, rfl⟩ := h
        exact htr.effect rfl
    | opened =>
      simp only [hs] at h
      split at h
      · exact answers h rfl
      simp only [bind_ok] at h
      obtain ⟨keep, _, h⟩ := h
      split at h
      · exact answers h rfl
      · simp only [bind_ok, pure_ok] at h
        obtain ⟨⟨started, t⟩, ht, rfl, rfl⟩ := h
        exact beginIn_effect rfl hc hsc hs ht

theorem abandon_ok {gone : Bool} (hc : r.call = .abandon app) (h : s.abandon app = .ok (gone, s')) :
    Change q r s s' (.answered gone) ∧ Recovered B R app s s' := by
  simp only [abandon, bind_ok] at h
  obtain ⟨_, _, o, hl, h⟩ := h
  have hsc := responsibility_ok hl
  cases o with
  | none =>
    exact answers h rfl
  | some current =>
    obtain rfl := id_of_scopeOf hsc
    simp only at h
    split at h
    · exact answers h rfl
    rename_i hst
    simp only [bind_ok, pure_ok] at h
    obtain ⟨t, ht, rfl, rfl⟩ := h
    have hs' : {s.deleteDuties current.id with jobs := s.jobs.map (reject current.id)}.scopeOf current.id = some current :=
      hsc
    obtain ⟨hf, ha, hd⟩ := transition_ok ht hs' (fun _ => rfl)
    refine ⟨.rejected rfl hc hf.jobs hf.scopes ⟨_, ha, rfl⟩, ?_, ?_⟩
    · intro b hb
      obtain ⟨hs, hk⟩ := hf.elsewhere b hb
      exact ⟨hs, hk.trans (kinds_delete_of_ne s hb)⟩
    rw [hsc, ha, kinds_congr hd]
    show Turn B R (some current) (s.kinds current.id) _ ((s.deleteDuties current.id).kinds current.id)
    rw [kinds_deleteDuties]
    exact .abandon hst rfl rfl

end Store

/-- What a transaction that succeeded did to the jobs and to the recovery of its app. -/
structure Effect (m : Manager) (r : Request) (s s' : Store) (reply : Reply) : Prop where
  change : Change m.queue r s s' reply
  recovered : Store.Recovered (Store.Begun m r s s') (Store.Drained r s s') r.call.app s s'

theorem transact_ok {m : Manager} {r : Request} {s s' : Store} {reply : Reply} (hk : s.Keyed)
    (h : m.transact s r = .ok (reply, s')) : Effect m r s s' reply := by
  have hef {app : AppId} {reply' : Reply} {t : Store} (ha : r.call.app = app)
      (hs : (reply', t) = (reply, s'))
      (he : Change m.queue r s t reply' ∧ Recovered (Begun m r s t) (Drained r s t) app s t) :
      Effect m r s s' reply := by
    cases hs
    subst ha
    exact ⟨he.1, he.2⟩
  obtain ⟨call, guards, host, reading⟩ := r
  cases call <;> simp only [Manager.transact, bind_ok, pure_ok] at h
  case registerScope app zone =>
    obtain ⟨t, ht, hs⟩ := h
    obtain ⟨hj, hc, hr, hd⟩ := registerScope_ok ht
    refine hef rfl hs ⟨.still rfl hj hc, ?_⟩
    exact (refl app s).of_same (fun _ => ⟨rfl, rfl⟩) (same_of_tables hr hd)
  case submit job =>
    obtain ⟨⟨retention, t⟩, ht, hs⟩ := h
    exact hef rfl hs (submit_ok rfl ht)
  case publish job =>
    obtain ⟨t, ht, hs⟩ := h
    exact hef rfl hs (publish_ok rfl ht)
  case claim request =>
    obtain ⟨⟨claimed, t⟩, ht, hs⟩ := h
    exact hef rfl hs (claim_ok hk rfl ht)
  case heartbeat worker delivery =>
    obtain ⟨⟨grant, t⟩, ht, hs⟩ := h
    exact hef rfl hs (heartbeat_ok hk rfl ht)
  case giveBack worker delivery defer =>
    obtain ⟨t, ht, hs⟩ := h
    exact hef rfl hs (giveBack_ok hk rfl ht)
  case settle worker settlement =>
    obtain ⟨⟨receipt, t⟩, ht, hs⟩ := h
    exact hef rfl hs (settle_ok hk rfl ht)
  case ensure app zone deployment revision =>
    obtain ⟨t, ht, hs⟩ := h
    exact hef rfl hs (ensure_ok ht)
  case dispatch app kind minted =>
    obtain ⟨⟨job, t⟩, ht, hs⟩ := h
    exact hef rfl hs (dispatch_ok rfl ht)
  case establish app after admission =>
    obtain ⟨⟨epoch, t⟩, ht, hs⟩ := h
    exact hef rfl hs (establish_ok ht)
  case noteIngress app =>
    obtain ⟨t, ht, hs⟩ := h
    exact hef rfl hs (noteIngress_ok ht)
  case beginClose app minted =>
    obtain ⟨⟨job, t⟩, ht, hs⟩ := h
    exact hef rfl hs (beginClose_ok rfl ht)
  case expireClose app =>
    obtain ⟨⟨b, t⟩, ht, hs⟩ := h
    exact hef rfl hs (expireClose_ok ht)
  case closingTurn app minted =>
    obtain ⟨⟨c, t⟩, ht, hs⟩ := h
    exact hef rfl hs (closingTurn_ok rfl ht)
  case abandon app =>
    obtain ⟨⟨b, t⟩, ht, hs⟩ := h
    exact hef rfl hs (abandon_ok rfl ht)

end Zeroship.Workflow
