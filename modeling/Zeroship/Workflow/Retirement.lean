import Zeroship.Workflow.Fencing

/-! A scope that is retired was quiet while it closed.

Every publication and every claim takes a ticket above the watermark of the closing attempt,
and a row keeps its ticket or gets a higher one. So when no row but the closing job's has a
ticket above the watermark, nothing happened to any other job since. -/
namespace Zeroship.Workflow

open Base List Store Manager Responsibility

/-- The duties that a scope has in each of its states. -/
def dutiesFor : Option Responsibility → List DutyKind
  | none => []
  | some x => match x.state with
    | .opened | .closing => pair
    | .retired | .abandoned => []

variable {x : Responsibility}

theorem dutiesFor_busy (h : x.state = .opened ∨ x.state = .closing) : dutiesFor (some x) = pair := by
  rcases h with h | h <;> simp [dutiesFor, h]

theorem dutiesFor_settled (h : x.state = .retired ∨ x.state = .abandoned) : dutiesFor (some x) = [] := by
  rcases h with h | h <;> simp [dutiesFor, h]

namespace Turn

variable {B R : Responsibility → Prop} {o o' : Option Responsibility} {k k' : List DutyKind} {y : Responsibility}

theorem duties (h : Turn B R o k o' k') (hk : k = dutiesFor o) : k' = dutiesFor o' := by
  subst hk
  cases h with
  | absent => rfl
  | keep phase => simp only [dutiesFor, state_of_phase phase]
  | create state => rw [dutiesFor_busy (.inl state), dutiesFor, nil_append]
  | begin before after epoch began => rw [dutiesFor_busy (.inl before), dutiesFor_busy (.inr after)]
  | lapse before after epoch => rw [dutiesFor_busy (.inr before), dutiesFor_busy (.inl after)]
  | @reopen x _ _ before after epoch =>
    rw [dutiesFor_busy (.inl after)]
    split
    · rename_i hr
      rw [dutiesFor_settled (.inl hr), nil_append]
    rename_i hr
    apply dutiesFor_busy
    cases hs : x.state with
    | opened => exact .inl rfl
    | closing => exact .inr rfl
    | retired => exact absurd hs hr
    | abandoned => exact absurd hs before
  | retire before after epoch drained => rw [dutiesFor_settled (.inl after)]
  | abandon before after epoch => rw [dutiesFor_settled (.inr after)]

/-- A scope stays, its epoch does not go back, it leaves retirement for the next epoch or for
good, and it does not come back from there. -/
theorem epoch {x : Responsibility} (h : Turn B R (some x) k o' k') :
    ∃ x', o' = some x' ∧ x.ingressEpoch ≤ x'.ingressEpoch ∧
      (x.state = .retired → x'.state = .retired ∨ x'.state = .abandoned ∨ x.ingressEpoch < x'.ingressEpoch) ∧
      (x.state = .abandoned → x'.state = .abandoned) := by
  cases h with
  | keep phase =>
    have hst := state_of_phase phase
    exact ⟨_, rfl, (epoch_of_phase phase).ge, fun hs => .inl (hst.trans hs), fun hs => hst.trans hs⟩
  | begin before after epoch began => exact ⟨_, rfl, epoch.ge, fun hs => by simp [before] at hs, fun hs => by simp [before] at hs⟩
  | lapse before after epoch => exact ⟨_, rfl, epoch.ge, fun hs => by simp [before] at hs, fun hs => by simp [before] at hs⟩
  | reopen before after epoch =>
    exact ⟨_, rfl, by omega, fun _ => .inr (.inr (by omega)), fun hs => absurd hs before⟩
  | retire before after epoch drained =>
    exact ⟨_, rfl, epoch.ge, fun _ => .inl after, fun hs => by simp [before] at hs⟩
  | abandon before after epoch => exact ⟨_, rfl, epoch.ge, fun _ => .inr (.inl after), fun _ => after⟩

/-- A scope is closing because it was, or because the attempt has just begun. -/
theorem into_closing (h : Turn B R o k (some y) k') (hs : y.state = .closing) :
    ∃ x, o = some x ∧ (x.phase = y.phase ∨ (x.state = .opened ∧ B y)) := by
  cases h with
  | keep phase => exact ⟨_, rfl, .inl phase.symm⟩
  | begin before after epoch began => exact ⟨_, rfl, .inr ⟨before, began⟩⟩
  | create after | lapse _ after | reopen _ after | retire _ after | abandon _ after =>
    rw [hs] at after
    cases after

/-- A scope is retired because it was, or because its closing has just come to an end. -/
theorem into_retired (h : Turn B R o k (some y) k') (hs : y.state = .retired) :
    ∃ x, o = some x ∧ (x.state = .retired ∨ (x.state = .closing ∧ R x)) := by
  cases h with
  | keep phase => exact ⟨_, rfl, .inl ((state_of_phase phase).symm.trans hs)⟩
  | retire before after epoch drained => exact ⟨_, rfl, .inr ⟨before, drained⟩⟩
  | create after | begin _ after | lapse _ after | reopen _ after | abandon _ after =>
    rw [hs] at after
    cases after

end Turn

/-- A step leaves the recovery of an app alone, or it is a turn of it. -/
theorem step_turn {m : Manager} {s s' : Store} {r : Request} {os : List (Except Error Reply)} (hk : s.Keyed)
    (h : m.machine.step s r = some (s', os)) (app : AppId) :
    (s'.scopeOf app = s.scopeOf app ∧ s'.kinds app = s.kinds app) ∨ (r.call.app = app ∧
        Turn (Begun m r s s') (Drained r s s') (s.scopeOf app) (s.kinds app) (s'.scopeOf app) (s'.kinds app)) := by
  rcases step_ok hk h with ⟨e, -, rfl⟩ | ⟨reply, -, effect⟩
  · exact .inl ⟨rfl, rfl⟩
  by_cases hap : r.call.app = app
  · subst hap
    exact .inr ⟨rfl, effect.recovered.turn⟩
  · exact .inl (effect.recovered.elsewhere app (Ne.symm hap))

section

variable {m : Manager} {env : Environment Store Request (Except Error Reply)} {h h₁ h₂ : Log} {s : Store} {t : Entry}
  {x : Responsibility}

/-- An app has the duties that its scope asks for, after every run. -/
theorem run_duties (run : m.machine.Run env empty h s) (app : AppId) : s.kinds app = dutiesFor (s.scopeOf app) := by
  refine run.invariant (fun _ s => s.kinds app = dutiesFor (s.scopeOf app)) rfl ?_
  intro h s s' r os hr hd _ ht
  rcases step_turn (run_keyed hr) ht app with ⟨hs, hkn⟩ | ⟨-, htr⟩
  · rw [hs, hkn]
    exact hd
  · exact htr.duties hd

theorem step_epoch (run : m.machine.Run env empty h s) (hh : h = h₁ ++ t :: h₂) {app : AppId}
    (hx : t.before.scopeOf app = some x) : ∃ x', t.after.scopeOf app = some x' ∧ x.ingressEpoch ≤ x'.ingressEpoch ∧
      (x.state = .retired → x'.state = .retired ∨ x'.state = .abandoned ∨ x.ingressEpoch < x'.ingressEpoch) ∧
      (x.state = .abandoned → x'.state = .abandoned) := by
  obtain ⟨hr, -, htk⟩ := run.at_step hh
  rcases step_turn (run_keyed hr) htk app with ⟨hs, -⟩ | ⟨-, ht⟩
  · exact ⟨x, hs.trans hx, le_refl _, .inl, id⟩
  · rw [hx] at ht
    exact ht.epoch

theorem claim_opens (run : m.machine.Run env empty h s) (hh : h = h₁ ++ t :: h₂) {delivery : Delivery}
    (hd : delivery ∈ t.outputs.filterMap granted) (hin : delivery.job.producesIntents)
    (hx : t.after.scopeOf delivery.job.appId = some x) : x.state ≠ .retired := by
  obtain ⟨hr, -, ht⟩ := run.at_step hh
  obtain ⟨job, grant, c, rfl, leasing⟩ := step_granted (run_keyed hr) ht hd
  rw [leasing.spec] at hin hx
  exact leasing.intents hin x hx

end

/-- The scope is closing, with this job and this watermark. -/
def ClosingWith (s : Store) (app : AppId) (close : JobId) (w : Int) : Prop :=
  ∃ x, s.scopeOf app = some x ∧ x.state = .closing ∧ x.closeJobId = some close ∧ x.closingWatermark = some w

/-- Nothing of the app was published, and no job of it but the closing one was claimed,
renewed, given back or settled, or changed in any other way. -/
structure Quiet (u : Entry) (app : AppId) (close : JobId) : Prop where
  unpublished : ∀ job ∈ u.after.jobs, job.appId = app → ∃ old ∈ u.before.jobs, old.id = job.id
  unclaimed : ∀ delivery ∈ u.outputs.filterMap granted, delivery.job.appId = app → delivery.job.id = close
  unused : ∀ worker delivery, Uses u worker delivery → delivery.job.appId = app → delivery.job.id = close
  unchanged : ∀ job ∈ u.after.jobs, job.appId = app → job.id ≠ close → job ∈ u.before.jobs

/-- A job with a ticket above the watermark, other than the closing one. -/
structure Late (app : AppId) (close : JobId) (w : Int) (job : Job) : Prop where
  app : job.appId = app
  other : job.id ≠ close
  order : w < job.dispatchOrder

variable {job : Job}

theorem Late.succeeds {app : AppId} {close : JobId} {w : Int} {job' : Job} (h : Late app close w job)
    (hs : Change.Succeeds job job') : Late app close w job' :=
  ⟨(congrArg JobSpec.appId hs.spec).trans h.app, fun hid => h.other (hs.id.symm.trans hid), h.order.trans_le hs.order⟩

namespace Change

variable {q : Queue} {r : Request} {s s' : Store} {reply : Reply}

/-- The cursor of an app does not go back. -/
theorem cursor (hc : Change q r s s' reply) {app : AppId} {w c : Int} (h : s.cursor app = some c) (hw : w ≤ c) :
    ∃ c', s'.cursor app = some c' ∧ w ≤ c' := by
  have htc {b : AppId} {d : Int} (ht : s.Ticket s' b d) : ∃ c', s'.cursor app = some c' ∧ w ≤ c' := by
    by_cases hb : app = b
    · subst hb
      obtain rfl : c = d := Option.mem_unique h ht.before
      exact ⟨c + 1, ht.after, by omega⟩
    · exact ⟨c, (ht.others app hb).trans h, hw⟩
  have hs (hsm : s'.scopes = s.scopes) : ∃ c', s'.cursor app = some c' ∧ w ≤ c' :=
    ⟨c, (cursor_congr hsm app).trans h, hw⟩
  cases hc with
  | still quiet jobs cursors => exact ⟨c, cursors app c h, hw⟩
  | published quiet app fresh ticket jobs => exact htc ticket
  | claimed leasing => exact htc leasing.ticket
  | renewed renewing | returned renewing | settled renewing => exact hs renewing.scopes
  | replayed call row spec state outcome same => exact hs (by rw [same])
  | rejected quiet call jobs scopes abandoned => exact hs scopes

end Change

/-! ### Closing attempts -/

/-- An attempt at closing that is still under way: the step that began it and the steps
since, with what they left in the rows. -/
structure Attempt (h : Log) (s : Store) (app : AppId) (close : JobId) (w : Int) (earlier : Log) (first : Entry)
    (between : Log) : Prop where
  split : h = earlier ++ first :: between
  call : first.input.call.app = app
  opened : ∃ x, first.before.scopeOf app = some x ∧ x.state = .opened
  closing : ClosingWith first.after app close w
  stays : ∀ u ∈ between, ClosingWith u.after app close w
  row : ∃ job ∈ s.jobs, job.id = close
  cursor : ∃ c, s.cursor app = some c ∧ w ≤ c
  idle : ∀ job ∈ s.jobs, job.appId = app → job.id ≠ close →
    w < job.dispatchOrder ∨ job.leasedAfter first.input.reading.first.millis = false
  disturbed : ∀ u ∈ between, ¬ Quiet u app close → ∃ job ∈ s.jobs, Late app close w job

theorem leasedAfter_mono {now now' : Int} (h : job.leasedAfter now') (hle : now ≤ now') : job.leasedAfter now := by
  simp only [Job.leasedAfter, Bool.and_eq_true, decide_eq_true_eq, Option.any_eq_true] at h ⊢
  obtain ⟨hs, deadline, hd, hlt⟩ := h
  exact ⟨hs, deadline, hd, hle.trans_lt hlt⟩

namespace Attempt

variable {q : Queue} {h : Log} {s : Store} {t : Entry} {app : AppId} {close : JobId} {w : Int} {earlier : Log}
  {first : Entry} {between : Log} {reply : Reply}

section
variable (ha : Attempt h s app close w earlier first between) {job : Job}
include ha

/-- A delivery of another job that is live after the attempt began was claimed since. -/
theorem held_late (hserial : serialised h s t.input)
    (hap : t.input.call.app = app) {delivery : Delivery} (hh : Held s job delivery t.input.reading.first.millis)
    (hj : job.appId = app) (hot : job.id ≠ close) : Late app close w job := by
  refine ⟨hj, hot, ?_⟩
  rcases ha.idle job hh.row hj hot with hlt | hid
  · exact hlt
  have hm : first ∈ h := by
    rw [ha.split]
    exact mem_append_right _ mem_cons_self
  have hl := hserial first hm (ha.call.trans hap.symm)
  have hor := first.input.reading.ordered
  rw [leasedAfter_mono hh.live (by omega)] at hid
  cases hid

/-- A ticket that is taken while the attempt lasts is above the watermark. -/
theorem ticket_late {s' : Store} {c : Int} (ht : s.Ticket s' app c) : w < c + 1 := by
  obtain ⟨d, hd, hle⟩ := ha.cursor
  obtain rfl : d = c := Option.mem_unique hd ht.before
  omega

/-- A row of another job that was added or changed has a ticket above the watermark. -/
theorem changed_late (hserial : serialised h s t.input)
    (hc : Change q t.input s t.after reply) (hclosing : ClosingWith t.after app close w)
    (hj : job ∈ t.after.jobs) (hap : job.appId = app) (hot : job.id ≠ close) (hn : job ∉ s.jobs) :
    Late app close w job := by
  cases hc.entered hj with
  | kept hol => exact absurd hol hn
  | ticketed call ticket order =>
    rw [hap] at ticket
    refine ⟨hap, hot, ?_⟩
    rw [order]
    exact ha.ticket_late ticket
  | used call held hs =>
    have hsp := congrArg JobSpec.appId hs.spec
    exact (ha.held_late hserial (call.trans hap) held (hsp.symm.trans hap) (hs.id ▸ hot)).succeeds hs
  | rejected call abandoned =>
    obtain ⟨x, hx, hst, -⟩ := hclosing
    obtain ⟨y, hy, hg⟩ := abandoned
    rw [hap, hx] at hy
    cases hy
    rw [hst] at hg
    cases hg

section
variable (hk : s.Keyed)
  (hbefore : t.before = s)
  (hserial : serialised h s t.input)
  (ho : t.outputs = [.ok reply])
  (hc : Change q t.input s t.after reply)
  (hclosing : ClosingWith t.after app close w)
include hk hbefore hserial ho hc hclosing

/-- A step of the attempt that leaves no late row was quiet. -/
theorem quiet (hn : ∀ job ∈ t.after.jobs, ¬ Late app close w job) : Quiet t app close := by
  subst hbefore
  have hol (job : Job) (hj : job ∈ t.after.jobs) (hap : job.appId = app) (hot : job.id ≠ close) : job ∈ t.before.jobs := by
    by_contra hnw
    exact hn job hj (ha.changed_late hserial hc hclosing hj hap hot hnw)
  refine ⟨?_, ?_, ?_, hol⟩
  · intro job hj hap
    by_cases hid : job.id = close
    · obtain ⟨row, hrw, hr⟩ := ha.row
      exact ⟨row, hrw, hr.trans hid.symm⟩
    · exact ⟨job, hol job hj hap hid, rfl⟩
  · intro delivery hd hap
    by_contra hot
    obtain ⟨job, grant, c, rfl, leasing⟩ := hc.of_granted ho hd
    rw [leasing.spec] at hap hot
    have ticket := leasing.ticket
    rw [Job.appId, hap] at ticket
    exact hn _ (Change.leased_mem leasing) ⟨hap, hot, ha.ticket_late ticket⟩
  · intro worker delivery hu hap
    by_contra hot
    obtain ⟨-, job, hh⟩ := hu.held ho hc
    have hcl : t.input.call.app = app := by
      cases hu with
      | renewed call | returned call | settled call =>
        rw [call]
        exact hap
    have hsp := hh.spec
    have hlt := ha.held_late hserial hcl hh (by rw [Job.appId, hsp]; exact hap) (by rw [Job.id, hsp]; exact hot)
    obtain ⟨job', hj', hs⟩ := hc.succeeds hk hh.row
    exact hn job' hj' (hlt.succeeds hs)

/-- A step under which the scope stays closing continues the attempt. -/
theorem step : Attempt (h ++ [t]) t.after app close w earlier first (between ++ [t]) := by
  refine ⟨by rw [ha.split]; simp, ha.call, ha.opened, ha.closing, ?_, ?_, ?_, ?_, ?_⟩
  · intro u hu
    rcases mem_append.mp hu with hu | hu
    · exact ha.stays u hu
    · rw [mem_singleton.mp hu]
      exact hclosing
  · obtain ⟨job, hj, rfl⟩ := ha.row
    obtain ⟨job', hj', hs⟩ := hc.succeeds hk hj
    exact ⟨job', hj', hs.id⟩
  · obtain ⟨c, hcr, hle⟩ := ha.cursor
    exact hc.cursor hcr hle
  · intro job hj hap hot
    by_cases hol : job ∈ s.jobs
    · exact ha.idle job hol hap hot
    · exact .inl (ha.changed_late hserial hc hclosing hj hap hot hol).order
  · intro u hu hd
    rcases mem_append.mp hu with hu | hu
    · obtain ⟨job, hj, hlt⟩ := ha.disturbed u hu hd
      obtain ⟨job', hj', hs⟩ := hc.succeeds hk hj
      exact ⟨job', hj', hlt.succeeds hs⟩
    rw [mem_singleton.mp hu] at hd
    by_contra hn
    simp only [not_exists, not_and] at hn
    exact hd (ha.quiet hk hbefore hserial ho hc hclosing hn)

end

theorem refused {e : Error} (hbefore : t.before = s)
    (haf : t.after = s) (ho : t.outputs = [.error e]) (hclosing : ClosingWith s app close w) :
    Attempt (h ++ [t]) s app close w earlier first (between ++ [t]) := by
  have hq : Quiet t app close := by
    refine ⟨?_, ?_, ?_, ?_⟩
    · intro job hj _
      rw [hbefore]
      exact ⟨job, haf ▸ hj, rfl⟩
    · intro delivery hd
      rw [ho] at hd
      cases hd
    · intro worker delivery hu
      cases hu with
      | renewed call hr | returned call hr | settled call hr =>
        rw [ho, mem_singleton] at hr
        cases hr
    · intro job hj _ _
      rw [hbefore]
      exact haf ▸ hj
  refine ⟨by rw [ha.split]; simp, ha.call, ha.opened, ha.closing, ?_, ha.row, ha.cursor, ha.idle, ?_⟩
  · intro u hu
    rcases mem_append.mp hu with hu | hu
    · exact ha.stays u hu
    · rw [mem_singleton.mp hu, haf]
      exact hclosing
  · intro u hu hds
    rcases mem_append.mp hu with hu | hu
    · exact ha.disturbed u hu hds
    · rw [mem_singleton.mp hu] at hds
      exact absurd hq hds

end

/-- The step that begins to close a scope starts an attempt. -/
theorem begins {guards : Guards} {x y : Responsibility} (hcl : t.input.call.app = app)
    (hx : t.before.scopeOf app = some x) (hop : x.state = .opened) (hy : t.after.scopeOf app = some y)
    (hclosing : y.state = .closing)
    (hb : Begins q guards t.before t.after app close t.input.reading.first.millis w y) :
    Attempt (h ++ [t]) t.after app close w h t [] := by
  obtain ⟨epoch, u, hi, hjb, hs⟩ := hb.inserted
  have hrw : (∃ job ∈ t.after.jobs, job.id = close) ∧ (∀ job ∈ t.after.jobs, job.id ≠ close → job ∈ t.before.jobs) ∧
      ∃ c, t.after.cursor app = some c ∧ w ≤ c := by
    rw [← hjb, ← cursor_congr hs]
    rcases insert_ok hi with ⟨rfl, job, hj, hsp⟩ | ⟨c, ticket, -, hp, -, -⟩
    · exact ⟨⟨job, hj, congrArg JobSpec.id hsp⟩, fun job hj _ => hj, w, hb.cursor, le_refl w⟩
    rw [hp]
    refine ⟨⟨_, mem_append_right _ (mem_singleton_self _), rfl⟩, ?_, c + 1, ticket.after, ?_⟩
    · intro job hj hot
      rcases mem_append.mp hj with hol | hn
      · exact hol
      · rw [mem_singleton.mp hn] at hot
        exact absurd rfl hot
    · obtain rfl : w = c := Option.mem_unique hb.cursor ticket.before
      omega
  obtain ⟨hr, hol, hcr⟩ := hrw
  refine ⟨rfl, hcl, ⟨x, hx, hop⟩, ⟨y, hy, hclosing, hb.closeJob, hb.watermark⟩, ?_, hr, hcr, ?_, ?_⟩
  · intro u hu
    cases hu
  · intro job hj hap hot
    right
    have hun := hb.unleased
    simp only [leased, any_eq_false, Option.all_none, Bool.and_true] at hun
    simpa [hap] using hun job (hol job hj hot)
  · intro u hu
    cases hu

/-- Every scope that is closing has an attempt under way. -/
theorem of_run {m : Manager} (run : m.machine.Run serialised empty h s) (hclosing : ClosingWith s app close w) :
    ∃ earlier first between, Attempt h s app close w earlier first between := by
  refine run.invariant (fun h s => ∀ app close w, ClosingWith s app close w →
    ∃ earlier first between, Attempt h s app close w earlier first between) ?_ ?_ app close w hclosing
  · rintro app close w ⟨x, hx, -⟩
    cases hx
  intro h s s' r os hr ih hof ht app close w hclosing
  have hk := run_keyed hr
  have hcn (hbefore : ClosingWith s app close w) :
      ∃ earlier first between, Attempt (h ++ [⟨s, r, os, s'⟩]) s' app close w earlier first between := by
    obtain ⟨earlier, first, between, ha⟩ := ih app close w hbefore
    rcases step_ok hk ht with ⟨e, ho, rfl⟩ | ⟨reply, ho, effect⟩
    · exact ⟨_, _, _, ha.refused rfl rfl ho hclosing⟩
    · exact ⟨_, _, _, ha.step hk rfl hof ho effect.change hclosing⟩
  obtain ⟨y, hy, hs, hcl, hw⟩ := hclosing
  rcases step_turn hk ht app with ⟨hsc, -⟩ | ⟨hap, htr⟩
  · exact hcn ⟨y, hsc.symm.trans hy, hs, hcl, hw⟩
  rw [hy] at htr
  obtain ⟨x, hx, hp | ⟨hop, close', w', hb⟩⟩ := htr.into_closing hs
  · refine hcn ⟨x, hx, (state_of_phase hp).trans hs, ?_, ?_⟩
    · exact (congrArg (fun p => p.2.2.2) hp).trans hcl
    · exact (congrArg (fun p => p.2.2.1) hp).trans hw
  obtain rfl : close = close' := Option.mem_unique hcl hb.closeJob
  obtain rfl : w = w' := Option.mem_unique hw hb.watermark
  subst hap
  exact ⟨_, _, _, begins (t := ⟨s, r, os, s'⟩) rfl hx hop hy hs hb⟩

end Attempt

/-! ### Retirement -/

def Retirement (t : Entry) (app : AppId) : Prop :=
  (∃ y, t.after.scopeOf app = some y ∧ y.state = .retired) ∧ ∀ x, t.before.scopeOf app = some x → x.state ≠ .retired

/-- A scope is retired by the settlement of the closing job of its attempt, and every step
since the one that began the attempt was quiet. -/
theorem retired_quietly {m : Manager} {h h₁ h₂ : Log} {s : Store} {t : Entry} {app : AppId}
    (run : m.machine.Run serialised empty h s) (hh : h = h₁ ++ t :: h₂) (hr : Retirement t app) :
    ∃ close w earlier first between, h₁ = earlier ++ first :: between ∧
      (∃ x, first.before.scopeOf app = some x ∧ x.state = .opened) ∧ ClosingWith first.after app close w ∧
      (∀ u ∈ between, ClosingWith u.after app close w ∧ Quiet u app close) ∧
      ∃ worker settlement, t.input.call = .settle worker settlement ∧ settlement.delivery.job.id = close := by
  obtain ⟨hrn, -, htk⟩ := run.at_step hh
  obtain ⟨⟨y, hy, hrtr⟩, hbefore⟩ := hr
  have hk := run_keyed hrn
  rcases step_turn hk htk app with ⟨hsc, -⟩ | ⟨hap, ht⟩
  · exact absurd hrtr (hbefore y (hsc.symm.trans hy))
  rw [hy] at ht
  obtain ⟨x, hx, hst | ⟨hclosing, job, settlement, digest, w, hs, hrt⟩⟩ := ht.into_retired hrtr
  · exact absurd hst (hbefore x hx)
  obtain ⟨earlier, first, between, ha⟩ :=
    Attempt.of_run hrn ⟨x, hx, hclosing, hrt.closeJob, hrt.watermark⟩
  have hcl : settlement.delivery.job.appId = app := by
    rw [hs.call] at hap
    exact hap
  refine ⟨_, w, earlier, first, between, ha.split, ha.opened, ha.closing, ?_, _, settlement, hs.call, rfl⟩
  intro u hu
  refine ⟨ha.stays u hu, ?_⟩
  by_contra hd
  obtain ⟨old, hol, hlt⟩ := ha.disturbed u hu hd
  obtain ⟨new, hn, hsu⟩ := Change.succeeds (q := m.queue) (.settled hs) hk hol
  have hl' := hlt.succeeds hsu
  have hun := hrt.unclaimed
  simp only [claimedAfter, any_eq_false] at hun
  have := hun new hn
  simp [hl'.app, hcl, hl'.order, hl'.other] at this

/-- In every history of the manager: a scope is retired only by the settlement of its closing
job, after nothing happened to other jobs of the app since the attempt began; the duties of a
scope follow its state; epochs never go back, and a scope leaves retirement for a higher
epoch unless its app is deleted; a claim of a job that produces intents leaves no scope
retired; and an abandoned scope stays so. -/
theorem retirement_quiescent {m : Manager} {h : Log} {s : Store} (run : m.machine.Run serialised Store.empty h s) :
    (∀ (h₁ : Log) (t : Entry) (h₂ : Log), h = h₁ ++ t :: h₂ → ∀ app, Retirement t app →
      ∃ (close : JobId) (w : Int) (earlier : Log) (first : Entry) (between : Log), h₁ = earlier ++ first :: between ∧
        (∃ x, first.before.scopeOf app = some x ∧ x.state = .opened) ∧ ClosingWith first.after app close w ∧
        (∀ u ∈ between, ClosingWith u.after app close w ∧ Quiet u app close) ∧
        ∃ worker settlement, t.input.call = .settle worker settlement ∧ settlement.delivery.job.id = close) ∧
    (∀ (app : AppId) (x : Responsibility), s.scopeOf app = some x →
      (x.state = .retired ∨ x.state = .abandoned → s.kinds app = []) ∧
      (x.state = .opened ∨ x.state = .closing → s.kinds app = [.reconcile, .collect])) ∧
    (∀ (h₁ : Log) (t : Entry) (h₂ : Log), h = h₁ ++ t :: h₂ →
      ∀ (app : AppId) (x : Responsibility), t.before.scopeOf app = some x →
      ∃ x' : Responsibility, t.after.scopeOf app = some x' ∧ x.ingressEpoch ≤ x'.ingressEpoch ∧
        (x.state = .retired → x'.state = .retired ∨ x'.state = .abandoned ∨ x.ingressEpoch < x'.ingressEpoch) ∧
        (x.state = .abandoned → x'.state = .abandoned)) ∧ ∀ (h₁ : Log) (t : Entry) (h₂ : Log), h = h₁ ++ t :: h₂ →
      ∀ delivery ∈ t.outputs.filterMap granted, delivery.job.producesIntents →
      ∀ x : Responsibility, t.after.scopeOf delivery.job.appId = some x → x.state ≠ .retired := by
  refine ⟨?_, ?_, ?_, ?_⟩
  · intro h₁ t h₂ hh app hr
    exact retired_quietly run hh hr
  · intro app x hx
    have hdt := run_duties run app
    rw [hx] at hdt
    exact ⟨fun hs => hdt.trans (dutiesFor_settled hs), fun hs => hdt.trans (dutiesFor_busy hs)⟩
  · intro h₁ t h₂ hh app x hx
    exact step_epoch run hh hx
  · intro h₁ t h₂ hh delivery hd hin x hx
    exact claim_opens run hh hd hin hx

/-- An app that is closed. -/
def closedApp : List Request :=
  [ .plain "w" 0 (.ensure "app" "zone" "d" 1),
    .plain "w" 1 (.beginClose "app" "close"),
    .plain "w" 2 (.claim (anyJob "app" "w")),
    .plain "w" 3 (.settle "w" ⟨⟨⟨"close", "app", .close 1, 1⟩, "w", 1, 32⟩, .closed true, rfl⟩) ]

theorem closed_app_quiescent :
    ((Manager.plain.machine.trace Store.empty closedApp).any fun t =>
      (t.before.scopeOf "app").any (·.state = .closing) && (t.after.scopeOf "app").any (·.state = .retired)) ∧
    (Manager.plain.machine.reach Store.empty closedApp).kinds "app" = [] := by
  refine ⟨by decide +kernel, ?_⟩
  have hserial : Machine.Offered serialised [] (plain.machine.trace empty closedApp) := by decide +kernel
  have hr : ((plain.machine.reach empty closedApp).scopeOf "app").any (·.state = .retired) := by
    decide +kernel
  obtain ⟨x, hx, hs⟩ := (Option.any_eq_true _ _).mp hr
  exact ((retirement_quiescent (.of_trace hserial)).2.1 "app" x hx).1 (.inl (of_decide_eq_true hs))

/-- The deletion of an app takes its scope out of retirement at the same epoch. -/
theorem deletion_keeps_epoch : ∃ h s, Manager.plain.machine.Run serialised Store.empty h s ∧ ∃ t ∈ h, ∃ x x',
      t.before.scopeOf "app" = some x ∧ x.state = .retired ∧
      t.after.scopeOf "app" = some x' ∧ x'.state ≠ .retired ∧ ¬ x.ingressEpoch < x'.ingressEpoch := by
  let calls := closedApp ++ [.plain "w" 4 (.abandon "app")]
  have hserial : Machine.Offered serialised [] (plain.machine.trace empty calls) := by decide +kernel
  refine ⟨_, _, .of_trace hserial, ?_⟩
  have hst : (plain.machine.trace empty calls).any (fun t =>
      (t.before.scopeOf "app").any fun x => (t.after.scopeOf "app").any fun x' =>
        x.state = .retired && (x'.state ≠ .retired && !decide (x.ingressEpoch < x'.ingressEpoch))) := by
    decide +kernel
  obtain ⟨t, ht, hx⟩ := any_eq_true.mp hst
  obtain ⟨x, hx, hx'⟩ := (Option.any_eq_true _ _).mp hx
  obtain ⟨x', hx', hs⟩ := (Option.any_eq_true _ _).mp hx'
  simp only [Bool.and_eq_true, decide_eq_true_eq, Bool.not_eq_true', decide_eq_false_iff_not] at hs
  exact ⟨t, ht, x, x', hx, hs.1, hx', hs.2.1, hs.2.2⟩

end Zeroship.Workflow
