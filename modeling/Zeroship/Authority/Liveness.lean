import Zeroship.Authority.Cache

/-! Which observations the policy cache hands out.

What a call's own reservation or read brought is returned alive, and after no invalidation of
its app. Two ways are left out of these checks: a failed read falls back on the observation
that the call reserved, and a waiter picks up its answer some time after it was sent. -/
namespace Zeroship.Authority
open Base Workflow List ControlPolicies

abbrev CacheHistory := History ControlPolicies CacheInput CacheEvent
abbrev CacheStep := Step ControlPolicies CacheInput CacheEvent

/-! ### What a step does to the calls -/

variable (rest : List CacheInput) (s : ControlPolicies)

/-- The read of some call has made this observation. -/
def Brought (o : Held) : Prop :=
  ∃ (c : CallId) (app : AppId) (identity : Nat) (current : Option Held),
    s.calls c = some (.reading app identity current (some o))

/-- How a call comes to be in the state that it is in after a step. -/
inductive Became (s : ControlPolicies) (i : CacheInput) (os : List CacheEvent) (c : CallId) : Pending → Prop
  | same {p : Pending} (h : s.calls c = some p) : Became s i os c p
  | reads {app oldest : AppId} {current : Option Held} (hc : c = s.started) (hi : i = .observe app oldest)
      (hcurrent : ∀ o, current = some o → ∃ e ∈ s.cache.entries, e.observation = some o) :
      Became s i os c (.reading app s.identities current none)
  | waits {app oldest : AppId} (hc : c = s.started) (hi : i = .observe app oldest) : Became s i os c (.waiting app none)
  | captured {app : AppId} {identity : Nat} {current : Option Held} {o : Held}
      (h : s.calls c = some (.reading app identity current none)) (ho : .captured c o ∈ os) :
      Became s i os c (.reading app identity current (some o))
  | answered {app : AppId} {m : Except Error Held} (h : s.calls c = some (.waiting app none))
      (hm : ∀ o, m = .ok o → Brought s o ∧ ∃ e ∈ s.cache.entries, c ∈ e.waiters) :
      Became s i os c (.waiting app (some m))

/-- The input has a call hand out an observation that it did not read itself and that the
cache is not asked for again. -/
def Relies (i : CacheInput) (c : CallId) (o : Held) : Prop :=
  (i = .fail c ∧ ∃ (app : AppId) (identity : Nat) (captured : Option Held),
    s.calls c = some (.reading app identity (some o) captured)) ∨
  (i = .receive c ∧ ∃ app : AppId, s.calls c = some (.waiting app (some (.ok o))))

/-- The ways in which a call returns an observation. -/
inductive Returns (s : ControlPolicies) (i : CacheInput) (c : CallId) (o : Held) : Prop
  | cached (hc : c = s.started) (hlive : s.now < o.expiresAt)
  | read {app : AppId} {identity : Nat} {current captured : Option Held} {e : Entry}
      (hc : s.calls c = some (.reading app identity current captured)) (he : e ∈ s.cache.entries) (happ : e.appId = app)
      (hid : e.identity = identity) (hlive : s.now < o.expiresAt)
  | relied (h : Relies s i c o)

/-- What one step does to entries, calls and counters. -/
structure Effect (s : ControlPolicies) (i : CacheInput) (os : List CacheEvent) (s' : ControlPolicies) : Prop where
  entries : Derives s.identities (fun a w => w = s.started ∧ w < s'.started ∧ s'.calls w = some (.waiting a none))
    (Brought s) s.cache s'.cache
  calls : ∀ c p, s'.calls c = some p → Became s i os c p
  identities : s.identities ≤ s'.identities
  started : s.started ≤ s'.started
  begun : ∀ app oldest, i = .observe app oldest → s.identities < s'.identities ∧ s.started < s'.started
  removed : ∀ app, i = .invalidate app → ∀ e ∈ s'.cache.entries, e.appId ≠ app

/-- And what it hands out. -/
structure Turn (s : ControlPolicies) (i : CacheInput) (os : List CacheEvent) (s' : ControlPolicies) : Prop
    extends Effect s i os s' where
  returned : ∀ c o, .returned c o ∈ os → Returns s i c o

namespace ControlPolicies
variable {s s' : ControlPolicies} {i : CacheInput} {os : List CacheEvent} {c call : CallId} {p : Pending}

theorem send_calls {callers : List CallId} {m : Except Error Held} (h : (s.send callers m).calls c = some p) :
    s.calls c = some p ∨ ∃ app, c ∈ callers ∧ s.calls c = some (.waiting app none) ∧ p = .waiting app (some m) := by
  simp only [send] at h
  split at h
  · next hm =>
    obtain ⟨q, hq, hp⟩ := Option.map_eq_some_iff.mp h
    split at hp
    · exact .inr ⟨_, hm, hq, hp.symm⟩
    · exact .inl (hp ▸ hq)
  · exact .inl h

theorem leave_calls (h : (s.leave call).calls c = some p) : s.calls c = some p := by
  simp only [leave] at h
  split at h
  · cases h
  · exact h

theorem setCall_calls {q : Pending} (h : (s.setCall call q).calls c = some p) :
    c = call ∧ p = q ∨ s.calls c = some p := by
  simp only [setCall] at h
  split at h
  · next hc => exact .inl ⟨hc, (Option.some.inj h).symm⟩
  · exact .inr h

theorem turn_of (hi : i.continues)
    (hen : Derives s.identities (fun a w => w = s.started ∧ w < s'.started ∧ s'.calls w = some (.waiting a none))
      (Brought s) s.cache s'.cache) (hc : ∀ c p, s'.calls c = some p → Became s i os c p)
    (hid : s.identities ≤ s'.identities) (hs : s.started = s'.started)
    (hr : ∀ c o, .returned c o ∈ os → Returns s i c o) : Turn s i os s' where
  entries := hen
  calls := hc
  identities := hid
  started := hs.le
  begun := fun _ _ ho => by rw [ho] at hi; cases hi
  removed := fun _ hin => by rw [hin] at hi; cases hi
  returned := hr

theorem turn_leave (hi : i.continues) (hr : ∀ c o, .returned c o ∈ os → Returns s i c o) :
    Turn s i os (s.leave call) :=
  turn_of hi (.refl _) (fun _ _ h => .same (leave_calls h)) le_rfl rfl hr

theorem turn_dropTicket (hi : i.continues) (app : AppId) (identity : Nat)
    (hr : ∀ c o, .returned c o ∈ os → Returns s i c o) : Turn s i os ((s.dropTicket app identity).leave call) := by
  refine turn_of hi (abandon_derives s.cache s.now app identity) (fun c p h => ?_) le_rfl rfl hr
  obtain hc | ⟨a, -, hc, rfl⟩ := send_calls (leave_calls h)
  · exact .same hc
  · exact .answered hc fun _ ho => by cases ho

theorem begin_turn {app oldest : AppId} (h : s.begin app oldest = some (s', os)) :
    Turn s (.observe app oldest) os s' := by
  simp only [begin, Option.bind_eq_bind, Option.bind_eq_some_iff] at h
  obtain ⟨⟨cache, r⟩, hr, h⟩ := h
  obtain ⟨hrs, hd⟩ := reserve_some hr
  suffices hcl : (r = .wait → s'.calls s.started = some (.waiting app none)) ∧
      (∀ c p, s'.calls c = some p → Became s (.observe app oldest) os c p) ∧
      ∀ c o, .returned c o ∈ os → Returns s (.observe app oldest) c o by
    obtain ⟨rfl, hid, hs⟩ : s'.cache = cache ∧ s'.identities = s.identities + 1 ∧ s'.started = s.started + 1 := by
      cases r <;> cases h <;> exact ⟨rfl, rfl, rfl⟩
    have hlt : s.started < s'.started := hs ▸ Nat.lt_succ_self _
    refine ⟨⟨hd.mono ?_ (fun _ ho => ho.elim), hcl.2.1, hid ▸ Nat.le_succ _, hlt.le,
      fun _ _ _ => ⟨hid ▸ Nat.lt_succ_self _, hlt⟩, fun _ hi => by cases hi⟩, hcl.2.2⟩
    rintro a w ⟨hw, rfl, rfl⟩
    exact ⟨rfl, hlt, hcl.1 hw⟩
  cases r <;> cases h
  case cached o =>
    refine ⟨nofun, fun _ _ hc => .same hc, fun c o hrt => ?_⟩
    cases mem_singleton.mp hrt
    exact .cached rfl hrs
  case refresh identity =>
    obtain rfl : identity = s.identities := hrs
    refine ⟨nofun, fun c p hc => ?_, by simp⟩
    obtain ⟨rfl, rfl⟩ | hc := setCall_calls hc
    · exact .reads rfl rfl fun _ ho => by cases ho
    · exact .same hc
  case ahead identity current =>
    obtain ⟨rfl, hcr⟩ := hrs
    refine ⟨nofun, fun c p hc => ?_, by simp⟩
    obtain ⟨rfl, rfl⟩ | hc := setCall_calls hc
    · exact .reads rfl rfl fun o ho => Option.some.inj ho ▸ hcr
    · exact .same hc
  case wait =>
    refine ⟨fun _ => if_pos rfl, fun c p hc => ?_, by simp⟩
    obtain ⟨rfl, rfl⟩ | hc := setCall_calls hc
    · exact .waits rfl rfl
    · exact .same hc

theorem capture_turn {o : PolicyObservation} (h : s.capture call o = some (s', os)) :
    Turn s (.capture call o) os s' := by
  unfold capture at h
  split at h
  · next app identity current hcl =>
    cases h
    refine turn_of rfl (.refl _) (fun c p hc => ?_) (Nat.le_succ _) rfl (by simp)
    obtain ⟨rfl, rfl⟩ | hc := setCall_calls hc
    · exact .captured hcl (mem_singleton_self _)
    · exact .same hc
  · cases h

theorem finish_turn (h : s.finish call = some (s', os)) : Turn s (.finish call) os s' := by
  unfold finish at h
  split at h
  · next app identity current o hcl =>
    split at h
    · next cache callers hcm =>
      cases h
      obtain ⟨hl, ⟨e, he, ha, hid, rfl⟩, hd⟩ := complete_some s.identities hcm
      have hb : Brought s o := ⟨call, app, identity, current, hcl⟩
      refine turn_of rfl (hd.mono (fun _ _ hj => hj.elim) fun o' ho' => ho' ▸ hb) (fun c p hc => ?_)
        le_rfl rfl fun c o hr => ?_
      · obtain hs | ⟨a, hm, hw, rfl⟩ := send_calls (leave_calls hc)
        · exact .same hs
        · exact .answered hw fun o' ho' => Except.ok.inj ho' ▸ ⟨hb, e, he, hm⟩
      · cases mem_singleton.mp hr
        exact .read hcl he ha hid hl
    · cases h
      exact turn_dropTicket rfl app identity (by simp)
  · cases h

theorem fail_turn (h : s.fail call = some (s', os)) : Turn s (.fail call) os s' := by
  unfold fail at h
  split at h
  · next app identity current captured hc =>
    cases h
    refine turn_dropTicket rfl _ _ fun c o hr => ?_
    cases mem_singleton.mp hr
    exact .relied (.inl ⟨rfl, app, identity, captured, hc⟩)
  · cases h
    exact turn_dropTicket rfl _ _ (by simp)
  · cases h

theorem receive_turn (h : s.receive call = some (s', os)) : Turn s (.receive call) os s' := by
  unfold receive at h
  split at h
  · next app o hc =>
    cases h
    refine turn_leave rfl fun c o hr => ?_
    cases mem_singleton.mp hr
    exact .relied (.inr ⟨rfl, app, hc⟩)
  · cases h
    exact turn_leave rfl (by simp)
  · split at h
    · cases h
    · cases h
      exact turn_leave rfl (by simp)
  · cases h

theorem giveUp_turn (h : s.giveUp call = some (s', os)) : Turn s (.giveUp call) os s' := by
  unfold giveUp at h
  split at h
  · cases h
    exact turn_leave rfl (by simp)
  · cases h

theorem cancel_turn (h : s.cancel call = some (s', os)) : Turn s (.cancel call) os s' := by
  unfold cancel at h
  split at h
  · cases h
    exact turn_dropTicket rfl _ _ (by simp)
  · cases h
    exact turn_leave rfl (by simp)
  · cases h

end ControlPolicies

variable {s : ControlPolicies} {c : CallId} {h : CacheHistory} {o : Held}

theorem step_turn {s' : ControlPolicies} {i : CacheInput} {os : List CacheEvent}
    (h : policyCache.step s i = some (s', os)) : Turn s i os s' := by
  cases i with
  | pass time =>
    cases h
    exact turn_of rfl (.refl _) (fun _ _ hc => .same hc) le_rfl rfl (by simp)
  | observe app oldest => exact begin_turn h
  | capture call o => exact capture_turn h
  | finish call => exact finish_turn h
  | fail call => exact fail_turn h
  | receive call => exact receive_turn h
  | giveUp call => exact giveUp_turn h
  | cancel call => exact cancel_turn h
  | invalidate app =>
    cases h
    refine ⟨⟨derives_remove _ app, fun _ _ hc => .same hc, le_rfl, le_rfl, nofun, fun a ha e he => ?_⟩, by simp⟩
    obtain rfl := CacheInput.invalidate.inj ha
    simpa using (mem_filter.mp he).2

/-! ### What the history says of a call -/

/-- The source made this observation by then. -/
def Captured (h : CacheHistory) (o : Held) : Prop := ∃ c, .captured c o ∈ h.outputs

/-- The step invalidates the app of a call that began before. -/
def RetiredBy (c : CallId) (h : CacheHistory) (u : CacheStep) : Prop :=
  ∃ r ∈ h, ∃ app oldest : AppId, r.input = .observe app oldest ∧ r.before.started = c ∧ u.input = .invalidate app

/-- The app of a call was invalidated since it began. -/
def Retired (h : CacheHistory) (c : CallId) : Prop := ExistsSplit (RetiredBy c) h

/-- It was, and this observation had not been made by then. -/
def MadeAfter (h : CacheHistory) (c : CallId) (o : Held) : Prop :=
  ExistsSplit (fun h₁ u => RetiredBy c h₁ u ∧ ¬ Captured h₁ o) h

/-- The call has an observation to return that it did not read itself. -/
def OnHand (s : ControlPolicies) (c : CallId) (o : Held) : Prop :=
  (∃ (app : AppId) (identity : Nat) (captured : Option Held),
    s.calls c = some (.reading app identity (some o) captured)) ∨
  ∃ app : AppId, s.calls c = some (.waiting app (some (.ok o)))

theorem MadeAfter.retired (ho : MadeAfter h c o) : Retired h c := by
  obtain ⟨h₁, u, h₂, hh, hr, -⟩ := ho
  exact ⟨h₁, u, h₂, hh, hr⟩

theorem Captured.mono {t : CacheStep} (ho : Captured h o) : Captured (h ++ [t]) o :=
  ho.imp fun _ hc => History.mem_outputs_snoc.mpr (.inl hc)

/-- What holds of the cache, of the calls on their way and of what they were answered. -/
structure CacheInv (h : CacheHistory) (s : ControlPolicies) : Prop where
  known : ∀ c p, s.calls c = some p → c < s.started
  tickets : ∀ (c : CallId) (app : AppId) (identity : Nat) (current captured : Option Held),
    s.calls c = some (.reading app identity current captured) → identity < s.identities
  begun : ∀ r ∈ h, ∀ app oldest : AppId, r.input = .observe app oldest →
    r.before.started < s.started ∧ ∀ p, s.calls r.before.started = some p → p.appId = app
  queued : ∀ e ∈ s.cache.entries, ∀ w ∈ e.waiters,
    w < s.started ∧ ∀ app, s.calls w = some (.waiting app none) → app = e.appId
  cached : ∀ e ∈ s.cache.entries, ∀ o, e.observation = some o → Captured h o
  brought : ∀ o, Brought s o → Captured h o
  /-- Once its app was invalidated, the ticket of a reader fits no entry. -/
  fenced : ∀ (c : CallId) (app : AppId) (identity : Nat) (current captured : Option Held),
    s.calls c = some (.reading app identity current captured) → Retired h c →
    ∀ e ∈ s.cache.entries, e.appId = app → e.identity ≠ identity
  /-- And a waiter stands in no entry. -/
  unqueued : ∀ (c : CallId) (app : AppId), s.calls c = some (.waiting app none) → Retired h c →
    ∀ e ∈ s.cache.entries, c ∉ e.waiters
  onHand : ∀ c o, OnHand s c o → Captured h o ∧ ¬ MadeAfter h c o

section
variable {h : CacheHistory} {s s' : ControlPolicies} {i : CacheInput} {os : List CacheEvent}

section
variable (hinv : CacheInv h s) {u : CacheStep}
include hinv

theorem CacheInv.not_retiredBy {h₁ : CacheHistory} (hs : ∀ r ∈ h₁, r ∈ h) : ¬ RetiredBy s.started h₁ u := by
  rintro ⟨r, hr, app, oldest, hi, hc, -⟩
  exact absurd hc ((hinv.begun r (hs r hr) app oldest hi).1).ne

theorem CacheInv.not_retired : ¬ Retired h s.started := by
  rintro ⟨h₁, u, h₂, rfl, hr⟩
  exact hinv.not_retiredBy (fun r hr => mem_append_left _ hr) hr

theorem CacheInv.retiredBy_appId {c : CallId} {p : Pending} (hp : s.calls c = some p)
    (hu : RetiredBy c h u) : u.input = .invalidate p.appId := by
  obtain ⟨r, hr, app, oldest, hi, rfl, ha⟩ := hu
  rw [ha, (hinv.begun r hr app oldest hi).2 p hp]

section
variable (he : Effect s i os s')
include he

theorem step_tickets (c : CallId) (app : AppId) (identity : Nat)
    (current captured : Option Held) (hc : s'.calls c = some (.reading app identity current captured)) :
    identity < s'.identities := by
  cases he.calls c _ hc with
  | same hs => exact (hinv.tickets c _ _ _ _ hs).trans_le he.identities
  | reads _ hi _ => exact (he.begun _ _ hi).1
  | captured hs _ => exact (hinv.tickets c _ _ _ _ hs).trans_le he.identities

theorem step_begun (r : CacheStep) (hr : r ∈ h ++ [⟨s, i, os, s'⟩])
    (app oldest : AppId) (hi : r.input = .observe app oldest) :
    r.before.started < s'.started ∧ ∀ p, s'.calls r.before.started = some p → p.appId = app := by
  rw [mem_append, mem_singleton] at hr
  obtain hr | rfl := hr
  · obtain ⟨hlt, ha⟩ := hinv.begun r hr app oldest hi
    refine ⟨hlt.trans_le he.started, fun p hp => ?_⟩
    cases he.calls _ _ hp with
    | same hs => exact ha _ hs
    | reads hc _ _ | waits hc _ => exact absurd hc hlt.ne
    | captured hs _ | answered hs _ =>
      have ha' := ha _ hs
      exact ha'
  · refine ⟨(he.begun _ _ hi).2, fun p hp => ?_⟩
    have hn {q : Pending} : s.calls s.started ≠ some q := fun hq => lt_irrefl _ (hinv.known _ _ hq)
    cases he.calls _ _ hp with
    | same hs | captured hs _ | answered hs _ => exact absurd hs hn
    | reads _ hi' _ | waits _ hi' => exact (CacheInput.observe.inj (hi'.symm.trans hi)).1

theorem step_known (c : CallId) (p : Pending) (hp : s'.calls c = some p) : c < s'.started := by
  cases he.calls c p hp with
  | same hs => exact (hinv.known c _ hs).trans_le he.started
  | reads hc hi _ => exact hc ▸ (he.begun _ _ hi).2
  | waits hc hi => exact hc ▸ (he.begun _ _ hi).2
  | captured hs _ | answered hs _ => exact (hinv.known c _ hs).trans_le he.started

variable (e' : Entry)

theorem step_queued (he' : e' ∈ s'.cache.entries) (w : CallId) (hw : w ∈ e'.waiters) :
    w < s'.started ∧ ∀ app, s'.calls w = some (.waiting app none) → app = e'.appId := by
  obtain ⟨e, hm, hk⟩ | ⟨-, -, hn⟩ := he.entries e' he'
  · obtain hw | ⟨-, hlt, hcl⟩ := hk.waiters w hw
    · obtain ⟨hlt, ha⟩ := hinv.queued e hm w hw
      refine ⟨hlt.trans_le he.started, fun app hp => ?_⟩
      cases he.calls w _ hp with
      | same hs => exact (ha app hs).trans hk.appId.symm
      | waits hc _ => exact absurd hc hlt.ne
    · refine ⟨hlt, fun app hp => ?_⟩
      rw [hcl] at hp
      rw [hk.appId]
      cases hp
      rfl
  · rw [hn] at hw
    cases hw

theorem step_cached (he' : e' ∈ s'.cache.entries)
    (o : Held) (ho : e'.observation = some o) : Captured h o := by
  obtain ⟨e, hm, hk⟩ | ⟨-, hn, -⟩ := he.entries e' he'
  · obtain ho | ho := hk.observation o ho
    · exact hinv.cached e hm o ho
    · exact hinv.brought o ho
  · rw [hn] at ho
    cases ho

theorem step_brought (o : Held) (ho : Brought s' o) : Captured (h ++ [⟨s, i, os, s'⟩]) o := by
  obtain ⟨c, app, identity, current, hc⟩ := ho
  cases he.calls c _ hc with
  | same hs => exact (hinv.brought o ⟨c, app, identity, current, hs⟩).mono
  | captured _ hot => exact ⟨c, History.mem_outputs_snoc.mpr (.inr hot)⟩

theorem step_fenced (c : CallId) (app : AppId) (identity : Nat)
    (current captured : Option Held) (hc : s'.calls c = some (.reading app identity current captured))
    (hrt : Retired (h ++ [⟨s, i, os, s'⟩]) c) (e' : Entry) (he' : e' ∈ s'.cache.entries) (ha : e'.appId = app) :
    e'.identity ≠ identity := by
  -- A ticket that is older than the step, of a call whose app this step or an earlier one invalidated.
  have ho {cap : Option Held} (hs : s.calls c = some (.reading app identity current cap)) : e'.identity ≠ identity := by
    obtain hrt | hb := existsSplit_concat.mp hrt
    · obtain ⟨e, hm, hk⟩ | ⟨hf, -, -⟩ := he.entries e' he'
      · obtain hid | hid := hk.identity
        · exact hid ▸ hinv.fenced c _ _ _ _ hs hrt e hm (hk.appId.symm.trans ha)
        · exact hid ▸ (hinv.tickets c _ _ _ _ hs).ne'
      · exact hf ▸ (hinv.tickets c _ _ _ _ hs).ne'
    · exact absurd ha (he.removed app (hinv.retiredBy_appId hs hb) e' he')
  cases he.calls c _ hc with
  | same hs | captured hs _ => exact ho hs
  | reads hcs _ _ =>
    subst hcs
    obtain hrt | hb := existsSplit_concat.mp hrt
    · exact absurd hrt hinv.not_retired
    · exact absurd hb (hinv.not_retiredBy fun _ hr => hr)

theorem step_unqueued (c : CallId) (app : AppId)
    (hc : s'.calls c = some (.waiting app none)) (hrt : Retired (h ++ [⟨s, i, os, s'⟩]) c) (e' : Entry)
    (he' : e' ∈ s'.cache.entries) : c ∉ e'.waiters := by
  intro hw
  cases he.calls c _ hc with
  | same hs =>
    obtain hrt | hb := existsSplit_concat.mp hrt
    · obtain ⟨e, hm, hk⟩ | ⟨-, -, hn⟩ := he.entries e' he'
      · obtain hw | ⟨rfl, -⟩ := hk.waiters c hw
        · exact hinv.unqueued c app hs hrt e hm hw
        · exact hinv.not_retired hrt
      · rw [hn] at hw
        cases hw
    · have ha := (step_queued hinv he e' he' c hw).2 app hc
      exact he.removed app (hinv.retiredBy_appId hs hb) e' he' ha.symm
  | waits hcs _ =>
    subst hcs
    obtain hrt | hb := existsSplit_concat.mp hrt
    · exact hinv.not_retired hrt
    · exact hinv.not_retiredBy (fun _ hr => hr) hb

theorem step_onHand (c : CallId) (o : Held) (ho : OnHand s' c o) :
    Captured (h ++ [⟨s, i, os, s'⟩]) o ∧ ¬ MadeAfter (h ++ [⟨s, i, os, s'⟩]) c o := by
  -- It is enough that it was made by now, and that no earlier invalidation came before it.
  suffices hk : Captured h o ∧ ¬ MadeAfter h c o by
    refine ⟨hk.1.mono, fun ha => ?_⟩
    obtain ha | ⟨-, hn⟩ := existsSplit_concat.mp ha
    · exact hk.2 ha
    · exact hn hk.1
  have hcl : ∀ p, s'.calls c = some p → Became s i os c p := he.calls c
  obtain ⟨app, identity, captured, hc⟩ | ⟨app, hc⟩ := ho
  · cases hcl _ hc with
    | same hs => exact hinv.onHand c o (.inl ⟨_, _, _, hs⟩)
    | captured hs _ => exact hinv.onHand c o (.inl ⟨_, _, _, hs⟩)
    | reads hcs _ hcr =>
      subst hcs
      obtain ⟨e, hmm, hob⟩ := hcr o rfl
      exact ⟨hinv.cached e hmm o hob, fun ha => hinv.not_retired ha.retired⟩
  · cases hcl _ hc with
    | same hs => exact hinv.onHand c o (.inr ⟨_, hs⟩)
    | answered hs hm =>
      obtain ⟨hb, e, hmm, hw⟩ := hm o rfl
      exact ⟨hinv.brought o hb, fun ha => hinv.unqueued c app hs ha.retired e hmm hw⟩

theorem CacheInv.step : CacheInv (h ++ [⟨s, i, os, s'⟩]) s' where
  known := step_known hinv he
  tickets := step_tickets hinv he
  begun := step_begun hinv he
  queued := step_queued hinv he
  cached e hm o ho := (step_cached hinv he e hm o ho).mono
  brought := step_brought hinv he
  fenced := step_fenced hinv he
  unqueued := step_unqueued hinv he
  onHand := step_onHand hinv he

end

end

end

def ControlPolicies.new (capacity now : Nat) : ControlPolicies := ⟨now, 0, 0, ⟨[], capacity⟩, fun _ => none⟩

/-- What a turn of the cache keeps holds after every run, whatever the environment. -/
theorem cacheInv_of_run {capacity now : Nat} {env : Environment ControlPolicies CacheInput CacheEvent}
    (run : policyCache.Run env (.new capacity now) h s) : CacheInv h s := by
  refine run.invariant CacheInv ?_ fun _ hinv _ ht => hinv.step (step_turn ht).toEffect
  constructor <;> simp [new, Brought, OnHand]

theorem Relies.onHand {i : CacheInput} (h : Relies s i c o) : OnHand s c o := by
  obtain ⟨-, h⟩ | ⟨-, h⟩ := h
  · exact .inl h
  · exact .inr h

section
variable {s s' : ControlPolicies} {i : CacheInput} {os : List CacheEvent} {c call : CallId} {o : Held}

theorem Relies.returned (h : Relies s i c o) (ht : policyCache.step s i = some (s', os)) : .returned c o ∈ os := by
  obtain ⟨rfl, app, identity, captured, hc⟩ | ⟨rfl, app, hc⟩ := h
  · simp only [policyCache, fail, hc, Option.some.injEq, Prod.mk.injEq] at ht
    exact ht.2 ▸ mem_singleton_self _
  · simp only [policyCache, receive, hc, Option.some.injEq, Prod.mk.injEq] at ht
    exact ht.2 ▸ mem_singleton_self _

end

/-- Every observation is returned before it expires, and none that was made before an
invalidation of the app since the call began. -/
def Live (h : CacheHistory) : Prop :=
  ∀ (h₁ : CacheHistory) (t : CacheStep) (h₂ : CacheHistory), h = h₁ ++ t :: h₂ →
    ∀ (c : CallId) (o : Held), .returned c o ∈ t.outputs → t.before.now < o.expiresAt ∧
      ¬ ExistsSplit (fun h₃ u => RetiredBy c h₃ u ∧ Captured h₃ o) h₁

/-- Whenever a call falls back on what it reserved, or picks up an answer, that is alive and
the app has not been invalidated since the call began. -/
def Prompt (h : CacheHistory) : Prop :=
  ∀ (h₁ : CacheHistory) (t : CacheStep) (h₂ : CacheHistory), h = h₁ ++ t :: h₂ →
    ∀ (c : CallId) (o : Held), Relies t.before t.input c o → t.before.now < o.expiresAt ∧ ¬ Retired h₁ c

/-- However calls, reads, invalidations, evictions and time interleave: the observations
returned are live if those are that a failed read falls back on or a waiter picks up. -/
theorem returned_live_iff (capacity now : Nat) (h : CacheHistory) (s : ControlPolicies)
    (run : policyCache.Run .anything (.new capacity now) h s) : Live h ↔ Prompt h := by
  constructor
  · intro hl h₁ t h₂ hh c o hr
    obtain ⟨hrn, -, ht⟩ := run.at_step hh
    obtain ⟨hex, hn⟩ := hl h₁ t h₂ hh c o (hr.returned ht)
    refine ⟨hex, fun ⟨h₃, u, h₄, hh₁, hb⟩ => ?_⟩
    have hm := ((cacheInv_of_run hrn).onHand c o hr.onHand).2
    by_cases hcp : Captured h₃ o
    · exact hn ⟨h₃, u, h₄, hh₁, hb, hcp⟩
    · exact hm ⟨h₃, u, h₄, hh₁, hb, hcp⟩
  · intro hp h₁ t h₂ hh c o hrt
    obtain ⟨hrn, -, ht⟩ := run.at_step hh
    have hinv := cacheInv_of_run hrn
    have hk : t.before.now < o.expiresAt ∧ ¬ Retired h₁ c := by
      cases (step_turn ht).returned c o hrt with
      | cached hc hl => exact ⟨hl, hc ▸ hinv.not_retired⟩
      | read hc he ha hid hl =>
        exact ⟨hl, fun hrtr => hinv.fenced c _ _ _ _ hc hrtr _ he ha hid⟩
      | relied hr => exact hp h₁ t h₂ hh c o hr
    refine ⟨hk.1, fun ⟨h₃, u, h₄, hh₁, hb, _⟩ => hk.2 ⟨h₃, u, h₄, hh₁, hb⟩⟩

def observed : PolicyObservation := ⟨"app", 1, {}, "zone", false, 100⟩

/-- The first call reads; the second finds half of the observation's time gone and reads ahead,
until `rest`. -/
def readAhead : CacheHistory :=
  policyCache.trace (.new 1 0) ([.observe "app" "app", .capture 0 observed, .finish 0, .pass 60, .observe "app" "app"] ++ rest)

theorem readAhead_run : policyCache.Run .anything (.new 1 0) (readAhead rest)
    (policyCache.reach (.new 1 0)
      ([.observe "app" "app", .capture 0 observed, .finish 0, .pass 60, .observe "app" "app"] ++ rest)) :=
  .of_trace (Machine.offered_anything _ _)

/-- A read ahead that succeeds leaves nothing to rely on. -/
theorem readAhead_live : Live (readAhead [.capture 1 { observed with expiresAt := 160 }, .finish 1]) := by
  refine (returned_live_iff 1 0 _ _ (readAhead_run _)).mpr fun h₁ t h₂ hh c o hr => ?_
  have hin : t.input ∈ _ := Machine.input_of_trace (hh ▸ mem_append_right h₁ mem_cons_self)
  obtain ⟨hi, -⟩ | ⟨hi, -⟩ := hr
  · simp [hi] at hin
  · simp [hi] at hin

theorem Live.get (hl : Live h) (n : Fin h.length)
    (hr : .returned c o ∈ (h.get n).outputs) : (h.get n).before.now < o.expiresAt ∧
      ¬ ExistsSplit (fun h₃ u => RetiredBy c h₃ u ∧ Captured h₃ o) (h.take n) :=
  hl (h.take n) (h.get n) (h.drop (n + 1)) (split_get h n) c o hr

/-- The read ahead takes 60 more and fails: the call returns the observation at 120, 20 after it
expired. Or the app is invalidated during the read: the call returns what the first one read. -/
theorem fallback_not_live : (∃ s, policyCache.Run .anything (.new 1 0) (readAhead [.pass 60, .fail 1]) s) ∧
    ¬ Live (readAhead [.pass 60, .fail 1]) ∧
    (∃ s, policyCache.Run .anything (.new 1 0) (readAhead [.invalidate "app", .fail 1]) s) ∧
    ¬ Live (readAhead [.invalidate "app", .fail 1]) := by
  refine ⟨⟨_, readAhead_run _⟩, ?_, ⟨_, readAhead_run _⟩, ?_⟩
  · intro hlv
    have hr : CacheEvent.returned 1 ⟨1, observed⟩ ∈
        ((readAhead [.pass 60, .fail 1]).get ⟨6, by decide +kernel⟩).outputs := by decide +kernel
    exact absurd (hlv.get _ hr).1 (by decide +kernel)
  · intro hlv
    have hr : CacheEvent.returned 1 ⟨1, observed⟩ ∈
        ((readAhead [.invalidate "app", .fail 1]).get ⟨6, by decide +kernel⟩).outputs := by decide +kernel
    have hl : 5 < (readAhead [.invalidate "app", .fail 1]).length := by decide +kernel
    refine (hlv.get _ hr).2 ⟨_, _, [], take_succ_eq_append_getElem hl, ?_, 0, by decide +kernel⟩
    refine ⟨(readAhead [.invalidate "app", .fail 1]).get ⟨4, by decide +kernel⟩, ?_, "app", "app", ?_⟩
    · rw [mem_take_iff_getElem]
      exact ⟨4, by decide +kernel, rfl⟩
    · exact ⟨by decide +kernel, by decide +kernel, rfl⟩

end Zeroship.Authority
