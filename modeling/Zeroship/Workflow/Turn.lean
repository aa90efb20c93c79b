import Zeroship.Workflow.Frame

/-! The turns that the responsibility for an app can take.

Recovery changes the responsibility of one app and its duties, and neither jobs nor tickets.
`Turn` lists what can become of the two. -/
namespace Zeroship.Workflow

open Base List Responsibility

namespace Responsibility

/-- The part of a responsibility that decides what may happen to it. -/
def phase (r : Responsibility) : ScopeState × Int × Option Int × Option JobId :=
  (r.state, r.ingressEpoch, r.closingWatermark, r.closeJobId)

variable {r r' : Responsibility}

theorem state_of_phase (h : r'.phase = r.phase) : r'.state = r.state :=
  congrArg Prod.fst h

theorem epoch_of_phase (h : r'.phase = r.phase) : r'.ingressEpoch = r.ingressEpoch :=
  congrArg (fun p => p.2.1) h

end Responsibility

def pair : List DutyKind := [.reconcile, .collect]

/-- What becomes of a responsibility and the kinds of its duties. `B` is what is known of a
scope that has begun to close, and `R` of one that is about to be retired. -/
inductive Turn (B R : Responsibility → Prop) :
    Option Responsibility → List DutyKind → Option Responsibility → List DutyKind → Prop
  | absent {k : List DutyKind} : Turn B R none k none k
  | keep {r r' : Responsibility} {k : List DutyKind} (phase : r'.phase = r.phase) : Turn B R (some r) k (some r') k
  | create {r : Responsibility} {k : List DutyKind} (state : r.state = .opened) : Turn B R none k (some r) (k ++ pair)
  | begin {r r' : Responsibility} {k : List DutyKind} (before : r.state = .opened) (after : r'.state = .closing)
      (epoch : r'.ingressEpoch = r.ingressEpoch) (began : B r') : Turn B R (some r) k (some r') k
  | lapse {r r' : Responsibility} {k : List DutyKind} (before : r.state = .closing) (after : r'.state = .opened)
      (epoch : r'.ingressEpoch = r.ingressEpoch) : Turn B R (some r) k (some r') k
  | reopen {r r' : Responsibility} {k : List DutyKind} (before : r.state ≠ .abandoned) (after : r'.state = .opened)
      (epoch : r'.ingressEpoch = r.ingressEpoch + 1) :
      Turn B R (some r) k (some r') (if r.state = .retired then k ++ pair else k)
  | retire {r r' : Responsibility} {k : List DutyKind} (before : r.state = .closing) (after : r'.state = .retired)
      (epoch : r'.ingressEpoch = r.ingressEpoch) (drained : R r) : Turn B R (some r) k (some r') []
  | abandon {r r' : Responsibility} {k : List DutyKind} (before : r.state ≠ .abandoned) (after : r'.state = .abandoned)
      (epoch : r'.ingressEpoch = r.ingressEpoch) : Turn B R (some r) k (some r') []

theorem Turn.mono {B B' R R' : Responsibility → Prop} {o o' : Option Responsibility} {k k' : List DutyKind}
    (h : Turn B R o k o' k') (hb : ∀ r, B r → B' r) (hr : ∀ r, R r → R' r) : Turn B' R' o k o' k' := by
  cases h with
  | absent => exact .absent
  | keep phase => exact .keep phase
  | create state => exact .create state
  | begin before after epoch began => exact .begin before after epoch (hb _ began)
  | lapse before after epoch => exact .lapse before after epoch
  | reopen before after epoch => exact .reopen before after epoch
  | retire before after epoch drained => exact .retire before after epoch (hr _ drained)
  | abandon before after epoch => exact .abandon before after epoch

namespace Store

variable (s : Store) (app : AppId)

def scopeOf : Option Responsibility := s.responsibilities.find? (·.id = app)

def kinds : List DutyKind := (s.duties.filter (·.appId = app)).map (·.kind)

variable {app : AppId} {s s' : Store} {current : Responsibility} {now revision : Int} {job : JobSpec}
  {deployment : DeploymentId} {t : Store}

theorem id_of_scopeOf {r : Responsibility} (h : s.scopeOf app = some r) : r.id = app := by
  simpa using find?_some h

/-- Nothing was changed but the recovery of one app. -/
structure Frame (app : AppId) (s s' : Store) : Prop where
  jobs : s'.jobs = s.jobs
  scopes : s'.scopes = s.scopes
  elsewhere : ∀ b, b ≠ app → s'.scopeOf b = s.scopeOf b ∧ s'.kinds b = s.kinds b

theorem Frame.refl (app : AppId) (s : Store) : Frame app s s := ⟨rfl, rfl, fun _ _ => ⟨rfl, rfl⟩⟩

theorem Frame.trans {u : Store} (h : Frame app s t) (h' : Frame app t u) : Frame app s u where
  jobs := h'.jobs.trans h.jobs
  scopes := h'.scopes.trans h.scopes
  elsewhere b hb := by
    obtain ⟨hs, hk⟩ := h.elsewhere b hb
    obtain ⟨hs', hk'⟩ := h'.elsewhere b hb
    exact ⟨hs'.trans hs, hk'.trans hk⟩

variable {B R : Responsibility → Prop} {o : Option Responsibility} {patch : Responsibility → Responsibility}
  {outcome : JobOutcome} {p : Pacing} {q : Queue} {guards : Guards}

/-- The recovery of one app was changed, in one of the ways there are. -/
structure Turned (B R : Responsibility → Prop) (app : AppId) (s s' : Store) : Prop where
  frame : Frame app s s'
  turn : Turn B R (s.scopeOf app) (s.kinds app) (s'.scopeOf app) (s'.kinds app)

theorem turn_refl (s : Store) (app : AppId) : Turn B R (s.scopeOf app) (s.kinds app) (s.scopeOf app) (s.kinds app) := by
  cases s.scopeOf app with
  | none => exact .absent
  | some r => exact .keep rfl

theorem Turned.refl (app : AppId) (s : Store) : Turned B R app s s := ⟨.refl app s, turn_refl s app⟩

theorem responsibility_ok (h : s.responsibility app = .ok o) : s.scopeOf app = o := by
  unfold responsibility at h
  unfold scopeOf
  cases hf : s.responsibilities.find? (·.id = app) with
  | none =>
    rw [hf] at h
    cases h
    rfl
  | some r =>
    rw [hf] at h
    simp only [bind_ok, demand_ok, pure_ok] at h
    obtain ⟨_, _, rfl⟩ := h
    rfl

/-- A transition of the responsibility that was read changes that one. -/
theorem transition_ok (h : s.transition current patch = .ok s') (hc : s.scopeOf current.id = some current)
    (hid : ∀ r, (patch r).id = r.id) :
    Frame current.id s s' ∧ s'.scopeOf current.id = some (patch current) ∧ s'.duties = s.duties := by
  simp only [transition, bind_ok, demand_ok, pure_ok] at h
  obtain ⟨_, _, rfl⟩ := h
  let f (r : Responsibility) : Responsibility :=
    if r.id = current.id && r.ingressEpoch = current.ingressEpoch && r.state = current.state then patch r else r
  have hf (r : Responsibility) : (f r).id = r.id := by
    show (if _ then _ else _ : Responsibility).id = _
    split
    · exact hid r
    · rfl
  have hfn (b : AppId) := find?_map_key Responsibility.id f hf b s.responsibilities
  refine ⟨⟨rfl, rfl, ?_⟩, ?_, rfl⟩
  · intro b hb
    refine ⟨?_, rfl⟩
    show (s.responsibilities.map f).find? _ = _
    rw [hfn]
    show (s.scopeOf b).map f = s.scopeOf b
    cases hfnd : s.scopeOf b with
    | none => rfl
    | some r =>
      have hr := id_of_scopeOf hfnd
      simp [f, hr, hb]
  · show (s.responsibilities.map f).find? _ = _
    rw [hfn]
    show (s.scopeOf current.id).map f = _
    rw [hc]
    simp [f]

theorem kinds_congr (h : s'.duties = s.duties) (app : AppId) : s'.kinds app = s.kinds app := by
  rw [kinds, kinds, h]

theorem createDuty_ok {kind : DutyKind} (h : s.createDuty app now kind = .ok s') :
    s'.jobs = s.jobs ∧ s'.scopes = s.scopes ∧ s'.responsibilities = s.responsibilities ∧
      s'.kinds app = s.kinds app ++ [kind] ∧ ∀ b, b ≠ app → s'.kinds b = s.kinds b := by
  simp only [createDuty, bind_ok, demand_ok, pure_ok] at h
  obtain ⟨_, _, rfl⟩ := h
  refine ⟨rfl, rfl, rfl, ?_, ?_⟩
  · simp [kinds]
  · intro b hb
    simp [kinds, hb.symm]

theorem createPair_ok (h : s.createPair app now = .ok s') :
    s'.jobs = s.jobs ∧ s'.scopes = s.scopes ∧ s'.responsibilities = s.responsibilities ∧
      s'.kinds app = s.kinds app ++ pair ∧ ∀ b, b ≠ app → s'.kinds b = s.kinds b := by
  simp only [createPair, bind_ok] at h
  obtain ⟨t, ht, h⟩ := h
  obtain ⟨hj, hs, hr, hk, ho⟩ := createDuty_ok ht
  obtain ⟨hj', hs', hr', hk', ho'⟩ := createDuty_ok h
  refine ⟨hj'.trans hj, hs'.trans hs, hr'.trans hr, ?_, ?_⟩
  · rw [hk', hk, append_assoc]
    rfl
  · intro b hb
    rw [ho' b hb, ho b hb]

theorem scopeOf_congr (h : s'.responsibilities = s.responsibilities) (app : AppId) :
    s'.scopeOf app = s.scopeOf app := by rw [scopeOf, scopeOf, h]

theorem kinds_deleteDuties (s : Store) (app : AppId) : (s.deleteDuties app).kinds app = [] := by
  simp [kinds, deleteDuties, filter_filter]

theorem kinds_delete_of_ne (s : Store) {b : AppId} (hb : b ≠ app) :
    (s.deleteDuties app).kinds b = s.kinds b := by
  simp only [kinds, deleteDuties, filter_filter]
  congr 1
  apply filter_congr
  intro duty _
  by_cases h : duty.appId = b <;> simp [h, hb]

theorem frame_deleteDuties (s : Store) (app : AppId) : Frame app s (s.deleteDuties app) :=
  ⟨rfl, rfl, fun _ hb => ⟨rfl, kinds_delete_of_ne s hb⟩⟩

theorem updateDuty_ok {duty : Duty} {patch : Duty → Duty} (h : s.updateDuty duty patch = .ok s')
    (hp : ∀ d, (patch d).appId = d.appId ∧ (patch d).kind = d.kind) :
    s'.jobs = s.jobs ∧ s'.scopes = s.scopes ∧ s'.responsibilities = s.responsibilities ∧ ∀ b, s'.kinds b = s.kinds b := by
  simp only [updateDuty, bind_ok, demand_ok, pure_ok] at h
  obtain ⟨_, _, rfl⟩ := h
  refine ⟨rfl, rfl, rfl, fun b => ?_⟩
  let f (d : Duty) : Duty := if d.appId = duty.appId && d.kind = duty.kind then patch d else d
  have hf (d : Duty) : (f d).appId = d.appId ∧ (f d).kind = d.kind := by
    show (if _ then _ else _ : Duty).appId = _ ∧ (if _ then _ else _ : Duty).kind = _
    split
    · exact hp d
    · exact ⟨rfl, rfl⟩
  show ((s.duties.map f).filter _).map _ = _
  rw [filter_map, map_map, kinds]
  have hfl : ((fun d : Duty => decide (d.appId = b)) ∘ f) = fun d => decide (d.appId = b) := by
    funext d
    simp [(hf d).1]
  have hk : (Duty.kind ∘ f) = Duty.kind := by
    funext d
    exact (hf d).2
  rw [hfl]
  exact congrArg (fun g => map g _) hk

/-! ### Transitions -/

theorem turned_keep (h : s.transition current patch = .ok s') (hc : s.scopeOf current.id = some current)
    (hid : ∀ r, (patch r).id = r.id) (hp : (patch current).phase = current.phase) : Turned B R current.id s s' := by
  obtain ⟨hf, hs, hd⟩ := transition_ok h hc hid
  refine ⟨hf, ?_⟩
  rw [hc, hs, kinds_congr hd]
  exact .keep hp

theorem turned_lapse (h : s.transition current (·.reopenedAttempt) = .ok s')
    (hc : s.scopeOf current.id = some current) (hst : current.state = .closing) : Turned B R current.id s s' := by
  obtain ⟨hf, hs, hd⟩ := transition_ok h hc (fun _ => rfl)
  refine ⟨hf, ?_⟩
  rw [hc, hs, kinds_congr hd]
  exact .lapse hst rfl rfl

theorem reopen_ok {next : Int} (hc : s.scopeOf current.id = some current) (h : s.reopen current now = .ok (next, s')) :
    Turned B R current.id s s' ∧ ∃ r, s'.scopeOf current.id = some r ∧ r.state = .opened := by
  simp only [reopen, bind_ok, demand_ok, orElse_ok, pure_ok, Prod.mk.injEq] at h
  obtain ⟨_, hst, epoch, hn, t, ht, u, hu, _, _, rfl, rfl⟩ := h
  obtain ⟨hf, hsc, hd⟩ := transition_ok ht hc (fun _ => rfl)
  have he := checkedAdd_some hn
  have htr := Turn.reopen (B := B) (R := R) (k := s.kinds current.id) hst (rfl : ({current with
    ingressEpoch := epoch, state := .opened, closingWatermark := none, closeJobId := none, activeAt := now
    closeAfter := none, closeAttempts := 0} : Responsibility).state = .opened) he
  unfold restoreDuties at hu
  split at hu
  · rename_i hr
    obtain ⟨hj, hsco, hrs, hkn, ho⟩ := createPair_ok hu
    have hs' := (scopeOf_congr hrs current.id).trans hsc
    refine ⟨⟨⟨hj.trans hf.jobs, hsco.trans hf.scopes, ?_⟩, ?_⟩, _, hs', rfl⟩
    · intro b hb
      obtain ⟨hs, hk⟩ := hf.elsewhere b hb
      exact ⟨(scopeOf_congr hrs b).trans hs, (ho b hb).trans hk⟩
    · rw [hc, hs', hkn, kinds_congr hd]
      rw [if_pos hr] at htr
      exact htr
  · rename_i hr
    cases hu
    refine ⟨⟨hf, ?_⟩, _, hsc, rfl⟩
    rw [hc, hsc, kinds_congr hd]
    rw [if_neg hr] at htr
    exact htr

theorem touch_ok (hc : s.scopeOf current.id = some current) (h : s.touch current now = .ok s') :
    Turned B R current.id s s' ∧ ∃ r, s'.scopeOf current.id = some r ∧ r.state = current.state := by
  unfold touch at h
  split at h
  · exact ⟨turned_keep h hc (fun _ => rfl) rfl, _, (transition_ok h hc (fun _ => rfl)).2.1, rfl⟩
  · cases h
    exact ⟨.refl .., current, hc, rfl⟩

theorem activityIn_ok (h : s.activityIn app now = .ok s') :
    Turned B R app s s' ∧ ∀ r, s'.scopeOf app = some r → r.state ≠ .retired := by
  simp only [activityIn, bind_ok] at h
  obtain ⟨o, ho, h⟩ := h
  have hsc := responsibility_ok ho
  cases o with
  | none =>
    cases h
    refine ⟨.refl .., fun r hr => ?_⟩
    rw [hsc] at hr
    cases hr
  | some current =>
    obtain rfl := id_of_scopeOf hsc
    have he {t : Store} {r : Responsibility} (hr : t.scopeOf current.id = some r) (hs : r.state ≠ .retired) :
        ∀ r', t.scopeOf current.id = some r' → r'.state ≠ .retired := by
      intro r' hr'
      rw [hr] at hr'
      exact Option.some.inj hr' ▸ hs
    cases hs : current.state with
    | retired =>
      simp only [hs, bind_ok, pure_ok] at h
      obtain ⟨⟨next, t⟩, ht, rfl⟩ := h
      obtain ⟨htr, r, hr, hop⟩ := reopen_ok hsc ht
      exact ⟨htr, he hr (by simp [hop])⟩
    | opened | closing =>
      simp only [hs] at h
      obtain ⟨htr, r, hr, hsm⟩ := touch_ok hsc h
      exact ⟨htr, he hr (by simp [hsm, hs])⟩
    | abandoned =>
      simp only [hs, pure_ok] at h
      subst h
      exact ⟨.refl .., he hsc (by simp [hs])⟩

theorem claimedIn_ok (h : s.claimedIn job now = .ok s') :
    Turned B R job.appId s s' ∧ (job.producesIntents → ∀ r, s'.scopeOf job.appId = some r → r.state ≠ .retired) := by
  unfold claimedIn at h
  split at h
  · obtain ⟨ht, hs⟩ := activityIn_ok h
    exact ⟨ht, fun _ => hs⟩
  · rename_i hq
    cases h
    exact ⟨.refl .., fun hin => absurd hin hq⟩

theorem settledPage_ok (h : s.settledPage job outcome now = .ok s') :
    s'.jobs = s.jobs ∧ s'.scopes = s.scopes ∧ s'.responsibilities = s.responsibilities ∧ ∀ b, s'.kinds b = s.kinds b := by
  have hs {t : Store} (ht : (pure s : Except Error Store) = .ok t) :
      t.jobs = s.jobs ∧ t.scopes = s.scopes ∧ t.responsibilities = s.responsibilities ∧ ∀ b, t.kinds b = s.kinds b := by
    cases ht
    exact ⟨rfl, rfl, rfl, fun _ => rfl⟩
  unfold settledPage at h
  split at h
  · exact hs h
  split at h
  · simp only [bind_ok] at h
    obtain ⟨o, _, h⟩ := h
    split at h
    · split at h
      · exact hs h
      · exact updateDuty_ok h fun _ => ⟨rfl, rfl⟩
    · exact hs h
  · exact hs h

/-- What the settlement of a closing job says when it retires the scope. -/
structure Retires (s : Store) (job : JobSpec) (now : Int) (r : Responsibility) (w : Int) : Prop where
  closing : r.state = .closing
  closeJob : r.closeJobId = some job.id
  watermark : r.closingWatermark = some w
  unclaimed : s.claimedAfter job.appId w job.id = false
  unleased : s.leased job.appId now (some job.id) = false

theorem retires_ok {epoch watermark : Int} {drained : Bool}
    (h : s.retires job current epoch watermark drained now = .ok true) :
    s.claimedAfter job.appId watermark job.id = false ∧ s.leased job.appId now (some job.id) = false := by
  unfold retires at h
  split at h
  · cases h
  split at h
  · cases h
  rename_i hc
  split at h
  · cases h
  · rename_i hl
    exact ⟨by simpa using hc, by simpa using hl⟩

/-- The settlement of a closing job changes the scope at most, and retires it only when
nothing else was published or claimed. -/
theorem settledClose_ok (h : s.settledClose job outcome now = .ok s') :
    Turned B (fun r => ∃ w, Retires s job now r w) job.appId s s' := by
  unfold settledClose at h
  split at h
  · split at h
    · simp only [bind_ok, orElse_ok] at h
      obtain ⟨_, hld, current, rfl, h⟩ := h
      have hs := responsibility_ok hld
      have hid := id_of_scopeOf hs
      split at h
      · cases h
        exact .refl ..
      rename_i hm
      obtain ⟨hc, hj⟩ := not_or.mp hm
      simp only [bind_ok, orElse_ok] at h
      obtain ⟨w, hw, b, hb, h⟩ := h
      rw [← hid] at hs ⊢
      split at h
      · rename_i hr
        rw [hr] at hb
        obtain ⟨hcl, hl⟩ := retires_ok hb
        rw [← hid] at h
        obtain ⟨hf, ha, hd⟩ := transition_ok h hs (fun _ => rfl)
        refine ⟨(frame_deleteDuties s current.id).trans hf, ?_⟩
        rw [hs, ha, kinds_congr hd, kinds_deleteDuties]
        exact .retire (not_not.mp hc) rfl rfl ⟨w, not_not.mp hc, not_not.mp hj, hw, hcl, hl⟩
      · exact turned_lapse h hs (not_not.mp hc)
    · cases h
  · cases h
    exact .refl ..

theorem expireIn_ok {expired : Bool} (hc : s.scopeOf current.id = some current) (hs : current.state = .closing)
    (h : s.expireIn p current now = .ok (expired, s')) : Turned B R current.id s s' := by
  simp only [expireIn, bind_ok, orElse_ok] at h
  obtain ⟨job, _, expires, _, h⟩ := h
  split at h
  · cases h
    exact .refl ..
  · simp only [bind_ok, pure_ok, Prod.mk.injEq] at h
    obtain ⟨t, ht, -, rfl⟩ := h
    exact turned_lapse ht hc hs

theorem createScope_ok
    (hn : s.scopeOf app = none) (h : s.createScope app deployment revision now = .ok s') : Turned B R app s s' := by
  simp only [createScope, bind_ok, demand_ok] at h
  obtain ⟨_, _, h⟩ := h
  obtain ⟨hj, hs, hr, hk, ho⟩ := createPair_ok h
  have ha (b : AppId) : s'.scopeOf b = (s.scopeOf b).or
      (if app = b then some ⟨app, deployment, revision, 1, .opened, none, none, now, none, 0⟩ else none) := by
    rw [scopeOf_congr hr, scopeOf, find?_append, find?_singleton]
    rw [scopeOf]
    simp only [decide_eq_true_eq]
  refine ⟨⟨hj, hs, ?_⟩, ?_⟩
  · intro b hb
    refine ⟨?_, ho b hb⟩
    rw [ha, if_neg hb.symm, Option.or_none]
  · rw [ha, if_pos rfl, hn, hk]
    exact .create rfl

theorem updateProvenance_ok {previous : Int} (h : s.updateProvenance app deployment previous revision = .ok s') :
    s'.jobs = s.jobs ∧ s'.scopes = s.scopes ∧ s'.duties = s.duties ∧
      ∃ f : Responsibility → Responsibility, (∀ r, (f r).id = r.id ∧ (f r).phase = r.phase) ∧
        (∀ b, b ≠ app → ∀ r, r.id = b → f r = r) ∧ ∀ b, s'.scopeOf b = (s.scopeOf b).map f := by
  simp only [updateProvenance, bind_ok, demand_ok, pure_ok] at h
  obtain ⟨_, _, rfl⟩ := h
  let f (r : Responsibility) : Responsibility :=
    if r.id = app && r.activationRevision = previous then {r with deploymentId := deployment, activationRevision := revision}
    else r
  have hf (r : Responsibility) : (f r).id = r.id ∧ (f r).phase = r.phase := by
    show (if _ then _ else _ : Responsibility).id = _ ∧ (if _ then _ else _ : Responsibility).phase = _
    split <;> exact ⟨rfl, rfl⟩
  refine ⟨rfl, rfl, rfl, f, hf, ?_, fun b => find?_map_key Responsibility.id f (fun r => (hf r).1) b s.responsibilities⟩
  intro b hb r hr
  simp [f, hr, hb]

/-- A change that keeps every phase adds nothing to a turn before it that began nothing. -/
theorem Turn.then_keep {o' : Option Responsibility} {k k' : List DutyKind} (h : Turn (fun _ => False) R o k o' k')
    {f : Responsibility → Responsibility} (hf : ∀ r, (f r).phase = r.phase) : Turn B R o k (o'.map f) k' := by
  have hst (r : Responsibility) : (f r).state = r.state := state_of_phase (hf r)
  have hep (r : Responsibility) : (f r).ingressEpoch = r.ingressEpoch := epoch_of_phase (hf r)
  cases h with
  | absent => exact .absent
  | keep hp => exact .keep ((hf _).trans hp)
  | create hs => exact .create ((hst _).trans hs)
  | begin _ _ _ began => exact began.elim
  | lapse hb ha he => exact .lapse hb ((hst _).trans ha) ((hep _).trans he)
  | reopen hb ha he => exact .reopen hb ((hst _).trans ha) ((hep _).trans he)
  | retire hb ha he drained => exact .retire hb ((hst _).trans ha) ((hep _).trans he) drained
  | abandon hb ha he => exact .abandon hb ((hst _).trans ha) ((hep _).trans he)

theorem activateScope_ok (hc : s.scopeOf current.id = some current) (h : s.activateScope current now = .ok s') :
    Turned B R current.id s s' := by
  unfold activateScope at h
  split at h
  · cases h
  · simp only [bind_ok, pure_ok] at h
    obtain ⟨⟨next, t⟩, ht, rfl⟩ := h
    exact (reopen_ok hc ht).1
  · simp only [bind_ok, pure_ok] at h
    obtain ⟨_, _, rfl⟩ := h
    exact .refl ..
  · simp only [bind_ok, pure_ok] at h
    obtain ⟨_, _, rfl⟩ := h
    exact .refl ..

theorem ensureIn_ok (h : s.ensureIn app deployment revision now = .ok s') : Turned B R app s s' := by
  unfold ensureIn at h
  cases hfn : s.responsibilities.find? (·.id = app) with
  | none =>
    rw [hfn] at h
    exact createScope_ok hfn h
  | some stored =>
    rw [hfn] at h
    obtain rfl := id_of_scopeOf hfn
    simp only [bind_ok, demand_ok] at h
    obtain ⟨_, _, _, _, _, _, _, _, t, ht, h⟩ := h
    have htr := activateScope_ok (B := fun _ => False) (R := R) hfn ht
    split at h
    · obtain ⟨hj, hsco, hd, f, hf, ho, hsc⟩ := updateProvenance_ok h
      refine ⟨⟨hj.trans htr.frame.jobs, hsco.trans htr.frame.scopes, ?_⟩, ?_⟩
      · intro b hb
        obtain ⟨hs, hk⟩ := htr.frame.elsewhere b hb
        refine ⟨?_, (kinds_congr hd b).trans hk⟩
        rw [hsc, hs]
        cases hr : s.scopeOf b with
        | none => rfl
        | some r => simp [ho b hb r (id_of_scopeOf hr)]
      · rw [hsc, kinds_congr hd]
        exact Turn.then_keep htr.turn fun r => (hf r).2
    · cases h
      exact activateScope_ok hfn ht

/-- What became of the recovery of one app, whatever happened to its jobs. -/
structure Recovered (B R : Responsibility → Prop) (app : AppId) (s s' : Store) : Prop where
  elsewhere : ∀ b, b ≠ app → s'.scopeOf b = s.scopeOf b ∧ s'.kinds b = s.kinds b
  turn : Turn B R (s.scopeOf app) (s.kinds app) (s'.scopeOf app) (s'.kinds app)

theorem Turned.recovered (h : Turned B R app s s') : Recovered B R app s s' :=
  ⟨h.frame.elsewhere, h.turn⟩

/-- Parts of a transaction that leave recovery alone do not count. -/
theorem Recovered.of_same {t' : Store} (h : Recovered B R app t t')
    (hbf : ∀ b, t.scopeOf b = s.scopeOf b ∧ t.kinds b = s.kinds b)
    (ha : ∀ b, s'.scopeOf b = t'.scopeOf b ∧ s'.kinds b = t'.kinds b) : Recovered B R app s s' where
  elsewhere b hb := by
    obtain ⟨hs, hk⟩ := h.elsewhere b hb
    exact ⟨((ha b).1.trans hs).trans (hbf b).1, ((ha b).2.trans hk).trans (hbf b).2⟩
  turn := by
    have := h.turn
    rw [(hbf app).1, (hbf app).2] at this
    rw [(ha app).1, (ha app).2]
    exact this

theorem Recovered.refl (app : AppId) (s : Store) : Recovered B R app s s := (Turned.refl app s).recovered

theorem same_of_tables (hr : s'.responsibilities = s.responsibilities) (hd : s'.duties = s.duties)
    (b : AppId) : s'.scopeOf b = s.scopeOf b ∧ s'.kinds b = s.kinds b :=
  ⟨scopeOf_congr hr b, kinds_congr hd b⟩

theorem insert_same {spec : JobSpec}
    (h : s.insert q guards spec now = .ok s') (b : AppId) : s'.scopeOf b = s.scopeOf b ∧ s'.kinds b = s.kinds b := by
  rcases insert_ok h with ⟨rfl, -⟩ | ⟨c, -, -, -, hr, hd⟩
  · exact ⟨rfl, rfl⟩
  · exact same_of_tables hr hd b

/-- A closing attempt has begun: nothing of the app was leased, the watermark is where the
cursor stood, and the closing job is there. -/
structure Begins (q : Queue) (guards : Guards) (s s' : Store) (app : AppId) (close : JobId) (now w : Int)
    (r : Responsibility) : Prop where
  unleased : s.leased app now none = false
  cursor : s.cursor app = some w
  inserted : ∃ epoch t, s.insert q guards ⟨close, app, .close epoch, now⟩ now = .ok t ∧ t.jobs = s'.jobs ∧ t.scopes = s'.scopes
  watermark : r.closingWatermark = some w
  closeJob : r.closeJobId = some close

theorem busy_ok (h : s.busy app now = .ok false) : s.leased app now none = false := by
  unfold busy at h
  split at h
  · cases h
  · rename_i hl
    simpa using hl

/-- An attempt to close is put off, or it begins. -/
theorem beginIn_ok {minted : JobId}
    {started : Option JobSpec} (hc : s.scopeOf current.id = some current) (hst : current.state = .opened)
    (h : s.beginIn q guards p current minted now = .ok (started, s')) :
    Recovered (fun r => ∃ w, Begins q guards s s' current.id minted now w r) R current.id s s' ∧
      ((s'.jobs = s.jobs ∧ s'.scopes = s.scopes) ∨
        ∃ spec t, spec.appId = current.id ∧ s.insert q guards spec now = .ok t ∧ t.jobs = s'.jobs ∧ t.scopes = s'.scopes) := by
  simp only [beginIn, bind_ok, orElse_ok] at h
  obtain ⟨attempt, _, busy, hb, h⟩ := h
  split at h
  · simp only [bind_ok, orElse_ok, pure_ok, Prod.mk.injEq] at h
    obtain ⟨after, _, t, ht, -, rfl⟩ := h
    have htr := turned_keep (B := fun r => ∃ w, Begins q guards s t current.id minted now w r) (R := R) ht hc
      (fun _ => rfl) rfl
    exact ⟨htr.recovered, .inl ⟨htr.frame.jobs, htr.frame.scopes⟩⟩
  · rename_i hid
    rw [Bool.not_eq_true] at hid
    rw [hid] at hb
    simp only [bind_ok, orElse_ok, demand_ok, pure_ok, Prod.mk.injEq] at h
    obtain ⟨w, hw, _, _, t, ht, after, _, u, hu, -, rfl⟩ := h
    have hsm := insert_same ht
    have hc' : t.scopeOf current.id = some current := (hsm current.id).1.trans hc
    obtain ⟨hf, hs, hd⟩ := transition_ok hu hc' (fun _ => rfl)
    have hbg {r : Responsibility} (hwt : r.closingWatermark = some w) (hcl : r.closeJobId = some minted) :
        Begins q guards s u current.id minted now w r :=
      ⟨busy_ok hb, (dispatchCursor_ok hw).1, ⟨_, t, ht, hf.jobs.symm, hf.scopes.symm⟩, hwt, hcl⟩
    refine ⟨Recovered.of_same (t := t) ⟨hf.elsewhere, ?_⟩ hsm fun b => ⟨rfl, rfl⟩,
      .inr ⟨_, t, rfl, ht, hf.jobs.symm, hf.scopes.symm⟩⟩
    rw [hc', hs, kinds_congr hd]
    exact .begin hst rfl rfl ⟨w, hbg rfl rfl⟩

end Store

end Zeroship.Workflow
