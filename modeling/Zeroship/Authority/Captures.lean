import Zeroship.Authority.Host

/-! Captured authority over runs of a host.

What the holder of a binding relies on is said of the current record under it (`Under`). A
capture that has failed stays under a record of a later epoch or of a lapsed lease. The second
kind comes back if a refresh does not retire the epoch: a slack may have moved the deadline
back to before the capture's own. -/
namespace Zeroship.Authority
open Base Workflow List Option

abbrev HostHistory := History Host HostInput HostEvent
abbrev HostStep := Step Host HostInput HostEvent

/-! ### What a step does to an entry -/

/-- A record that no refresh has reached. -/
def Current.fresh : Current := ⟨none, 0, none, 0⟩

def Current.reserve (c : Current) : Current :=
  { c with ticketSequence := c.ticketSequence + 1, ticket := some (c.ticketSequence + 1) }

/-- The entry of an app after a step. -/
inductive Evolves (s : HostPolicies) (i : HostInput) (app : AppId) : Option HostEntry → Prop
  | same : Evolves s i app (s.entries app)
  | rebound (hi : i = .bind app) :
      Evolves s i app (some ⟨s.generation + 1, (s.entries app).bind (·.highWater), some .fresh⟩)
  | reserved {e : HostEntry} {c : Current} (he : s.entries app = some e) (hc : e.current = some c) :
      Evolves s i app (some { e with current := some c.reserve })
  | revoked {e : HostEntry} (he : s.entries app = some e) : Evolves s i app (some { e with current := none })
  | spent {e : HostEntry} {c : Current} (he : s.entries app = some e) (hc : e.current = some c) :
      Evolves s i app (some { e with current := some { c with ticket := none } })
  | installed {e : HostEntry} {c next : Current} {r : PolicyRefresh} {snapshot : PolicySnapshot}
      (hi : i = .install r snapshot) (happ : r.binding.app = app) (he : s.entries app = some e)
      (hgen : e.generation = r.binding.generation) (hc : e.current = some c)
      (hnext : HostPolicies.supersede e.highWater { c with ticket := none } snapshot = .ok next) :
      Evolves s i app (some { e with highWater := some (snapshot.revision, snapshot.policy), current := some next })

namespace HostPolicies
variable {s s' : HostPolicies} {b : PolicyBinding} {app : AppId} {e : HostEntry} {c : Current}

theorem checkedSucc_some {n m : Nat} (h : checkedSucc n = some m) : m = n + 1 := by
  unfold checkedSucc at h
  split at h
  · exact (some.inj h).symm
  · cases h

theorem entry_some : s.entry b = some e ↔ s.entries b.app = some e ∧ e.generation = b.generation := by
  simp [entry, filter_eq_some_iff]

theorem current_some : s.current b = some c ↔
    ∃ e, s.entries b.app = some e ∧ e.generation = b.generation ∧ e.current = some c := by
  simp only [current, bind_eq_some_iff, entry_some, and_assoc]

theorem entries_setEntry (h : s' = s.setEntry app e) : s'.entries app = some e := by
  rw [h]
  exact if_pos rfl

theorem bind_ok {b : PolicyBinding} (h : s.bind app = .ok (s', b)) :
    b = ⟨app, s.generation + 1⟩ ∧ s'.generation = s.generation + 1 ∧
      s'.entries = (s.setEntry app ⟨s.generation + 1, (s.entries app).bind (·.highWater), some .fresh⟩).entries := by
  unfold HostPolicies.bind at h
  split at h
  · cases h
  next g hg =>
  obtain rfl := checkedSucc_some hg
  cases h
  exact ⟨rfl, rfl, rfl⟩

theorem beginRefresh_ok {r : PolicyRefresh} (h : s.beginRefresh b = .ok (s', r)) :
    ∃ e c, s.entries b.app = some e ∧ e.generation = b.generation ∧ e.current = some c ∧
      s' = s.setEntry b.app { e with current := some c.reserve } ∧ r = ⟨b, c.ticketSequence + 1⟩ := by
  unfold beginRefresh at h
  split at h
  · cases h
  next e he =>
  split at h
  · cases h
  next hg =>
  split at h
  · cases h
  next c hc =>
  split at h
  · cases h
  next t ht =>
  obtain rfl := checkedSucc_some ht
  cases h
  exact ⟨e, c, he, not_not.mp hg, hc, rfl, rfl⟩

theorem revoke_ok (h : s.revoke b = .ok s') :
    ∃ e, s.entries b.app = some e ∧ e.generation = b.generation ∧ s' = s.setEntry b.app { e with current := none } := by
  unfold revoke at h
  split at h
  · cases h
  · next e he =>
    obtain ⟨he, hg⟩ := entry_some.mp he
    exact ⟨e, he, hg, (Except.ok.inj h).symm⟩

theorem install_cases (s : HostPolicies) (r : PolicyRefresh) (snapshot : PolicySnapshot) :
    (∃ error, s.install r snapshot = (s, .error error)) ∨
    ∃ e c, s.entries r.binding.app = some e ∧ e.generation = r.binding.generation ∧
      e.current = some c ∧ c.ticket = some r.ticket ∧ ((∃ error, s.install r snapshot =
          (s.setEntry r.binding.app { e with current := some { c with ticket := none } }, .error error)) ∨
       ∃ next, supersede e.highWater { c with ticket := none } snapshot = .ok next ∧
        s.install r snapshot = (s.setEntry r.binding.app
          { e with highWater := some (snapshot.revision, snapshot.policy), current := some next }, .ok ())) := by
  unfold install
  split
  · exact .inl ⟨_, rfl⟩
  next e he =>
  obtain ⟨he, hg⟩ := entry_some.mp he
  split
  · exact .inl ⟨_, rfl⟩
  next c hc =>
  split
  · exact .inl ⟨_, rfl⟩
  next ht =>
  refine .inr ⟨e, c, he, hg, hc, not_not.mp ht, ?_⟩
  cases hn : supersede e.highWater { c with ticket := none } snapshot with
  | error error => exact .inl ⟨error, by simp only [hn]⟩
  | ok next => exact .inr ⟨next, rfl, by simp only [hn]⟩

/-- What a snapshot that supersedes another leaves of the record. -/
structure Supersedes (highWater : Option (Int × AppPolicy)) (c : Current) (snapshot : PolicySnapshot) (next : Current) :
    Prop where
  holds : next.snapshot = some snapshot
  ticket : next.ticket = c.ticket
  ticketSequence : next.ticketSequence = c.ticketSequence
  high : ∀ high ∈ highWater, high.1 < snapshot.revision ∨ high.1 = snapshot.revision ∧ high.2 = snapshot.policy
  epoch : ∀ previous, c.snapshot = some previous →
    (previous.validity = .configuration ↔ snapshot.validity = .configuration) ∧
    (previous.retires snapshot ∧ next.epoch = c.epoch + 1 ∨
      previous.retires snapshot = false ∧ next.epoch = c.epoch)

theorem supersede_ok {highWater : Option (Int × AppPolicy)} {next : Current} {snapshot : PolicySnapshot}
    (h : supersede highWater c snapshot = .ok next) : Supersedes highWater c snapshot next := by
  unfold supersede at h
  split at h
  · cases h
  next hh =>
  have hh : ∀ high ∈ highWater,
      high.1 < snapshot.revision ∨ high.1 = snapshot.revision ∧ high.2 = snapshot.policy := by
    intro high hmm
    obtain hlt | heq | hgt := lt_trichotomy high.1 snapshot.revision
    · exact .inl hlt
    · by_cases hp : snapshot.policy = high.2
      · exact .inr ⟨heq, hp.symm⟩
      · exact absurd ⟨high, hmm, .inr ⟨heq.symm, hp⟩⟩ hh
    · exact absurd ⟨high, hmm, .inl hgt⟩ hh
  split at h
  · next hn =>
    cases h
    exact ⟨rfl, rfl, rfl, hh, fun _ hp => by rw [hn] at hp; cases hp⟩
  next previous hpr =>
  have ho {q : PolicySnapshot} (hq : c.snapshot = some q) : q = previous :=
    mem_unique hq hpr
  split at h
  · cases h
  next hm =>
  have hm : previous.validity = .configuration ↔ snapshot.validity = .configuration :=
    iff_of_eq (not_not.mp hm)
  split at h
  · next hr =>
    split at h
    · cases h
    · next number hnm =>
      cases h
      exact ⟨rfl, rfl, rfl, hh, fun q hq => ho hq ▸ ⟨hm, .inl ⟨hr, checkedSucc_some hnm⟩⟩⟩
  · next hr =>
    cases h
    exact ⟨rfl, rfl, rfl, hh, fun q hq => ho hq ▸ ⟨hm, .inr ⟨by simpa using hr, rfl⟩⟩⟩

theorem authorityAt_ok {a : PolicyAuthority} {now : Nat} (h : s.authorityAt b now = .ok a) :
    a.binding = b ∧ ∃ c snapshot, s.current b = some c ∧ c.snapshot = some snapshot ∧
      a.epoch = c.epoch ∧ a.revision = snapshot.revision ∧ liveDeadline snapshot.validity now = .ok a.deadline := by
  unfold authorityAt at h
  split at h
  · cases h
  next c hc =>
  split at h
  · cases h
  next snapshot hs =>
  simp only [Base.bind_ok, pure_ok] at h
  obtain ⟨deadline, hd, rfl⟩ := h
  exact ⟨rfl, c, snapshot, hc, hs, rfl, rfl, hd⟩

end HostPolicies

/-- What one step does to the registry and the clock. -/
structure HostEffect (s : Host) (i : HostInput) (s' : Host) : Prop where
  entries : ∀ app, Evolves s.policies i app (s'.policies.entries app)
  clock : s'.now = s.now ∨ s.now ≤ s'.now ∧ s'.policies = s.policies
  generation : s.policies.generation ≤ s'.policies.generation
  bound : ∀ app, i = .bind app → s'.policies = s.policies ∨ s'.policies.generation = s.policies.generation + 1

variable {i : HostInput} {s s' : Host} {os : List HostEvent}

theorem evolves_setEntry {s : HostPolicies} {app : AppId} {e : HostEntry}
    (h : Evolves s i app (some e)) (a : AppId) : Evolves s i a ((s.setEntry app e).entries a) := by
  rw [HostPolicies.setEntry_entries]
  split
  · next ha => exact ha ▸ h
  · exact .same

/-- Every input but a binding changes one entry at most. -/
theorem hostEffect_entry (hi : ∀ app, i ≠ .bind app) (he : ∀ app, Evolves s.policies i app (s'.policies.entries app))
    (hn : s'.now = s.now) (hg : s'.policies.generation = s.policies.generation) : HostEffect s i s' :=
  ⟨he, .inl hn, hg.ge, fun app h => absurd h (hi app)⟩

/-- What a step answers. -/
inductive Answers (s : Host) (i : HostInput) (s' : Host) : HostEvent → Prop
  | bound {app : AppId} {b : PolicyBinding} (hi : i = .bind app) (h : s.policies.bind app = .ok (s'.policies, b)) :
      Answers s i s' (.bound b)
  | began {b : PolicyBinding} {r : PolicyRefresh} (h : s.policies.beginRefresh b = .ok (s'.policies, r)) :
      Answers s i s' (.began r)
  | installed {r : PolicyRefresh} {snapshot : PolicySnapshot} (h : s.policies.install r snapshot = (s'.policies, .ok ())) :
      Answers s i s' (.installed r.binding.app snapshot.revision snapshot.policy)
  | revoked {b : PolicyBinding} (h : s.policies.revoke b = .ok s'.policies) : Answers s i s' (.revoked b)
  | captured {b : PolicyBinding} {a : PolicyAuthority} (hs : s' = s) (h : s.policies.authorityAt b s.now = .ok a) :
      Answers s i s' (.captured a)
  | passed {a : PolicyAuthority} (hs : s' = s) (h : a.check s.policies s.now = .ok ()) : Answers s i s' (.passed a)
  | failed {a : PolicyAuthority} {error : HostError} (hs : s' = s) (h : a.check s.policies s.now = .error error) :
      Answers s i s' (.failed a)

theorem host_step (h : policyHost.step s i = some (s', os)) :
    HostEffect s i s' ∧ (os = [] ∨ ∃ ev, os = [ev] ∧ Answers s i s' ev) := by
  have hs {j : HostInput} (hj : ∀ app, j ≠ .bind app) : HostEffect s j s := hostEffect_entry hj (fun _ => .same) rfl rfl
  cases i <;> simp only [policyHost] at h
  case pass time =>
    cases h
    exact ⟨⟨fun _ => .same, .inr ⟨Nat.le_add_right _ _, rfl⟩, le_rfl, by simp⟩, .inl rfl⟩
  case bind app =>
    split at h <;> cases h
    · next policies b hb =>
      obtain ⟨-, hg, hen⟩ := HostPolicies.bind_ok hb
      refine ⟨⟨fun a => ?_, .inl rfl, hg ▸ Nat.le_succ _, fun _ _ => .inr hg⟩, .inr ⟨_, rfl, .bound rfl hb⟩⟩
      have heq : policies.entries a = _ := congrFun hen a
      rw [heq]
      exact evolves_setEntry (.rebound rfl) a
    · exact ⟨⟨fun _ => .same, .inl rfl, le_rfl, fun _ _ => .inl rfl⟩, .inl rfl⟩
  case beginRefresh b =>
    split at h <;> cases h
    · next policies r hr =>
      obtain ⟨e, c, he, -, hc, rfl, -⟩ := HostPolicies.beginRefresh_ok hr
      exact ⟨hostEffect_entry (by simp) (evolves_setEntry (.reserved he hc)) rfl rfl, .inr ⟨_, rfl, .began hr⟩⟩
    · exact ⟨hs (by simp), .inl rfl⟩
  case install r snapshot =>
    obtain ⟨error, hr⟩ | ⟨e, c, he, hg, hc, -, ⟨error, hr⟩ | ⟨next, hn, hr⟩⟩ :=
      s.policies.install_cases r snapshot
    all_goals
      rw [hr] at h
      cases h
    · exact ⟨hs (by simp), .inl rfl⟩
    · exact ⟨hostEffect_entry (by simp) (evolves_setEntry (.spent he hc)) rfl rfl, .inl rfl⟩
    · exact ⟨hostEffect_entry (by simp) (evolves_setEntry (.installed rfl rfl he hg hc hn)) rfl rfl,
        .inr ⟨_, rfl, .installed hr⟩⟩
  case revoke b =>
    split at h <;> cases h
    · next policies hr =>
      obtain ⟨e, he, -, rfl⟩ := HostPolicies.revoke_ok hr
      exact ⟨hostEffect_entry (by simp) (evolves_setEntry (.revoked he)) rfl rfl, .inr ⟨_, rfl, .revoked hr⟩⟩
    · exact ⟨hs (by simp), .inl rfl⟩
  case capture b =>
    split at h <;> cases h
    · next hcp => exact ⟨hs (by simp), .inr ⟨_, rfl, .captured rfl hcp⟩⟩
    · exact ⟨hs (by simp), .inl rfl⟩
  case check a =>
    split at h <;> cases h
    · next hch => exact ⟨hs (by simp), .inr ⟨_, rfl, .passed rfl hch⟩⟩
    · next hch => exact ⟨hs (by simp), .inr ⟨_, rfl, .failed rfl hch⟩⟩

/-- The entry of a binding has reached its generation, and while it is of it, the record there
has the property. -/
def Under (b : PolicyBinding) (P : Current → Prop) (s : HostPolicies) : Prop :=
  ∃ e, s.entries b.app = some e ∧ b.generation ≤ e.generation ∧
    (e.generation = b.generation → ∀ c, e.current = some c → P c)

/-- No entry is of a generation still to come. -/
def Generations (s : HostPolicies) : Prop := ∀ app e, s.entries app = some e → e.generation ≤ s.generation

section
variable {s s' : Host} {i : HostInput} {b : PolicyBinding} {P Q : Current → Prop}

theorem Under.imp (h : Under b P s.policies) (hpq : ∀ c, P c → Q c) : Under b Q s.policies := by
  obtain ⟨e, he, hle, hp⟩ := h
  exact ⟨e, he, hle, fun hg c hc => hpq c (hp hg c hc)⟩

theorem Under.and (h : Under b P s.policies) (h' : Under b Q s.policies) :
    Under b (fun c => P c ∧ Q c) s.policies := by
  obtain ⟨e, he, hle, hp⟩ := h
  obtain ⟨e', he', -, hq⟩ := h'
  obtain rfl := mem_unique he he'
  exact ⟨e, he, hle, fun hg c hc => ⟨hp hg c hc, hq hg c hc⟩⟩

theorem Under.current {c : Current} (h : Under b P s.policies) (hc : s.policies.current b = some c) : P c := by
  obtain ⟨e, he, -, hp⟩ := h
  obtain ⟨e', he', hg, hcr⟩ := HostPolicies.current_some.mp hc
  obtain rfl := mem_unique he he'
  exact hp hg c hcr

theorem Under.step (h : Under b P s.policies) (hgn : Generations s.policies) (he : HostEffect s i s')
    (hrs : ∀ c, P c → P c.reserve) (hs : ∀ c, P c → P { c with ticket := none })
    (hin : ∀ highWater c next r snapshot,
      i = .install r snapshot → r.binding = b → s.policies.current b = some c → P c →
      HostPolicies.Supersedes highWater { c with ticket := none } snapshot next → P next) :
    Under b P s'.policies := by
  obtain ⟨e, hen, hle, hp⟩ := h
  have hev := he.entries b.app
  generalize ha : s'.policies.entries b.app = after at hev
  cases hev with
  | same => exact ⟨e, ha.trans hen, hle, hp⟩
  | rebound hi =>
    refine ⟨_, ha, hle.trans ((hgn _ _ hen).trans (Nat.le_succ _)), fun hg => ?_⟩
    exact absurd hg (Nat.lt_succ_of_le (hle.trans (hgn _ _ hen))).ne'
  | @reserved e' c he' hc =>
    obtain rfl := mem_unique hen he'
    refine ⟨_, ha, hle, fun hg d hd => ?_⟩
    exact some.inj hd ▸ hrs c (hp hg c hc)
  | @revoked e' he' =>
    obtain rfl := mem_unique hen he'
    exact ⟨_, ha, hle, fun _ _ hd => by cases hd⟩
  | @spent e' c he' hc =>
    obtain rfl := mem_unique hen he'
    refine ⟨_, ha, hle, fun hg d hd => ?_⟩
    exact some.inj hd ▸ hs c (hp hg c hc)
  | @installed e' c next r snapshot hi hap he' hg' hc hn =>
    obtain rfl := mem_unique hen he'
    refine ⟨_, ha, hle, fun hg d hd => ?_⟩
    cases hd
    have hb : r.binding = b := by
      cases hr : r.binding
      simp_all
    exact hin e.highWater c _ r snapshot hi hb (HostPolicies.current_some.mpr ⟨e, hen, hg, hc⟩)
      (hp hg c hc) (HostPolicies.supersede_ok hn)

theorem Generations.step (hg : Generations s.policies) (he : HostEffect s i s') : Generations s'.policies := by
  intro app e' he'
  have hev := he.entries app
  rw [he'] at hev
  generalize ha : some e' = after at hev
  cases hev with
  | same => exact (hg _ _ ha.symm).trans he.generation
  | rebound hi =>
    cases ha
    obtain hs | hn := he.bound app hi
    · exact absurd (hg app _ (hs ▸ he')) (Nat.not_succ_le_self _)
    · exact hn.ge
  | reserved hen _ | revoked hen | spent hen _ | installed _ _ hen _ _ _ =>
    cases ha
    exact (hg _ _ hen).trans he.generation

end

theorem host_answer {ev : HostEvent} (h : policyHost.step s i = some (s', os)) (he : ev ∈ os) : Answers s i s' ev := by
  obtain rfl | ⟨ev', rfl, ha⟩ := (host_step h).2
  · cases he
  · exact mem_singleton.mp he ▸ ha

/-! ### Runs -/

variable (a : PolicyAuthority)

/-- What ties a capture to the record that is current under its binding. -/
def Tied (c : Current) : Prop :=
  ∃ snapshot, c.snapshot = some snapshot ∧ a.epoch ≤ c.epoch ∧ (c.epoch = a.epoch → snapshot.revision = a.revision) ∧
    (a.deadline = none ↔ snapshot.validity = .configuration)

/-- The entry of an app has seen this install. -/
def Reaches (s : HostPolicies) (app : AppId) (revision : Int) (policy : AppPolicy) : Prop :=
  ∃ (e : HostEntry) (high : Int × AppPolicy), s.entries app = some e ∧ e.highWater = some high ∧
    (revision < high.1 ∨ revision = high.1 ∧ policy = high.2)

/-- What holds of the host and of what it has answered. -/
structure HostInv (h : HostHistory) (s : Host) : Prop where
  generations : Generations s.policies
  captured : ∀ a, .captured a ∈ h.outputs → Under a.binding (Tied a) s.policies
  began : ∀ r, .began r ∈ h.outputs → Under r.binding (fun c => r.ticket ≤ c.ticketSequence) s.policies
  installed : ∀ app revision policy, .installed app revision policy ∈ h.outputs →
    Reaches s.policies app revision policy

section
variable {h : HostHistory} {s s' : Host} {i : HostInput} {os : List HostEvent}

theorem Reaches.step {app : AppId} {revision : Int} {policy : AppPolicy} (hr : Reaches s.policies app revision policy)
    (he : HostEffect s i s') : Reaches s'.policies app revision policy := by
  obtain ⟨e, high, hen, hh, hle⟩ := hr
  have hev := he.entries app
  generalize ha : s'.policies.entries app = after at hev
  cases hev with
  | same => exact ⟨e, high, ha.trans hen, hh, hle⟩
  | rebound hi =>
    refine ⟨_, high, ha, ?_, hle⟩
    rw [hen]
    exact hh
  | reserved he' _ | revoked he' | spent he' _ =>
    obtain rfl := mem_unique hen he'
    exact ⟨_, high, ha, hh, hle⟩
  | @installed e' c next r snapshot hi hap he' hg hc hn =>
    obtain rfl := mem_unique hen he'
    refine ⟨_, _, ha, rfl, ?_⟩
    obtain hlt | ⟨heq, hp⟩ := (HostPolicies.supersede_ok hn).high high hh
    · exact .inl (hle.elim (fun h => h.trans hlt) fun h => h.1.trans_lt hlt)
    · exact heq ▸ hp ▸ hle

theorem Tied.install {a : PolicyAuthority} {highWater : Option (Int × AppPolicy)} {c next : Current}
    {snapshot : PolicySnapshot} (ht : Tied a c)
    (hs : HostPolicies.Supersedes highWater { c with ticket := none } snapshot next) : Tied a next := by
  obtain ⟨previous, hp, hle, hr, hm⟩ := ht
  obtain ⟨hsm, he⟩ := hs.epoch previous hp
  refine ⟨snapshot, hs.holds, ?_, ?_, hm.trans hsm⟩
  · obtain ⟨-, hn⟩ | ⟨-, hn⟩ := he
    · exact hn ▸ hle.trans (Nat.le_succ _)
    · exact hn ▸ hle
  intro heq
  obtain ⟨-, hn⟩ | ⟨hk, hn⟩ := he
  · exact absurd heq (hn ▸ (Nat.lt_succ_of_le hle).ne')
  have hsm : previous.revision = snapshot.revision := by
    by_contra hne
    simp [PolicySnapshot.retires, hne] at hk
  exact hsm ▸ hr (hn ▸ heq)

theorem tied_of_authorityAt {b : PolicyBinding} {a : PolicyAuthority}
    (ha : s.policies.authorityAt b s.now = .ok a) : Under a.binding (Tied a) s.policies := by
  obtain ⟨rfl, c, snapshot, hc, hs, hep, hr, hdd⟩ := HostPolicies.authorityAt_ok ha
  obtain ⟨e, he, hg, hcr⟩ := HostPolicies.current_some.mp hc
  refine ⟨e, he, hg.ge, fun _ d hd => ?_⟩
  obtain rfl := mem_unique hcr hd
  refine ⟨snapshot, hs, hep.le, fun _ => hr.symm, ?_⟩
  unfold liveDeadline at hdd
  split at hdd
  · next hcn => simp [hcn, ← Except.ok.inj hdd]
  next d hu =>
  split at hdd
  · simp [hu, ← Except.ok.inj hdd]
  · cases hdd

theorem HostInv.step (hi : HostInv h s) (ht : policyHost.step s i = some (s', os)) :
    HostInv (h ++ [⟨s, i, os, s'⟩]) s' := by
  have he := (host_step ht).1
  refine ⟨hi.generations.step he, fun a ha => ?_, fun r hr => ?_, fun app revision policy hr => ?_⟩
  · obtain ha | ha := History.mem_outputs_snoc.mp ha
    · exact (hi.captured a ha).step hi.generations he (fun _ hc => hc) (fun _ hc => hc)
        fun _ _ _ _ _ _ _ _ hc hs => hc.install hs
    · cases host_answer ht ha with
      | captured hs hcp => exact hs ▸ tied_of_authorityAt hcp
  · obtain hr | hr := History.mem_outputs_snoc.mp hr
    · refine (hi.began r hr).step hi.generations he (fun _ hc => hc.trans (Nat.le_succ _)) (fun _ hc => hc) ?_
      intro _ _ _ _ _ _ _ _ hc hs
      exact hs.ticketSequence ▸ hc
    cases host_answer ht hr with
    | began hb =>
      obtain ⟨e, c, _, hg, _, hp, rfl⟩ := HostPolicies.beginRefresh_ok hb
      refine ⟨_, HostPolicies.entries_setEntry hp, hg.ge, fun _ d hd => ?_⟩
      exact some.inj hd ▸ le_rfl
  · obtain hr | hr := History.mem_outputs_snoc.mp hr
    · exact (hi.installed app revision policy hr).step he
    generalize hev : HostEvent.installed app revision policy = ev at hr
    cases host_answer ht hr with
    | @installed r snapshot hin =>
      cases hev
      obtain ⟨error, heq⟩ | ⟨e, c, _, _, _, _, ⟨error, heq⟩ | ⟨next, _, heq⟩⟩ := s.policies.install_cases r snapshot
      · cases (Prod.mk.inj (hin.symm.trans heq)).2
      · cases (Prod.mk.inj (hin.symm.trans heq)).2
      · obtain ⟨hp, -⟩ := Prod.mk.inj (hin.symm.trans heq)
        exact ⟨_, _, HostPolicies.entries_setEntry hp, rfl, .inr ⟨rfl, rfl⟩⟩
    | _ => cases hev

end

def Host.new (now : Nat) : Host := ⟨now, ⟨0, fun _ => none⟩⟩

/-- What a step of the host keeps holds after every run, whatever the environment. -/
theorem hostInv_of_run {now : Nat} {env : Environment Host HostInput HostEvent} {h : HostHistory}
    (run : policyHost.Run env (.new now) h s) : HostInv h s := by
  refine run.invariant HostInv ?_ fun _ hi _ ht => hi.step ht
  constructor <;> simp [Host.new, Generations]

variable (time : Nat) (r : PolicyRefresh)

/-- What happened leaves a ticket without effect. -/
def Supplants : HostEvent → Prop
  | .began r' => r'.binding = r.binding
  | .revoked b => b = r.binding
  | .bound b => b.app = r.binding.app
  | _ => False

/-- A later refresh, a revocation or a rebinding came after the refresh began. -/
def Superseded (h : HostHistory) (r : PolicyRefresh) : Prop :=
  ExistsSplit (fun (h₁ : HostHistory) (t : HostStep) => .began r ∈ h₁.outputs ∧ ∃ ev ∈ t.outputs, Supplants r ev) h

/-- The ticket was given out and is not the one that is awaited. -/
def Void (c : Current) : Prop := r.ticket ≤ c.ticketSequence ∧ c.ticket ≠ some r.ticket

section
variable {h : HostHistory} {s s' : Host} {i : HostInput} {os : List HostEvent} {r : PolicyRefresh}

theorem void_of_supplants (hi : HostInv h s) (hbg : .began r ∈ h.outputs) {ev : HostEvent}
    (ha : Answers s i s' ev) (hs : Supplants r ev) : Under r.binding (Void r) s'.policies := by
  obtain ⟨e, he, hle, hsq⟩ := hi.began r hbg
  cases ha with
  | bound _ hb =>
    obtain ⟨rfl, -, hen⟩ := HostPolicies.bind_ok hb
    obtain rfl : _ = r.binding.app := hs
    have hlt := Nat.lt_succ_of_le (hle.trans (hi.generations _ _ he))
    exact ⟨_, (congrFun hen _).trans (if_pos rfl), hlt.le, fun hg => absurd hg hlt.ne'⟩
  | @began b r' hb =>
    obtain ⟨e', c, he', hg, hc, hp, rfl⟩ := HostPolicies.beginRefresh_ok hb
    obtain rfl : b = r.binding := hs
    obtain rfl := mem_unique he he'
    refine ⟨_, HostPolicies.entries_setEntry hp, hg.ge, fun _ d hd => ?_⟩
    cases hd
    have hlt := Nat.lt_succ_of_le (hsq hg c hc)
    exact ⟨hlt.le, fun heq => hlt.ne' (some.inj heq)⟩
  | @revoked b hb =>
    obtain ⟨e', he', hg, hp⟩ := HostPolicies.revoke_ok hb
    obtain rfl : b = r.binding := hs
    exact ⟨_, HostPolicies.entries_setEntry hp, hg.ge, fun _ _ hd => by cases hd⟩
  | installed _ | captured _ _ | passed _ _ | failed _ _ => exact hs.elim

theorem Void.step (hv : Under r.binding (Void r) s.policies) (hg : Generations s.policies) (he : HostEffect s i s') :
    Under r.binding (Void r) s'.policies := by
  refine hv.step hg he (fun c hc => ?_) (fun c hc => ⟨hc.1, by simp⟩) fun _ c next _ _ _ _ _ hc hs => ?_
  · have hlt := Nat.lt_succ_of_le hc.1
    exact ⟨hlt.le, fun heq => hlt.ne' (some.inj heq)⟩
  · exact ⟨hs.ticketSequence ▸ hc.1, by rw [hs.ticket]; simp⟩

/-- Once a refresh was superseded, its ticket is never awaited again. -/
theorem void_of_run {now : Nat} {env : Environment Host HostInput HostEvent}
    (run : policyHost.Run env (.new now) h s) (hs : Superseded h r) : Under r.binding (Void r) s.policies := by
  refine run.invariant (fun h s => Superseded h r → Under r.binding (Void r) s.policies) ?_ ?_ hs
  · rintro ⟨h₁, t, h₂, heq, -⟩
    simp at heq
  intro h s s' i os hr ih _ ht hs
  have hi := hostInv_of_run hr
  obtain hs | ⟨hb, ev, he, hsp⟩ := existsSplit_concat.mp hs
  · exact Void.step (ih hs) hi.generations (host_step ht).1
  · exact void_of_supplants hi hb (host_answer ht he) hsp

theorem install_void (hv : Under r.binding (Void r) s.policies) (snapshot : PolicySnapshot) :
    ∃ error, s.policies.install r snapshot = (s.policies, .error error) := by
  obtain hr | ⟨e, c, he, hg, hc, ht, -⟩ := s.policies.install_cases r snapshot
  · exact hr
  · have hcr := HostPolicies.current_some.mpr ⟨e, he, hg, hc⟩
    exact absurd ht (hv.current hcr).2

end

/-! ### Checks that failed -/

/-- A record under which a capture does not pass: of a later epoch, or with a lease that lapsed. -/
def Lost (now : Nat) (c : Current) : Prop :=
  a.epoch < c.epoch ∨ ∃ (snapshot : PolicySnapshot) (deadline : Nat), c.snapshot = some snapshot ∧
    snapshot.validity = .until deadline ∧ deadline ≤ now

def Fallen (s : Host) : Prop := a.expired s.now ∨ Under a.binding (Lost a s.now) s.policies

def Validity.deadline : Validity → Option Nat
  | .configuration => none
  | .until deadline => some deadline

def PolicySnapshot.Lapsed (p : PolicySnapshot) (now : Nat) : Prop := ∃ deadline ∈ p.validity.deadline, deadline ≤ now

instance (p : PolicySnapshot) (now : Nat) : Decidable (p.Lapsed now) := inferInstanceAs (Decidable (∃ _ ∈ _, _))

/-- The capture that an event tells of. -/
def HostEvent.capture : HostEvent → Option PolicyAuthority
  | .captured a => some a
  | _ => none

/-- No refresh keeps the epoch of a lapsed lease while a capture of that epoch has time left. -/
def Timely : Environment Host HostInput HostEvent := fun h s i =>
  match i with
  | .install r snapshot =>
    ∀ c ∈ s.policies.current r.binding, ∀ previous ∈ c.snapshot, previous.Lapsed s.now →
      previous.retires snapshot = false → ∀ ev ∈ h.outputs, ∀ a ∈ ev.capture,
        a.binding = r.binding → a.epoch = c.epoch → a.expired s.now
  | _ => True

instance (h : HostHistory) (s : Host) : ∀ i, Decidable (Timely h s i)
  | .install r _ => inferInstanceAs (Decidable (∀ c ∈ s.policies.current r.binding, ∀ previous ∈ c.snapshot, _))
  | .pass _ | .bind _ | .beginRefresh _ | .revoke _ | .capture _ | .check _ => .isTrue trivial

/-- The capture failed a check after it was made. -/
def Failed (h : HostHistory) (a : PolicyAuthority) : Prop :=
  ExistsSplit (fun (h₁ : HostHistory) (t : HostStep) => .captured a ∈ h₁.outputs ∧ .failed a ∈ t.outputs) h

instance (h : HostHistory) (a : PolicyAuthority) : Decidable (Failed h a) :=
  inferInstanceAs (Decidable (ExistsSplit _ h))

section
variable {h : HostHistory} {s s' : Host} {i : HostInput} {os : List HostEvent} {a : PolicyAuthority} {now : Nat}
  {error : HostError}

theorem expired_mono {now' : Nat} (h : a.expired now) (hle : now ≤ now') : a.expired now' := by
  obtain ⟨d, hd, hn⟩ := h
  exact ⟨d, hd, hn.trans hle⟩

theorem liveDeadline_error {validity : Validity}
    (h : liveDeadline validity now = .error error) : ∃ deadline, validity = .until deadline ∧ deadline ≤ now := by
  unfold liveDeadline at h
  split at h
  · cases h
  next d =>
  split at h
  · cases h
  · next hle => exact ⟨d, rfl, not_lt.mp hle⟩

/-- A check that fails says one of the things that keep it failing. -/
theorem fallen_of_check (ht : Under a.binding (Tied a) s.policies)
    (hf : a.check s.policies s.now = .error error) : Fallen a s := by
  unfold PolicyAuthority.check at hf
  split at hf
  · next hex => exact .inl hex
  next hex =>
  right
  obtain ⟨e, he, hle, ht⟩ := ht
  refine ⟨e, he, hle, fun hg c hc => ?_⟩
  obtain ⟨snapshot, hs, hep, hr, -⟩ := ht hg c hc
  have hcr : s.policies.current a.binding = some c := HostPolicies.current_some.mpr ⟨e, he, hg, hc⟩
  simp only [hcr, hs] at hf
  split at hf
  · next hm =>
    refine .inl (lt_of_le_of_ne hep fun heq => ?_)
    exact hm.elim (fun hne => hne heq.symm) fun hne => hne (hr heq.symm)
  cases hlv : liveDeadline snapshot.validity s.now with
  | error _ =>
    obtain ⟨deadline, hv, hl⟩ := liveDeadline_error hlv
    exact .inr ⟨snapshot, deadline, hs, hv, hl⟩
  | ok _ =>
    simp only [hlv] at hf
    cases hf

theorem not_passed_of_fallen (hf : Fallen a s) : a.check s.policies s.now ≠ .ok () := by
  intro hp
  unfold PolicyAuthority.check at hp
  split at hp
  · cases hp
  next he =>
  split at hp
  · cases hp
  next c hc =>
  split at hp
  · cases hp
  next snapshot hs =>
  split at hp
  · cases hp
  next hsm =>
  rw [not_or, not_not, not_not] at hsm
  simp only [bind_ok] at hp
  obtain ⟨_, hlv, -⟩ := hp
  obtain hlt | ⟨sn, deadline, hsn, hu, hl⟩ := (hf.resolve_left he).current hc
  · exact hlt.ne hsm.1.symm
  · obtain rfl := mem_unique hs hsn
    rw [hu] at hlv
    simp [liveDeadline, not_lt.mpr hl] at hlv

theorem Fallen.step (hin : HostInv h s) (hcp : .captured a ∈ h.outputs) (hf : Fallen a s) (htm : Timely h s i)
    (he : HostEffect s i s') : Fallen a s' := by
  obtain hnw | ⟨hle, hpl⟩ := he.clock
  · by_cases hex : a.expired s.now
    · exact .inl (hnw ▸ hex)
    have hls := (hf.resolve_left hex).and (hin.captured a hcp)
    right
    rw [hnw]
    have hkp : Under a.binding (fun c => Lost a s.now c ∧ Tied a c) s'.policies := by
      refine hls.step hin.generations he (fun _ hc => hc) (fun _ hc => hc) ?_
      intro _ c next r snapshot hi hb hcr ⟨hc, ht⟩ hs
      refine ⟨?_, ht.install hs⟩
      obtain ⟨previous, hp, hep, -, hm⟩ := ht
      obtain ⟨-, hn⟩ | ⟨hk, hn⟩ := (hs.epoch previous hp).2
      · exact .inl (hn ▸ Nat.lt_succ_of_le hep)
      obtain hlt | ⟨sn, deadline, hsn, hu, hl⟩ := hc
      · exact .inl (hn ▸ hlt)
      obtain rfl := mem_unique hp hsn
      obtain hlt | heq := hep.lt_or_eq
      · exact .inl (hn ▸ hlt)
      -- The lease lapsed in the capture's own epoch and is being refreshed in it.
      · subst hi
        have ho : previous.Lapsed s.now := ⟨deadline, by rw [hu]; rfl, hl⟩
        exact absurd (htm c (hb ▸ hcr) previous hp ho hk _ hcp a rfl hb.symm heq) hex
    exact hkp.imp fun _ hc => hc.1
  · refine hf.imp (fun hex => expired_mono hex hle) fun hls => hpl ▸ hls.imp fun c hc => ?_
    refine hc.imp_right fun ⟨sn, deadline, hsn, hu, hl⟩ => ⟨sn, deadline, hsn, hu, hl.trans hle⟩

/-- Once a capture failed a check it has expired, or its binding has moved on, for good. -/
theorem fallen_of_run (run : policyHost.Run Timely (.new now) h s) (hf : Failed h a) : Fallen a s := by
  refine run.invariant (fun h s => Failed h a → Fallen a s) ?_ ?_ hf
  · rintro ⟨h₁, t, h₂, heq, -⟩
    simp at heq
  intro h s s' i os hr ih htm ht hf
  have hi := hostInv_of_run hr
  obtain ho | ⟨hc, hn⟩ := existsSplit_concat.mp hf
  · have hc : .captured a ∈ h.outputs := by
      obtain ⟨h₁, t, h₂, rfl, hc, -⟩ := ho
      simp [hc]
    exact Fallen.step hi hc (ih ho) htm (host_step ht).1
  · cases host_answer ht hn with
    | failed hs hch => exact hs ▸ fallen_of_check (hi.captured a hc) hch

end

/-! ### The host -/

/-- No capture passes a check after it failed one. -/
def Final (h : HostHistory) : Prop :=
  ∀ (h₁ : HostHistory) (t : HostStep) (h₂ : HostHistory), h = h₁ ++ t :: h₂ →
    ∀ a, Failed h₁ a → .passed a ∉ t.outputs

/-- A capture passes before its own deadline only. -/
def Bounded (h : HostHistory) : Prop :=
  ∀ t ∈ h, ∀ (a : PolicyAuthority) (deadline : Nat), .passed a ∈ t.outputs → a.deadline = some deadline →
    t.before.now < deadline

/-- The revisions installed for an app do not decrease, and one revision is one policy. -/
def Ascending (h : HostHistory) : Prop :=
  h.outputs.Pairwise fun x y => ∀ (app : AppId) (revision revision' : Int) (policy policy' : AppPolicy),
    x = .installed app revision policy → y = .installed app revision' policy' →
    revision ≤ revision' ∧ (revision = revision' → policy = policy')

/-- The install of a superseded refresh changes nothing. -/
def Inert (h : HostHistory) : Prop :=
  ∀ (h₁ : HostHistory) (t : HostStep) (h₂ : HostHistory), h = h₁ ++ t :: h₂ →
    ∀ (r : PolicyRefresh) (snapshot : PolicySnapshot), t.input = .install r snapshot → Superseded h₁ r →
    t.after = t.before ∧ t.outputs = []

section
variable {h : HostHistory} {s : Host} {now : Nat} {env : Environment Host HostInput HostEvent}

theorem final_of_run (run : policyHost.Run Timely (.new now) h s) : Final h := by
  intro h₁ t h₂ hh a hf hp
  obtain ⟨hr, -, ht⟩ := run.at_step hh
  cases host_answer ht hp with
  | passed _ hc => exact not_passed_of_fallen (fallen_of_run hr hf) hc

theorem bounded_of_run (run : policyHost.Run env (.new now) h s) : Bounded h := by
  intro t ht a deadline hp hd
  obtain ⟨h₁, h₂, hh⟩ := append_of_mem ht
  cases host_answer (run.at_step hh).2.2 hp with
  | passed _ hc =>
    by_contra hlt
    exact not_passed_of_fallen (.inl ⟨deadline, hd, not_lt.mp hlt⟩) hc

/-- The revisions installed for an app never go back. -/
theorem ascending_of_run (run : policyHost.Run env (.new now) h s) : Ascending h := by
  refine run.invariant (fun h _ => Ascending h) .nil ?_
  intro h s s' i os hrn ih _ ht
  have hin := hostInv_of_run hrn
  unfold Ascending
  rw [History.outputs_snoc]
  obtain rfl | ⟨ev, rfl, ha⟩ := (host_step ht).2
  · rw [append_nil]
    exact ih
  refine pairwise_append.mpr ⟨ih, pairwise_singleton _ ev, ?_⟩
  intro x hx y hy app revision revision' policy policy' ho hn
  subst ho
  rw [mem_singleton.mp hy] at hn
  subst hn
  obtain ⟨e, high, he, hh, hle⟩ := hin.installed app revision policy hx
  generalize hev : HostEvent.installed app revision' policy' = ev at ha
  cases ha with
  | @installed r snapshot hi =>
    cases hev
    obtain ⟨error, heq⟩ | ⟨e', c, he', _, _, _, ⟨error, heq⟩ | ⟨next, hnx, _⟩⟩ := s.policies.install_cases r snapshot
    · cases (Prod.mk.inj (hi.symm.trans heq)).2
    · cases (Prod.mk.inj (hi.symm.trans heq)).2
    · obtain rfl := mem_unique he he'
      obtain hlt | ⟨hr, hp⟩ := (HostPolicies.supersede_ok hnx).high high hh
      · have hl' : revision < snapshot.revision := hle.elim (fun h => h.trans hlt) fun h => h.1.trans_lt hlt
        exact ⟨hl'.le, fun heq => absurd heq hl'.ne⟩
      · rw [← hr, ← hp]
        exact hle.elim (fun h => ⟨h.le, fun heq => absurd heq h.ne⟩) fun h => ⟨h.1.le, fun _ => h.2⟩
  | _ => cases hev

theorem inert_of_run (run : policyHost.Run env (.new now) h s) : Inert h := by
  intro h₁ t h₂ hh r snapshot hi hs
  obtain ⟨hrn, -, ht⟩ := run.at_step hh
  obtain ⟨error, hr⟩ := install_void (void_of_run hrn hs) snapshot
  simp only [hi, policyHost, hr, some.injEq, Prod.mk.injEq] at ht
  exact ⟨ht.1.symm, ht.2.symm⟩

/-- In every run, captures pass within their own deadline, revisions ascend and superseded
refreshes are inert; and no capture comes back, unless a lapsed lease is refreshed under it. -/
theorem captures_fenced (now : Nat) (h : HostHistory) (s : Host) (run : policyHost.Run .anything (.new now) h s) :
    Bounded h ∧ Ascending h ∧ Inert h ∧ (Machine.Offered Timely [] h → Final h) :=
  ⟨bounded_of_run run, ascending_of_run run, inert_of_run run, fun ht => final_of_run (run.restrict ht)⟩

end

def leased (deadline slack : Nat) : PolicySnapshot := ⟨1, {}, none, .until deadline, slack⟩

def hostBinding : PolicyBinding := ⟨"app", 1⟩

def lease : PolicyAuthority := ⟨hostBinding, 1, 0, some 100, {}, none⟩

def refreshed (ticket deadline slack : Nat) : List HostInput :=
  [.beginRefresh hostBinding, .install ⟨hostBinding, ticket⟩ (leased deadline slack)]

/-- A lease until 100 is captured and then re-anchored to 95. At `time` the capture is checked,
the lease is refreshed, and the capture is checked again. -/
def reanchored : HostHistory :=
  policyHost.trace (.new 0) ([.bind "app"] ++ refreshed 1 100 0 ++ [.capture hostBinding] ++ refreshed 2 95 10 ++
    [.pass time, .check lease] ++ refreshed 3 200 0 ++ [.check lease])

theorem reanchored_run : ∃ s, policyHost.Run .anything (.new 0) (reanchored time) s :=
  ⟨_, .of_trace (Machine.offered_anything _ _)⟩

/-- Refreshed at 90, before it lapses: the capture stays good to its own deadline. -/
theorem reanchored_in_time : Bounded (reanchored 90) ∧ Ascending (reanchored 90) ∧ Inert (reanchored 90) ∧
    Final (reanchored 90) := by
  obtain ⟨s, run⟩ := reanchored_run 90
  obtain ⟨hb, ha, hi, hf⟩ := captures_fenced 0 _ s run
  exact ⟨hb, ha, hi, hf (by decide +kernel)⟩

/-- Refreshed at 96, after it lapsed: the capture fails a check and then passes one. -/
theorem reanchored_late : (∃ s, policyHost.Run .anything (.new 0) (reanchored 96) s) ∧ ¬ Final (reanchored 96) := by
  refine ⟨reanchored_run 96, fun hf => ?_⟩
  have hfl : Failed ((reanchored 96).take 10) lease := by decide +kernel
  have hp : .passed lease ∈ ((reanchored 96).get ⟨10, by decide +kernel⟩).outputs := by decide +kernel
  exact hf _ _ _ (split_get (reanchored 96) ⟨10, by decide +kernel⟩) lease hfl hp

end Zeroship.Authority
