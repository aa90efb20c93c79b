import Zeroship.Workflow.Frame
import Zeroship.Authority.Policy

/-! The policy ledger: how the policy of an app is observed and given a revision.

An observation holds the lock of the app's ledger row, reads the operator's switches, asks
Control for the facts of the app and publishes the policy they give. Control answers from
some position of its own log, and says which. The ledger keeps the position of the last
publication that changed the policy and refuses an answer below it.

An observation that changes nothing writes nothing, its position included, so a policy that
Control has left behind can come back at a higher revision. -/
namespace Zeroship.Authority
open Base Workflow List

structure PlanSourceFacts (Json : Type) where
  (workflowsAllowed archived : Bool)
  workflowPolicy : Option Json

structure AppSourceFacts (Json : Type) where
  appId : AppId
  workflowsEnabled : Bool
  executionZoneId : ZoneId
  (archived deleted : Bool)
  plan : PlanSourceFacts Json

structure AppFactsResponse (Json : Type) where
  watermark : Nat
  apps : List (AppSourceFacts Json)

/-- What Control's tables hold at each position of its log. -/
abbrev Control (Json : Type) := Nat → List (AppSourceFacts Json)

/-- An answer from a position: the rows of the app as they were there, and the position. -/
def Control.observe {Json : Type} (control : Control Json) (position : Nat) (app : AppId) : AppFactsResponse Json :=
  ⟨position, (control position).filter (·.appId = app)⟩

/-- How policies are written down. -/
structure Codec (Json : Type) where
  encode : AppPolicy → Json
  read : Json → Option AppPolicy
  read_encode : ∀ p, read (encode p) = some p

def Codec.decode {Json : Type} (codec : Codec Json) (value : Json) : Except Error AppPolicy := do
  let policy ← orElse .unavailable (codec.read value)
  demand (policy.validate) .unavailable
  pure policy

structure RolloutRecord where
  (dispatchPaused ingressDisabled : Bool)
  sourceValidityMs : Int

structure LedgerRecord (Json : Type) where
  revision : Int := 0
  policyJson : Option Json := none
  sourceValidityMs : Option Int := none
  sourceWatermark : Option Int := none

structure PolicyStore (Json : Type) where
  ledger : AppId → Option (LedgerRecord Json)
  rollout : Option RolloutRecord

namespace PolicyStore
variable {Json : Type} (s : PolicyStore Json) (app : AppId)

/-- The row of an app, as the upsert of its id alone leaves it. -/
def record : LedgerRecord Json := (s.ledger app).getD {}

def write (row : LedgerRecord Json) : PolicyStore Json :=
  { s with ledger := fun b => if b = app then some row else s.ledger b }

@[simp] theorem record_write (b : AppId) (row : LedgerRecord Json) :
    (s.write app row).record b = if b = app then row else s.record b := by
  simp only [record, write]
  split <;> rfl

end PolicyStore

/-- A number of milliseconds as a duration in nanoseconds. -/
def validity (milliseconds : Int) : Except Error Nat :=
  if 0 < milliseconds then .ok (milliseconds.toNat * 1000000) else .error .unavailable

/-- The plan's policy, switched off as the facts and the operator say. -/
def restrict {Json : Type} (policy : AppPolicy) (source : AppSourceFacts Json) (switches : RolloutRecord) : AppPolicy :=
  let enabled := source.workflowsEnabled && !source.archived && source.plan.workflowsAllowed && !source.plan.archived
  { policy with
    admission := policy.admission && enabled
    dispatch := policy.dispatch && (enabled && !switches.dispatchPaused)
    ingress := policy.ingress && (enabled && !switches.ingressDisabled) }

structure Publication where
  revision : Int
  policy : AppPolicy
  executionZoneId : ZoneId
  deleted : Bool
  expiresAt : Nat

/-- The instants at which a call looked at the clock. -/
structure Reading where
  (started admitted published observed : Nat)

section
variable {Json : Type} (codec : Codec Json)

variable (previous : LedgerRecord Json) (policy : AppPolicy) (switches : RolloutRecord)

/-- Whether the ledger already holds this policy with this validity. A row that was
written in part is refused. -/
def unchanged : Except Error Bool :=
  match previous.policyJson, previous.sourceValidityMs, previous.sourceWatermark with
  | none, none, none => if previous.revision = 0 then .ok false else .error .unavailable
  | some stored, some sourceValidityMs, some _ => do
    demand (0 < previous.revision) .unavailable
    let _ ← validity sourceValidityMs
    let held ← codec.decode stored
    pure (held = policy && sourceValidityMs = switches.sourceValidityMs)
  | _, _, _ => .error .unavailable

/-- The row after a publication, and its revision. -/
def advance (watermark : Nat)
    (same : Bool) : Except Error (LedgerRecord Json) :=
  -- The position is not written here: the row keeps the one its revision was made from.
  if same then .ok previous
  else do
    let next ← orElse .unavailable (checkedAdd previous.revision 1)
    pure ⟨next, some (codec.encode policy), some switches.sourceValidityMs, some watermark⟩

def only {α : Type} : List α → Except Error α
  | [a] => .ok a
  | _ => .error .unavailable

/-- `answer` is what Control says, if it answers at all. -/
def publish (s : PolicyStore Json) (app : AppId) (clock : Reading) (answer : Option (AppFactsResponse Json)) :
    Except Error (PolicyStore Json × Publication) := do
  let previous := s.record app
  let switches ← orElse .unavailable s.rollout
  let observed ← orElse .unavailable answer
  let source ← only observed.apps
  demand (source.appId = app) .unavailable
  demand (∀ held ∈ previous.sourceWatermark, held ≤ observed.watermark) .unavailable
  let plan ← orElse .unavailable source.plan.workflowPolicy
  let granted ← codec.decode plan
  let policy := restrict granted source switches
  let window ← validity switches.sourceValidityMs
  let expiresAt := clock.started + window
  demand (clock.admitted < expiresAt) .unavailable
  let same ← unchanged codec previous policy switches
  let row ← advance codec previous policy switches observed.watermark same
  demand (clock.published < expiresAt) .unavailable
  demand (0 < row.revision) .unavailable
  pure (s.write app row, ⟨row.revision, policy, source.executionZoneId, source.deleted, expiresAt⟩)

end

structure PolicyObservation where
  appId : AppId
  revision : Int
  policy : AppPolicy
  executionZoneId : ZoneId
  deleted : Bool
  expiresAt : Nat
deriving DecidableEq

def PolicyObservation.new (app : AppId) (p : Publication) (now : Nat) : Except Error PolicyObservation := do
  demand (p.policy.validate) .unavailable
  demand (now < p.expiresAt) .unavailable
  pure ⟨app, p.revision, p.policy, p.executionZoneId, p.deleted, p.expiresAt⟩

/-- How the transaction of an observation ends. It may commit and the caller not hear of it. -/
inductive Fate
  | committed | aborted | lost
deriving DecidableEq

inductive PolicyCall
  | observe (app : AppId) (clock : Reading) (position : Option Nat) (fate : Fate)
  | setRollout (settings : RolloutRecord)

/-- An observation that was committed: the position it was computed from, whether it wrote
the ledger, and what its caller was given. -/
structure Committed where
  appId : AppId
  position : Nat
  written : Bool
  published : Publication
  returned : Option PolicyObservation

section
variable {Json : Type} (codec : Codec Json) (control : Control Json)

def observe (s : PolicyStore Json) (app : AppId) (clock : Reading) (position : Option Nat) (fate : Fate) :
    PolicyStore Json × List Committed :=
  match publish codec s app clock (position.map (control.observe · app)) with
  | .error _ => (s, [])
  | .ok (s', p) =>
    if fate = .aborted then (s, [])
    else
      let written := decide (p.revision ≠ (s.record app).revision)
      let returned := if fate = .committed then (PolicyObservation.new app p clock.observed).toOption else none
      (s', position.toList.map (⟨app, ·, written, p, returned⟩))

def setRollout (s : PolicyStore Json) (settings : RolloutRecord) : PolicyStore Json :=
  match validity settings.sourceValidityMs with
  | .ok _ => { s with rollout := some settings }
  | .error _ => s

/-- The ledger, its calls serialised by the locks they hold. -/
def policyLedger : Machine (PolicyStore Json) PolicyCall Committed where
  step s
    | .observe app clock position fate => some (observe codec control s app clock position fate)
    | .setRollout settings => some (setRollout s settings, [])

end

section
variable {Json : Type} {codec : Codec Json} {control : Control Json} {s s' : PolicyStore Json} {app : AppId}
  {env : Environment (PolicyStore Json) PolicyCall Committed} {h : History (PolicyStore Json) PolicyCall Committed}
  {s₀ : PolicyStore Json} {row row' : LedgerRecord Json} {position : Nat}

/-- A publication is what Control's facts at a position give, under some switches. -/
structure FromSource (control : Control Json) (app : AppId) (position : Nat) (p : Publication) : Prop where
  facts : ∃ facts ∈ control position, facts.appId = app ∧ p.executionZoneId = facts.executionZoneId ∧
    p.deleted = facts.deleted ∧ ∃ (granted : AppPolicy) (switches : RolloutRecord),
      p.policy = restrict granted facts switches

/-- The row after a publication: the one before, or a new revision made from this position. -/
def Moves (row row' : LedgerRecord Json) (position : Nat) : Prop :=
  row' = row ∨ row'.revision = row.revision + 1 ∧ row'.sourceWatermark = some (position : Int)

theorem only_ok {α : Type} {l : List α} {a : α} (h : only l = .ok a) : l = [a] := by
  unfold only at h
  split at h
  · rw [Except.ok.inj h]
  · cases h

theorem advance_ok {policy : AppPolicy} {switches : RolloutRecord}
    {same : Bool} (h : advance codec row policy switches position same = .ok row') : Moves row row' position := by
  unfold advance at h
  split at h
  · exact .inl (Except.ok.inj h).symm
  · simp only [bind_ok, orElse_ok, pure_ok] at h
    obtain ⟨next, hn, rfl⟩ := h
    exact .inr ⟨checkedAdd_some hn, rfl⟩

theorem publish_ok {clock : Reading} {answer : Option (AppFactsResponse Json)} {p : Publication}
    (h : publish codec s app clock answer = .ok (s', p)) :
    ∃ (observed : AppFactsResponse Json) (source : AppSourceFacts Json) (row : LedgerRecord Json) (switches : RolloutRecord)
      (granted : AppPolicy), answer = some observed ∧ observed.apps = [source] ∧ source.appId = app ∧
      (∀ held ∈ (s.record app).sourceWatermark, held ≤ observed.watermark) ∧
      Moves (s.record app) row observed.watermark ∧ s' = s.write app row ∧ p.revision = row.revision ∧
      p.policy = restrict granted source switches ∧ p.executionZoneId = source.executionZoneId ∧
      p.deleted = source.deleted := by
  simp only [publish, bind_ok, orElse_ok, demand_ok, pure_ok, Prod.mk.injEq] at h
  obtain ⟨switches, -, observed, ha, source, ho, -, hap, -, hf, _, _, granted, -, window, -, -, -, same, -,
    row, hr, -, -, -, -, rfl, rfl⟩ := h
  exact ⟨observed, source, row, switches, granted, ha, only_ok ho, hap, hf, advance_ok hr, rfl, rfl,
    rfl, rfl, rfl⟩

/-- A call leaves the ledger alone, or commits one observation. -/
theorem observe_cases (codec : Codec Json) (control : Control Json) (s : PolicyStore Json) (app : AppId)
    (clock : Reading) (position : Option Nat) (fate : Fate) :
    observe codec control s app clock position fate = (s, []) ∨
    ∃ c row, observe codec control s app clock position fate = (s.write app row, [c]) ∧
      c.appId = app ∧ FromSource control app c.position c.published ∧
      (∀ held ∈ (s.record app).sourceWatermark, held ≤ c.position) ∧ Moves (s.record app) row c.position ∧
      c.published.revision = row.revision ∧ (c.written ↔ row.revision ≠ (s.record app).revision) := by
  unfold observe
  split
  · exact .inl rfl
  next s' p hp =>
  split
  · exact .inl rfl
  obtain ⟨observed, source, row, switches, granted, ha, ho, hap, hf, hmv, rfl, hr, hpl, hz,
    hd⟩ := publish_ok hp
  cases position with
  | none => cases ha
  | some at_ =>
    obtain rfl : control.observe at_ app = observed := Option.some.inj ha
    have hm : source ∈ control at_ := (mem_filter.mp (ho ▸ mem_singleton_self source)).1
    refine .inr ⟨_, row, rfl, rfl, ⟨source, hm, hap, hz, hd, granted, switches, hpl⟩, hf, hmv,
      hr, ?_⟩
    simp [hr]

/-! ### Runs -/

/-- The ledger's position of every app has reached those of the publications that wrote it. -/
def Reached (h : History (PolicyStore Json) PolicyCall Committed) (s : PolicyStore Json) : Prop :=
  ∀ c ∈ h.outputs, c.written → ∃ held ∈ (s.record c.appId).sourceWatermark, (c.position : Int) ≤ held

theorem Moves.reached (h : Moves row row' position) (hf : ∀ held ∈ row.sourceWatermark, held ≤ position) {p : Int}
    (hp : ∃ held ∈ row.sourceWatermark, p ≤ held) : ∃ held ∈ row'.sourceWatermark, p ≤ held := by
  obtain rfl | ⟨-, hm⟩ := h
  · exact hp
  · obtain ⟨held, hh, hle⟩ := hp
    exact ⟨position, hm, hle.trans (hf held hh)⟩

/-- No publication takes a position of the ledger back. -/
theorem reached_of_run (run : (policyLedger codec control).Run env s₀ h s) : Reached h s := by
  refine run.invariant Reached (fun _ hc => by cases hc) ?_
  intro h s s' i os _ ih _ ht c hc hw
  rw [History.mem_outputs_snoc] at hc
  cases i with
  | setRollout settings =>
    obtain ⟨rfl, rfl⟩ := ht
    obtain hc | hc := hc
    · have hl : (setRollout s settings).ledger = s.ledger := by
        unfold setRollout
        split <;> rfl
      simpa only [PolicyStore.record, hl] using ih c hc hw
    · cases hc
  | observe app clock position fate =>
    simp only [policyLedger, Option.some.injEq] at ht
    obtain hcs | ⟨d, row, hcs, rfl, -, hf, hm, -, hd⟩ :=
      observe_cases codec control s app clock position fate
    · obtain ⟨rfl, rfl⟩ := Prod.mk.inj (hcs.symm.trans ht)
      exact ih c (hc.resolve_right (by simp)) hw
    obtain ⟨rfl, rfl⟩ := Prod.mk.inj (hcs.symm.trans ht)
    rw [PolicyStore.record_write]
    obtain hc | hc := hc
    · split
      · next ha => exact hm.reached hf (ha ▸ ih c hc hw)
      · exact ih c hc hw
    obtain rfl := mem_singleton.mp hc
    rw [if_pos rfl]
    obtain rfl | ⟨-, hmr⟩ := hm
    · exact absurd rfl (hd.mp hw)
    · exact ⟨_, hmr, le_refl _⟩

variable (l : List Committed)

/-- Every observation a caller was given was computed from a position at or above those of
the observations committed before it. -/
def Ordered : Prop :=
  l.Pairwise fun d c => d.appId = c.appId → c.returned.isSome → d.position ≤ c.position

/-- None was answered from below a position whose observation left the policy as it was. -/
def Abreast : Prop :=
  l.Pairwise fun d c => d.appId = c.appId → c.returned.isSome → d.written = false → d.position ≤ c.position

instance (l : List Committed) : Decidable (Ordered l) := inferInstanceAs (Decidable (List.Pairwise _ l))
instance (l : List Committed) : Decidable (Abreast l) := inferInstanceAs (Decidable (List.Pairwise _ l))

theorem step_commits {i : PolicyCall} {os : List Committed}
    (h : (policyLedger codec control).step s i = some (s', os)) :
    os = [] ∨ ∃ c, os = [c] ∧ FromSource control c.appId c.position c.published ∧
      ∀ held ∈ (s.record c.appId).sourceWatermark, held ≤ c.position := by
  cases i with
  | setRollout settings =>
    simp only [policyLedger, Option.some.injEq, Prod.mk.injEq] at h
    exact .inl h.2.symm
  | observe app clock position fate =>
    simp only [policyLedger, Option.some.injEq] at h
    obtain hc | ⟨c, row, hc, rfl, hs, hf, -⟩ := observe_cases codec control s app clock position fate
    · exact .inl (Prod.mk.inj (hc.symm.trans h)).2.symm
    · exact .inr ⟨c, (Prod.mk.inj (hc.symm.trans h)).2.symm, hs, hf⟩

/-- Observations that wrote the policy are in order anyway; the others are by assumption. -/
theorem ordered_of_abreast (run : (policyLedger codec control).Run env s₀ h s) : Abreast h.outputs → Ordered h.outputs := by
  refine run.invariant (fun h _ => Abreast h.outputs → Ordered h.outputs) (fun _ => .nil) ?_
  intro h s s' i os hrn ih _ ht ha
  rw [History.outputs_snoc] at ha ⊢
  obtain ⟨ho, -, hn⟩ := pairwise_append.mp ha
  obtain rfl | ⟨c, rfl, -, hf⟩ := step_commits ht
  · simpa using ih ho
  refine pairwise_append.mpr ⟨ih ho, pairwise_singleton _ c, fun d hd c' hc' hap hr => ?_⟩
  obtain rfl := mem_singleton.mp hc'
  cases hw : d.written with
  | false => exact hn d hd c' (mem_singleton_self c') hap hr hw
  | true =>
    -- What wrote the ledger left its position there, and the fence compares with that.
    obtain ⟨held, hh, hle⟩ := reached_of_run hrn d hd hw
    exact Int.ofNat_le.mp (hle.trans (hf held (hap ▸ hh)))

theorem fromSource_of_run (run : (policyLedger codec control).Run env s₀ h s) {c : Committed} (hc : c ∈ h.outputs) :
    FromSource control c.appId c.position c.published := by
  obtain ⟨t, ht, hct⟩ := History.mem_outputs.mp hc
  obtain ⟨h₁, h₂, hh⟩ := append_of_mem ht
  obtain hn | ⟨d, ho, hs, -⟩ := step_commits (run.at_step hh).2.2
  · rw [hn] at hct
    cases hct
  · rw [ho] at hct
    obtain rfl := mem_singleton.mp hct
    exact hs

/-- Whatever the ledger holds at first and however far Control's answers lag: an observation is
what Control's facts at its position give, and the observations that callers are given are in
the order of their positions if none of them was answered from below a position at which the
policy was found as it was. -/
theorem observations_ordered_iff (codec : Codec Json) (control : Control Json) (s₀ : PolicyStore Json)
    (h : History (PolicyStore Json) PolicyCall Committed) (s : PolicyStore Json)
    (run : (policyLedger codec control).Run .anything s₀ h s) :
    (∀ c ∈ h.outputs, FromSource control c.appId c.position c.published) ∧ (Ordered h.outputs ↔ Abreast h.outputs) :=
  ⟨fun _ hc => fromSource_of_run run hc,
    fun ho => ho.imp fun hle ha hr _ => hle ha hr, ordered_of_abreast run⟩

end

/-- Policies written down as themselves. -/
def Codec.plain : Codec AppPolicy := ⟨id, some, fun _ => rfl⟩

/-- An app whose workflows are enabled at position 2 only. -/
def toggled : Control AppPolicy := fun position =>
  [⟨"app", position = 2, "zone", false, false, ⟨true, false, some {}⟩⟩]

def unpublished : PolicyStore AppPolicy := ⟨fun _ => none, some ⟨false, false, 30000⟩⟩

def observeAt (position : Nat) : PolicyCall := .observe "app" ⟨0, 0, 0, 0⟩ (some position) .committed

variable (positions : List Nat)

/-- One call after the other, answered from these positions. -/
def answered : History (PolicyStore AppPolicy) PolicyCall Committed :=
  (policyLedger .plain toggled).trace unpublished (positions.map observeAt)

theorem answered_run : (policyLedger .plain toggled).Run .anything unpublished (answered positions)
    ((policyLedger .plain toggled).reach unpublished (positions.map observeAt)) :=
  .of_trace (Machine.offered_anything _ _)

/-- Answers in order: each observation is of its position and none is late. -/
theorem answered_in_order : (∀ c ∈ (answered [1, 3, 4]).outputs, FromSource toggled c.appId c.position c.published) ∧
      Ordered (answered [1, 3, 4]).outputs := by
  have h := observations_ordered_iff .plain toggled unpublished _ _ (answered_run [1, 3, 4])
  exact ⟨h.1, h.2.mpr (by decide +kernel)⟩

/-- The second call finds the app disabled at position 3, and the third, answered from
position 2, admits its work again at a higher revision. -/
theorem superseded_policy_republished :
    (answered [1, 3, 2]).outputs.map (fun c => (c.position, c.returned.map fun o => (o.revision, o.policy.admission))) =
      [(1, some (1, false)), (3, some (1, false)), (2, some (2, true))] ∧
    ¬ ∀ (control : Control AppPolicy) (s₀ : PolicyStore AppPolicy)
        (h : History (PolicyStore AppPolicy) PolicyCall Committed) (s : PolicyStore AppPolicy),
      (policyLedger .plain control).Run .anything s₀ h s → Ordered h.outputs := by
  refine ⟨by decide +kernel, fun ha => ?_⟩
  have ho := ha toggled unpublished _ _ (answered_run [1, 3, 2])
  exact absurd ho (by decide +kernel)

end Zeroship.Authority
