import Mathlib
import Zeroship.Base.Machine

/-! Dunning: the account state that payment events and the sweep leave.

Stripe may redeliver and reorder its events, so a failure is compared with the creation time
of the last recovery before it arms the dunning window. That mark is kept in the status row,
which only a failure makes; a recovery is compared with nothing. The state follows the newest
event unless a recovery is forgotten for want of a row or comes after a newer failure. -/
namespace Zeroship.Billing.Dunning
open Base List

inductive AccountState where
  | active | pastDue | suspended
deriving DecidableEq

/-- The row of an organization in `organization_billing_status`. Times of events are Stripe's,
the others are the database's. -/
structure StatusRow where
  state : AccountState
  (pastDueSince suspendedAt lastPaymentFailureAt : Option Int)
  failedInvoiceId : Option String
  (lastRecoveredAt lastEventAt : Option Int)

/-- `GREATEST`, which passes over a `NULL`. -/
def greatest (a : Option Int) (b : Int) : Int := a.elim b (max b)

/-- A recovery was emitted after this event. -/
def StatusRow.stale (row : StatusRow) (created : Int) : Bool := row.lastRecoveredAt.any (created ≤ ·)

def recordPaymentFailed (row : Option StatusRow) (failedInvoiceId : Option String) (created now : Int) : StatusRow :=
  match row with
  | none => ⟨.pastDue, some now, none, some now, failedInvoiceId, none, some created⟩
  | some row =>
    {row with
      state := if row.stale created then row.state else if row.state = .active then .pastDue else row.state
      pastDueSince :=
        if row.stale created then row.pastDueSince else if row.state = .active then some now else row.pastDueSince
      lastPaymentFailureAt := if row.stale created then row.lastPaymentFailureAt else some now
      failedInvoiceId := if row.stale created then row.failedInvoiceId else failedInvoiceId
      lastEventAt := some (greatest row.lastEventAt created)}

def recordPaymentRecovered (row : Option StatusRow) (created : Int) : Option StatusRow :=
  row.map fun row =>
    {row with
      state := .active
      pastDueSince := none
      suspendedAt := none
      failedInvoiceId := none
      lastRecoveredAt := some (greatest row.lastRecoveredAt created)
      lastEventAt := some (greatest row.lastEventAt created)}

/-- The window of a row has elapsed. -/
def StatusRow.exhausted (row : StatusRow) (maxDunningDays now : Int) : Bool :=
  row.state = .pastDue ∧ row.pastDueSince.any (maxDunningDays * 86400 < now - ·)

def suspendExhausted (row : Option StatusRow) (maxDunningDays now : Int) : Option StatusRow :=
  row.map fun row =>
    if row.exhausted maxDunningDays now then {row with state := .suspended, suspendedAt := some now} else row

/-- `None ⇒ no row ⇒ treated as Active`. -/
def accountState (row : Option StatusRow) : AccountState := (row.map (·.state)).getD .active

structure AccountTransition where
  (before after : AccountState)
  reason : String

/-- `transition_from_rows`: nothing where no row was written or the state is as before. -/
def transition (row row' : Option StatusRow) (reason : String) : List AccountTransition :=
  match row' with
  | none => []
  | some new => if accountState row = new.state then [] else [⟨accountState row, new.state, reason⟩]

inductive DunningInput where
  | paymentFailed (created : Int) (failedInvoiceId : Option String) (now : Int)
  | invoicePaid (created : Int)
  | sweep (maxDunningDays now : Int)

/-- Each write is one statement. -/
def account : Machine (Option StatusRow) DunningInput AccountTransition where
  step row
    | .paymentFailed created failedInvoiceId now =>
      let new := some (recordPaymentFailed row failedInvoiceId created now)
      some (new, transition row new "payment_failed")
    | .invoicePaid created =>
      let new := recordPaymentRecovered row created
      some (new, transition row new "payment_recovered")
    | .sweep maxDunningDays now =>
      let new := suspendExhausted row maxDunningDays now
      some (new, transition row new "dunning_exhausted")

/-- A payment event of the organization, by its creation time. -/
structure PaymentEvent where
  created : Int
  failure : Bool
deriving DecidableEq

def DunningInput.event : DunningInput → Option PaymentEvent
  | .paymentFailed created _ _ => some ⟨created, true⟩
  | .invoicePaid created => some ⟨created, false⟩
  | .sweep _ _ => none

abbrev Deliveries := History (Option StatusRow) DunningInput AccountTransition

def delivered (h : Deliveries) : List PaymentEvent := h.filterMap (·.input.event)

def Swept (h : Deliveries) : Prop := ∃ t ∈ h, t.input.event = none

section
variable (ds : List PaymentEvent)

def Newest (e : PaymentEvent) : Prop := e ∈ ds ∧ ∀ e' ∈ ds, e'.created ≤ e.created

/-- Events of one creation time are the same event. -/
def Distinct (e : PaymentEvent) : Prop := ∀ e' ∈ ds, e'.created = e.created → e' = e

/-- A recovery newer than `created` is among the events. -/
def Recovered (created : Int) : Prop := ∃ r ∈ ds, r.failure = false ∧ created < r.created

end

instance (ds : List PaymentEvent) (e : PaymentEvent) : Decidable (Newest ds e) := inferInstanceAs (Decidable (_ ∧ _))

instance (ds : List PaymentEvent) (e : PaymentEvent) : Decidable (Distinct ds e) :=
  inferInstanceAs (Decidable (∀ e' ∈ ds, _))

instance (ds : List PaymentEvent) (created : Int) : Decidable (Recovered ds created) :=
  inferInstanceAs (Decidable (∃ r ∈ ds, _))

/-- Creation times are distinct. A failure comes after a recovery that is newer only if the row
knows of one, and a recovery comes after a failure that is newer only if a recovery newer still
came before. -/
def Orderly : Environment (Option StatusRow) DunningInput AccountTransition := fun h row input => match input with
  | .paymentFailed created _ _ => Distinct (delivered h) ⟨created, true⟩ ∧
      (Recovered (delivered h) created → row.any (·.stale created))
  | .invoicePaid created => Distinct (delivered h) ⟨created, false⟩ ∧
      ∀ f ∈ delivered h, f.failure → created < f.created → Recovered (delivered h) f.created
  | .sweep _ _ => True

instance (h : Deliveries) (row : Option StatusRow) (input : DunningInput) : Decidable (Orderly h row input) :=
  match input with
  | .paymentFailed .. => inferInstanceAs (Decidable (_ ∧ _))
  | .invoicePaid _ => inferInstanceAs (Decidable (_ ∧ _))
  | .sweep .. => .isTrue trivial

/-- The account state is the one that the newest event calls for. -/
def FollowsNewest (h : Deliveries) (row : Option StatusRow) : Prop :=
  (¬ Swept h → (delivered h = [] → accountState row = .active) ∧
    ∀ e, Newest (delivered h) e → accountState row = if e.failure then .pastDue else .active) ∧
  ∀ e, Newest (delivered h) e → e.failure = false → accountState row ≠ .suspended

/-! ### What the steps keep -/

theorem delivered_snoc (h : Deliveries) (t : Step (Option StatusRow) DunningInput AccountTransition) :
    delivered (h ++ [t]) = delivered h ++ t.input.event.toList := by
  cases he : t.input.event with
  | none | some e => simp [delivered, he]

/-- The state and the mark against the events so far. -/
structure Tracks (ds : List PaymentEvent) (row : Option StatusRow) : Prop where
  unseen : row = none → ∀ e ∈ ds, e.failure = false
  mark : ∀ s ∈ row, ∀ time ∈ s.lastRecoveredAt, ∃ r ∈ ds, r.failure = false ∧ r.created = time
  settled : accountState row = .active → ∀ f ∈ ds, f.failure → Recovered ds f.created
  owed : accountState row ≠ .active → ∃ f ∈ ds, f.failure ∧ ∀ r ∈ ds, r.failure = false → r.created < f.created

section
variable {ds : List PaymentEvent} {row : Option StatusRow} {created now : Int} {failedInvoiceId : Option String}

theorem Recovered.snoc {time : Int} (h : Recovered ds time) (e : PaymentEvent) : Recovered (ds ++ [e]) time := by
  obtain ⟨r, hr, hrs⟩ := h
  exact ⟨r, mem_append_left _ hr, hrs⟩

theorem Tracks.start : Tracks [] none where
  unseen _ _ he := by cases he
  mark _ hs := by cases hs
  settled _ _ hf := by cases hf
  owed h := absurd rfl h

theorem Distinct.ne {e e' : PaymentEvent} (h : Distinct ds e) (he' : e' ∈ ds) (hk : e'.failure ≠ e.failure) :
    e'.created ≠ e.created := by
  intro heq
  rw [h e' he' heq] at hk
  exact hk rfl

theorem StatusRow.stale_iff {row : StatusRow} : row.stale created ↔ ∃ time ∈ row.lastRecoveredAt, created ≤ time := by
  cases hm : row.lastRecoveredAt <;> simp [StatusRow.stale, hm]

section
variable (h : Tracks ds row) {new : StatusRow}
include h

theorem Tracks.mark_snoc (e : PaymentEvent) {time : Int} (ht : time ∈ row.bind (·.lastRecoveredAt)) :
    ∃ r ∈ ds ++ [e], r.failure = false ∧ r.created = time := by
  obtain ⟨old, ho, ht⟩ := Option.bind_eq_some_iff.mp ht
  obtain ⟨r, hr, hrs⟩ := h.mark old ho time ht
  exact ⟨r, mem_append_left _ hr, hrs⟩

theorem Tracks.armed (hd : Distinct ds ⟨created, true⟩) (hn : ¬ Recovered ds created)
    (hst : new.state ≠ .active) (hm : new.lastRecoveredAt = row.bind (·.lastRecoveredAt)) :
    Tracks (ds ++ [⟨created, true⟩]) (some new) where
  unseen hnn := by cases hnn
  mark s hs time ht := by
    cases hs
    rw [hm] at ht
    exact h.mark_snoc _ ht
  settled ha := absurd ha hst
  owed _ := by
    refine ⟨⟨created, true⟩, by simp, rfl, fun r hr hrc => ?_⟩
    rcases mem_append.mp hr with hr | hr
    · have hne := hd.ne hr (by simp [hrc])
      have hle : r.created ≤ created := not_lt.mp fun hlt => hn ⟨r, hr, hrc, hlt⟩
      exact lt_of_le_of_ne hle hne
    · rw [mem_singleton.mp hr] at hrc
      cases hrc

theorem Tracks.ignored (hst : new.state = accountState row) (hm : new.lastRecoveredAt = row.bind (·.lastRecoveredAt))
    (hn : accountState row = .active → Recovered ds created) : Tracks (ds ++ [⟨created, true⟩]) (some new) where
  unseen hnn := by cases hnn
  mark s hs time ht := by
    cases hs
    rw [hm] at ht
    exact h.mark_snoc _ ht
  settled ha f hf hfl := by
    have ho : accountState row = .active := hst.symm.trans ha
    rcases mem_append.mp hf with hf | hf
    · exact (h.settled ho f hf hfl).snoc _
    · rw [mem_singleton.mp hf]
      exact (hn ho).snoc _
  owed how := by
    obtain ⟨f, hf, hfl, hrcv⟩ := h.owed fun ha => how (hst.trans ha)
    refine ⟨f, mem_append_left _ hf, hfl, fun r hr hrc => ?_⟩
    rcases mem_append.mp hr with hr | hr
    · exact hrcv r hr hrc
    · rw [mem_singleton.mp hr] at hrc
      cases hrc

theorem Tracks.failed (hd : Distinct ds ⟨created, true⟩) (hk : Recovered ds created → row.any (·.stale created)) :
    Tracks (ds ++ [⟨created, true⟩]) (some (recordPaymentFailed row failedInvoiceId created now)) := by
  cases row with
  | none =>
    refine h.armed hd (fun hn => ?_) (by simp [recordPaymentFailed]) rfl
    cases hk hn
  | some old =>
    by_cases hs : old.stale created
    · refine h.ignored (by simp [recordPaymentFailed, hs, accountState]) rfl fun _ => ?_
      -- The mark is the time of a recovery, and no failure is of the same time.
      obtain ⟨time, ht, hle⟩ := StatusRow.stale_iff.mp hs
      obtain ⟨r, hr, hrc, rfl⟩ := h.mark old rfl time ht
      have hne := hd.ne hr (by simp [hrc])
      exact ⟨r, hr, hrc, lt_of_le_of_ne hle hne.symm⟩
    · by_cases ha : old.state = .active
      · exact h.armed hd (fun hn => hs (hk hn))
          (by simp [recordPaymentFailed, hs, ha]) rfl
      · exact h.ignored (by simp [recordPaymentFailed, hs, ha, accountState]) rfl fun hc =>
          absurd hc ha

theorem Tracks.recovered (hd : Distinct ds ⟨created, false⟩)
    (hl : ∀ f ∈ ds, f.failure → created < f.created → Recovered ds f.created) :
    Tracks (ds ++ [⟨created, false⟩]) (recordPaymentRecovered row created) := by
  have ha : accountState (recordPaymentRecovered row created) = .active := by
    cases row <;> rfl
  refine ⟨fun hn e he => ?_, fun s hs time ht => ?_, fun _ f hf hfl => ?_, fun how => absurd ha how⟩
  · rcases mem_append.mp he with he | he
    · exact h.unseen (Option.map_eq_none_iff.mp hn) e he
    · rw [mem_singleton.mp he]
  · obtain ⟨old, ho, rfl⟩ := Option.map_eq_some_iff.mp hs
    subst ho
    cases ht
    cases hmr : old.lastRecoveredAt with
    | none => exact ⟨⟨created, false⟩, by simp, rfl, rfl⟩
    | some time =>
      rcases max_choice created time with hm | hm
      · exact ⟨⟨created, false⟩, by simp, rfl, hm.symm⟩
      · rw [greatest, Option.elim, hm]
        exact h.mark_snoc _ hmr
  · rcases mem_append.mp hf with hf | hf
    · by_cases hlt : created < f.created
      · exact (hl f hf hfl hlt).snoc _
      · have hne := hd.ne hf (by simp [hfl])
        exact ⟨⟨created, false⟩, by simp, rfl, lt_of_le_of_ne (not_lt.mp hlt) hne⟩
    · rw [mem_singleton.mp hf] at hfl
      cases hfl

theorem Tracks.swept (maxDunningDays : Int) : Tracks ds (suspendExhausted row maxDunningDays now) := by
  cases row with
  | none => exact h
  | some old =>
    by_cases he : old.exhausted maxDunningDays now
    · have hp : old.state = .pastDue := (of_decide_eq_true he).1
      have ho := h.owed (by simp [accountState, hp])
      have hn : suspendExhausted (some old) maxDunningDays now =
          some {old with state := .suspended, suspendedAt := some now} := by
        rw [suspendExhausted, Option.map_some, if_pos he]
      rw [hn]
      refine ⟨nofun, fun s hs => ?_, nofun, fun _ => ho⟩
      cases hs
      exact h.mark old rfl
    · have hn : suspendExhausted (some old) maxDunningDays now = some old := by
        rw [suspendExhausted, Option.map_some, if_neg he]
      rw [hn]
      exact h

end

end

section
variable {h : Deliveries} {row : Option StatusRow}

/-- The account follows the events in the order in which they were delivered. -/
theorem Tracks.run (run : account.Run Orderly none h row) : Tracks (delivered h) row := by
  refine run.invariant (fun h row => Tracks (delivered h) row) .start fun {h row row' input os} _ ht ho hs => ?_
  rw [delivered_snoc]
  cases input with
  | paymentFailed created failedInvoiceId now =>
    cases hs
    exact ht.failed ho.1 ho.2
  | invoicePaid created =>
    cases hs
    exact ht.recovered ho.1 ho.2
  | sweep maxDunningDays now =>
    cases hs
    rw [DunningInput.event, Option.toList_none, append_nil]
    exact ht.swept maxDunningDays

theorem unsuspended_step {row' : Option StatusRow} {input : DunningInput} {os : List AccountTransition}
    (h : accountState row ≠ .suspended) (he : input.event ≠ none) (hs : account.step row input = some (row', os)) :
    accountState row' ≠ .suspended := by
  cases input with
  | paymentFailed created failedInvoiceId now =>
    cases hs
    cases row with
    | none => simp [accountState, recordPaymentFailed]
    | some old =>
      show (if old.stale created then old.state else if old.state = .active then .pastDue else old.state) ≠ .suspended
      split
      · exact h
      · split
        · simp
        · exact h
  | invoicePaid created =>
    cases hs
    cases row <;> simp [accountState, recordPaymentRecovered]
  | sweep maxDunningDays now => exact absurd rfl he

theorem unsuspended (run : account.Run Orderly none h row) (hs : ¬ Swept h) : accountState row ≠ .suspended := by
  induction run with
  | start => simp [accountState]
  | @step h row row' input os run ho hst ih =>
    have hb : ¬ Swept h := fun ⟨t, ht, he⟩ => hs ⟨t, mem_append_left _ ht, he⟩
    have he : input.event ≠ none := fun he => hs ⟨⟨row, input, os, row'⟩, by simp, he⟩
    exact unsuspended_step (ih hb) he hst

theorem Tracks.active_iff {ds : List PaymentEvent} (ht : Tracks ds row) {e : PaymentEvent} (hn : Newest ds e) :
    accountState row = .active ↔ e.failure = false := by
  constructor
  · intro ha
    by_contra hfl
    obtain ⟨r, hr, -, hlt⟩ := ht.settled ha e hn.1 (by simpa using hfl)
    exact absurd (hn.2 r hr) (not_le.mpr hlt)
  · intro hrc
    by_contra ho
    obtain ⟨f, hf, -, hnw⟩ := ht.owed ho
    exact absurd (hn.2 f hf) (not_le.mpr (hnw e hn.1 hrc))

/-- In every run whose deliveries are orderly the account state follows the newest event. -/
theorem follows_newest (run : account.Run Orderly none h row) : FollowsNewest h row := by
  have ht := Tracks.run run
  refine ⟨fun hsw => ⟨fun hnt => ?_, fun e hn => ?_⟩, fun e hn hr => ?_⟩
  · by_contra ho
    obtain ⟨f, hf, -⟩ := ht.owed ho
    rw [hnt] at hf
    cases hf
  · have ha := ht.active_iff hn
    have hss := unsuspended run hsw
    cases hfl : e.failure with
    | false => exact ha.mpr hfl
    | true =>
      have hne : accountState row ≠ .active := fun h => by simp [ha.mp h] at hfl
      cases hs : accountState row with
      | active => exact absurd hs hne
      | pastDue => rfl
      | suspended => exact absurd hs hss
  · rw [(ht.active_iff hn).mpr hr]
    simp

end

/-- A failure, a recovery, an older failure, the recovery again, and a new failure. -/
def relapse : List DunningInput :=
  [.paymentFailed 1 none 0, .invoicePaid 3, .paymentFailed 2 none 1, .invoicePaid 3, .paymentFailed 4 none 2]

theorem relapse_follows_newest : Machine.Offered Orderly [] (account.trace none relapse) ∧
    FollowsNewest (account.trace none relapse) (account.reach none relapse) := by
  have ho : Machine.Offered Orderly [] (account.trace none relapse) := by decide +kernel
  exact ⟨ho, follows_newest (Machine.Run.of_trace ho)⟩

/-- A recovery that is delivered before the failure it follows. No row keeps it. -/
def forgotten : List DunningInput := [.invoicePaid 2, .paymentFailed 1 none 0, .sweep 7 700000]

/-- A recovery that is delivered after a failure that is newer. -/
def overtaken : List DunningInput := [.paymentFailed 2 none 0, .invoicePaid 1]

/-- An organization that has paid is suspended, and one that has not is active. -/
theorem newest_not_followed :
    (account.Run .anything none (account.trace none forgotten) (account.reach none forgotten) ∧
      Newest (delivered (account.trace none forgotten)) ⟨2, false⟩ ∧
      accountState (account.reach none forgotten) = .suspended) ∧
    account.Run .anything none (account.trace none overtaken) (account.reach none overtaken) ∧
      Newest (delivered (account.trace none overtaken)) ⟨2, true⟩ ∧
      accountState (account.reach none overtaken) = .active :=
  ⟨⟨Machine.Run.of_trace (Machine.offered_anything _ _), by decide, by decide⟩,
    Machine.Run.of_trace (Machine.offered_anything _ _), by decide, by decide⟩

end Zeroship.Billing.Dunning
