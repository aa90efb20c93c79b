import Zeroship.Metering.Custody

/-! Usage is conserved until it is acknowledged.

What was counted is in the counters, in drained events or was lost with a process. What was
handed to the outbox is acknowledged, in the log, retained, dropped from the front of a full
buffer, or in the batch of a call that has not appended it yet. Such a batch is the only copy:
a process that ends there loses it. -/
namespace Zeroship.Metering
open Base List Output AList

variable {P : Type} {codec : Codec P}

abbrev Events (P : Type) := History (State P) Input Output

/-! ### What a run has counted, drained and handed over -/

def Input.counted : Input → Option ((AppId × String) × Nat)
  | .count app metric n => some ((app, metric), n)
  | _ => none

def Input.handed : Input → List UsageEvent
  | .publish _ _ events => events
  | _ => []

def Output.drained? : Output → Option UsageEvent
  | .drained x => some x
  | _ => none

def Output.sign? : Output → Option Sign
  | .call _ sign => some sign
  | _ => none

/-- The counters' loss in a step. -/
def forgottenIn (app : AppId) (metric : String) (t : Step (State P) Input Output) : Nat :=
  match t.input with
  | .restart _ => t.before.meter.value app metric
  | _ => 0

namespace Events

variable (h : Events P)

def recorded : List ((AppId × String) × Nat) := h.filterMap (·.input.counted)

def handed (h : Events P) : List UsageEvent := h.flatMap (·.input.handed)

def drained (h : Events P) : List UsageEvent := h.outputs.filterMap Output.drained?

def signs : List Sign := h.outputs.filterMap Output.sign?

def acknowledged : List UsageEvent := acknowledgedOf (signs h)

def dropped : List UsageEvent := droppedOf (signs h)

/-- What counters held when their process ended. -/
def forgotten (app : AppId) (metric : String) : Nat := (h.map (forgottenIn app metric)).sum

end Events

def State.inHand (s : State P) : List UsageEvent := s.calls.entries.flatMap fun c => c.2.batch.getD []

/-- An event that is not settled is in the log, retained, or in the batch of a call. -/
def State.Holds (codec : Codec P) (s : State P) (x : UsageEvent) : Prop :=
  s.wal.Stores codec x ∨ x ∈ s.retained ∨ x ∈ s.inHand

/-- The process ended with the event in memory. -/
def Events.Lost (h : Events P) (x : UsageEvent) : Prop :=
  ∃ t ∈ h, (∃ source, t.input = .restart source) ∧ (x ∈ t.before.retained ∨ x ∈ t.before.inHand)

/-- What may have become of an event that was handed over. -/
def Placed (codec : Codec P) (h : Events P) (s : State P) (x : UsageEvent) : Prop :=
  x ∈ Events.acknowledged h ∨ s.Holds codec x ∨ x ∈ Events.dropped h ∨ Events.Lost h x

/-- Totals fit in 64 bits, and every drained event has an identifier of its own. -/
def Assumed : Environment (State P) Input Output := fun h _ i =>
  match i with
  | .count app metric n => tally (app, metric) (Events.recorded h) + n < 2 ^ 64
  | .drain ids _ => ids.Nodup ∧ ∀ id ∈ ids, id ∉ (Events.drained h).map (·.eventId)
  | _ => True

/-- A publish call begins only when no other has a batch it has not appended. -/
def Alone : Environment (State P) Input Output := fun _ s i =>
  match i with
  | .publish .. => ∀ c ∈ s.calls.entries, c.2.batch = none
  | _ => True

instance (h : Events P) (s : State P) (i : Input) : Decidable (Assumed h s i) :=
  match i with
  | .count .. => inferInstanceAs (Decidable (_ < _))
  | .drain .. => inferInstanceAs (Decidable (_ ∧ _))
  | .enqueue .. | .publish .. | .turn .. | .restart .. => .isTrue trivial

/-- A step drops events only from the front of a buffer that is too long, and leaves it full. -/
def DropsFront (t : Step (State P) Input Output) : Prop :=
  Events.dropped [t] = [] ∨ ∃ call maxRetained batch error,
    t.before.calls.lookup call = some (.refused maxRetained batch error) ∧
    t.before.retained ++ batch = Events.dropped [t] ++ t.after.retained ∧ t.after.retained.length = maxRetained

/-- What the run has done with usage. -/
structure Conserved (codec : Codec P) (h : Events P) (s : State P) : Prop where
  distinct : ((Events.drained h).map (·.eventId)).Nodup
  counted : ∀ app metric, tally (app, metric) (Events.recorded h) =
    s.meter.value app metric + tally (app, metric) ((Events.drained h).filterMap (·.amount)) +
      Events.forgotten h app metric
  held : ∀ x ∈ Events.handed h, Placed codec h s x
  front : ∀ t ∈ h, DropsFront t
  /-- Dropped events are older than the retained ones, unless calls overlap before their appends. -/
  oldest : Machine.Offered Alone [] h → (Events.dropped h ++ s.retained).Sublist (Events.handed h)

namespace Events
variable (h : Events P) (t : Step (State P) Input Output)

theorem recorded_snoc : recorded (h ++ [t]) = recorded h ++ t.input.counted.toList := by
  cases hc : t.input.counted <;> simp [recorded, hc]

theorem handed_snoc : handed (h ++ [t]) = handed h ++ t.input.handed := by simp [handed]

theorem drained_snoc : drained (h ++ [t]) = drained h ++ t.outputs.filterMap drained? := by
  rw [drained, History.outputs_snoc, filterMap_append]
  rfl

theorem signs_snoc : signs (h ++ [t]) = signs h ++ t.outputs.filterMap sign? := by
  rw [signs, History.outputs_snoc, filterMap_append]
  rfl

theorem acknowledged_snoc :
    acknowledged (h ++ [t]) = acknowledged h ++ acknowledgedOf (t.outputs.filterMap sign?) := by
  rw [acknowledged, signs_snoc, acknowledgedOf, filterMap_append]
  rfl

theorem dropped_snoc : dropped (h ++ [t]) = dropped h ++ droppedOf (t.outputs.filterMap sign?) := by
  rw [dropped, signs_snoc, droppedOf_append]
  rfl

theorem forgotten_snoc (app : AppId) (metric : String) :
    forgotten (h ++ [t]) app metric = forgotten h app metric + forgottenIn app metric t := by
  simp [forgotten]

end Events

/-! ### The counters -/

section
variable {s s' : State P} {i : Input} {os : List Output} {ids : List String} {eventTime : Int}

variable (m : Meter) (events : List UsageEvent) (call : CallId) (signs : List Sign)

theorem sign?_calls :
    (signs.map (Output.call call)).filterMap Output.sign? = signs := by
  rw [filterMap_map]
  exact filterMap_some

theorem drained?_calls :
    (signs.map (Output.call call)).filterMap Output.drained? = [] := by
  rw [filterMap_map]
  exact filterMap_eq_nil_iff.mpr fun _ _ => rfl

theorem drained?_drained : (events.map drained).filterMap drained? = events := by
  rw [filterMap_map]
  exact filterMap_some

theorem sign?_drained : (events.map drained).filterMap sign? = [] := by
  rw [filterMap_map]
  exact filterMap_eq_nil_iff.mpr fun _ _ => rfl

theorem turn_ok {call : CallId} {turn : Turn} (h : (producer codec).step s (.turn call turn) = some (s', os)) :
    ∃ stage e, s.calls.lookup call = some stage ∧ stage.step codec s.wal s.retained turn = some e ∧
      s' = s.after call e ∧ os = e.signs.map (.call call) := by
  simp only [producer] at h
  split at h
  · cases h
  next stage hl =>
  obtain ⟨e, he, heq⟩ := Option.map_eq_some_iff.mp h
  cases heq
  exact ⟨stage, e, hl, he, rfl, rfl⟩

theorem drain_ok (h : (producer codec).step s (.drain ids eventTime) = some (s', os)) :
    ids.length = s.meter.drained.length ∧ s' = { s with meter := s.meter.reset } ∧
      os = (s.meter.events ids eventTime).map .drained := by
  simp only [producer] at h
  split_ifs at h with hl
  cases h
  exact ⟨hl, rfl, rfl⟩

theorem publish_ok {call : CallId} {maxRetained : Nat} {events : List UsageEvent}
    (h : (producer codec).step s (.publish call maxRetained events) = some (s', os)) : call ∉ s.calls ∧
      s' = { s with retained := [], calls := s.calls.insert call (.taken maxRetained (s.retained ++ events)) } ∧
      os = [] := by
  simp only [producer] at h
  split_ifs at h with hc
  cases h
  exact ⟨hc, rfl, rfl⟩

/-- What a step does to the counters: it adds to one, drains all, begins anew, or leaves them. -/
theorem meter_step (h : (producer codec).step s i = some (s', os)) :
    (∃ app metric n, i = .count app metric n ∧ s'.meter = s.meter.increment app metric n ∧ os = []) ∨
    (∃ ids eventTime, i = .drain ids eventTime ∧ ids.length = s.meter.drained.length ∧ s'.meter = s.meter.reset ∧
      os = (s.meter.events ids eventTime).map .drained) ∨
    (∃ source, i = .restart source ∧ s'.meter = .withSource source ∧ os = []) ∨
    i.counted = none ∧ (∀ app metric, forgottenIn app metric ⟨s, i, os, s'⟩ = 0) ∧ s'.meter = s.meter ∧
      os.filterMap drained? = [] := by
  cases i with
  | count app metric n =>
    cases h
    exact .inl ⟨app, metric, n, rfl, rfl, rfl⟩
  | drain ids eventTime =>
    obtain ⟨hl, rfl, rfl⟩ := drain_ok h
    exact .inr (.inl ⟨ids, eventTime, rfl, hl, rfl, rfl⟩)
  | enqueue events fate =>
    cases h
    exact .inr (.inr (.inr ⟨rfl, fun _ _ => rfl, rfl, rfl⟩))
  | publish call maxRetained events =>
    obtain ⟨_, rfl, rfl⟩ := publish_ok h
    exact .inr (.inr (.inr ⟨rfl, fun _ _ => rfl, rfl, rfl⟩))
  | turn call turn =>
    obtain ⟨stage, e, _, _, rfl, rfl⟩ := turn_ok h
    exact .inr (.inr (.inr ⟨rfl, fun _ _ => rfl, rfl, drained?_calls call e.signs⟩))
  | restart source =>
    cases h
    exact .inr (.inr (.inl ⟨source, rfl, rfl, rfl⟩))

theorem amount_events (h : ids.length = m.drained.length) :
    (m.events ids eventTime).filterMap (·.amount) = m.drained := by
  rw [Meter.events, ← map_uncurry_zip_eq_zipWith, filterMap_map]
  exact (congrFun filterMap_eq_map _).trans (map_snd_zip h.ge)

theorem eventId_events (h : ids.length = m.drained.length) :
    (m.events ids eventTime).map (·.eventId) = ids := by
  rw [Meter.events, ← map_uncurry_zip_eq_zipWith, map_map]
  exact map_fst_zip h.le

end

variable {h : Events P} {s s' : State P} {i : Input} {os : List Output} {source : String} {w : UsageWal P}
  {call : CallId} {stage : Stage} {e : Effect P} {x : UsageEvent} {t : Step (State P) Input Output}
  {events : List UsageEvent} {other : CallId} {acknowledged : List UsageEvent}
  {env : Environment (State P) Input Output}

/-- No event id is drained twice. -/
theorem distinct_of_run {s₀ : State P} (run : (producer codec).Run Assumed s₀ h s) :
    ((Events.drained h).map (·.eventId)).Nodup := by
  refine run.invariant (fun h _ => ((Events.drained h).map (·.eventId)).Nodup) nodup_nil ?_
  intro h s s' i os _ hn hass hs
  rw [Events.drained_snoc, map_append]
  obtain ⟨_, _, _, _, _, rfl⟩ | ⟨ids, eventTime, rfl, hl, _, rfl⟩ | ⟨_, _, _, rfl⟩ | ⟨_, _, _, hnn⟩ :=
    meter_step hs
  · exact (append_nil _).symm ▸ hn
  · show (_ ++ ((map drained _).filterMap drained?).map _).Nodup
    rw [drained?_drained, eventId_events _ hl]
    refine nodup_append.mpr ⟨hn, hass.1, ?_⟩
    rintro a ha b hb rfl
    exact hass.2 a hb ha
  · exact (append_nil _).symm ▸ hn
  · rw [hnn]
    exact (append_nil _).symm ▸ hn

/-- What was recorded is in the meter, was drained, or was forgotten at a restart. -/
theorem counted_of_run (run : (producer codec).Run Assumed (.start source w) h s) (app : AppId) (metric : String) :
    tally (app, metric) (Events.recorded h) =
      s.meter.value app metric + tally (app, metric) ((Events.drained h).filterMap (·.amount)) +
        Events.forgotten h app metric := by
  refine run.invariant (fun h s => tally (app, metric) (Events.recorded h) =
      s.meter.value app metric + tally (app, metric) ((Events.drained h).filterMap (·.amount)) +
        Events.forgotten h app metric) ?_ ?_
  · show 0 = Meter.value (.withSource source) app metric + 0 + 0
    rw [Meter.value_withSource]
  intro h s s' i os _ hs ha hst
  rw [Events.recorded_snoc, Events.drained_snoc, Events.forgotten_snoc, filterMap_append, tally_append,
    tally_append, hs]
  obtain ⟨a, m, n, rfl, hm, rfl⟩ | ⟨ids, eventTime, rfl, hl, hm, rfl⟩ | ⟨source, rfl, hm, rfl⟩ |
    ⟨hc, hf, hm, hn⟩ := meter_step hst
  · have hft : tally (a, m) (Events.recorded h) + n < 2 ^ 64 := ha
    rw [hm, Meter.value_increment]
    show _ + tally (app, metric) [((a, m), n)] = _ + (_ + 0) + (_ + 0)
    rw [tally_cons, tally_nil]
    by_cases hk : app = a ∧ metric = m
    · obtain ⟨rfl, rfl⟩ := hk
      rw [if_pos rfl, if_pos ⟨rfl, rfl⟩, fetchAdd, Nat.mod_eq_of_lt (by omega)]
      omega
    · rw [if_neg hk, if_neg fun heq => hk ⟨(Prod.mk.inj heq).1.symm, (Prod.mk.inj heq).2.symm⟩]
      omega
  · show _ + 0 = s'.meter.value app metric + (_ + tally _ (((map drained _).filterMap _).filterMap _)) +
      (_ + 0)
    rw [hm, Meter.value_reset, drained?_drained, amount_events _ hl, Meter.tally_drained]
    omega
  · show _ + 0 = s'.meter.value app metric + (_ + 0) + (_ + s.meter.value app metric)
    rw [hm, Meter.value_withSource]
    omega
  · rw [hc, hf, hm, hn]
    show _ + 0 = _ + (_ + 0) + (_ + 0)
    omega

/-! ### The events -/

theorem lookup_setStage (calls : AList (fun _ : CallId => Stage)) (call other : CallId) (next : Option Stage) :
    (setStage calls call next).lookup other = if other = call then next else calls.lookup other := by
  by_cases h : other = call
  · subst h
    cases next with
    | none | some stage => simp [setStage]
  · cases next with
    | none => simp [setStage, h, lookup_erase_ne]
    | some stage => simp [setStage, h, lookup_insert_ne]

theorem mem_inHand :
    x ∈ s.inHand ↔ ∃ call stage events, s.calls.lookup call = some stage ∧ stage.batch = some events ∧ x ∈ events := by
  simp only [State.inHand, mem_flatMap]
  constructor
  · rintro ⟨⟨call, stage⟩, hm, hx⟩
    cases hb : stage.batch with
    | none => simp [hb] at hx
    | some events => exact ⟨call, stage, events, mem_lookup_iff.mpr hm, hb, by simpa [hb] using hx⟩
  · rintro ⟨call, stage, events, hl, hb, hx⟩
    exact ⟨⟨call, stage⟩, mem_lookup_iff.mp hl, by simpa [hb] using hx⟩

/-- Every call knows what the log holds. -/
def State.Tied (codec : Codec P) (acknowledged : List UsageEvent) (s : State P) : Prop :=
  ∀ call, ∀ stage ∈ s.calls.lookup call, stage.Tied codec acknowledged s.wal

theorem tied_step (ht : s.Tied codec (Events.acknowledged h)) (hst : (producer codec).step s i = some (s', os)) :
    s'.Tied codec (Events.acknowledged (h ++ [⟨s, i, os, s'⟩])) := by
  rw [Events.acknowledged_snoc]
  have hsb := subset_append_left (Events.acknowledged h) (acknowledgedOf (os.filterMap sign?))
  intro call stage hs
  cases i with
  | count app metric n =>
    cases hst
    exact (ht call stage hs).later (.refl _) hsb
  | drain ids eventTime =>
    obtain ⟨_, rfl, rfl⟩ := drain_ok hst
    exact (ht call stage hs).later (.refl _) hsb
  | enqueue events fate =>
    cases hst
    exact (ht call stage hs).later (UsageWal.precedes_append codec s.wal events fate) hsb
  | publish new maxRetained events =>
    obtain ⟨_, rfl, rfl⟩ := publish_ok hst
    by_cases hc : call = new
    · subst hc
      rw [lookup_insert] at hs
      cases hs
      trivial
    · rw [lookup_insert_ne hc] at hs
      exact (ht call stage hs).later (.refl _) hsb
  | turn moving turn =>
    obtain ⟨before, e, hl, he, rfl, rfl⟩ := turn_ok hst
    have hstp := Stage.step_stepped (ht moving before hl) he
    simp only [State.after, lookup_setStage] at hs
    split_ifs at hs with hc
    · rw [show (map (Output.call moving) e.signs).filterMap Output.sign? = e.signs from sign?_calls moving e.signs]
      exact hstp.tied stage hs
    · exact (ht call stage hs).later hstp.precedes hsb
  | restart source =>
    cases hst
    cases hs

theorem inHand_setStage {next : Option Stage} (hc : s'.calls = setStage s.calls call next) (hne : other ≠ call)
    (hl : s.calls.lookup other = some stage) (hb : stage.batch = some events) (hx : x ∈ events) : x ∈ s'.inHand := by
  refine mem_inHand.mpr ⟨other, stage, events, ?_, hb, hx⟩
  rw [hc, lookup_setStage, if_neg hne, hl]

/-- What a step of a call does to an event. -/
theorem holds_turn (hl : s.calls.lookup call = some stage)
    (hs : Stepped codec acknowledged s.wal s.retained stage e) (hx : s.Holds codec x) :
    (s.after call e).Holds codec x ∨ x ∈ acknowledged ∨ x ∈ droppedOf e.signs := by
  obtain hx | hx | hx := hx
  · obtain hx | hx := hs.keeps hx
    · exact .inl (.inl hx)
    · exact .inr (.inl hx)
  · cases hs.moved with
    | stays same | stored _ _ _ same =>
      rw [← same] at hx
      exact .inl (.inr (.inl hx))
    | kept _ events _ _ _ buffer _ =>
      have hb := mem_append_left events hx
      rw [buffer] at hb
      obtain hx | hx := mem_append.mp hb
      · exact .inr (.inr hx)
      · exact .inl (.inr (.inl hx))
  · obtain ⟨other, held, events, hh, hbt, hx⟩ := mem_inHand.mp hx
    by_cases hne : other = call
    · subst hne
      obtain rfl : held = stage := Option.mem_unique hh hl
      cases hs.moved with
      | stays _ batch _ =>
        obtain ⟨next, hn, hsm⟩ := Option.bind_eq_some_iff.mp (batch.trans hbt)
        refine .inl (.inr (.inr (mem_inHand.mpr ⟨other, next, events, ?_, hsm, hx⟩)))
        rw [State.after, lookup_setStage, if_pos rfl, hn]
      | stored _ taken _ _ _ all =>
        cases hbt.symm.trans taken
        exact .inl (.inl (all x hx))
      | kept _ _ _ refused _ buffer _ =>
        subst refused
        cases hbt
        have hb := mem_append_right s.retained hx
        rw [buffer] at hb
        obtain hx | hx := mem_append.mp hb
        · exact .inr (.inr hx)
        · exact .inl (.inr (.inl hx))
    · exact .inl (.inr (.inr (inHand_setStage rfl hne hh hbt hx)))

/-- An event is given up only when it is acknowledged, dropped, or lost with the process. -/
theorem holds_step
    (ht : s.Tied codec acknowledged) (hs : (producer codec).step s i = some (s', os)) (hx : s.Holds codec x) :
    s'.Holds codec x ∨ x ∈ acknowledged ∨ x ∈ droppedOf (os.filterMap sign?) ∨
      (∃ source, i = .restart source) ∧ (x ∈ s.retained ∨ x ∈ s.inHand) := by
  cases i with
  | count app metric n =>
    cases hs
    exact .inl hx
  | drain ids eventTime =>
    obtain ⟨_, rfl, _⟩ := drain_ok hs
    exact .inl hx
  | enqueue events fate =>
    cases hs
    obtain hx | hx := hx
    · exact .inl (.inl (hx.append events fate))
    · exact .inl (.inr hx)
  | publish call maxRetained events =>
    obtain ⟨hcl, rfl, _⟩ := publish_ok hs
    obtain hx | hx | hx := hx
    · exact .inl (.inl hx)
    · have hb : x ∈ s.retained ++ events := mem_append_left _ hx
      exact .inl (.inr (.inr (mem_inHand.mpr ⟨call, _, _, lookup_insert _, rfl, hb⟩)))
    · obtain ⟨other, held, events', hh, hb, hx⟩ := mem_inHand.mp hx
      have hne : other ≠ call := by
        rintro rfl
        rw [lookup_eq_none.mpr hcl] at hh
        cases hh
      have hc : s.calls.insert call (.taken maxRetained (s.retained ++ events)) = setStage s.calls call (some _) := rfl
      exact .inl (.inr (.inr (inHand_setStage hc hne hh hb hx)))
  | turn call turn =>
    obtain ⟨stage, e, hl, he, rfl, rfl⟩ := turn_ok hs
    rw [sign?_calls]
    obtain hx | hx | hx := holds_turn hl (Stage.step_stepped (ht call stage hl) he) hx
    · exact .inl hx
    · exact .inr (.inl hx)
    · exact .inr (.inr (.inl hx))
  | restart source =>
    cases hs
    obtain hx | hx := hx
    · exact .inl (.inl hx)
    · exact .inr (.inr (.inr ⟨⟨source, rfl⟩, hx⟩))

theorem placed_step (htd : s.Tied codec (Events.acknowledged h)) (hs : (producer codec).step s i = some (s', os))
    (hx : Placed codec h s x) : Placed codec (h ++ [⟨s, i, os, s'⟩]) s' x := by
  unfold Placed
  rw [Events.acknowledged_snoc, Events.dropped_snoc, mem_append, mem_append]
  obtain hx | hx | hx | ⟨t, ht, hl⟩ := hx
  · exact .inl (.inl hx)
  · obtain hx | hx | hx | hl := holds_step htd hs hx
    · exact .inr (.inl hx)
    · exact .inl (.inl hx)
    · exact .inr (.inr (.inl (.inr hx)))
    · exact .inr (.inr (.inr ⟨_, mem_append_right _ mem_cons_self, hl⟩))
  · exact .inr (.inr (.inl (.inl hx)))
  · exact .inr (.inr (.inr ⟨t, mem_append_left _ ht, hl⟩))

/-- Every event that was handed over has a place, and the calls on their way know theirs. -/
theorem held_of_run (run : (producer codec).Run env (.start source w) h s) :
    s.Tied codec (Events.acknowledged h) ∧ ∀ x ∈ Events.handed h, Placed codec h s x := by
  refine run.invariant (fun h s => s.Tied codec (Events.acknowledged h) ∧
    ∀ x ∈ Events.handed h, Placed codec h s x) ⟨?_, by simp [Events.handed]⟩ ?_
  · rintro call stage ⟨⟩
  rintro h s s' i os _ ⟨ht, hp⟩ _ hs
  refine ⟨tied_step ht hs, fun x hx => ?_⟩
  rw [Events.handed_snoc] at hx
  obtain hx | hx := mem_append.mp hx
  · exact placed_step ht hs (hp x hx)
  cases i with
  | publish call maxRetained events =>
    obtain ⟨_, rfl, _⟩ := publish_ok hs
    have hb : x ∈ s.retained ++ events := mem_append_right _ hx
    exact .inr (.inl (.inr (.inr (mem_inHand.mpr ⟨call, _, _, lookup_insert _, rfl, hb⟩))))
  | count | drain | enqueue | turn | restart => cases hx

/-! ### What is dropped -/

theorem dropsFront_step (ht : s.Tied codec acknowledged) (hs : (producer codec).step s i = some (s', os)) :
    DropsFront ⟨s, i, os, s'⟩ := by
  have hd : Events.dropped [⟨s, i, os, s'⟩] = droppedOf (os.filterMap sign?) :=
    Events.dropped_snoc [] ⟨s, i, os, s'⟩
  unfold DropsFront
  rw [hd]
  cases i with
  | count | enqueue | restart =>
    cases hs
    exact .inl rfl
  | drain ids eventTime =>
    obtain ⟨_, _, rfl⟩ := drain_ok hs
    rw [sign?_drained]
    exact .inl rfl
  | publish call maxRetained events =>
    obtain ⟨_, _, rfl⟩ := publish_ok hs
    exact .inl rfl
  | turn call turn =>
    obtain ⟨stage, e, hl, he, rfl, rfl⟩ := turn_ok hs
    rw [sign?_calls]
    cases (Stage.step_stepped (ht call stage hl) he).moved with
    | stays _ _ dropped | stored _ _ _ _ dropped => exact .inl dropped
    | kept maxRetained events error refused _ buffer full =>
      subst refused
      exact full.imp_right fun hf => ⟨call, maxRetained, events, error, hl, buffer, hf⟩

theorem dropsFront_of_run (run : (producer codec).Run env (.start source w) h s) : ∀ t ∈ h, DropsFront t := by
  intro t ht
  obtain ⟨h₁, h₂, hs⟩ := append_of_mem ht
  obtain ⟨hb, _, htk⟩ := run.at_step hs
  exact dropsFront_step (held_of_run hb).1 htk

/-- Everything outside the log is in the order in which it was handed over, behind what was dropped. One
call at most has a batch, and nothing is retained while it has. -/
structure InOrder (h : Events P) (s : State P) : Prop where
  retained : (Events.dropped h ++ s.retained).Sublist (Events.handed h)
  batch : ∀ {call stage events}, s.calls.lookup call = some stage → stage.batch = some events →
    s.retained = [] ∧ (Events.dropped h ++ events).Sublist (Events.handed h)
  single : ∀ {call other stage stage'}, s.calls.lookup call = some stage → s.calls.lookup other = some stage' →
    stage.batch ≠ none → stage'.batch ≠ none → call = other

theorem InOrder.idle (ho : InOrder h s) (hh : t.input.handed = []) (hd : droppedOf (t.outputs.filterMap sign?) = [])
    (hr : s'.retained = s.retained) (hc : s'.calls = s.calls) : InOrder (h ++ [t]) s' where
  retained := by
    rw [Events.handed_snoc, Events.dropped_snoc, hh, hd, hr, append_nil, append_nil]
    exact ho.retained
  batch := by
    rw [Events.handed_snoc, Events.dropped_snoc, hh, hd, hr, hc, append_nil, append_nil]
    exact ho.batch
  single := by
    rw [hc]
    exact ho.single

theorem batch_after {next : Stage} (hl : s.calls.lookup call = some stage) (hm : Moved codec s.retained stage e)
    (hn : (s.after call e).calls.lookup other = some next) (hb : next.batch = some events) :
    ∃ before, s.calls.lookup other = some before ∧ before.batch = some events := by
  simp only [State.after, lookup_setStage] at hn
  split_ifs at hn with hc
  · subst hc
    have he : e.batch = some events := by
      rw [Effect.batch, hn]
      exact hb
    cases hm with
    | stays _ batch _ => exact ⟨stage, hl, batch.symm.trans he⟩
    | stored _ _ batch | kept _ _ _ _ batch => cases batch.symm.trans he
  · exact ⟨next, hn, hb⟩

theorem inOrder_turn (ho : InOrder h s) (hl : s.calls.lookup call = some stage) (hh : t.input.handed = [])
    (hs : t.outputs.filterMap sign? = e.signs) (hm : Moved codec s.retained stage e) :
    InOrder (h ++ [t]) (s.after call e) where
  retained := by
    show (_ ++ e.retained).Sublist _
    rw [Events.handed_snoc, Events.dropped_snoc, hh, hs, append_nil]
    cases hm with
    | stays same _ dropped | stored _ _ _ same dropped =>
      rw [same, dropped, append_nil]
      exact ho.retained
    | kept _ events _ refused _ buffer _ =>
      subst refused
      obtain ⟨hnn, hsb⟩ := ho.batch hl rfl
      rw [hnn, nil_append] at buffer
      rwa [append_assoc, ← buffer]
  batch := by
    intro other next events hn hb
    rw [Events.handed_snoc, Events.dropped_snoc, hh, hs, append_nil]
    obtain ⟨before, hbf, hsm⟩ := batch_after hl hm hn hb
    obtain ⟨hnn, hsb⟩ := ho.batch hbf hsm
    cases hm with
    | stays same _ dropped | stored _ _ _ same dropped =>
      rw [dropped, append_nil]
      exact ⟨same.trans hnn, hsb⟩
    | kept _ _ _ refused batch _ _ =>
      -- The call that gave its batch up was the only one that had any.
      subst refused
      obtain rfl := ho.single hbf hl (by simp [hsm]) (by simp [Stage.batch])
      simp only [State.after, lookup_setStage, if_true] at hn
      rw [Effect.batch, hn, Option.bind_some, hb] at batch
      cases batch
  single := by
    intro one other next next' hon hot hb hb'
    obtain ⟨events, he⟩ := Option.ne_none_iff_exists'.mp hb
    obtain ⟨events', he'⟩ := Option.ne_none_iff_exists'.mp hb'
    obtain ⟨before, hbf, hsm⟩ := batch_after hl hm hon he
    obtain ⟨before', hbf', hs'⟩ := batch_after hl hm hot he'
    exact ho.single hbf hbf' (by simp [hsm]) (by simp [hs'])

theorem inOrder_publish {maxRetained : Nat} (hor : InOrder h s) (hhn : t.input.handed = events)
    (hsg : t.outputs.filterMap sign? = []) (ha : ∀ c ∈ s.calls.entries, c.2.batch = none) : InOrder (h ++ [t])
      { s with retained := [], calls := s.calls.insert call (.taken maxRetained (s.retained ++ events)) } := by
  have hd : Events.dropped (h ++ [t]) = Events.dropped h := by
    rw [Events.dropped_snoc, hsg]
    exact append_nil _
  have hh : Events.handed (h ++ [t]) = Events.handed h ++ events := by rw [Events.handed_snoc, hhn]
  have hn : ∀ {other stage}, (s.calls.insert call (.taken maxRetained (s.retained ++ events))).lookup other = some stage →
      stage.batch ≠ none → other = call ∧ stage.batch = some (s.retained ++ events) := by
    intro other stage hs hb
    by_cases ho : other = call
    · subst ho
      rw [lookup_insert] at hs
      cases hs
      exact ⟨rfl, rfl⟩
    · rw [lookup_insert_ne ho] at hs
      exact absurd (ha ⟨other, stage⟩ (mem_lookup_iff.mp hs)) hb
  refine ⟨?_, ?_, ?_⟩
  · rw [hd, hh, append_nil]
    exact ((sublist_append_left _ _).trans hor.retained).trans (sublist_append_left _ _)
  · intro other stage batch hs hb
    obtain ⟨_, hsm⟩ := hn hs (by simp [hb])
    cases hb.symm.trans hsm
    rw [hd, hh, ← append_assoc]
    exact ⟨rfl, hor.retained.append_right events⟩
  · intro one other stage stage' hon ho hb hb'
    exact (hn hon hb).1.trans (hn ho hb').1.symm

/-- With one publisher at a time, events leave the buffer from the front. -/
theorem inOrder_of_run (run : (producer codec).Run Alone (.start source w) h s) : InOrder h s := by
  refine run.invariant InOrder ⟨by simp [Events.dropped, Events.signs, droppedOf, State.start], ?_, ?_⟩ ?_
  · rintro _ _ _ ⟨⟩
  · rintro _ _ _ _ ⟨⟩
  · intro h s s' i os hr ho ha hs
    cases i with
    | count | enqueue =>
      cases hs
      exact ho.idle rfl rfl rfl rfl
    | drain ids eventTime =>
      obtain ⟨_, rfl, rfl⟩ := drain_ok hs
      exact ho.idle rfl (congrArg droppedOf (sign?_drained _)) rfl rfl
    | publish call maxRetained events =>
      obtain ⟨_, rfl, rfl⟩ := publish_ok hs
      exact inOrder_publish ho rfl rfl ha
    | turn call turn =>
      obtain ⟨stage, e, hl, he, rfl, rfl⟩ := turn_ok hs
      exact inOrder_turn ho hl rfl (sign?_calls call e.signs)
        (Stage.step_stepped ((held_of_run hr).1 call stage hl) he).moved
    | restart source =>
      cases hs
      refine ⟨?_, ?_, ?_⟩
      · rw [Events.handed_snoc, Events.dropped_snoc]
        show (Events.dropped h ++ [] ++ []).Sublist (Events.handed h ++ [])
        rw [append_nil, append_nil, append_nil]
        exact (sublist_append_left _ _).trans ho.retained
      · rintro _ _ _ ⟨⟩
      · rintro _ _ _ _ ⟨⟩

/-- Usage is conserved in every run of the meter and the outbox, whatever fails. -/
theorem usage_conserved {source : String} {w : UsageWal P} {h : Events P} {s : State P}
    (run : (producer codec).Run Assumed (.start source w) h s) : Conserved codec h s where
  distinct := distinct_of_run run
  counted := counted_of_run run
  held := (held_of_run run).2
  front := dropsFront_of_run run
  oldest := fun ha => (inOrder_of_run (run.restrict ha)).retained

/-- Events written as they are. -/
def verbatim : Codec UsageEvent := ⟨.ok, some, fun h => congrArg some (Except.ok.inj h).symm⟩

def reads (id : String) (value : Nat) (eventTime : Int) : UsageEvent :=
  ⟨id, "worker", some "app", none, "db_reads", value, eventTime, []⟩

/-- Two appends fail, and the buffer has room for one event; the third call publishes what is left. -/
def fullBuffer : List Input :=
  [.count "app" "db_reads" 5, .drain ["a"] 10, .publish 0 1 [reads "a" 5 10],
    .turn 0 (.append (.failed "disk full" false)), .turn 0 .retain,
    .count "app" "db_reads" 7, .drain ["b"] 20, .publish 1 1 [reads "b" 7 20],
    .turn 1 (.append (.failed "disk full" false)), .turn 1 .retain, .count "app" "db_reads" 2,
    .publish 2 1 [], .turn 2 (.append .committed), .turn 2 (.load none), .turn 2 (.next .stalled),
    .turn 2 (.next (.tried (.ok ()))), .turn 2 (.trim .committed), .turn 2 (.next .stalled)]

theorem fullBuffer_conserved :
    let h := (producer verbatim).trace (.start "worker" .empty) fullBuffer
    let s := (producer verbatim).reach (.start "worker" .empty) fullBuffer
    Events.dropped h = [reads "a" 5 10] ∧ Events.acknowledged h = [reads "b" 7 20] ∧
      s.meter.value "app" "db_reads" = 2 ∧ Conserved verbatim h s := by
  refine ⟨by decide +kernel, by decide +kernel, by decide +kernel, usage_conserved (.of_trace ?_)⟩
  decide +kernel

/-- A call has taken the event and not appended it. -/
def beforeAppend : List Input := [.count "app" "db_reads" 5, .drain ["a"] 10, .publish 0 1 [reads "a" 5 10]]

/-- Then the event is in none of the other places, and a process that ends there loses it. -/
theorem beforeAppend_unplaced :
    let h := (producer verbatim).trace (.start "worker" .empty) beforeAppend
    let s := (producer verbatim).reach (.start "worker" .empty) beforeAppend
    let x := reads "a" 5 10
    (producer verbatim).Run Assumed (.start "worker" .empty) h s ∧
      x ∈ Events.drained h ∧ x ∈ Events.handed h ∧
      ¬ (x ∈ Events.acknowledged h ∨ s.wal.Stores verbatim x ∨ x ∈ s.retained ∨
        x ∈ Events.dropped h) ∧
      s.meter.value "app" "db_reads" = 0 ∧
      (producer verbatim).step s (.restart "worker") = some (.start "worker" .empty, []) := by
  refine ⟨.of_trace (by decide +kernel), by decide +kernel, by decide +kernel, by decide +kernel, by decide +kernel, rfl⟩

end Zeroship.Metering
