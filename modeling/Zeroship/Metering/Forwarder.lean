import Zeroship.Metering.Outbox
import Zeroship.Metering.Transport

/-! The event forwarder: from the stream to the billing provider.

A cycle polls a batch, quarantines what it cannot decode or attribute, has the meter ingest
the rest, and commits the offsets of the whole batch. When a call fails the cycle ends where it
is: nothing is committed, and nothing is read again either, since the consumer has moved past
the batch. A later commit covers what was left behind. No record is lost when every cycle begins
with all that was handed out accounted for, as it is after a restart. -/
namespace Zeroship.Metering
open Base List Subset

inductive ProviderError where
  | stripe (text : String)
  | registry (text : String)
  | transport (text : String)
  | store (text : String)
  | config (text : String)
  | permanentReject (status : Nat) (message : String)

namespace ProviderError

def isPermanentReject : ProviderError → Bool
  | permanentReject status _ => 400 ≤ status && status ≤ 499
  | _ => false

def text : ProviderError → String
  | stripe e => "stripe: " ++ e
  | registry e => e
  | transport m => "transport: " ++ m
  | store m => "store: " ++ m
  | config m => "config: " ++ m
  | permanentReject status message => "provider permanent reject " ++ toString status ++ ": " ++ message

/-- The same words as the error's own. -/
def rejectReason (e : ProviderError) : String := e.text

end ProviderError

structure ProviderDeadLetter where
  providerId : String
  event : UsageEvent
  reason : String
  (partition offset : Int)

structure DecodeDeadLetter (P : Type) where
  providerId : String
  (partition offset : Int)
  (key payload : P)
  error : String

inductive DeadLetter (P : Type) where
  | reject (entry : ProviderDeadLetter)
  | decode (entry : DecodeDeadLetter P)

/-- The record a dead letter is about. -/
def DeadLetter.place {P : Type} : DeadLetter P → StreamOffset
  | reject entry => ⟨entry.partition, entry.offset⟩
  | decode entry => ⟨entry.partition, entry.offset⟩

inductive EventForwarderError where
  | stream (e : StreamError)
  | noMeterProvider
  | provider (id : String) (e : ProviderError)
  | deadLetter (text : String)

structure IngestAck where
  accepted : Nat
  deduped : Option Nat

structure EventForwarderCycle where
  (polled ingested : Nat)
  deduped : Option Nat
  (deadLettered committed : Nat)

/-- The provider that bills, and how payloads are read. -/
structure BillingStack (P : Type) where
  meterId : String
  /-- `as_meter` yields a meter. -/
  isMeter : Bool
  decode : P → Except String UsageEvent

/-- What the calls of one cycle are answered, each sort in the order of its calls. -/
structure Answers where
  yields : List Yield
  resolve : Nat → AppId → Except String (Option String)
  sink : Nat → Fate
  ingest : List UsageEvent → Except ProviderError IngestAck
  commit : CommitEnding

section
variable {P : Type} (stack : BillingStack P) (answers : Answers)

/-- How far a cycle is with its batch. -/
structure Progress (P : Type) where
  events : List (StreamRecord P × UsageEvent)
  organizationCache : List (AppId × Option String)
  letters : List (DeadLetter P)
  (sinkCalls deadLettered : Nat)

def Progress.start : Progress P := ⟨[], [], [], 0, 0⟩

variable (q : Progress P)

/-- A dead letter is recorded. The sink may have it and still report a failure. -/
def quarantine (entry : DeadLetter P) : Progress P × Option EventForwarderError :=
  match answers.sink q.sinkCalls with
  | .committed =>
    ({q with letters := q.letters ++ [entry], sinkCalls := q.sinkCalls + 1, deadLettered := q.deadLettered + 1}, none)
  | .failed error stored =>
    ({q with letters := if stored then q.letters ++ [entry] else q.letters, sinkCalls := q.sinkCalls + 1},
      some (.deadLetter error))

/-- The owner of an app, asked for once in a batch. -/
def organizationFor (cache : List (AppId × Option String)) :
    Option AppId → Except EventForwarderError (Option String × List (AppId × Option String))
  | none => .ok (none, cache)
  | some app => match cache.lookup app with
    | some cached => .ok (cached, cache)
    | none => match answers.resolve cache.length app with
      | .error e => .error (.deadLetter ("organization resolve: " ++ e))
      | .ok resolved => .ok (resolved, (app, resolved) :: cache)

def unattributed : String := "no owning organization for app; cannot attribute usage"

/-- One record of the batch. -/
def takeRecord (record : StreamRecord P) : Progress P × Option EventForwarderError :=
  match stack.decode record.payload with
  | .error error =>
    quarantine answers q (.decode ⟨stack.meterId, record.partition, record.offset, record.key, record.payload, error⟩)
  | .ok event => match event.organization with
    | some _ => ({q with events := q.events ++ [(record, event)]}, none)
    | none => match organizationFor answers q.organizationCache event.app with
      | .error e => (q, some e)
      | .ok (some organization, cache) =>
        ({q with
          organizationCache := cache
          events := q.events ++ [(record, {event with organization := some organization})]}, none)
      | .ok (none, cache) =>
        quarantine answers {q with organizationCache := cache}
          (.reject ⟨stack.meterId, event, unattributed, record.partition, record.offset⟩)

/-- The whole batch was refused for good. -/
def rejectEvent (reason : String) (q : Progress P) (event : StreamRecord P × UsageEvent) :
    Progress P × Option EventForwarderError :=
  quarantine answers q (.reject ⟨stack.meterId, event.2, reason, event.1.partition, event.1.offset⟩)

/-- What a cycle did with its batch before the commit. -/
structure Processed (P : Type) where
  accepted : List (StreamRecord P × UsageEvent)
  progress : Progress P
  ack : Except EventForwarderError IngestAck

/-- The events go to the meter in one call. -/
def forward : Processed P :=
  if !stack.isMeter then ⟨[], q, .error .noMeterProvider⟩
  else if q.events.isEmpty then ⟨[], q, .ok ⟨0, none⟩⟩
  else match answers.ingest (q.events.map (·.2)) with
    | .ok ack => ⟨q.events, q, .ok ack⟩
    | .error e =>
      if e.isPermanentReject then
        match untilError (rejectEvent stack answers e.rejectReason) q q.events with
        | (q', none) => ⟨[], q', .ok ⟨0, none⟩⟩
        | (q', some e) => ⟨[], q', .error e⟩
      else ⟨[], q, .error (.provider stack.meterId e)⟩

def process (records : List (StreamRecord P)) : Processed P :=
  match untilError (takeRecord stack answers) .start records with
  | (q, some e) => ⟨[], q, .error e⟩
  | (q, none) => forward stack answers q

variable (T : Transport P)

/-- The stream, what the meter has accepted and what the sink has. -/
structure World where
  stream : T.State
  accepted : List (StreamRecord P × UsageEvent)
  quarantined : List (DeadLetter P)

variable {T}

def World.after (w : World T) (stream : T.State) (done : Processed P) : World T :=
  ⟨stream, w.accepted ++ done.accepted, w.quarantined ++ done.progress.letters⟩

def runCycle (batchMax : Nat) (w : World T) : World T × Except EventForwarderError EventForwarderCycle :=
  match T.poll w.stream (max batchMax 1) answers.yields with
  | (stream, .error e) => ({w with stream := stream}, .error (.stream e))
  | (stream, .ok records) =>
    if records.isEmpty then ({w with stream := stream}, .ok ⟨0, 0, none, 0, 0⟩)
    else
      let done := process stack answers records
      match done.ack with
      | .error e => (w.after stream done, .error e)
      | .ok ack => match T.commit stream (records.map .of) answers.commit with
        | (stream', .error e) => (w.after stream' done, .error (.stream e))
        | (stream', .ok ()) =>
          (w.after stream' done,
            .ok ⟨records.length, ack.accepted, ack.deduped, done.progress.deadLettered, records.length⟩)

end

/-! ### What a finished cycle has done -/

section
variable {P : Type} {stack : BillingStack P} {answers : Answers} {r : StreamRecord P} {q q' : Progress P}
  {ack : IngestAck}

/-- An event is the one a record holds, with its owner filled in. -/
def Forwards (stack : BillingStack P) (r : StreamRecord P) (e : UsageEvent) : Prop :=
  ∃ held, stack.decode r.payload = .ok held ∧ ∃ organization, e = {held with organization := some organization}

/-- A record is among these events or the subject of one of these letters. -/
def Covered (stack : BillingStack P) (events : List (StreamRecord P × UsageEvent)) (letters : List (DeadLetter P))
    (r : StreamRecord P) : Prop :=
  (∃ e, (r, e) ∈ events ∧ Forwards stack r e) ∨ ∃ l ∈ letters, l.place = .of r

theorem Covered.mono {events events' : List (StreamRecord P × UsageEvent)} {letters letters' : List (DeadLetter P)}
    (h : Covered stack events letters r) (hev : events ⊆ events') (hlt : letters ⊆ letters') :
    Covered stack events' letters' r := by
  rcases h with ⟨e, he, hf⟩ | ⟨l, hl, hp⟩
  · exact .inl ⟨e, hev he, hf⟩
  · exact .inr ⟨l, hlt hl, hp⟩

theorem quarantine_ok {entry : DeadLetter P} (h : quarantine answers q entry = (q', none)) :
    q'.events = q.events ∧ q'.letters = q.letters ++ [entry] := by
  unfold quarantine at h
  split at h
  · cases h
    exact ⟨rfl, rfl⟩
  · cases h

/-- A record that was taken is to be forwarded or is quarantined, and what was so before still is. -/
theorem takeRecord_ok (h : takeRecord stack answers q r = (q', none)) :
    q.events ⊆ q'.events ∧ q.letters ⊆ q'.letters ∧ Covered stack q'.events q'.letters r := by
  have hl : ∀ {q₁ : Progress P} {entry : DeadLetter P}, quarantine answers q₁ entry = (q', none) →
      q₁.events = q.events → q₁.letters = q.letters → entry.place = .of r →
      q.events ⊆ q'.events ∧ q.letters ⊆ q'.letters ∧ Covered stack q'.events q'.letters r := by
    intro q₁ entry hq he hlt hp
    obtain ⟨he', hl'⟩ := quarantine_ok hq
    rw [he', hl', he, hlt]
    exact ⟨refl _, subset_append_left _ _, .inr ⟨entry, by simp, hp⟩⟩
  unfold takeRecord at h
  split at h
  · exact hl h rfl rfl rfl
  next event hd =>
  split at h
  · next organization ho =>
    cases h
    refine ⟨subset_append_left _ _, refl _, .inl ⟨event, by simp, event, hd, organization, ?_⟩⟩
    rw [← ho]
  · split at h
    · cases h
    · next organization cache _ =>
      cases h
      exact ⟨subset_append_left _ _, refl _,
        .inl ⟨{event with organization := some organization}, by simp, event, hd, organization, rfl⟩⟩
    · exact hl h rfl rfl rfl

theorem forward_ok (h : (forward stack answers q).ack = .ok ack) (hr : Covered stack q.events q.letters r) :
    Covered stack (forward stack answers q).accepted (forward stack answers q).progress.letters r := by
  unfold forward at h ⊢
  by_cases hm : stack.isMeter
  case neg => simp [hm] at h
  by_cases hn : q.events.isEmpty
  · simp only [hm, hn, Bool.not_true, Bool.false_eq_true, if_false, if_true]
    rwa [isEmpty_iff.mp hn] at hr
  simp only [hm, hn, Bool.not_true, Bool.false_eq_true, if_false] at h ⊢
  split at h
  · exact hr
  next e _ =>
  by_cases hpr : e.isPermanentReject
  case neg => simp [hpr] at h
  simp only [hpr, if_true] at h ⊢
  -- Every event of the batch has its letter when none of the calls failed.
  have hlt := untilError_invariant (f := rejectEvent stack answers e.rejectReason) (l := q.events) (s := q)
    (fun before q' => q.letters ⊆ q'.letters ∧ ∀ x ∈ before, ∃ l ∈ q'.letters, l.place = .of x.1)
    (fun _ => True) ⟨refl _, by simp⟩
    (fun {before a _ q₁ q₂} _ ⟨hs, ha⟩ hst => by
      obtain ⟨-, heq⟩ := quarantine_ok hst
      rw [heq]
      refine ⟨subset_append_of_subset_left _ hs, fun x hx => ?_⟩
      rcases mem_append.mp hx with hx | hx
      · obtain ⟨l, hl, hp⟩ := ha x hx
        exact ⟨l, mem_append_left _ hl, hp⟩
      · rw [mem_singleton.mp hx]
        exact ⟨_, mem_append_right _ (mem_singleton_self _), rfl⟩)
    (fun _ _ _ => trivial) rfl
  generalize untilError (rejectEvent stack answers e.rejectReason) q q.events = out at h hlt ⊢
  obtain ⟨q', failed⟩ := out
  cases failed with
  | some e => cases h
  | none =>
    obtain ⟨_, hs, ha⟩ | ⟨hsm, _⟩ := hlt
    · rcases hr with ⟨event, he, _⟩ | ⟨l, hl, hp⟩
      · exact .inr (ha _ he)
      · exact .inr ⟨l, hs hl, hp⟩
    · cases hsm

/-- A cycle that gets to its commit has every record of the batch accepted or quarantined. -/
theorem process_ok {records : List (StreamRecord P)}
    (h : (process stack answers records).ack = .ok ack) (hr : r ∈ records) :
    Covered stack (process stack answers records).accepted (process stack answers records).progress.letters r := by
  have ht := untilError_invariant (f := takeRecord stack answers) (l := records) (s := Progress.start)
    (fun before q => ∀ r ∈ before, Covered stack q.events q.letters r) (fun _ => True) (by simp)
    (fun {before a _ q₁ q₂} _ ha hst => by
      obtain ⟨he, hl, hc⟩ := takeRecord_ok hst
      intro x hx
      rcases mem_append.mp hx with hx | hx
      · exact (ha x hx).mono he hl
      · rw [mem_singleton.mp hx]
        exact hc)
    (fun _ _ _ => trivial) rfl
  unfold process at h ⊢
  generalize untilError (takeRecord stack answers) .start records = out at h ht ⊢
  obtain ⟨q, failed⟩ := out
  cases failed with
  | some e => cases h
  | none =>
    obtain ⟨_, ha⟩ | ⟨hs, _⟩ := ht
    · exact forward_ok h (ha r hr)
    · cases hs

end

/-! ### The loop -/

section
variable {P : Type} {T : Transport P}

inductive ForwarderInput (P : Type) where
  | publish (r : StreamRecord P)
  | cycle (batchMax : Nat) (answers : Answers)
  | restart

/-- The process over the stream: cycle after cycle, with restarts, while records arrive. -/
def forwarder (stack : BillingStack P) (T : Transport P) :
    Machine (World T) (ForwarderInput P) (Except EventForwarderError EventForwarderCycle) where
  step w
    | .publish r => (T.publish w.stream r).map fun stream => ({w with stream := stream}, [])
    | .cycle batchMax answers =>
      let (w', result) := runCycle stack answers batchMax w
      some (w', [result])
    | .restart => some ({w with stream := T.restart w.stream}, [])

/-- The meter has accepted the record or the sink has it. -/
def Accounted (stack : BillingStack P) (w : World T) (r : StreamRecord P) : Prop :=
  Covered stack w.accepted w.quarantined r

/-- Below the committed positions nothing is missing. -/
def NoGap (stack : BillingStack P) (w : World T) : Prop :=
  ∀ p, ∀ r ∈ T.log w.stream p, r.offset < T.committed w.stream p → Accounted stack w r

/-- Everything the consumer was handed and has moved past is accounted for. -/
def CaughtUp (stack : BillingStack P) (w : World T) : Prop :=
  ∀ p, ∀ r ∈ T.log w.stream p, r.offset < T.position w.stream p → Accounted stack w r

/-- The end of a cycle that leaves a batch behind: it was handed out, and then a call failed. -/
def leavesBatch : Except EventForwarderError EventForwarderCycle → Bool
  | .ok _ | .error (.stream _) => false
  | .error _ => true

/-- A cycle since the last restart has left a batch behind. -/
def leftBehind (h : History (World T) (ForwarderInput P) (Except EventForwarderError EventForwarderCycle)) : Bool :=
  h.foldl (fun left t => match t.input with
    | .restart => false
    | _ => left || t.outputs.any leavesBatch) false

/-- After a cycle that has left its batch behind there is no other before a restart. -/
def RestartsAfterFailure (T : Transport P) :
    Environment (World T) (ForwarderInput P) (Except EventForwarderError EventForwarderCycle)
  | h, _, .cycle _ _ => leftBehind h = false
  | _, _, _ => True

instance (h : History (World T) (ForwarderInput P) (Except EventForwarderError EventForwarderCycle)) (w : World T) :
    ∀ input, Decidable (RestartsAfterFailure T h w input)
  | .cycle _ _ => inferInstanceAs (Decidable (leftBehind h = false))
  | .publish _ | .restart => .isTrue trivial

variable (w : World T)

/-- A group that has not read anything. -/
def World.fresh : Prop := ∀ p, T.committed w.stream p ≤ 0 ∧ T.position w.stream p ≤ 0

/-- No position is beyond the end of its partition. -/
def InLog (log : Int → List (StreamRecord P)) (next : Int → Int) : Prop :=
  ∀ p, next p ≤ 0 ∨ ∃ r ∈ log p, next p ≤ r.offset + 1

def Within : Prop := InLog (T.log w.stream) (T.committed w.stream) ∧ InLog (T.log w.stream) (T.position w.stream)

variable {stack : BillingStack P} {w w' : World T} {r : StreamRecord P} {answers : Answers} {batchMax : Nat}
  {result : Except EventForwarderError EventForwarderCycle}

theorem Accounted.mono (h : Accounted stack w r) (ha : w.accepted ⊆ w'.accepted)
    (hq : w.quarantined ⊆ w'.quarantined) : Accounted stack w' r :=
  Covered.mono h ha hq

/-- What a cycle does to the stream: nothing, when the poll fails; it moves past a batch it then
fails with; or it commits a batch of which every record is accounted for, and whether the
broker reports that or not, some of it may have been stored. -/
inductive Cycled (stack : BillingStack P) (w w' : World T) (failed : Bool) : Prop
  | unread (hsame : w' = w)
  | passed (batch : List (StreamRecord P))
      (hhanded : Handed (T.log w.stream) (T.position w.stream) (T.position w'.stream) batch)
      (hcommitted : T.committed w'.stream = T.committed w.stream) (hfailed : failed ∨ batch = [])
  | committed (batch : List (StreamRecord P)) (position : Int → Int)
      (hhanded : Handed (T.log w.stream) (T.position w.stream) position batch)
      (hposition : ∀ p, T.position w'.stream p ≤ position p)
      (hcommits : Commits (T.committed w.stream) (T.committed w'.stream) (batch.map .of))
      (hbatch : ∀ r ∈ batch, Accounted stack w' r)

section
variable {q q' : Progress P} {e : EventForwarderError}

theorem quarantine_error {entry : DeadLetter P} (h : quarantine answers q entry = (q', some e)) :
    leavesBatch (.error e) := by
  unfold quarantine at h
  split at h <;> cases h
  rfl

theorem takeRecord_error {r : StreamRecord P} (h : takeRecord stack answers q r = (q', some e)) :
    leavesBatch (.error e) := by
  unfold takeRecord at h
  split at h
  · exact quarantine_error h
  split at h
  · cases h
  split at h
  · next ho =>
    cases h
    unfold organizationFor at ho
    split at ho
    · cases ho
    split at ho
    · cases ho
    split at ho <;> cases ho
    rfl
  · cases h
  · exact quarantine_error h

/-- A batch that fails between the poll and the commit is left behind. -/
theorem process_error {records : List (StreamRecord P)} (h : (process stack answers records).ack = .error e) :
    leavesBatch (.error e) := by
  unfold process at h
  split at h
  · next hu =>
    cases h
    exact untilError_error (fun e => leavesBatch (.error e)) takeRecord_error hu
  unfold forward at h
  split at h
  · cases h
    rfl
  split at h
  · cases h
  split at h
  · cases h
  split at h
  · split at h
    · cases h
    · next hu =>
      cases h
      exact untilError_error (fun e => leavesBatch (.error e)) quarantine_error hu
  · cases h
    rfl

end

/-- A cycle leaves the records alone and forgets nothing. -/
theorem runCycle_cycled (h : runCycle stack answers batchMax w = (w', result)) :
    (T.log w'.stream = T.log w.stream ∧ w.accepted ⊆ w'.accepted ∧ w.quarantined ⊆ w'.quarantined) ∧
      Cycled stack w w' (leavesBatch result) := by
  unfold runCycle at h
  rcases hp : T.poll w.stream (max batchMax 1) answers.yields with ⟨stream, polled⟩
  rw [hp] at h
  cases polled with
  | error e =>
    cases h
    obtain rfl := T.poll_error hp
    exact ⟨⟨rfl, refl _, refl _⟩, .unread rfl⟩
  | ok records =>
    obtain ⟨hl, hcmm, hh⟩ := T.poll_ok hp
    dsimp only at h
    split at h
    · next hn =>
      cases h
      exact ⟨⟨hl, refl _, refl _⟩,
        .passed records hh hcmm (.inr (isEmpty_iff.mp hn))⟩
    split at h
    · next e he =>
      cases h
      exact ⟨⟨hl, subset_append_left _ _, subset_append_left _ _⟩,
        .passed records hh hcmm (.inl (process_error he))⟩
    next ack ha =>
    have hb : ∀ o ∈ records.map StreamOffset.of, o.offset < T.position stream o.partition := by
      intro o ho
      obtain ⟨r, hr, rfl⟩ := mem_map.mp ho
      exact hh.behind hr
    have he : ∀ {stream' result' failed}, T.commit stream (records.map .of) answers.commit = (stream', result') →
        (T.log stream' = T.log w.stream ∧ w.accepted ⊆ (w.after stream' (process stack answers records)).accepted ∧
          w.quarantined ⊆ (w.after stream' (process stack answers records)).quarantined) ∧
        Cycled stack w (w.after stream' (process stack answers records)) failed := by
      intro stream' result' failed hc
      obtain ⟨hl', hcm⟩ := T.committed_commit hc
      rw [hcmm] at hcm
      refine ⟨⟨hl'.trans hl, subset_append_left _ _, subset_append_left _ _⟩,
        .committed records _ hh (T.position_commit hc hb) hcm fun r hr => ?_⟩
      exact (process_ok ha hr).mono (subset_append_right _ _) (subset_append_right _ _)
    split at h
    · next hc =>
      cases h
      exact he hc
    · next hc =>
      cases h
      exact he hc

/-- What lies below the new position was there before or is in the batch. -/
theorem accounted_of_handed {position : Int → Int} {batch : List (StreamRecord P)}
    (hh : Handed (T.log w.stream) (T.position w.stream) position batch) (hc : CaughtUp stack w)
    (ha : w.accepted ⊆ w'.accepted) (hq : w.quarantined ⊆ w'.quarantined)
    (hb : ∀ r ∈ batch, Accounted stack w' r) {p : Int} (hr : r ∈ T.log w.stream p)
    (hlt : r.offset < position p) : Accounted stack w' r := by
  rcases lt_or_ge r.offset (T.position w.stream p) with ho | hn
  · exact (hc p r hr ho).mono ha hq
  · exact hb r (hh.whole hr hn hlt)

theorem runCycle_noGap
    (h : runCycle stack answers batchMax w = (w', result)) (hg : NoGap stack w) (hc : CaughtUp stack w) :
    NoGap stack w' := by
  obtain ⟨⟨hl, ha, hq⟩, hcy⟩ := runCycle_cycled h
  intro p r hr hlt
  rw [hl] at hr
  have hk : T.committed w'.stream p = T.committed w.stream p → Accounted stack w' r := by
    intro hs
    rw [hs] at hlt
    exact (hg p r hr hlt).mono ha hq
  cases hcy with
  | unread hs => exact hk (by rw [hs])
  | passed _ _ hcm _ => exact hk (congrFun hcm p)
  | committed batch position hh _ hco hb =>
    rcases hco p with hs | ⟨o, ho, hop, hm⟩
    · exact hk hs
    -- The commit reaches at most to the new position, and so does the batch.
    obtain ⟨last, hls, rfl⟩ := mem_map.mp ho
    have hbh : last.offset < position p := hop ▸ hh.behind hls
    have hn : T.committed w'.stream p = last.offset + 1 := hm
    exact accounted_of_handed hh hc ha hq hb hr (by omega)

/-- A cycle that leaves no batch behind stays caught up, also when its commit fails. -/
theorem runCycle_caughtUp (h : runCycle stack answers batchMax w = (w', result)) (hleft : leavesBatch result = false)
    (hc : CaughtUp stack w) : CaughtUp stack w' := by
  obtain ⟨⟨hl, ha, hq⟩, hcy⟩ := runCycle_cycled h
  intro p r hr hlt
  rw [hl] at hr
  cases hcy with
  | unread hs =>
    subst hs
    exact hc p r hr hlt
  | passed batch hh _ hf =>
    obtain rfl := hf.resolve_left (by simp [hleft])
    exact accounted_of_handed hh hc ha hq (by simp) hr hlt
  | committed batch position hh hp _ hb =>
    exact accounted_of_handed hh hc ha hq hb hr (lt_of_lt_of_le hlt (hp p))

theorem restart_caughtUp (hg : NoGap stack w) : CaughtUp stack {w with stream := T.restart w.stream} := by
  obtain ⟨hl, _, hp⟩ := T.restarted w.stream
  intro p r hr hlt
  rw [hl] at hr
  rw [hp] at hlt
  exact hg p r hr hlt

theorem Handed.inLog {log : Int → List (StreamRecord P)} {before after : Int → Int} {batch : List (StreamRecord P)}
    (h : Handed log before after batch) (hb : InLog log before) : InLog log after := by
  intro p
  rcases h.reached p with hs | ⟨r, hr, rfl, hm⟩
  · exact hs ▸ hb p
  · exact .inr ⟨r, h.logged hr, hm.le⟩

theorem runCycle_within (h : runCycle stack answers batchMax w = (w', result)) (hw : Within w) : Within w' := by
  obtain ⟨⟨hl, _, _⟩, hcy⟩ := runCycle_cycled h
  unfold Within
  rw [hl]
  cases hcy with
  | unread hs => exact hs ▸ hw
  | passed _ hh hs _ => exact ⟨hs ▸ hw.1, hh.inLog hw.2⟩
  | committed batch position hh hp hcm _ =>
    refine ⟨fun p => ?_, fun p => ?_⟩
    · rcases hcm p with hs | ⟨o, ho, hop, hm⟩
      · exact hs ▸ hw.1 p
      · obtain ⟨last, hls, rfl⟩ := mem_map.mp ho
        exact .inr ⟨last, hop ▸ hh.logged hls, hm.le⟩
    · exact (hh.inLog hw.2 p).imp (hp p).trans fun ⟨r, hr, hle⟩ => ⟨r, hr, (hp p).trans hle⟩

theorem publish_inLog {stream : T.State} {next : Int → Int} (h : T.publish w.stream r = some stream)
    (hb : InLog (T.log w.stream) next) : InLog (T.log stream) next := by
  intro p
  refine (hb p).imp_right fun ⟨y, hy, hle⟩ => ⟨y, ?_, hle⟩
  rw [(T.log_publish h).1]
  by_cases hp : p = r.partition
  · subst hp
    rw [Function.update_self]
    exact mem_append_left _ hy
  · rwa [Function.update_of_ne hp]

/-- A record that is published lies at or after every position. -/
theorem publish_accounted {stream : T.State} {next : Int → Int} (h : T.publish w.stream r = some stream)
    (hb : InLog (T.log w.stream) next)
    (hg : ∀ p, ∀ x ∈ T.log w.stream p, x.offset < next p → Accounted stack w x) :
    ∀ p, ∀ x ∈ T.log stream p, x.offset < next p → Accounted stack {w with stream := stream} x := by
  obtain ⟨hl, hls, _⟩ := T.log_publish h
  intro p x hx hlt
  have hx' : x ∈ T.log stream p := hx
  rw [hl] at hx
  by_cases hp : p = r.partition
  · subst hp
    rw [Function.update_self, mem_append, mem_singleton] at hx
    rcases hx with hx | rfl
    · exact hg _ x hx hlt
    have hn := T.offset_nonneg hx'
    rcases hb x.partition with hs | ⟨y, hy, hle⟩
    · omega
    · have := hls y hy
      omega
  · rw [Function.update_of_ne hp] at hx
    exact hg p x hx hlt

theorem caughtUp_of_start (h : ∀ p, T.position w.stream p ≤ 0) : CaughtUp stack w := by
  intro p r hr hlt
  have := T.offset_nonneg hr
  have := h p
  omega

/-- A forwarder that restarts after each cycle that has left its batch behind never commits past a
record that was neither accepted by the meter nor recorded by the sink. -/
theorem forwarder_noGap (stack : BillingStack P) (T : Transport P) {w₀ w : World T}
    {h : History (World T) (ForwarderInput P) (Except EventForwarderError EventForwarderCycle)} (hfresh : w₀.fresh)
    (run : (forwarder stack T).Run (RestartsAfterFailure T) w₀ h w) : NoGap stack w := by
  have hs : NoGap stack w₀ := by
    intro p r hr hlt
    have := T.offset_nonneg hr
    have := (hfresh p).1
    omega
  suffices hk : NoGap stack w ∧ Within w ∧ (leftBehind h = false → CaughtUp stack w) from hk.1
  refine run.invariant (fun h w => NoGap stack w ∧ Within w ∧ (leftBehind h = false → CaughtUp stack w))
    ⟨hs, ⟨fun p => .inl (hfresh p).1, fun p => .inl (hfresh p).2⟩, fun _ => caughtUp_of_start fun p => (hfresh p).2⟩ ?_
  intro h w w' input outputs _ ⟨hg, hw, hc⟩ ho ht
  simp only [leftBehind, foldl_append, foldl_cons, foldl_nil] at hc ⊢
  cases input with
  | publish r =>
    obtain ⟨stream, hp, heq⟩ := Option.map_eq_some_iff.mp ht
    cases heq
    obtain ⟨_, _, hcm, hps⟩ := T.log_publish hp
    unfold NoGap Within CaughtUp
    rw [hcm, hps]
    refine ⟨publish_accounted hp hw.1 hg, ⟨publish_inLog hp hw.1, publish_inLog hp hw.2⟩, fun hl => ?_⟩
    exact publish_accounted hp hw.2 (hc (by simpa using hl))
  | cycle batchMax answers =>
    rcases hcy : runCycle stack answers batchMax w with ⟨after, result⟩
    simp only [forwarder, hcy, Option.some.injEq, Prod.mk.injEq] at ht
    obtain ⟨rfl, rfl⟩ := ht
    have hc := hc ho
    refine ⟨runCycle_noGap hcy hg hc, runCycle_within hcy hw, fun hl => runCycle_caughtUp hcy ?_ hc⟩
    simpa using (Bool.or_eq_false_iff.mp hl).2
  | restart =>
    cases ht
    obtain ⟨hl, hcm, hps⟩ := T.restarted w.stream
    refine ⟨fun p r hr hlt => ?_, ?_, fun _ => restart_caughtUp hg⟩
    · rw [hl] at hr
      rw [hcm] at hlt
      exact hg p r hr hlt
    · unfold Within
      rw [hl, hcm, hps]
      exact ⟨hw.1, hw.1⟩

variable {R : StreamRecord P → Prop} {q : Progress P} {owns : AppId → String → Prop}

/-- An event is the one a record holds. Its owner is the one the record names or, where it names
none, one that owns its app. -/
def Attributed (stack : BillingStack P) (owns : AppId → String → Prop) (r : StreamRecord P) (e : UsageEvent) : Prop :=
  ∃ held, stack.decode r.payload = .ok held ∧ ∃ organization, e = {held with organization := some organization} ∧
    (held.organization = some organization ∨
      held.organization = none ∧ ∃ app, held.app = some app ∧ owns app organization)

/-- Each of the events is that of a record with the property. -/
def Genuine (stack : BillingStack P) (owns : AppId → String → Prop) (R : StreamRecord P → Prop)
    (events : List (StreamRecord P × UsageEvent)) : Prop :=
  ∀ x ∈ events, R x.1 ∧ Attributed stack owns x.1 x.2

/-- The owners that are remembered own their apps. -/
def Owned (owns : AppId → String → Prop) (cache : List (AppId × Option String)) : Prop :=
  ∀ {app organization}, (app, some organization) ∈ cache → owns app organization

/-- The resolver names owners only. -/
def Answers.Resolves (answers : Answers) (owns : AppId → String → Prop) : Prop :=
  ∀ {n app organization}, answers.resolve n app = .ok (some organization) → owns app organization

theorem organizationFor_owned {cache cache' : List (AppId × Option String)} {app : Option AppId}
    {organization : Option String} (hres : answers.Resolves owns) (hc : Owned owns cache)
    (h : organizationFor answers cache app = .ok (organization, cache')) :
    Owned owns cache' ∧ ∀ {o}, organization = some o → ∃ a, app = some a ∧ owns a o := by
  unfold organizationFor at h
  split at h
  · cases h
    exact ⟨hc, nofun⟩
  next app =>
  split at h
  · next hl =>
    cases h
    refine ⟨hc, fun heq => ⟨app, rfl, hc (heq ▸ ?_)⟩⟩
    obtain ⟨_, _, hm, _⟩ := lookup_eq_some_iff.mp hl
    rw [hm]
    simp
  split at h
  · cases h
  next resolved hr =>
  cases h
  refine ⟨fun hm => ?_, fun heq => ⟨app, rfl, hres (heq ▸ hr)⟩⟩
  rcases mem_cons.mp hm with heq | hm
  · cases heq
    exact hres hr
  · exact hc hm

theorem quarantine_kept (entry : DeadLetter P) : (quarantine answers q entry).1.events = q.events ∧
    (quarantine answers q entry).1.organizationCache = q.organizationCache := by
  unfold quarantine
  split <;> exact ⟨rfl, rfl⟩

theorem takeRecord_genuine (hres : answers.Resolves owns)
    (h : Genuine stack owns R q.events ∧ Owned owns q.organizationCache) (hr : R r) :
    Genuine stack owns R (takeRecord stack answers q r).1.events ∧
      Owned owns (takeRecord stack answers q r).1.organizationCache := by
  have he : ∀ {e}, Attributed stack owns r e → Genuine stack owns R (q.events ++ [(r, e)]) := fun hf =>
    forall_mem_append.mpr ⟨h.1, forall_mem_singleton.mpr ⟨hr, hf⟩⟩
  unfold takeRecord
  split
  · rwa [(quarantine_kept _).1, (quarantine_kept _).2]
  next event hd =>
  split
  · next organization ho => exact ⟨he ⟨event, hd, organization, by rw [← ho], .inl ho⟩, h.2⟩
  next hn =>
  split
  · exact h
  · next organization cache ho =>
    obtain ⟨hc, ha⟩ := organizationFor_owned hres h.2 ho
    exact ⟨he ⟨event, hd, organization, rfl, .inr ⟨hn, ha rfl⟩⟩, hc⟩
  · next ho =>
    rw [(quarantine_kept _).1, (quarantine_kept _).2]
    exact ⟨h.1, (organizationFor_owned hres h.2 ho).1⟩

theorem process_genuine {records : List (StreamRecord P)} (hres : answers.Resolves owns) (hr : ∀ r ∈ records, R r) :
    Genuine stack owns R (process stack answers records).accepted := by
  have hn : Genuine stack owns R [] := by simp [Genuine]
  have hk := untilError_keeps (f := takeRecord stack answers)
    (fun q => Genuine stack owns R q.events ∧ Owned owns q.organizationCache)
    (fun r h q hq => takeRecord_genuine hres hq (hr r h)) (s := .start) ⟨hn, nofun⟩
  unfold process
  split <;> rename_i heq <;> rw [heq] at hk
  · exact hn
  -- the meter is given all events in one call, and accepts them all or none
  unfold forward
  split
  · exact hn
  split
  · exact hn
  split
  · exact hk.1
  split
  · split <;> exact hn
  · exact hn

/-- What the meter has accepted are the events of records in the log. -/
def Published (stack : BillingStack P) (owns : AppId → String → Prop) (w : World T) : Prop :=
  Genuine stack owns (fun r => r ∈ T.log w.stream r.partition) w.accepted

theorem runCycle_published (hres : answers.Resolves owns) (h : runCycle stack answers batchMax w = (w', result))
    (hp : Published stack owns w) : Published stack owns w' := by
  have ha : ∀ {stream : T.State} {records : List (StreamRecord P)}, T.log stream = T.log w.stream →
      (∀ r ∈ records, r ∈ T.log w.stream r.partition) →
      Published stack owns (w.after stream (process stack answers records)) := by
    intro stream records hl hr
    simp only [Published, World.after, hl]
    exact forall_mem_append.mpr ⟨hp, process_genuine hres hr⟩
  unfold runCycle at h
  split at h
  · next hpoll =>
    cases h
    rwa [T.poll_error hpoll]
  next stream records hpoll =>
  obtain ⟨hl, -, hh⟩ := T.poll_ok hpoll
  split at h
  · cases h
    simpa only [Published, hl] using hp
  dsimp only at h
  split at h
  · cases h
    exact ha hl fun r => hh.logged
  split at h <;> rename_i hcommit <;> cases h <;>
    exact ha ((T.committed_commit hcommit).1.trans hl) fun r => hh.logged

/-- In every cycle the resolver names owners only. -/
def ResolvesOwners (T : Transport P) (owns : AppId → String → Prop) :
    Environment (World T) (ForwarderInput P) (Except EventForwarderError EventForwarderCycle)
  | _, _, .cycle _ answers => answers.Resolves owns
  | _, _, _ => True

/-- Over any transport, however arrivals, cycles and restarts interleave: every event that the meter
has accepted is that of a published record, billed to the owner it names or to the owner of its app. -/
theorem billed_was_published (stack : BillingStack P) (T : Transport P) (owns : AppId → String → Prop) {w₀ w : World T}
    {h : History (World T) (ForwarderInput P) (Except EventForwarderError EventForwarderCycle)}
    (hnew : w₀.accepted = []) (run : (forwarder stack T).Run (ResolvesOwners T owns) w₀ h w) :
    Published stack owns w := by
  refine run.invariant (fun _ => Published stack owns) (by simp [Published, Genuine, hnew]) ?_
  intro _ w w' input outputs _ hp ho ht
  cases input with
  | publish r =>
    obtain ⟨stream, hs, heq⟩ := Option.map_eq_some_iff.mp ht
    cases heq
    refine fun x hx => (hp x hx).imp_left fun hx => ?_
    dsimp only
    rw [(T.log_publish hs).1]
    by_cases hr : x.1.partition = r.partition
    · rw [hr, Function.update_self]
      exact mem_append_left _ (hr ▸ hx)
    · rwa [Function.update_of_ne hr]
  | cycle batchMax answers =>
    rcases hc : runCycle stack answers batchMax w with ⟨after, result⟩
    obtain rfl : after = w' := by
      simp only [forwarder, hc, Option.some.injEq, Prod.mk.injEq] at ht
      exact ht.1
    exact runCycle_published ho hc hp
  | restart =>
    cases ht
    simpa only [Published, (T.restarted w.stream).1] using hp

end

/-- Payloads are event ids here, and every event names its owner. -/
def sampleStack : BillingStack String where
  meterId := "openmeter"
  isMeter := true
  decode id := .ok ⟨id, "zeroship-worker", some "app", some "org", "requests", 1, 0, []⟩

def sampleWorld : World (MemoryBroker.transport String) where
  stream := ⟨[[]], fun _ => none, fun _ => none, by simp, by simp⟩
  accepted := []
  quarantined := []

def sampleAnswers (ingest : Except ProviderError IngestAck) : Answers where
  yields := []
  resolve _ _ := .ok none
  sink _ := .committed
  ingest _ := ingest
  commit := .committed

def twoRecords : List (ForwarderInput String) := [.publish ⟨0, 0, "app", "e0"⟩, .publish ⟨0, 1, "app", "e1"⟩]

/-- The first record is handed out while the provider is down, and the next cycle commits past it. -/
def passedRecord : List (ForwarderInput String) :=
  twoRecords ++ [.cycle 1 (sampleAnswers (.error (.transport "timeout"))), .cycle 1 (sampleAnswers (.ok ⟨1, none⟩))]

theorem passedRecord_lost :
    let w := (forwarder sampleStack (MemoryBroker.transport String)).reach sampleWorld passedRecord
    (forwarder sampleStack (MemoryBroker.transport String)).Run .anything sampleWorld
        ((forwarder sampleStack (MemoryBroker.transport String)).trace sampleWorld passedRecord) w ∧
      sampleWorld.fresh ∧ ¬ NoGap sampleStack w := by
  refine ⟨.of_trace (Machine.offered_anything _ _), fun _ => ⟨le_rfl, le_rfl⟩, fun hg => ?_⟩
  have ha : ((forwarder sampleStack (MemoryBroker.transport String)).reach sampleWorld passedRecord).accepted.map
      (·.1.offset) = [1] := by decide +kernel
  have hq : ((forwarder sampleStack (MemoryBroker.transport String)).reach sampleWorld passedRecord).quarantined =
      [] := by decide +kernel
  have hf := hg 0 ⟨0, 0, "app", "e0"⟩ (by decide +kernel) (by decide +kernel)
  rcases hf with ⟨e, he, -⟩ | ⟨l, hl, -⟩
  · have ho := mem_map_of_mem (f := fun x : StreamRecord String × UsageEvent => x.1.offset) he
    rw [ha] at ho
    simp at ho
  · rw [hq] at hl
    cases hl

/-- The process starts anew after the failure. -/
def restartedCycle : List (ForwarderInput String) :=
  twoRecords ++ [.cycle 1 (sampleAnswers (.error (.transport "timeout"))), .restart,
    .cycle 2 (sampleAnswers (.ok ⟨2, none⟩))]

theorem restartedCycle_forwarded :
    let w := (forwarder sampleStack (MemoryBroker.transport String)).reach sampleWorld restartedCycle
    (MemoryBroker.transport String).committed w.stream 0 = 2 ∧ NoGap sampleStack w := by
  refine ⟨by decide +kernel, @forwarder_noGap String sampleStack (MemoryBroker.transport String) sampleWorld _ _
    (fun _ => ⟨le_rfl, le_rfl⟩) (.of_trace ?_)⟩
  decide +kernel

/-- A topic of the Kafka protocol that nothing was published to. -/
def kafkaWorld : World (KafkaGroup.transport String) :=
  ⟨⟨fun _ => [], fun _ => none, fun _ => none, nofun, fun _ => .nil, nofun⟩, [], []⟩

/-- Payloads are event ids here too, but the events leave their owner out. -/
def unownedStack : BillingStack String :=
  {sampleStack with decode := fun id => .ok ⟨id, "zeroship-worker", some "app", none, "requests", 1, 0, []⟩}

/-- A record is published, handed out and billed to the owner that the resolver names. -/
theorem billed_to_resolved_owner :
    let w := (forwarder unownedStack (KafkaGroup.transport String)).reach kafkaWorld
      [.publish ⟨0, 0, "app", "e0"⟩,
        .cycle 1 {sampleAnswers (.ok ⟨1, none⟩) with yields := [.record 0], resolve := fun _ _ => .ok (some "org")}]
    w.accepted.map (fun x => (x.1.payload, x.2.organization)) = [("e0", some "org")] ∧
      Published unownedStack (fun app organization => app = "app" → organization = "org") w := by
  refine ⟨by decide +kernel, billed_was_published _ (KafkaGroup.transport String) _ rfl (.of_trace ?_)⟩
  exact ⟨trivial, fun h _ => by cases h; rfl, trivial⟩

end Zeroship.Metering
