import Zeroship.Base.Fallible
import Zeroship.Base.Machine
import Zeroship.Metering.Meter

/-! The usage outbox: from a drain to the acknowledgement of the stream.

A publish call takes what an earlier call could not append, puts its own events behind, and
appends all of it to the log in one transaction. What is in the log it publishes and then
trims, event by event. A call is a sequence of steps here, so that calls interleave; every
transaction and every publish may fail, and one that fails may have been stored all the same. -/
namespace Zeroship.Metering
open Base

structure UsageEvent where
  (eventId source : String)
  app : Option AppId
  organization : Option String
  meter : String
  value : Nat
  eventTime : Int
  dims : List (String × String)
deriving DecidableEq

variable (e : UsageEvent)

/-- The amount an event accounts to its app. -/
def UsageEvent.amount : Option ((AppId × String) × Nat) :=
  e.app.map fun app => ((app, e.meter), e.value)

/-- One event for each counter a drain finds, with one identifier each and one time for all. -/
def Meter.events (m : Meter) (ids : List String) (eventTime : Int) : List UsageEvent :=
  List.zipWith (fun id d => ⟨id, m.source, some d.1.1, none, d.1.2, d.2, eventTime, []⟩) ids m.drained

inductive OutboxWalError where
  | redb (text : String)
  | serialize (eventId source : String)

def OutboxWalError.text : OutboxWalError → String
  | redb text => text
  | serialize eventId source => "serialize usage event " ++ eventId ++ ": " ++ source

/-- How events are written: what was written is read back. -/
structure Codec (P : Type) where
  serialize : UsageEvent → Except String P
  decode : P → Option UsageEvent
  roundTrip : ∀ {e : UsageEvent} {p : P}, serialize e = .ok p → decode p = some e

/-- How a transaction ends. One that reports a failure may have been stored. -/
inductive Fate where
  | committed
  | failed (error : String) (stored : Bool)

structure UsageWal (P : Type) where
  rows : List (Nat × P)
  nextSeq : Nat
  ordered : (rows.map (·.1)).Pairwise (· < ·)
  below : ∀ r ∈ rows, r.1 < nextSeq

structure PendingWalEvent where
  seq : Nat
  event : UsageEvent

structure LoadedWal where
  pending : List PendingWalEvent
  poison : List Nat

namespace UsageWal
variable {P : Type}

def empty : UsageWal P := ⟨[], 0, .nil, by simp⟩

variable (w : UsageWal P) (seq : Nat)

def insert (payloads : List P) : UsageWal P where
  rows := w.rows ++ (payloads.zipIdx w.nextSeq).map Prod.swap
  nextSeq := w.nextSeq + payloads.length
  ordered := by
    have hnew : ((payloads.zipIdx w.nextSeq).map Prod.swap).map (·.1) = List.range' w.nextSeq payloads.length := by
      rw [List.map_map]
      exact List.zipIdx_map_snd _ _
    rw [List.map_append, hnew]
    refine List.pairwise_append.mpr ⟨w.ordered, List.pairwise_lt_range', fun a ha b hb => ?_⟩
    obtain ⟨r, hr, rfl⟩ := List.mem_map.mp ha
    have := w.below r hr
    have := (List.mem_range'_1.mp hb).1
    omega
  below := by
    intro r hr
    obtain hr | hr := List.mem_append.mp hr
    · have := w.below r hr
      omega
    obtain ⟨x, hx, rfl⟩ := List.mem_map.mp hr
    have := List.snd_lt_of_mem_zipIdx hx
    show x.2 < _
    omega

def append (codec : Codec P) (w : UsageWal P) (events : List UsageEvent) (fate : Fate) :
    UsageWal P × Except OutboxWalError Unit :=
  if events = [] then (w, .ok ())
  else match events.mapM fun e => (codec.serialize e).mapError (.serialize e.eventId) with
    | .error error => (w, .error error)
    | .ok encoded => match fate with
      | .committed =>
        if w.nextSeq + encoded.length < 2 ^ 64 then (w.insert encoded, .ok ())
        else (w, .error (.redb "wal append sequence overflow"))
      | .failed error stored =>
        (if stored ∧ w.nextSeq + encoded.length < 2 ^ 64 then w.insert encoded else w, .error (.redb error))

/-- Rows that do not decode are set apart. -/
def loadPending (codec : Codec P) (w : UsageWal P) : LoadedWal where
  pending := w.rows.filterMap fun r => (codec.decode r.2).map (⟨r.1, ·⟩)
  poison := (w.rows.filter fun r => (codec.decode r.2).isNone).map (·.1)

def trim : UsageWal P where
  rows := w.rows.filter (·.1 ≠ seq)
  nextSeq := w.nextSeq
  ordered := w.ordered.sublist (List.filter_sublist.map _)
  below := fun r hr => w.below r (List.mem_of_mem_filter hr)

def remove : Fate → UsageWal P × Except OutboxWalError Unit
  | .committed => (w.trim seq, .ok ())
  | .failed error stored => (if stored then w.trim seq else w, .error (.redb error))

end UsageWal

/-! ### A call -/

structure OutboxFailure where
  eventId : String
  appId : Option AppId
  (meter error : String)

def UsageEvent.failure (error : String) : OutboxFailure := ⟨e.eventId, e.app, e.meter, error⟩

structure OutboxPublishResult where
  (attempted published : Nat)
  failed : List OutboxFailure
  deferred : Nat

namespace OutboxPublishResult

def default : OutboxPublishResult := ⟨0, 0, [], 0⟩

/-- What a call returns that reached no event of the log. -/
def refused (batch : List UsageEvent) (error : String) : OutboxPublishResult :=
  ⟨batch.length, 0, batch.map (·.failure error), 0⟩

variable (r : OutboxPublishResult)

def fail (e : UsageEvent) (error : String) : OutboxPublishResult :=
  { r with failed := r.failed ++ [e.failure error] }

end OutboxPublishResult

/-- How far a publish call is. -/
inductive Stage where
  /-- The retained events are in its batch, with its own. -/
  | taken (maxRetained : Nat) (batch : List UsageEvent)
  /-- The append of the batch failed. -/
  | refused (maxRetained : Nat) (batch : List UsageEvent) (error : OutboxWalError)
  | appended (batch : List UsageEvent)
  /-- The log was read; rows that do not decode are removed first. -/
  | purging (poison : List Nat) (pending : List PendingWalEvent)
  | publishing (pending : List PendingWalEvent) (result : OutboxPublishResult)
  /-- The stream acknowledged the event, which is still in the log. -/
  | trimming (current : PendingWalEvent) (pending : List PendingWalEvent) (result : OutboxPublishResult)

/-- What becomes of the attempt to publish the next event: the stream had stalled before it, or it
was tried and acknowledged, or failed, a stall on it included. -/
inductive Attempt where
  | stalled
  | tried (outcome : Except String Unit)

/-- What decides about the next step of a call. -/
inductive Turn where
  | append (fate : Fate)
  | retain
  | load (failure : Option String)
  | purge (fate : Fate)
  | next (attempt : Attempt)
  | trim (fate : Fate)
  | cancel

/-- What a call is seen to do. -/
inductive Sign where
  | acknowledged (event : UsageEvent)
  | dropped (event : UsageEvent)
  | returned (result : OutboxPublishResult)

/-- What a step of a call leaves: log, retained events, and the call, unless it returned. -/
structure Effect (P : Type) where
  wal : UsageWal P
  retained : List UsageEvent
  stage : Option Stage
  signs : List Sign

section
variable {P : Type} (codec : Codec P) (w : UsageWal P) (retained : List UsageEvent)

variable (current : PendingWalEvent) (pending : List PendingWalEvent) (result : OutboxPublishResult)
  (maxRetained : Nat) (batch : List UsageEvent) (fate : Fate)

/-- The append of a taken batch. -/
def appendBatch : Effect P :=
  match w.append codec batch fate with
  | (w', .ok ()) => ⟨w', retained, some (.appended batch), []⟩
  | (w', .error error) => ⟨w', retained, some (.refused maxRetained batch error), []⟩

/-- The buffer keeps the last `maxRetained` events. -/
def retainForRetry (error : OutboxWalError) : Effect P :=
  let buffer := retained ++ batch
  let overflow := buffer.length - maxRetained
  ⟨w, buffer.drop overflow, none,
    (buffer.take overflow).map .dropped ++ [.returned (.refused batch ("wal append: " ++ error.text))]⟩

def loadBatch : Option String → Effect P
  | some error => ⟨w, retained, none, [.returned (.refused batch ("wal read: " ++ error))]⟩
  | none => ⟨w, retained, some (.purging (w.loadPending codec).poison (w.loadPending codec).pending), []⟩

/-- An attempt at the first of the pending events. -/
def publishNext (attempt : Attempt) : Effect P :=
  let attempted := { result with attempted := result.attempted + 1 }
  let failing (error : String) : Effect P :=
    ⟨w, retained, some (.publishing pending (attempted.fail current.event error)), []⟩
  match attempt with
  | .stalled => ⟨w, retained, none, [.returned { result with deferred := (current :: pending).length }]⟩
  | .tried outcome => match current.event.app, codec.serialize current.event, outcome with
    | none, _, _ => failing "usage event missing subject.app for partition key"
    | some _, .error error, _ => failing ("serialize usage event: " ++ error)
    | some _, .ok _, .error error => failing error
    | some _, .ok _, .ok () => ⟨w, retained, some (.trimming current pending attempted), [.acknowledged current.event]⟩

def trimCurrent : Effect P :=
  match w.remove current.seq fate with
  | (w', .ok ()) => ⟨w', retained, some (.publishing pending { result with published := result.published + 1 }), []⟩
  | (w', .error error) =>
    ⟨w', retained, some (.publishing pending (result.fail current.event ("wal trim: " ++ error.text))), []⟩

/-- One step of `publish_events`. A call is given up only where it waits for the stream. -/
def Stage.step : Stage → Turn → Option (Effect P)
  | .taken maxRetained batch, .append fate => some (appendBatch codec w retained maxRetained batch fate)
  | .refused maxRetained batch error, .retain => some (retainForRetry w retained maxRetained batch error)
  | .appended batch, .load failure => some (loadBatch codec w retained batch failure)
  | .purging (seq :: poison) pending, .purge fate =>
    some ⟨(w.remove seq fate).1, retained, some (.purging poison pending), []⟩
  | .purging [] pending, .next _ => some ⟨w, retained, some (.publishing pending .default), []⟩
  | .publishing (current :: pending) result, .next attempt =>
    some (publishNext codec w retained current pending result attempt)
  | .publishing [] result, .next _ => some ⟨w, retained, none, [.returned result]⟩
  | .publishing (_ :: _) _, .cancel => some ⟨w, retained, none, []⟩
  | .trimming current pending result, .trim fate => some (trimCurrent w retained current pending result fate)
  | _, _ => none

end

abbrev CallId := Nat

inductive Output where
  | drained (event : UsageEvent)
  | enqueued (outcome : Except OutboxWalError Unit)
  | call (call : CallId) (sign : Sign)

structure State (P : Type) where
  meter : Meter
  wal : UsageWal P
  retained : List UsageEvent
  calls : AList (fun _ : CallId => Stage)

inductive Input where
  /-- One addition to one counter. -/
  | count (app : AppId) (metric : String) (n : Nat)
  | drain (ids : List String) (eventTime : Int)
  | enqueue (events : List UsageEvent) (fate : Fate)
  /-- A publish call begins: it takes the retained events. -/
  | publish (call : CallId) (maxRetained : Nat) (events : List UsageEvent)
  | turn (call : CallId) (turn : Turn)
  /-- The process ends, at any point, and a new one opens the log. -/
  | restart (source : String)

section
variable {P : Type}

def State.start (source : String) (w : UsageWal P) : State P := ⟨.withSource source, w, [], ∅⟩

def setStage (calls : AList (fun _ : CallId => Stage)) (call : CallId) :
    Option Stage → AList (fun _ : CallId => Stage)
  | some stage => calls.insert call stage
  | none => calls.erase call

def State.after (s : State P) (call : CallId) (e : Effect P) : State P :=
  { s with wal := e.wal, retained := e.retained, calls := setStage s.calls call e.stage }

/-- The meter and the outbox of a process and of those that follow it on the same log. -/
def producer (codec : Codec P) : Machine (State P) Input Output where
  step s
    | .count app metric n => some ({ s with meter := s.meter.increment app metric n }, [])
    | .drain ids eventTime =>
      if ids.length = s.meter.drained.length then
        some ({ s with meter := s.meter.reset }, (s.meter.events ids eventTime).map .drained)
      else none
    | .enqueue events fate =>
      some ({ s with wal := (s.wal.append codec events fate).1 }, [.enqueued (s.wal.append codec events fate).2])
    | .publish call maxRetained events =>
      if call ∈ s.calls then none
      else some
        ({ s with retained := [], calls := s.calls.insert call (.taken maxRetained (s.retained ++ events)) }, [])
    | .turn call turn => match s.calls.lookup call with
      | none => none
      | some stage => (stage.step codec s.wal s.retained turn).map fun e => (s.after call e, e.signs.map (.call call))
    | .restart source => some (.start source s.wal, [])

end

end Zeroship.Metering
