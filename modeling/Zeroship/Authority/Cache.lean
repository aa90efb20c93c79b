import Zeroship.Authority.Ledger

/-! The policy cache of a manager process: one observation an app, shared by all its callers.

A call reserves before it reads: it is answered from the cache, reads the source, reads ahead
of expiry with the current observation to fall back on, or waits for another call's read. What
a read brings is installed if the entry is still the one reserved. -/
namespace Zeroship.Authority
open Base Workflow List

abbrev CallId := Nat

/-- An observation with the identity of the read that made it. -/
structure Held where
  identity : Nat
  observation : PolicyObservation
deriving DecidableEq

def Held.expiresAt (o : Held) : Nat := o.observation.expiresAt

structure Entry where
  appId : AppId
  identity : Nat
  observation : Option Held
  refreshAt : Nat
  refreshing : Bool
  usedAt : Nat
  waiters : List CallId

structure Cache where
  entries : List Entry
  capacity : Nat

inductive Reservation
  | cached (o : Held)
  | refresh (identity : Nat)
  | ahead (identity : Nat) (current : Held)
  | wait

namespace Cache

variable (c : Cache) (app : AppId)

def get : Option Entry := c.entries.find? (·.appId = app)

def remove : Cache := { c with entries := c.entries.filter (·.appId ≠ app) }

def put (e : Entry) : Cache := { c with entries := e :: (c.remove e.appId).entries }

/-- An entry that a read is to fill. -/
def opened (identity now : Nat) : Entry := ⟨app, identity, none, now, false, now, []⟩

/-- No entry was used before this app's. -/
def Oldest : Prop :=
  ∃ e ∈ c.entries, e.appId = app ∧ ∀ f ∈ c.entries, e.usedAt ≤ f.usedAt

instance (c : Cache) (app : AppId) : Decidable (c.Oldest app) := inferInstanceAs (Decidable (∃ e ∈ _, _))

/-- What a call gets for an app. `identity` is one that no entry has had, and `oldest` the app
to evict if there is no room: any of those that were unused the longest. -/
def reserve (now identity : Nat) (call : CallId) (app oldest : AppId) : Option (Cache × Reservation) :=
  match c.get app with
  | some e => match e.observation with
    | some o =>
      if now < o.expiresAt then
        if now < e.refreshAt ∨ e.refreshing then some (c.put { e with usedAt := now }, .cached o)
        else some (c.put { e with usedAt := now, identity, refreshing := true }, .ahead identity o)
      else some (c.put (opened app identity now), .refresh identity)
    | none => some (c.put { e with waiters := e.waiters ++ [call] }, .wait)
  | none =>
    if c.entries.length = c.capacity then
      if c.Oldest oldest then some ((c.remove oldest).put (opened app identity now), .refresh identity) else none
    else some (c.put (opened app identity now), .refresh identity)

/-- Installs what a ticket's read brought; with the callers that waited for it. -/
def complete (now : Nat) (app : AppId) (identity : Nat) (o : Held) : Option (Cache × List CallId) :=
  if o.observation.appId = app ∧ now < o.expiresAt then
    match c.get app with
    | some e =>
      if e.identity = identity then
        some (c.put { e with refreshAt := now + (o.expiresAt - now) / 2, refreshing := false, observation := some o,
                             waiters := [] }, e.waiters)
      else none
    | none => none
  else none

/-- Gives a ticket up that was not completed; with the callers to refuse. -/
def abandon (now : Nat) (app : AppId) (identity : Nat) : Cache × List CallId :=
  match c.get app with
  | some e =>
    if e.identity = identity then
      match e.observation with
      | some o => if now < o.expiresAt then (c.put { e with refreshing := false }, []) else (c.remove app, e.waiters)
      | none => (c.remove app, e.waiters)
    else (c, [])
  | none => (c, [])

end Cache

/-! ### Calls -/

/-- A call that has not returned. A reader may have an observation to fall back on, and one
that its read has made; a waiter may have been sent an answer. -/
inductive Pending
  | reading (app : AppId) (identity : Nat) (current captured : Option Held)
  | waiting (app : AppId) (message : Option (Except Error Held))

def Pending.appId : Pending → AppId
  | .reading app .. | .waiting app _ => app

structure ControlPolicies where
  (now identities : Nat)
  started : CallId
  cache : Cache
  calls : CallId → Option Pending

inductive CacheInput
  | pass (time : Nat)
  | observe (app oldest : AppId)
  | capture (call : CallId) (o : PolicyObservation)
  | finish (call : CallId)
  | fail (call : CallId)
  | receive (call : CallId)
  | giveUp (call : CallId)
  | cancel (call : CallId)
  | invalidate (app : AppId)
deriving DecidableEq

/-- The inputs that go on with a call, or let time pass. -/
def CacheInput.continues : CacheInput → Bool
  | .observe .. | .invalidate _ => false
  | _ => true

inductive CacheEvent
  | captured (call : CallId) (o : Held)
  | returned (call : CallId) (o : Held)
  | refused (call : CallId)
deriving DecidableEq

namespace ControlPolicies

variable (s : ControlPolicies) (call : CallId)

def leave : ControlPolicies :=
  { s with calls := fun c => if c = call then none else s.calls c }

def setCall (p : Pending) : ControlPolicies :=
  { s with calls := fun c => if c = call then some p else s.calls c }

/-- Sends to callers. One that has left does not receive it. -/
def send (callers : List CallId) (m : Except Error Held) : ControlPolicies :=
  { s with calls := fun c =>
      if c ∈ callers then (s.calls c).map fun
        | .waiting app none => .waiting app (some m)
        | p => p
      else s.calls c }

/-- The ticket of a read goes out of scope. -/
def dropTicket (app : AppId) (identity : Nat) : ControlPolicies :=
  let (cache, callers) := s.cache.abandon s.now app identity
  { s with cache }.send callers (.error .unavailable)

/-- The first part of a call, up to where it first waits. -/
def begin (app oldest : AppId) : Option (ControlPolicies × List CacheEvent) := do
  let (cache, reservation) ← s.cache.reserve s.now s.identities s.started app oldest
  let next := { s with cache, identities := s.identities + 1, started := s.started + 1 }
  match reservation with
  | .cached o => pure (next, [.returned s.started o])
  | .refresh identity => pure (next.setCall s.started (.reading app identity none none), [])
  | .ahead identity current => pure (next.setCall s.started (.reading app identity (some current) none), [])
  | .wait => pure (next.setCall s.started (.waiting app none), [])

/-- The source makes an observation for a read. The read has still to return it. -/
def capture (o : PolicyObservation) : Option (ControlPolicies × List CacheEvent) :=
  match s.calls call with
  | some (.reading app identity current none) =>
    let held : Held := ⟨s.identities, o⟩
    some ({ s with identities := s.identities + 1 }.setCall call (.reading app identity current (some held)),
      [.captured call held])
  | _ => none

def finish : Option (ControlPolicies × List CacheEvent) :=
  match s.calls call with
  | some (.reading app identity _ (some o)) =>
    match s.cache.complete s.now app identity o with
    | some (cache, callers) => some (({ s with cache }.send callers (.ok o)).leave call, [.returned call o])
    | none => some ((s.dropTicket app identity).leave call, [.refused call])
  | _ => none

def fail : Option (ControlPolicies × List CacheEvent) :=
  match s.calls call with
  | some (.reading app identity (some current) _) =>
    -- Neither the expiry of `current` nor the entry it came from is looked at again.
    some ((s.dropTicket app identity).leave call, [.returned call current])
  | some (.reading app identity none _) => some ((s.dropTicket app identity).leave call, [.refused call])
  | _ => none

/-- A waiter finds its answer, or that its sender is gone. -/
def receive : Option (ControlPolicies × List CacheEvent) :=
  match s.calls call with
  | some (.waiting _ (some (.ok o))) => some (s.leave call, [.returned call o])
  | some (.waiting _ (some (.error _))) => some (s.leave call, [.refused call])
  | some (.waiting _ none) => if ∃ e ∈ s.cache.entries, call ∈ e.waiters then none else some (s.leave call, [.refused call])
  | _ => none

def giveUp : Option (ControlPolicies × List CacheEvent) :=
  match s.calls call with
  | some (.waiting ..) => some (s.leave call, [.refused call])
  | _ => none

def cancel : Option (ControlPolicies × List CacheEvent) :=
  match s.calls call with
  | some (.reading app identity ..) => some ((s.dropTicket app identity).leave call, [])
  | some (.waiting ..) => some (s.leave call, [])
  | none => none

end ControlPolicies

def policyCache : Machine ControlPolicies CacheInput CacheEvent where
  step s
    | .pass time => some ({ s with now := s.now + time }, [])
    | .observe app oldest => s.begin app oldest
    | .capture call o => s.capture call o
    | .finish call => s.finish call
    | .fail call => s.fail call
    | .receive call => s.receive call
    | .giveUp call => s.giveUp call
    | .cancel call => s.cancel call
    | .invalidate app => some ({ s with cache := s.cache.remove app }, [])

/-! ### What becomes of an entry -/

/-- An entry goes on as `e'`: under its identity or a `fresh` one, with waiters that may have
joined and an observation that may have been installed. -/
structure Kept (fresh : Nat) (Joins : AppId → CallId → Prop) (Installs : Held → Prop) (e e' : Entry) : Prop where
  appId : e'.appId = e.appId
  identity : e'.identity = e.identity ∨ e'.identity = fresh
  waiters : ∀ w ∈ e'.waiters, w ∈ e.waiters ∨ Joins e.appId w
  observation : ∀ o, e'.observation = some o → e.observation = some o ∨ Installs o

/-- Every entry of a cache goes on from an entry of another, or is new. -/
def Derives (fresh : Nat) (Joins : AppId → CallId → Prop) (Installs : Held → Prop) (c c' : Cache) : Prop :=
  ∀ e' ∈ c'.entries, (∃ e ∈ c.entries, Kept fresh Joins Installs e e') ∨
    e'.identity = fresh ∧ e'.observation = none ∧ e'.waiters = []

section
variable {fresh : Nat} {Joins : AppId → CallId → Prop} {Installs : Held → Prop} {c c' : Cache} {e e' : Entry}
  {app : AppId}

theorem Kept.refl (e : Entry) : Kept fresh Joins Installs e e :=
  ⟨rfl, .inl rfl, fun _ hw => .inl hw, fun _ ho => .inl ho⟩

theorem Derives.refl (c : Cache) : Derives fresh Joins Installs c c := fun e he => .inl ⟨e, he, .refl e⟩

theorem Derives.mono {Joins' : AppId → CallId → Prop} {Installs' : Held → Prop} (h : Derives fresh Joins Installs c c')
    (hj : ∀ a w, Joins a w → Joins' a w) (hi : ∀ o, Installs o → Installs' o) : Derives fresh Joins' Installs' c c' :=
  fun e' he' => (h e' he').imp_left fun ⟨e, he, hk⟩ =>
    ⟨e, he, hk.appId, hk.identity, fun w hw => (hk.waiters w hw).imp_right (hj _ w),
      fun o ho => (hk.observation o ho).imp_right (hi o)⟩

theorem derives_remove (c : Cache) (app : AppId) : Derives fresh Joins Installs c (c.remove app) :=
  fun e he => .inl ⟨e, (mem_filter.mp he).1, .refl e⟩

theorem Derives.put (h : Derives fresh Joins Installs c c') (he : (∃ e ∈ c.entries, Kept fresh Joins Installs e e') ∨
      e'.identity = fresh ∧ e'.observation = none ∧ e'.waiters = []) :
    Derives fresh Joins Installs c (c'.put e') := by
  intro f hf
  obtain rfl | hf := mem_cons.mp hf
  · exact he
  · exact h f (mem_filter.mp hf).1

theorem Derives.put_kept (he : e ∈ c.entries) (h : Kept fresh Joins Installs e e') :
    Derives fresh Joins Installs c (c.put e') :=
  (Derives.refl c).put (.inl ⟨e, he, h⟩)

theorem Derives.put_opened (h : Derives fresh Joins Installs c c') (now : Nat) :
    Derives fresh Joins Installs c (c'.put (Cache.opened app fresh now)) :=
  h.put (.inr ⟨rfl, rfl, rfl⟩)

theorem get_mem (h : c.get app = some e) : e ∈ c.entries ∧ e.appId = app :=
  ⟨mem_of_find?_eq_some h, by simpa using find?_some h⟩

end

section
variable {c c' : Cache} {now identity : Nat} {call : CallId} {app oldest : AppId} {o : Held} {callers : List CallId}

/-- What a reservation says. -/
def Reserved (c : Cache) (now identity : Nat) : Reservation → Prop
  | .cached o => now < o.expiresAt
  | .refresh i => i = identity
  | .ahead i o => i = identity ∧ ∃ e ∈ c.entries, e.observation = some o
  | .wait => True

theorem reserve_some {r : Reservation} (h : c.reserve now identity call app oldest = some (c', r)) :
    Reserved c now identity r ∧
      Derives identity (fun a w => r = .wait ∧ a = app ∧ w = call) (fun _ => False) c c' := by
  unfold Cache.reserve at h
  split at h
  · next e he =>
    obtain ⟨hm, ha⟩ := get_mem he
    split at h
    · next o ho =>
      split at h
      · next hl =>
        split at h
        · cases h
          exact ⟨hl, .put_kept hm ⟨rfl, .inl rfl, fun _ hw => .inl hw, fun _ ho => .inl ho⟩⟩
        · cases h
          exact ⟨⟨rfl, e, hm, ho⟩, .put_kept hm ⟨rfl, .inr rfl, fun _ hw => .inl hw, fun _ ho => .inl ho⟩⟩
      · cases h
        exact ⟨rfl, (Derives.refl c).put_opened now⟩
    · cases h
      refine ⟨trivial, .put_kept hm ⟨rfl, .inl rfl, fun w hw => ?_, fun _ ho => .inl ho⟩⟩
      exact (mem_append.mp hw).imp_right fun hw => ⟨rfl, ha, mem_singleton.mp hw⟩
  · split at h
    · split at h
      · cases h
        exact ⟨rfl, (derives_remove c oldest).put_opened now⟩
      · cases h
    · cases h
      exact ⟨rfl, (Derives.refl c).put_opened now⟩

/-- A ticket installs an observation that is alive, in the entry it was given for. -/
theorem complete_some (fresh : Nat) (h : c.complete now app identity o = some (c', callers)) :
    now < o.expiresAt ∧ (∃ e ∈ c.entries, e.appId = app ∧ e.identity = identity ∧ e.waiters = callers) ∧
      Derives fresh (fun _ _ => False) (· = o) c c' := by
  unfold Cache.complete at h
  split at h
  · next hok =>
    split at h
    · next e he =>
      split at h
      · next hid =>
        cases h
        obtain ⟨hm, ha⟩ := get_mem he
        refine ⟨hok.2, ⟨e, hm, ha, hid, rfl⟩, .put_kept hm ⟨rfl, .inl rfl, ?_, ?_⟩⟩
        · exact fun _ hw => by cases hw
        · exact fun _ ho => .inr (Option.some.inj ho).symm
      · cases h
    · cases h
  · cases h

theorem abandon_derives {fresh : Nat} {Joins : AppId → CallId → Prop} {Installs : Held → Prop} (c : Cache) (now : Nat)
    (app : AppId) (identity : Nat) : Derives fresh Joins Installs c (c.abandon now app identity).1 := by
  unfold Cache.abandon
  split
  · next e he =>
    split
    · split
      · split
        · exact .put_kept (get_mem he).1 ⟨rfl, .inl rfl, fun _ hw => .inl hw, fun _ ho => .inl ho⟩
        · exact derives_remove c app
      · exact derives_remove c app
    · exact .refl c
  · exact .refl c

end

end Zeroship.Authority
