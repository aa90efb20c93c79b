import Zeroship.Base.Machine
import Zeroship.Base.Fallible
import Zeroship.Authority.Policy

/-! The policies of a worker host: bindings, refreshes and captured authority.

A binding is of one generation of an app's entry. A refresh takes a ticket before it asks for
metadata, and installs what it got if no later one took one. An operation captures the policy
with its deadline and checks the capture as it goes. An install retires the epoch of earlier
captures if it changes the revision or shortens the deadline by more than its slack. -/
namespace Zeroship.Authority
open Base Workflow

inductive HostError
  | unavailable (message : String)
  | conflict (message : String)

def unavailable (reason : String) : HostError := .unavailable ("workflow host policy unavailable: " ++ reason)
def leaseExpired : HostError := .unavailable "workflow host policy lease expired"
def conflict : HostError := .conflict "workflow host policy revision conflicts"

/-- One more, of a 64-bit counter. -/
def checkedSucc (n : Nat) : Option Nat := if n + 1 < 2 ^ 64 then some (n + 1) else none

/-- An instant later by a duration, if it can be represented: its seconds are a signed 64-bit
integer. -/
def laterBy (t d : Nat) : Option Nat := if t + d < 2 ^ 63 * 1000000000 then some (t + d) else none

inductive Validity
  | configuration
  | until (deadline : Nat)
deriving DecidableEq

structure PolicySnapshot where
  revision : Int
  policy : AppPolicy
  ingressEpoch : Option Int
  validity : Validity
  anchorSlack : Nat

def liveDeadline (validity : Validity) (now : Nat) : Except HostError (Option Nat) :=
  match validity with
  | .configuration => .ok none
  | .until deadline => if now < deadline then .ok (some deadline) else .error (unavailable "lease deadline had already elapsed")

namespace PolicySnapshot

/-- The new deadline is earlier, even when all of its slack is added. -/
def deadlineRegressed (previous snapshot : PolicySnapshot) : Bool :=
  match previous.validity, snapshot.validity with
  | .until old, .until new => (laterBy new snapshot.anchorSlack).all (· < old)
  | _, _ => false

/-- Whether an install over `previous` retires its epoch. -/
def retires (previous snapshot : PolicySnapshot) : Bool :=
  previous.revision ≠ snapshot.revision || previous.deadlineRegressed snapshot

end PolicySnapshot

/-! ### The registry -/

structure Current where
  snapshot : Option PolicySnapshot
  ticketSequence : Nat
  ticket : Option Nat
  epoch : Nat

structure HostEntry where
  generation : Nat
  highWater : Option (Int × AppPolicy)
  current : Option Current

structure HostPolicies where
  generation : Nat
  entries : AppId → Option HostEntry

structure PolicyBinding where
  app : AppId
  generation : Nat
deriving DecidableEq

structure PolicyRefresh where
  binding : PolicyBinding
  ticket : Nat
deriving DecidableEq

structure PolicyAuthority where
  binding : PolicyBinding
  revision : Int
  epoch : Nat
  deadline : Option Nat
  policy : AppPolicy
  ingressEpoch : Option Int
deriving DecidableEq

namespace HostPolicies

variable (s : HostPolicies) (b : PolicyBinding)

def setEntry (app : AppId) (e : HostEntry) : HostPolicies :=
  { s with entries := fun a => if a = app then some e else s.entries a }

@[simp] theorem setEntry_entries (s : HostPolicies) (app a : AppId) (e : HostEntry) :
    (s.setEntry app e).entries a = if a = app then some e else s.entries a := rfl

/-- The entry of a binding, if it is still of this generation. -/
def entry : Option HostEntry :=
  (s.entries b.app).filter (·.generation = b.generation)

def current (s : HostPolicies) (b : PolicyBinding) : Option Current := (s.entry b).bind (·.current)

def bind (s : HostPolicies) (app : AppId) : Except HostError (HostPolicies × PolicyBinding) :=
  match checkedSucc s.generation with
  | none => .error (unavailable "no installed policy for this binding")
  | some generation =>
    let highWater := (s.entries app).bind (·.highWater)
    .ok ({ s.setEntry app ⟨generation, highWater, some ⟨none, 0, none, 0⟩⟩ with generation }, ⟨app, generation⟩)

def beginRefresh : Except HostError (HostPolicies × PolicyRefresh) :=
  match s.entries b.app with
  | none => .error (.unavailable "workflow host policy has no entry for this app")
  | some e =>
    if e.generation ≠ b.generation then
      .error (.unavailable "workflow host policy binding superseded by a newer generation")
    else match e.current with
      | none => .error (.unavailable "workflow host policy is not installed")
      | some c => match checkedSucc c.ticketSequence with
        | none => .error (unavailable "no installed policy for this binding")
        | some ticket =>
          .ok (s.setEntry b.app { e with current := some { c with ticketSequence := ticket, ticket := some ticket } },
            ⟨b, ticket⟩)

def revoke : Except HostError HostPolicies :=
  match s.entry b with
  | none => .error (unavailable "no installed policy for this binding")
  | some e => .ok (s.setEntry b.app { e with current := none })

/-- What installing a snapshot makes of the current one, in an entry whose installs so far
reached `highWater`. -/
def supersede (highWater : Option (Int × AppPolicy)) (c : Current) (snapshot : PolicySnapshot) :
    Except HostError Current :=
  if ∃ high ∈ highWater, snapshot.revision < high.1 ∨ snapshot.revision = high.1 ∧ snapshot.policy ≠ high.2 then
    .error conflict
  else match c.snapshot with
    | none => .ok { c with snapshot := some snapshot }
    | some previous =>
      if (previous.validity = .configuration) ≠ (snapshot.validity = .configuration) then .error conflict
      else if previous.retires snapshot then
        match checkedSucc c.epoch with
        | none => .error (unavailable "no installed policy for this binding")
        | some number => .ok { c with snapshot := some snapshot, epoch := number }
      else .ok { c with snapshot := some snapshot }

/-- A refusal after the ticket was found leaves it spent. -/
def install (r : PolicyRefresh) (snapshot : PolicySnapshot) : HostPolicies × Except HostError Unit :=
  match s.entry r.binding with
  | none => (s, .error (unavailable "no installed policy for this binding"))
  | some e => match e.current with
    | none => (s, .error (unavailable "no installed policy for this binding"))
    | some c =>
      if c.ticket ≠ some r.ticket then (s, .error (unavailable "refresh ticket superseded by a newer refresh"))
      else
        let spent := { c with ticket := none }
        match supersede e.highWater spent snapshot with
        | .error error => (s.setEntry r.binding.app { e with current := some spent }, .error error)
        | .ok next =>
          (s.setEntry r.binding.app { e with highWater := some (snapshot.revision, snapshot.policy), current := some next },
            .ok ())

def authorityAt (now : Nat) : Except HostError PolicyAuthority :=
  match s.current b with
  | none => .error (unavailable "no installed policy for this binding")
  | some c => match c.snapshot with
    | none => .error (unavailable "no installed policy for this binding")
    | some snapshot => do
      let deadline ← liveDeadline snapshot.validity now
      pure ⟨b, snapshot.revision, c.epoch, deadline, snapshot.policy, snapshot.ingressEpoch⟩

end HostPolicies

variable (a : PolicyAuthority)

def PolicyAuthority.expired (now : Nat) : Prop := ∃ deadline ∈ a.deadline, deadline ≤ now

instance (a : PolicyAuthority) (now : Nat) : Decidable (a.expired now) := inferInstanceAs (Decidable (∃ _ ∈ _, _))

/-- Whether a capture still authorizes work. -/
def PolicyAuthority.check (s : HostPolicies) (now : Nat) : Except HostError Unit :=
  if a.expired now then .error leaseExpired
  else match s.current a.binding with
    | none => .error (unavailable "no installed policy for this binding")
    | some c => match c.snapshot with
      | none => .error (unavailable "no installed policy for this binding")
      | some snapshot =>
        if c.epoch ≠ a.epoch ∨ snapshot.revision ≠ a.revision then
          .error (unavailable "installed policy moved to another epoch or revision")
        else do
          let _ ← liveDeadline snapshot.validity now
          if a.expired now then .error leaseExpired else .ok ()

structure Host where
  now : Nat
  policies : HostPolicies

inductive HostInput
  | pass (time : Nat)
  | bind (app : AppId)
  | beginRefresh (b : PolicyBinding)
  | install (r : PolicyRefresh) (snapshot : PolicySnapshot)
  | revoke (b : PolicyBinding)
  | capture (b : PolicyBinding)
  | check (a : PolicyAuthority)

inductive HostEvent
  | bound (b : PolicyBinding)
  | began (r : PolicyRefresh)
  | installed (app : AppId) (revision : Int) (policy : AppPolicy)
  | revoked (b : PolicyBinding)
  | captured (a : PolicyAuthority)
  | passed (a : PolicyAuthority)
  | failed (a : PolicyAuthority)
deriving DecidableEq

/-- The calls of a host in the order in which they take the registry's lock. A binding, a
refresh or a capture may be used by any number of holders at any time. -/
def policyHost : Machine Host HostInput HostEvent where
  step s
    | .pass time => some ({ s with now := s.now + time }, [])
    | .bind app => match s.policies.bind app with
      | .ok (policies, b) => some ({ s with policies }, [.bound b])
      | .error _ => some (s, [])
    | .beginRefresh b => match s.policies.beginRefresh b with
      | .ok (policies, r) => some ({ s with policies }, [.began r])
      | .error _ => some (s, [])
    | .install r snapshot => match s.policies.install r snapshot with
      | (policies, .ok _) => some ({ s with policies }, [.installed r.binding.app snapshot.revision snapshot.policy])
      | (policies, .error _) => some ({ s with policies }, [])
    | .revoke b => match s.policies.revoke b with
      | .ok policies => some ({ s with policies }, [.revoked b])
      | .error _ => some (s, [])
    | .capture b => match s.policies.authorityAt b s.now with
      | .ok a => some (s, [.captured a])
      | .error _ => some (s, [])
    | .check a => match a.check s.policies s.now with
      | .ok _ => some (s, [.passed a])
      | .error _ => some (s, [.failed a])

end Zeroship.Authority
