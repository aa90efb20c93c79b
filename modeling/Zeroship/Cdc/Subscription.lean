import Zeroship.Cdc.ReadSet

/-! Subscriptions: which changes they take, and the bounded queue they wait in.

When the queue is full it is emptied and a single request to resync takes the place of
what was in it. Until that request is taken out, what still does not fit is dropped. -/
namespace Zeroship.Cdc

/-- An application, and which of its databases. -/
structure DbRoute where
  appId : String
  database : Option String
deriving DecidableEq

inductive ChangeOp
  | insert | update | delete
deriving DecidableEq

structure ChangeEvent where
  route : DbRoute
  collection : String
  op : ChangeOp
  pk : Option String
  changedColumns : List String
  /-- The row after the change, or the one that was deleted; nothing if there is no image. -/
  newTuple : Tuple
  /-- The row before an update. -/
  oldTuple : Option Tuple

inductive SubscriptionMessage (α : Type)
  | change (event : α)
  | resync | closed
deriving DecidableEq

/-- The messages that wait for a subscriber. -/
structure Inbox (α : Type) where
  queue : List (SubscriptionMessage α)
  maxQueue : Nat
  closed : Bool
  /-- A resync for an overflow is waiting. -/
  resyncPending : Bool

namespace Inbox
variable {α : Type}

def new (maxQueue : Nat) : Inbox α := ⟨[], maxQueue, false, false⟩

variable (s : Inbox α)

def push (msg : SubscriptionMessage α) : Inbox α :=
  if s.closed then s
  else if s.maxQueue ≤ s.queue.length then
    if s.resyncPending then s else {s with queue := [.resync], resyncPending := true}
  else {s with queue := s.queue ++ [msg]}

/-- The first message, if there is one. A resync that is taken out is no longer pending. -/
def pop : Option (SubscriptionMessage α) × Inbox α :=
  match s.queue with
  | [] => (none, s)
  | .resync :: rest => (some .resync, {s with queue := rest, resyncPending := false})
  | msg :: rest => (some msg, {s with queue := rest})

def close : Inbox α :=
  if s.closed then s else {s with closed := true, queue := s.queue ++ [.closed]}

end Inbox

structure Subscription where
  id : Nat
  route : DbRoute
  collection : String
  inbox : Inbox ChangeEvent
  /-- What narrows the subscription; without it, it takes every change of its collection. -/
  readSet : Option (List ReadSetEntry)

namespace Subscription

def new (id : Nat) (route : DbRoute) (collection : String) (maxQueue : Nat) : Subscription :=
  ⟨id, route, collection, .new maxQueue, none⟩

def setReadSet (s : Subscription) (entries : List ReadSetEntry) : Subscription := {s with readSet := some entries}

/-- Does the entry take the event? Without an image it has to. -/
def takes (event : ChangeEvent) (entry : ReadSetEntry) : Bool :=
  entry.collection = event.collection &&
    ((event.newTuple.isEmpty && event.oldTuple.isNone) || entry.matches event.newTuple ||
      event.oldTuple.any fun old => entry.matches old)

def accepts (s : Subscription) (event : ChangeEvent) : Bool :=
  match s.readSet with
  | none => true
  | some entries => entries.any (takes event)

end Subscription

end Zeroship.Cdc
