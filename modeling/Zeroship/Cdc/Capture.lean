import Zeroship.Base.Lists
import Zeroship.Cdc.Subscription

/-! Changes captured from a SQLite connection.

One hook buffers each row change before it is made, one ships the buffer as a packet when a
transaction commits, and one clears it on a rollback. Whether the changes of a route are
delivered is asked once, when the packet is made. The publisher finds the names of the columns
and gives the sink one event for each change. -/
namespace Zeroship.Cdc

open Base (orderedSet)

/-- A cell as SQLite hands it over. A real number, a text and a blob are given by the string
that they are printed as. -/
inductive ValueRef
  | null
  | integer (n : Int)
  | real (printed : String)
  | text (lossy : String)
  | blob (base64 : String)

def valueToString : ValueRef → Option String
  | .null => none
  | .integer n => some (toString n)
  | .real printed => some printed
  | .text lossy => some lossy
  | .blob base64 => some base64

/-- A column that the accessor cannot read is treated as null. -/
def materialise (cells : List (Option ValueRef)) : List (Option String) :=
  cells.map fun cell => cell.bind valueToString

/-- The columns of the row after the change, before it, or both. -/
inductive PreUpdateCase
  | insert (new : List (Option ValueRef))
  | delete (old : List (Option ValueRef))
  | update (old new : List (Option ValueRef))
  | unknown

namespace PreUpdateCase

def op : PreUpdateCase → ChangeOp
  | .insert _ => .insert
  | .delete _ => .delete
  | .update _ _ | .unknown => .update

def newRow : PreUpdateCase → Option (List (Option ValueRef))
  | .insert new | .update _ new => some new
  | .delete _ | .unknown => none

def oldRow : PreUpdateCase → Option (List (Option ValueRef))
  | .delete old | .update old _ => some old
  | .insert _ | .unknown => none

end PreUpdateCase

/-- A change to one row of a table in the database with the given alias. -/
structure RowChange where
  (dbName table : String)
  case : PreUpdateCase
  known : case ≠ .unknown

structure PendingEvent where
  op : ChangeOp
  dbName : String
  /-- Filled when the transaction commits. -/
  route : DbRoute
  table : String
  (newValues oldValues : Option (List (Option String)))
deriving DecidableEq

inductive DeliveryDisposition
  | deliver | suppressed | schemaPending
deriving DecidableEq

structure DispositionedEvent where
  event : PendingEvent
  disposition : DeliveryDisposition

structure CommitPacket where
  events : List DispositionedEvent
  commitId : Nat

def DbRoute.platform (tenant : String) : DbRoute := ⟨tenant, none⟩

variable (session : Session) (dbName table : String)

def isFilteredRelation : Bool := "sqlite_".toList.isPrefixOf table.toList

def preupdateCallback (case : PreUpdateCase) (buffer : List PendingEvent) :
    List PendingEvent :=
  if isFilteredRelation table then buffer
  else if dbName = "main" then buffer
  else match case with
    | .insert new => buffer ++ [⟨.insert, dbName, .platform "", table, some (materialise new), none⟩]
    | .delete old => buffer ++ [⟨.delete, dbName, .platform "", table, none, some (materialise old)⟩]
    | .update old new =>
      buffer ++ [⟨.update, dbName, .platform "", table, some (materialise new), some (materialise old)⟩]
    | .unknown => buffer

instance : Ord DbRoute := ⟨fun a b => (compare a.appId b.appId).then (compare a.database b.database)⟩

/-- What the hook reads while a transaction commits: the routes recorded for an alias, and
the sink, whose answer may change from one time it is asked to the next. -/
structure CommitView where
  recorded : List (String × DbRoute)
  disposition : Nat → DbRoute → DeliveryDisposition

namespace CommitView

def routesForAlias (view : CommitView) (dbName : String) : List DbRoute :=
  orderedSet ((view.recorded.filter (·.1 = dbName)).map (·.2))

/-- One event for each route that is bound to the alias. -/
def expand (view : CommitView) (event : PendingEvent) : List PendingEvent :=
  (view.routesForAlias event.dbName).map fun route => {event with route}

/-- The sink is asked once for each route. -/
def stamp (view : CommitView) : List (DbRoute × DeliveryDisposition) → List PendingEvent → List DispositionedEvent
  | _, [] => []
  | sampled, event :: rest =>
    match sampled.lookup event.route with
    | some d => ⟨event, d⟩ :: view.stamp sampled rest
    | none =>
      let d := view.disposition sampled.length event.route
      ⟨event, d⟩ :: view.stamp ((event.route, d) :: sampled) rest

end CommitView

/-- The state that the hooks share. -/
structure Dispatcher where
  buffer : List PendingEvent
  commitId : Nat

namespace Dispatcher

variable (d : Dispatcher)

def preupdate (c : RowChange) : Dispatcher :=
  {d with buffer := preupdateCallback c.dbName c.table c.case d.buffer}

def commitCallback (view : CommitView) (d : Dispatcher) : Dispatcher × Option CommitPacket :=
  if d.buffer.isEmpty then (d, none)
  else
    let id := (d.commitId + 1) % 2 ^ 64
    (⟨[], id⟩, some ⟨view.stamp [] (d.buffer.flatMap view.expand), id⟩)

def rollbackCallback : Dispatcher := {d with buffer := []}

end Dispatcher

variable (view : CommitView)

theorem mem_routesForAlias (dbName : String) (route : DbRoute) :
    route ∈ view.routesForAlias dbName ↔ (dbName, route) ∈ view.recorded := by
  simp [CommitView.routesForAlias]

variable (events : List PendingEvent)

theorem stamp_answers (sampled : List (DbRoute × DeliveryDisposition)) :
    ∃ answer : DbRoute → DeliveryDisposition, (∀ route d, sampled.lookup route = some d → answer route = d) ∧
      view.stamp sampled events = events.map fun e => ⟨e, answer e.route⟩ := by
  induction events generalizing sampled with
  | nil => exact ⟨fun route => (sampled.lookup route).getD .deliver, fun route d h => by simp [h], rfl⟩
  | cons e rest ih =>
    cases hl : sampled.lookup e.route with
    | some d =>
      obtain ⟨answer, hk, hr⟩ := ih sampled
      exact ⟨answer, hk, by simp [CommitView.stamp, hl, hr, hk e.route d hl]⟩
    | none =>
      obtain ⟨answer, hk, hr⟩ :=
        ih ((e.route, view.disposition sampled.length e.route) :: sampled)
      have hn : answer e.route = view.disposition sampled.length e.route := hk _ _ (by simp)
      refine ⟨answer, ?_, by simp [CommitView.stamp, hl, hr, hn]⟩
      intro route d hrt
      apply hk
      have hne : (route == e.route) = false := by
        rw [beq_eq_false_iff_ne]
        intro heq
        rw [heq, hl] at hrt
        cases hrt
      rw [List.lookup_cons, hne]
      exact hrt

theorem stamp_events : (view.stamp [] events).map (·.event) = events := by
  obtain ⟨answer, -, hs⟩ := stamp_answers view events []
  simp [hs, Function.comp_def]

/-! ### The publisher -/

/-- The rows that the session answers a query with, if it does. -/
abbrev Session := String → Option (List (List (Option String)))

/-- The columns of a table in order, and its primary key if that is a single column. -/
abbrev Columns := List String × Option String

def quoteIdent (name : String) : String := "\"" ++ name.replace "\"" "\"\"" ++ "\""

def fetchSchemaVersion : Option String :=
  (session ("PRAGMA " ++ quoteIdent dbName ++ ".schema_version")).bind fun rows =>
    rows.head?.bind fun row => row.head?.join

def fetchColumnNames : Option Columns :=
  (session ("PRAGMA " ++ quoteIdent dbName ++ ".table_info(" ++ quoteIdent table ++ ")")).map fun rows =>
    let name (row : List (Option String)) := row[1]?.join.getD ""
    let keys := (rows.filter fun row => row[5]?.join.any (· ≠ "0")).map name
    (rows.map name, if keys.length = 1 then keys.getLast? else none)

/-- A column without a name is called by its position, and one that is null is left out. -/
def tupleFromPositional (names : List String) (values : List (Option String)) : Tuple :=
  values.zipIdx.foldl (fun out cell => match cell.1 with
    | none => out
    | some v =>
      let key := names[cell.2]?.getD ("c" ++ toString cell.2)
      out.filter (·.1 ≠ key) ++ [(key, v)]) []

structure Publisher where
  nameCache : List ((String × String) × Columns)
  schemaVersions : List (String × String)

namespace Publisher

/-- The names of a database whose schema has changed are forgotten. -/
def checkVersion (p : Publisher) (session : Session) (dbName : String) : Publisher :=
  match fetchSchemaVersion session dbName with
  | none => p
  | some version =>
    let changed := (p.schemaVersions.lookup dbName).any (· ≠ version)
    ⟨if changed then p.nameCache.filter (·.1.1 ≠ dbName) else p.nameCache,
      (dbName, version) :: p.schemaVersions.filter (·.1 ≠ dbName)⟩

def resolve (p : Publisher) (session : Session) (dbName table : String) : Columns × Publisher :=
  match p.nameCache.lookup (dbName, table) with
  | some columns => (columns, p)
  | none =>
    let columns := (fetchColumnNames session dbName table).getD ([], none)
    (columns, {p with nameCache := ((dbName, table), columns) :: p.nameCache})

end Publisher

def PendingEvent.decode (pending : PendingEvent) (columns : Columns) : ChangeEvent :=
  let newTuple := (pending.newValues.map (tupleFromPositional columns.1)).getD []
  let oldTuple := pending.oldValues.map (tupleFromPositional columns.1)
  { route := pending.route
    collection := pending.table
    op := pending.op
    pk := columns.2.bind fun key => (newTuple.lookup key).or (oldTuple.bind (·.lookup key))
    changedColumns := if pending.op = .delete then [] else newTuple.map (·.1)
    newTuple
    oldTuple }

/-- The events of a packet that are to be delivered, one after the other. The session may
answer differently for each; its version is asked for once per database. -/
def publishAll (session : Nat → Session) : Publisher → List String → List PendingEvent → Publisher × List ChangeEvent
  | p, _, [] => (p, [])
  | p, checked, pending :: rest =>
    let p := if pending.dbName ∈ checked then p else p.checkVersion (session 0) pending.dbName
    let (columns, p) := p.resolve (session 0) pending.dbName pending.table
    let (p, events) := publishAll (fun n => session (n + 1)) p (pending.dbName :: checked) rest
    (p, pending.decode columns :: events)

/-- One round of the publisher's loop. -/
def publishPacket (session : Nat → Session) (p : Publisher) (packet : CommitPacket) : Publisher × List ChangeEvent :=
  publishAll session p [] ((packet.events.filter (·.disposition = .deliver)).map (·.event))

/-- The publisher gives the sink one event for each it delivers, in order. -/
theorem publishAll_decodes (session : Nat → Session) (p : Publisher) (checked : List String)
    (delivered : List PendingEvent) :
    List.Forall₂ (fun pending event => ∃ columns, event = PendingEvent.decode pending columns) delivered
      (publishAll session p checked delivered).2 := by
  induction delivered generalizing session p checked with
  | nil => exact .nil
  | cons pending rest ih => exact .cons ⟨_, rfl⟩ (ih ..)

theorem publishPacket_routes (d : Dispatcher) (packet : CommitPacket) (h : (d.commitCallback view).2 = some packet) :
    ∃ deliver : DbRoute → Bool, ∀ session p,
      List.Forall₂ (fun pending event => ∃ columns, event = PendingEvent.decode pending columns)
        ((packet.events.map (·.event)).filter fun e => deliver e.route) (publishPacket session p packet).2 := by
  obtain ⟨answer, -, hs⟩ := stamp_answers view (d.buffer.flatMap view.expand) []
  have he : packet.events = (d.buffer.flatMap view.expand).map fun e => ⟨e, answer e.route⟩ := by
    unfold Dispatcher.commitCallback at h
    split at h
    · cases h
    · rw [← Option.some.inj h]
      exact hs
  refine ⟨fun route => answer route = .deliver, fun session p => ?_⟩
  have hd : (packet.events.map (·.event)).filter (fun e => answer e.route = .deliver) =
      (packet.events.filter (·.disposition = .deliver)).map (·.event) := by
    simp [he, List.filter_map, Function.comp_def]
  rw [hd]
  exact publishAll_decodes ..

end Zeroship.Cdc
