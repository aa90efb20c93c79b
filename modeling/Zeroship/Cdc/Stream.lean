import Zeroship.Cdc.Capture

/-! The change stream against what a transaction commits.

The hooks hear of a row change, of a commit and of a full rollback, and of no savepoint. So a
packet holds every change that was made in its transaction, and is what the transaction commits
exactly when none of them was undone by a rollback to a savepoint. -/
namespace Zeroship.Cdc
open List Dispatcher

open Base (nodup_orderedSet)

/-- A transaction as SQLite keeps it: the changes made in it, each with whether a rollback
to a savepoint has undone it, and the open savepoints, the last first, with how many
changes were made before each. -/
structure Transaction where
  made : List (RowChange × Bool)
  savepoints : List (String × Nat)
  /-- It was begun by a savepoint, and the release of that savepoint commits it. -/
  bySavepoint : Bool

inductive Statement
  | begin
  | write (changes : List RowChange)
  | savepoint (name : String)
  | rollbackTo (name : String)
  | release (name : String)
  | commit | rollback

/-- How a statement leaves the transaction. -/
inductive Boundary
  | none
  | committed (t : Transaction)
  | rolledBack

namespace Transaction

def new : Transaction := ⟨[], [], false⟩

variable (t : Transaction)

def write (changes : List RowChange) : Transaction :=
  {t with made := t.made ++ changes.map (·, false)}

def undoFrom (n : Nat) : List (RowChange × Bool) :=
  t.made.take n ++ (t.made.drop n).map fun m => (m.1, true)

/-- The savepoints from the last one with this name on. -/
def since (name : String) : List (String × Nat) := t.savepoints.dropWhile (·.1 ≠ name)

/-- The changes that no rollback to a savepoint has undone. -/
def surviving : List RowChange := (t.made.filter fun m => !m.2).map (·.1)

end Transaction

/-- What SQLite does with a statement. Without a transaction, a write is one by itself and a
savepoint begins one; a statement that names no open savepoint or needs a transaction that
is not there does nothing. -/
def execute : Option Transaction → Statement → Option Transaction × Boundary
  | none, .begin => (some .new, .none)
  | none, .write changes => (none, .committed (Transaction.new.write changes))
  | none, .savepoint name => (some ⟨[], [(name, 0)], true⟩, .none)
  | none, _ => (none, .none)
  | some t, .begin => (some t, .none)
  | some t, .write changes => (some (t.write changes), .none)
  | some t, .savepoint name => (some {t with savepoints := (name, t.made.length) :: t.savepoints}, .none)
  | some t, .rollbackTo name =>
    match t.since name with
    | [] => (some t, .none)
    | (top, n) :: rest => (some {t with made := t.undoFrom n, savepoints := (top, n) :: rest}, .none)
  | some t, .release name =>
    match t.since name with
    | [] => (some t, .none)
    | _ :: rest =>
      if rest.isEmpty && t.bySavepoint then (none, .committed {t with savepoints := []})
      else (some {t with savepoints := rest}, .none)
  | some t, .commit => (none, .committed t)
  | some _, .rollback => (none, .rolledBack)

def Statement.changes : Statement → List RowChange
  | .write changes => changes
  | _ => []

structure Connection where
  transaction : Option Transaction
  dispatcher : Dispatcher

namespace Connection

/-- The hooks are installed on a connection that was just opened. -/
def install : Connection := ⟨none, ⟨[], 0⟩⟩

variable (c : Connection)

/-- A statement runs, and the hooks hear of its changes and of the end of the transaction. -/
def step (view : CommitView) (statement : Statement) : Connection × Option CommitPacket :=
  let (transaction, boundary) := execute c.transaction statement
  let dispatcher := statement.changes.foldl Dispatcher.preupdate c.dispatcher
  match boundary with
  | .none => (⟨transaction, dispatcher⟩, none)
  | .rolledBack => (⟨transaction, dispatcher.rollbackCallback⟩, none)
  | .committed _ =>
    let (dispatcher, packet) := dispatcher.commitCallback view
    (⟨transaction, dispatcher⟩, packet)

def run (history : List (CommitView × Statement)) : Connection :=
  history.foldl (fun c s => (c.step s.1 s.2).1) c

end Connection

/-! ### What the buffer holds -/

namespace RowChange

/-- A change to a table of an attached database that is not one of SQLite's own. -/
def Streamed (c : RowChange) : Prop := ¬ "sqlite_".toList <+: c.table.toList ∧ c.dbName ≠ "main"

instance (c : RowChange) : Decidable c.Streamed := inferInstanceAs (Decidable (_ ∧ _))

/-- The change as it is published on a route. -/
def event (c : RowChange) (route : DbRoute) : PendingEvent :=
  ⟨c.case.op, c.dbName, route, c.table, c.case.newRow.map materialise, c.case.oldRow.map materialise⟩

end RowChange

variable (changes : List RowChange)

/-- What the hooks buffer of some changes. -/
def captured : List PendingEvent :=
  (changes.filter (·.Streamed)).map (·.event (.platform ""))

theorem captured_append (as bs : List RowChange) : captured (as ++ bs) = captured as ++ captured bs := by
  simp [captured]

theorem preupdate_buffer (d : Dispatcher) (c : RowChange) : (d.preupdate c).buffer = d.buffer ++ captured [c] := by
  obtain ⟨dbName, table, case, known⟩ := c
  by_cases hs : (RowChange.mk dbName table case known).Streamed
  · have hf : isFilteredRelation table = false := by
      rw [isFilteredRelation, ← Bool.not_eq_true, isPrefixOf_iff_prefix]
      exact hs.1
    have hm : dbName ≠ "main" := hs.2
    cases case with
    | unknown => exact absurd rfl known
    | insert | delete | update =>
      simp [preupdate, preupdateCallback, hf, hm, captured, hs, RowChange.event,
        PreUpdateCase.op, PreUpdateCase.newRow, PreUpdateCase.oldRow]
  · have hsk : isFilteredRelation table ∨ dbName = "main" := by
      rw [isFilteredRelation, isPrefixOf_iff_prefix]
      by_contra hnt
      exact hs (not_or.mp hnt)
    have hn : captured [⟨dbName, table, case, known⟩] = [] := by simp [captured, hs]
    rw [hn, append_nil]
    show preupdateCallback dbName table case d.buffer = d.buffer
    rcases hsk with h | h <;> simp [preupdateCallback, h]

theorem preupdates_buffer (d : Dispatcher) :
    (changes.foldl preupdate d).buffer = d.buffer ++ captured changes := by
  induction changes generalizing d with
  | nil => simp [captured]
  | cons c rest ih =>
    rw [foldl_cons, ih, preupdate_buffer, append_assoc, ← captured_append]
    rfl

/-- The changes made in a transaction, undone or not. -/
def madeIn : Option Transaction → List RowChange
  | none => []
  | some t => t.made.map (·.1)

theorem map_fst_undoFrom (t : Transaction) (n : Nat) : (t.undoFrom n).map (·.1) = t.made.map (·.1) := by
  simp [Transaction.undoFrom, Function.comp_def]

/-- A statement adds its changes to those of the transaction, and only the end of the
transaction takes any away. -/
theorem execute_made (tx : Option Transaction) (statement : Statement) :
    match (execute tx statement).2 with
    | .none => madeIn (execute tx statement).1 = madeIn tx ++ statement.changes
    | .committed t => t.made.map (·.1) = madeIn tx ++ statement.changes ∧ (execute tx statement).1 = none
    | .rolledBack => (execute tx statement).1 = none := by
  cases tx with
  | none => cases statement <;> simp [execute, madeIn, Statement.changes, Transaction.new, Transaction.write, Function.comp_def]
  | some t =>
    cases statement with
    | rollbackTo name =>
      cases h : t.since name with
      | nil => simp [execute, h, madeIn, Statement.changes]
      | cons top rest => simp [execute, h, madeIn, Statement.changes, map_fst_undoFrom]
    | release name =>
      cases h : t.since name with
      | nil => simp [execute, h, madeIn, Statement.changes]
      | cons top rest =>
        cases he : rest.isEmpty && t.bySavepoint <;> simp [execute, h, he, madeIn, Statement.changes]
    | begin | savepoint | commit | rollback => simp [execute, madeIn, Statement.changes]
    | write changes => simp [execute, madeIn, Statement.changes, Transaction.write, Function.comp_def]

/-- The buffer holds the changes of the open transaction, whatever was undone since. -/
def Connection.Tracks (c : Connection) : Prop := c.dispatcher.buffer = captured (madeIn c.transaction)

variable {c : Connection} {view : CommitView} {statement : Statement}

theorem Connection.Tracks.step (h : c.Tracks) (view : CommitView) (statement : Statement) :
    (c.step view statement).1.Tracks := by
  have hbf := preupdates_buffer statement.changes c.dispatcher
  rw [h, ← captured_append] at hbf
  have hm := execute_made c.transaction statement
  unfold Connection.Tracks Connection.step
  cases hb : (execute c.transaction statement).2 with
  | none =>
    rw [hb] at hm
    simpa [hb, hm] using hbf
  | rolledBack =>
    rw [hb] at hm
    simp [hb, hm, madeIn, captured, rollbackCallback]
  | committed t =>
    rw [hb] at hm
    simp only [hb, hm.2, commitCallback]
    split
    · rename_i he
      simpa [madeIn, captured] using he
    · simp [madeIn, captured]

theorem tracks_run (history : List (CommitView × Statement)) : (Connection.install.run history).Tracks := by
  have ha : ∀ c : Connection, c.Tracks → (c.run history).Tracks := by
    induction history with
    | nil => exact fun c h => h
    | cons s rest ih => exact fun c h => ih _ (h.step s.1 s.2)
  exact ha .install rfl

/-! ### What a packet holds -/

/-- The events of a packet on one route. -/
def contents (packet : Option CommitPacket) (route : DbRoute) : List PendingEvent :=
  match packet with
  | none => []
  | some p => (p.events.map (·.event)).filter (·.route = route)

theorem expand_route (view : CommitView) (c : RowChange) (start route : DbRoute) :
    (view.expand (c.event start)).filter (·.route = route) =
      if (c.dbName, route) ∈ view.recorded then [c.event route] else [] := by
  have he (r : DbRoute) : {c.event start with route := r} = c.event r := rfl
  have hf : (view.expand (c.event start)).filter (·.route = route) =
      ((view.routesForAlias c.dbName).filter (· = route)).map c.event := by
    simp only [CommitView.expand, he, filter_map]
    rfl
  rw [hf, filter_eq]
  by_cases hb : (c.dbName, route) ∈ view.recorded
  · have hc : (view.routesForAlias c.dbName).count route = 1 :=
      count_eq_one_of_mem (nodup_orderedSet _) ((mem_routesForAlias ..).mpr hb)
    rw [hc, if_pos hb]
    rfl
  · rw [count_eq_zero_of_not_mem (mt (mem_routesForAlias ..).mp hb), if_neg hb]
    rfl

theorem captured_route (view : CommitView) (made : List RowChange) (route : DbRoute) :
    ((captured made).flatMap view.expand).filter (·.route = route) =
      (made.filter fun c => c.Streamed ∧ (c.dbName, route) ∈ view.recorded).map (·.event route) := by
  induction made with
  | nil => rfl
  | cons c rest ih =>
    rw [← singleton_append, captured_append, flatMap_append, filter_append, ih, filter_append, map_append]
    by_cases hs : c.Streamed
    · have hc : captured [c] = [c.event (.platform "")] := by simp [captured, hs]
      rw [hc, flatMap_singleton, expand_route]
      split <;> simp [*]
    · simp [captured, hs]

/-- What is shipped when a transaction commits is every change that was made in it. -/
theorem contents_committed (view : CommitView) (d : Dispatcher) (made : List RowChange) (h : d.buffer = captured made)
    (route : DbRoute) : contents (d.commitCallback view).2 route =
      (made.filter fun c => c.Streamed ∧ (c.dbName, route) ∈ view.recorded).map (·.event route) := by
  rw [← captured_route, ← h]
  unfold commitCallback
  cases hb : d.buffer with
  | nil => rfl
  | cons e rest =>
    show ((view.stamp [] _).map (·.event)).filter _ = _
    rw [stamp_events]

/-- Of the changes with some property, all survive exactly when none of them was undone. -/
theorem surviving_eq_made_iff (t : Transaction) (p : RowChange → Bool) (f : RowChange → PendingEvent) :
    ((t.made.map (·.1)).filter p).map f = (t.surviving.filter p).map f ↔ ∀ m ∈ t.made, m.2 → p m.1 = false := by
  have hs : t.surviving.filter p = ((t.made.filter fun m => p m.1).filter fun m => !m.2).map (·.1) := by
    rw [Transaction.surviving, filter_map, filter_filter, filter_filter]
    simp only [Function.comp_def, Bool.and_comm]
  have hmd : (t.made.map (·.1)).filter p = (t.made.filter fun m => p m.1).map (·.1) := filter_map ..
  rw [hs, hmd]
  constructor
  · intro heq m hm hu
    -- the survivors are a sublist of what was made, so they are all of it once they are as many
    have hl := congrArg length heq
    simp only [length_map] at hl
    have ha := length_filter_eq_length_iff.mp hl.symm
    by_contra hp
    have := ha m (mem_filter.mpr ⟨hm, by simpa using hp⟩)
    simp [hu] at this
  · intro hn
    have ha : ((t.made.filter fun m => p m.1).filter fun m => !m.2) = t.made.filter fun m => p m.1 := by
      apply filter_eq_self.mpr
      intro m hm
      obtain ⟨hm, hp⟩ := mem_filter.mp hm
      cases hu : m.2 with
      | false => rfl
      | true =>
        rw [hn m hm hu] at hp
        cases hp
    rw [ha]

theorem step_committed {t : Transaction} (h : (execute c.transaction statement).2 = .committed t) :
    (c.step view statement).2 = ((statement.changes.foldl preupdate c.dispatcher).commitCallback view).2 := by
  simp [Connection.step, h]

theorem committed_of_packet {packet : CommitPacket} (h : (c.step view statement).2 = some packet) :
    ∃ t, (execute c.transaction statement).2 = .committed t ∧
      ((statement.changes.foldl preupdate c.dispatcher).commitCallback view).2 = some packet := by
  cases hb : (execute c.transaction statement).2 with
  | none | rolledBack => simp [Connection.step, hb] at h
  | committed t => exact ⟨t, rfl, (step_committed hb).symm.trans h⟩

/-- Of what a transaction changed in the tables of attached databases, a packet holds for
each bound route, in order, what was not undone, if and only if no change on a bound route
was undone by a rollback to a savepoint. Whether the changes of a route are published was
settled for all of them when the transaction committed. Nothing is shipped unless a
transaction commits. -/
theorem change_stream_exact_iff (history : List (CommitView × Statement)) (view : CommitView) (statement : Statement) :
    let c := Connection.install.run history
    let packet := (c.step view statement).2
    let boundary := (execute c.transaction statement).2
    (∀ t, boundary = .committed t →
      ((∀ route, contents packet route =
          (t.surviving.filter fun c => c.Streamed ∧ (c.dbName, route) ∈ view.recorded).map (·.event route)) ↔
        ∀ m ∈ t.made, m.2 → m.1.Streamed → ∀ route, (m.1.dbName, route) ∉ view.recorded)) ∧
    (∀ shipped, packet = some shipped →
      (∃ t, boundary = .committed t) ∧
      ∃ deliver : DbRoute → Bool, ∀ (session : Nat → Session) (p : Publisher),
        List.Forall₂ (fun pending event => ∃ columns, event = PendingEvent.decode pending columns)
          ((shipped.events.map (·.event)).filter fun e => deliver e.route) (publishPacket session p shipped).2) := by
  intro c packet boundary
  constructor
  · intro t ht
    have hb := preupdates_buffer statement.changes c.dispatcher
    rw [tracks_run history, ← captured_append] at hb
    have hmd := execute_made c.transaction statement
    rw [show (execute c.transaction statement).2 = .committed t from ht] at hmd
    rw [← hmd.1] at hb
    have he (route : DbRoute) := surviving_eq_made_iff t
      (fun c => c.Streamed ∧ (c.dbName, route) ∈ view.recorded) (·.event route)
    simp only [packet, step_committed ht, contents_committed view _ _ hb, he]
    constructor
    · intro h m hm hu hs route hbn
      simpa [hs, hbn] using h route m hm hu
    · intro h route m hm hu
      have hun : m.1.Streamed → (m.1.dbName, route) ∉ view.recorded := fun hs => h m hm hu hs route
      simpa using hun
  · intro shipped hsh
    obtain ⟨t, ht, hp⟩ := committed_of_packet hsh
    exact ⟨⟨t, ht⟩, publishPacket_routes view _ shipped hp⟩

/-- An order is written, a second one inside a savepoint that is then rolled back to. -/
def orderHistory (view : CommitView) (first second : RowChange) : List (CommitView × Statement) :=
  [(view, .begin), (view, .write [first]), (view, .savepoint "zs_sp_1"), (view, .write [second]),
    (view, .rollbackTo "zs_sp_1")]

def insertedOrder (id : Int) : RowChange := ⟨"shop", "orders", .insert [some (.integer id)], nofun⟩

def shopRoute : DbRoute := ⟨"app", some "shop"⟩

def shopView : CommitView := ⟨[("shop", shopRoute)], fun _ _ => .deliver⟩

/-- The order that was rolled back is in the packet of the transaction. -/
theorem undone_change_is_shipped :
    let c := Connection.install.run (orderHistory shopView (insertedOrder 1) (insertedOrder 2))
    contents (c.step shopView .commit).2 shopRoute =
        [(insertedOrder 1).event shopRoute, (insertedOrder 2).event shopRoute] ∧
      ∃ t, (execute c.transaction .commit).2 = .committed t ∧ t.surviving = [insertedOrder 1] := by
  constructor
  · decide +kernel
  · exact ⟨⟨[(insertedOrder 1, false), (insertedOrder 2, true)], [("zs_sp_1", 1)], false⟩, rfl, rfl⟩

end Zeroship.Cdc
