import Zeroship.Cdc.Narrowing

/-! The events of a mutation, on a backend that does not publish its own.

Each row that the statement returned becomes an event: at once, or when its transaction
commits. The event carries the row as it is after the change and no row from before it. A
subscription narrowed by equalities is woken by a row that still satisfies them, and not by
one that leaves its view. -/
namespace Zeroship.Cdc
open List

/-- What emission reads and writes: routes whose changes come another way, the
subscriptions, the events of open transactions, and those given to the broker. -/
structure Hub where
  suppressed : DbRoute → Bool
  subscriptions : List Subscription
  pendingEmits : DbRoute → List ChangeEvent
  published : List ChangeEvent

namespace Hub

variable (h : Hub) (route : DbRoute) (collection : String)

def hasSubscribers : Bool :=
  h.subscriptions.any fun s => s.route = route && s.collection = collection

variable (event : ChangeEvent)

/-- A subscription on the event's collection that accepts it gets it. -/
def deliver (s : Subscription) : Subscription :=
  if s.route = event.route && s.collection = event.collection && s.accepts event
  then {s with inbox := s.inbox.push (.change event)} else s

def publish : Hub :=
  {h with subscriptions := h.subscriptions.map (deliver event), published := h.published ++ [event]}

def emitLocal (op : ChangeOp) (pk : Option String)
    (changedColumns : List String) (newTuple : Tuple) : Hub :=
  if h.suppressed route then h else h.publish ⟨route, collection, op, pk, changedColumns, newTuple, none⟩

def pushPendingEmit : Hub :=
  {h with pendingEmits := Function.update h.pendingEmits route (h.pendingEmits route ++ [event])}

def queueOrEmit (inTx : Bool) (collection : String) (op : ChangeOp) (pk : Option String)
    (changedColumns : List String) (newTuple : Tuple) : Hub :=
  if !inTx then h.emitLocal route collection op pk changedColumns newTuple
  else h.pushPendingEmit route ⟨route, collection, op, pk, changedColumns, newTuple, none⟩

end Hub

def valueToLogicalId : Value → Option String
  | .string s => some s
  | .number n => some (valueToText (.number n))
  | _ => none

variable (n : Int) (json : Value → String)

/-- The text of a returned value, where `json` prints what is not a scalar. -/
def tupleText : Value → String
  | .string s => s
  | .null => "NULL"
  | .number n => valueToText (.number n)
  | .bool b => valueToText (.bool b)
  | value => json value

/-- The columns and the image of a returned row. -/
def rowImage : Value → List String × Tuple
  | .object fields => (fields.map Prod.fst, fields.map fun f => (f.1, tupleText json f.2))
  | _ => ([], [])

def rowId : Value → Option String
  | .object fields => (fields.lookup "id").bind valueToLogicalId
  | _ => none

namespace Hub

def emitForRows (json : Value → String) (rows : List Value) (route : DbRoute) (inTx backendPublishes : Bool)
    (collection : String) (op : ChangeOp) (h : Hub) : Hub :=
  if rows.isEmpty then h
  else if backendPublishes then h
  else if h.suppressed route || !h.hasSubscribers route collection then h
  else rows.foldl (fun h row =>
    h.queueOrEmit route inTx collection op (rowId row) (rowImage json row).1 (rowImage json row).2) h

/-- The events of a transaction that committed. -/
def drainPendingEmitsOnCommit (h : Hub) (route : DbRoute) : Hub :=
  (h.pendingEmits route).foldl
    (fun h e => h.emitLocal e.route e.collection e.op e.pk e.changedColumns e.newTuple)
    {h with pendingEmits := Function.update h.pendingEmits route []}

end Hub

def eventOf (route : DbRoute) (collection : String) (op : ChangeOp) (row : Value) : ChangeEvent :=
  ⟨route, collection, op, rowId row, (rowImage json row).1, (rowImage json row).2, none⟩

namespace Hub
variable {json : Value → String} {rows : List Value} {route : DbRoute} {collection : String} {op : ChangeOp} {h : Hub}

@[simp] theorem publish_suppressed (event : ChangeEvent) : (h.publish event).suppressed = h.suppressed := rfl
@[simp] theorem publish_published (event : ChangeEvent) : (h.publish event).published = h.published ++ [event] := rfl

/-- The event as it is published: no image from before. -/
def forget (e : ChangeEvent) : ChangeEvent := {e with oldTuple := none}

theorem published_foldl (events : List ChangeEvent) :
    (events.foldl (fun h e => h.emitLocal e.route e.collection e.op e.pk e.changedColumns e.newTuple) h).published =
      h.published ++ (events.filter fun e => !h.suppressed e.route).map forget := by
  induction events generalizing h with
  | nil => simp
  | cons e rest ih =>
    rw [foldl_cons, filter_cons]
    by_cases hr : h.suppressed e.route
    · rw [emitLocal, if_pos hr, ih, if_neg (by simpa using hr)]
    have he : h.emitLocal e.route e.collection e.op e.pk e.changedColumns e.newTuple = h.publish (forget e) := by
      rw [emitLocal, if_neg hr]
      rfl
    rw [he, ih, if_pos (by simpa using hr), publish_published, publish_suppressed, map_cons,
      append_assoc, singleton_append]

section
variable (hrows : rows ≠ []) (hsuppressed : h.suppressed route = false) (hsubs : h.hasSubscribers route collection)
include hrows hsuppressed hsubs

theorem emitForRows_eq (inTx : Bool) : h.emitForRows json rows route inTx false collection op = rows.foldl (fun h row =>
      h.queueOrEmit route inTx collection op (rowId row) (rowImage json row).1 (rowImage json row).2) h := by
  rw [emitForRows, if_neg (by simpa using hrows), if_neg (by simp), if_neg (by simp [hsuppressed, hsubs])]

theorem published_autocommit : (h.emitForRows json rows route false false collection op).published =
      h.published ++ rows.map (eventOf json route collection op) := by
  have he := published_foldl (h := h) (rows.map (eventOf json route collection op))
  have hk : ((rows.map (eventOf json route collection op)).filter fun e => !h.suppressed e.route).map forget =
      rows.map (eventOf json route collection op) := by
    rw [filter_eq_self.mpr (by simp [eventOf, hsuppressed]), map_map]
    rfl
  rw [hk, foldl_map] at he
  rw [emitForRows_eq hrows hsuppressed hsubs]
  exact he

theorem pendingEmits_inTx : (h.emitForRows json rows route true false collection op).pendingEmits route =
      h.pendingEmits route ++ rows.map (eventOf json route collection op) := by
  rw [emitForRows_eq hrows hsuppressed hsubs]
  clear hrows hsuppressed hsubs
  induction rows generalizing h with
  | nil => simp
  | cons row rest ih =>
    rw [foldl_cons, ih]
    simp [queueOrEmit, pushPendingEmit, eventOf]

end

theorem published_commit : (h.drainPendingEmitsOnCommit route).published =
    h.published ++ ((h.pendingEmits route).filter fun e => !h.suppressed e.route).map forget :=
  published_foldl _

end Hub

/-- Equalities of unmasked columns with integers, and nothing else. -/
structure IntegerEqualities (schema : FieldMap) (fields : List (String × Value)) : Prop where
  column : ∀ f ∈ fields, f.1.toList.head? ≠ some '$' ∧ ¬ isTimestampColumn schema f.1
  unmasked : ∀ f ∈ fields, maskKindForColumn schema f.1 = none
  equality : ∀ f ∈ fields, ∀ entry ∈ f.2.operators, entry.1 = "$eq" ∧ ∃ n, entry.2 = .number (.int n)

variable (fields record : List (String × Value))

/-- The record has the integer that each equality asks for. -/
def Selects : Prop :=
  ∀ f ∈ fields, ∀ entry ∈ f.2.operators, ∀ n, entry.2 = .number (.int n) → record.lookup f.1 = some (.number (.int n))

/-- The columns of the filter hold integers or nothing. -/
def IntegerColumns : Prop :=
  ∀ f ∈ fields, ∀ v, record.lookup f.1 = some v → v = .null ∨ ∃ n, v = .number (.int n)

section
variable {schema : FieldMap} {fields : List (String × Value)} {p : Predicate}

/-- The integer of an equality. -/
def operandOf : Value → Int
  | .number (.int n) => n
  | _ => 0

def equality (column : String) (entry : String × Value) : Conjunct := ⟨column, .eq, .number (.int (operandOf entry.2))⟩

theorem normalise_equalities (h : IntegerEqualities schema fields) : normaliseFilter (.object fields) schema =
      some ⟨(fields.map fun f => f.2.operators.map (equality f.1)).flatten⟩ := by
  have hfl : ∀ f ∈ fields, normaliseField schema f = some (f.2.operators.map (equality f.1)) := by
    intro f hf
    obtain ⟨hk, ht⟩ := h.column f hf
    rw [normaliseField_eq hk ht, h.unmasked f hf]
    refine Base.mapM_eq_some_map fun entry he => ?_
    obtain ⟨heq, n, hn⟩ := h.equality f hf entry he
    simp [normaliseOperator, heq, hn, predicateOp, Value.toScalar, lowerOperand, equality, operandOf]
  simp [normaliseFilter, Base.mapM_eq_some_map hfl]

theorem matches_equalities (h : IntegerEqualities schema fields)
    (hp : normaliseFilter (.object fields) schema = some p) {row : Tuple} :
    p.matches row ↔ ∀ f ∈ fields, ∀ entry ∈ f.2.operators, ∀ n, entry.2 = .number (.int n) →
      row.lookup f.1 = some (toString n) := by
  rw [normalise_equalities h] at hp
  cases hp
  simp only [Predicate.matches, all_eq_true, mem_flatten, mem_map]
  constructor
  · intro ha f hf entry he n hn
    have hm := ha (equality f.1 entry) ⟨_, ⟨f, hf, rfl⟩, mem_map_of_mem he⟩
    rw [equality, hn] at hm
    cases hr : row.lookup f.1 with
    | none => simp [Conjunct.matchesText, hr] at hm
    | some actual =>
      have heq : toString n = actual := by simpa [Conjunct.matchesText, hr, operandOf, valueToText] using hm
      rw [heq]
  · rintro ha c ⟨_, ⟨f, hf, rfl⟩, hc⟩
    obtain ⟨entry, he, rfl⟩ := mem_map.mp hc
    obtain ⟨-, n, hn⟩ := h.equality f hf entry he
    simp [Conjunct.matchesText, equality, hn, ha f hf entry he n hn, operandOf, valueToText]

theorem lookup_rowImage (json : Value → String) (record : List (String × Value)) (column : String) :
    (rowImage json (.object record)).2.lookup column = (record.lookup column).map (tupleText json) := by
  induction record with
  | nil => rfl
  | cons f rest ih =>
    obtain ⟨name, value⟩ := f
    simp only [rowImage, map_cons, lookup_cons] at ih ⊢
    split
    · rfl
    · exact ih

theorem toString_ne_null (n : Int) : toString n ≠ "NULL" := by
  intro h
  have hp := Base.parseDouble_toString n
  rw [h] at hp
  revert hp
  rw [(by decide +kernel : Base.parseDouble "NULL" = none)]
  simp

theorem matches_rowImage (json : Value → String) (h : IntegerEqualities schema fields)
    (hp : normaliseFilter (.object fields) schema = some p) {record : List (String × Value)}
    (hr : IntegerColumns fields record) : p.matches (rowImage json (.object record)).2 ↔ Selects fields record := by
  rw [matches_equalities h hp]
  refine forall₂_congr fun f hf => forall₂_congr fun entry _ => forall₂_congr fun n hn => ?_
  rw [lookup_rowImage]
  cases hl : record.lookup f.1 with
  | none => simp
  | some v =>
    rcases hr f hf v hl with rfl | ⟨m, rfl⟩
    · simpa [tupleText] using (toString_ne_null n).symm
    · simp only [Option.map_some, tupleText, valueToText, Option.some.injEq, Value.number.injEq, Number.int.injEq]
      exact Int.repr_inj

end

/-! ### Rows that leave the view -/

section
variable (json : Value → String) {schema : FieldMap} {fields new : List (String × Value)} {s : Subscription}
  {route : DbRoute} {collection : String}

/-- The event of a row wakes a subscription to equalities if the row, as it is after the
change, satisfies them, or has no columns. -/
theorem accepts_eventOf (hf : IntegerEqualities schema fields)
    (hr : s.readSet = some [readSetEntry collection (.object fields) schema]) (hn : IntegerColumns fields new)
    {op : ChangeOp} : s.accepts (eventOf json route collection op (.object new)) ↔ Selects fields new ∨ new = [] := by
  have hp := normalise_equalities hf
  rw [← matches_rowImage json hf hp hn]
  simp only [Subscription.accepts, hr, List.any_cons, List.any_nil, Bool.or_false, Subscription.takes, readSetEntry,
    hp, ReadSetEntry.matches, eventOf, Option.isNone_none, Option.any_none, Bool.and_true, decide_true, Bool.true_and,
    Bool.or_eq_true, List.isEmpty_iff]
  rw [or_comm]
  refine or_congr Iff.rfl ?_
  show new.map _ = [] ↔ new = []
  exact List.map_eq_nil_iff

/-- The event of an updated row is published at once or when the transaction commits. Whatever
the row was before, it wakes the subscription just if the row satisfies the equalities now,
or was returned without columns. -/
theorem leaving_row_wakes_iff {h : Hub} {rows : List Value} (hfilter : IntegerEqualities schema fields)
    (hs : s ∈ h.subscriptions) (hroute : s.route = route) (hcollection : s.collection = collection)
    (hread : s.readSet = some [readSetEntry collection (.object fields) schema])
    (hsuppressed : h.suppressed route = false) (hrow : .object new ∈ rows) (hnew : IntegerColumns fields new) :
    let e := eventOf json route collection .update (.object new)
    e ∈ (h.emitForRows json rows route false false collection .update).published ∧
    e ∈ (h.emitForRows json rows route true false collection .update).pendingEmits route ∧
    (∀ h' : Hub, h'.suppressed route = false → e ∈ h'.pendingEmits route →
      e ∈ (h'.drainPendingEmitsOnCommit route).published) ∧
    (s.accepts e ↔ Selects fields new ∨ new = []) := by
  have hrows : rows ≠ [] := ne_nil_of_mem hrow
  have hsubs : h.hasSubscribers route collection := by
    refine any_eq_true.mpr ⟨s, hs, ?_⟩
    simp [hroute, hcollection]
  refine ⟨?_, ?_, fun h' hs' he => ?_, accepts_eventOf json hfilter hread hnew⟩
  · rw [Hub.published_autocommit hrows hsuppressed hsubs]
    exact mem_append_right _ (mem_map_of_mem hrow)
  · rw [Hub.pendingEmits_inTx hrows hsuppressed hsubs]
    exact mem_append_right _ (mem_map_of_mem hrow)
  · rw [Hub.published_commit]
    refine mem_append_right _ (mem_map.mpr ⟨_, mem_filter.mpr ⟨he, ?_⟩, rfl⟩)
    simpa [eventOf] using hs'

end

/-- The rows whose status is one. -/
def statusOne : List (String × Value) := [("status", .number (.int 1))]

def withStatus : List (String × Value) := [("id", .number (.int 7)), ("status", .number (.int n))]

def statusSchema : FieldMap := [("id", ⟨.integer, none⟩), ("status", ⟨.integer, none⟩)]

def statusSubscription : Subscription :=
  (Subscription.new 1 ⟨"app", none⟩ "jobs" 1024).setReadSet [readSetEntry "jobs" (.object statusOne) statusSchema]

/-- No route is suppressed, and one subscription waits. -/
def statusHub : Hub := ⟨fun _ => false, [statusSubscription], fun _ => [], []⟩

theorem equalities_statusOne : IntegerEqualities statusSchema statusOne where
  column := List.forall_mem_singleton.mpr ⟨by decide, by decide⟩
  unmasked := List.forall_mem_singleton.mpr rfl
  equality := List.forall_mem_singleton.mpr (List.forall_mem_singleton.mpr ⟨rfl, 1, rfl⟩)

theorem integer_withStatus : IntegerColumns statusOne (withStatus n) := by
  refine forall_mem_singleton.mpr fun v hv => .inr ⟨n, ?_⟩
  exact (Option.some.inj hv).symm

theorem selects_withStatus : Selects statusOne (withStatus n) ↔ n = 1 := by
  simp [Selects, statusOne, withStatus, Value.operators, lookup]

/-- A printer that prints nothing: no value of these rows needs one. -/
def noJson : Value → String := fun _ => ""

/-- A row whose status goes from one to two leaves the view, and nobody is told. -/
theorem leaving_row_is_lost : Selects statusOne (withStatus 1) ∧
    (statusHub.emitForRows noJson [.object (withStatus 2)] ⟨"app", none⟩ false false "jobs" .update).published =
      [eventOf noJson ⟨"app", none⟩ "jobs" .update (.object (withStatus 2))] ∧
    statusSubscription.accepts (eventOf noJson ⟨"app", none⟩ "jobs" .update (.object (withStatus 2))) = false := by
  refine ⟨(selects_withStatus 1).mpr rfl, Hub.published_autocommit (by simp) rfl rfl, ?_⟩
  rw [← Bool.not_eq_true, accepts_eventOf noJson equalities_statusOne rfl (integer_withStatus 2),
    selects_withStatus]
  simp [withStatus]

/-- A row that keeps its status wakes the subscription. -/
theorem kept_row_wakes :
    statusSubscription.accepts (eventOf noJson ⟨"app", none⟩ "jobs" .update (.object (withStatus 1))) := by
  have hs := (selects_withStatus 1).mpr rfl
  have hr : Value.object (withStatus 1) ∈ [Value.object (withStatus 1)] := .head _
  obtain ⟨-, -, -, ha⟩ := leaving_row_wakes_iff noJson (h := statusHub) equalities_statusOne (.head _)
    rfl rfl rfl rfl hr (integer_withStatus 1)
  exact ha.mpr (.inl hs)

end Zeroship.Cdc
