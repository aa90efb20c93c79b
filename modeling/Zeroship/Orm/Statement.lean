import Zeroship.Orm.Storage

/-! Statements, and what the database makes of them.

A row is what its columns hold. A statement after which two rows would have one key fails and
changes nothing. Whatever a statement does, a row afterwards is a row from before, a row it
inserted or a row it rewrote; `Came` lists the ways, and `mem_run` is the one lemma about running
a statement that the invariants of rows need. -/
namespace Zeroship.Orm

abbrev Row := String → Value

/-- A predicate of a query, resolved against the columns. -/
abbrev Filter := Row → Bool

inductive Expression
  | null | default
  | bind (v : Value)
  | incoming (column : Column)
  | currentTimestamp
  | databaseTimestamp (offsetMicros : Int)
  | increment (column : Column) (step : Int)
  | arithmetic (operator : ArithmeticOperator) (column : Column) (operand : Value)
  | arrayMutation (operator : ArrayOperator) (column : Column) (operand : Value)

abbrev SetList := List (Column × Expression)

/-- Every row that matches, or the one with the least identity. -/
inductive MutationScope
  | first | matching
deriving DecidableEq

inductive Statement
  | insert (rows : List SetList)
  | update (scope : MutationScope) (predicate : Filter) (set : SetList)
  /-- The condition is the identity that a conflicting row must have to be rewritten. -/
  | upsert (insert : SetList) (conflict : List Column) (update : SetList) (condition : Option Value) (doNothing : Bool)
  | delete (scope : MutationScope) (predicate : Filter)

def SetList.columns (set : SetList) : List String := set.map (·.1.name)

section
variable (B : Backend)

def Expression.insertable (column : Column) : Expression → Bool
  | bind v => v ≠ .null ∧ column.storage.accepts B v
  | null | default => true
  | _ => false

def Expression.settable (column : Column) : Expression → Bool
  | bind v => v ≠ .null ∧ column.storage.accepts B v
  | null => true
  | currentTimestamp | databaseTimestamp _ => column.storage = .timestamp
  | increment other _ => other = column ∧ column.storage = .integer
  | arithmetic _ other operand => other = column ∧ column.storage.numeric ∧ column.storage.accepts B operand
  | arrayMutation _ other operand => other = column ∧ column.storage = .json ∧ StorageType.accepts B .json operand
  | default | incoming _ => false

/-- The assignments of a conflict update. -/
def Expression.mergeable (column : Column) : Expression → Bool
  | bind v => v ≠ .null ∧ column.storage.accepts B v
  | null | default => true
  | incoming other => other.storage = column.storage
  | currentTimestamp | databaseTimestamp _ => column.storage = .timestamp
  | increment other _ => other = column ∧ column.storage = .integer
  | arithmetic _ _ _ | arrayMutation _ _ _ => false

variable (key : String)

/-- A statement for one row goes by the column `id`. -/
def validateScope (scope : MutationScope) : Except DbError Unit :=
  Base.demand (scope = .first → key = "id") (.invalidStatement "first-row mutation requires the id column")

def validateStatement : Statement → Except DbError Unit
  | .insert rows => do
    Base.demand (rows ≠ [] ∧ ∀ row ∈ rows, row ≠ []) (.invalidStatement "insert requires columns and rows")
    Base.demand (∀ row ∈ rows, row.columns.Nodup) (.invalidStatement "duplicate insert column")
    Base.demand (∀ row ∈ rows, ∀ p ∈ row, p.2.insertable B p.1) (.invalidStatement "invalid insert expression")
  | .update scope _ set => do
    Base.demand (set ≠ []) (.invalidStatement "update requires assignments")
    Base.demand set.columns.Nodup (.invalidStatement "column is assigned more than once")
    Base.demand (∀ p ∈ set, p.2.settable B p.1) (.invalidStatement "invalid update expression")
    validateScope key scope
  | .upsert insert conflict update condition doNothing => do
    Base.demand (insert ≠ [] ∧ conflict ≠ []) (.invalidStatement "upsert requires insert values and a conflict target")
    Base.demand (doNothing ∨ update ≠ []) (.invalidStatement "upsert requires an update or do-nothing conflict")
    Base.demand (doNothing → update = [] ∧ condition = none)
      (.invalidStatement "a do-nothing conflict takes no update assignments or condition")
    Base.demand (insert.columns.Nodup ∧ update.columns.Nodup) (.invalidStatement "column is assigned more than once")
    Base.demand (∀ p ∈ insert, p.2.insertable B p.1) (.invalidStatement "invalid insert expression")
    Base.demand (∀ p ∈ update, p.2.mergeable B p.1) (.invalidStatement "invalid conflict expression")
    Base.demand (conflict.map (·.name)).Nodup (.invalidStatement "duplicate conflict column")
  | .delete scope _ => validateScope key scope

/-- What a column is set to, from the row before and the row that was to be inserted. -/
def Expression.eval (now : Int) (old fresh : Row) (column : Column) : Expression → Value
  | null => .null
  | default => old column.name
  | bind v => column.storage.kept B v
  | incoming other => fresh other.name
  | currentTimestamp => .timestampMicros now
  | databaseTimestamp offset => .timestampMicros (now + offset)
  | increment other step => B.arithmetic .add (old other.name) (.number step)
  | arithmetic operator other operand => B.arithmetic operator (old other.name) operand
  | arrayMutation operator other operand => B.arrayMutation operator (old other.name) operand

/-- A row with some columns set. -/
def assign (now : Int) (old fresh : Row) (set : SetList) : Row := fun column =>
  match set.find? (·.1.name = column) with
  | some (c, e) => e.eval B now old fresh c
  | none => old column

/-- A new row: what the document gives, and the database's defaults elsewhere. -/
def newRow (now : Int) (defaults : Row) (values : SetList) : Row := assign B now defaults defaults values

/-- No two rows have one key. -/
def Keyed (rows : List Row) : Prop := rows.Pairwise fun r r' => B.same key (r key) (r' key) = false

instance (key : String) (rows : List Row) : Decidable (Keyed B key rows) :=
  inferInstanceAs (Decidable (rows.Pairwise fun r r' => B.same key (r key) (r' key) = false))

structure Table (key : String) where
  rows : List Row
  keyed : Keyed B key rows

/-- The least of some identities. -/
def least : List Value → Option Value
  | [] => none
  | v :: rest =>
    match least rest with
    | none => some v
    | some w => if B.precedes v w then some v else some w

/-- The identity of the row that a statement for one row is about. -/
def target (rows : List Row) (predicate : Filter) : Option Value :=
  least B ((rows.filter predicate).map (· key))

def inScope (rows : List Row) (scope : MutationScope) (predicate : Filter) (row : Row) : Bool :=
  match scope with
  | .matching => predicate row
  | .first =>
    match target B key rows predicate with
    | some id => B.same key (row key) id
    | none => false

/-- A row stands in the way of one that is to be inserted. -/
def conflicts (conflict : List Column) (fresh row : Row) : Bool :=
  conflict.all fun c => row c.name ≠ .null && fresh c.name ≠ .null && B.same c.name (row c.name) (fresh c.name)

/-- The identity of the row is the expected one. -/
def meets (condition : Option Value) (row : Row) : Bool :=
  condition.all fun id => B.same key (row key) id

def rewriteFirst (p : Row → Bool) (f : Row → Row) : List Row → List Row
  | [] => []
  | r :: rest => if p r then f r :: rest else r :: rewriteFirst p f rest

/-- The rows after a statement, and how many it returned. The defaults are those of the
database at that moment, one row of them for each row inserted. -/
def runRows (now : Int) (defaults : Nat → Row) (rows : List Row) : Statement → List Row × Nat
  | .insert values => (rows ++ values.mapIdx fun i v => newRow B now (defaults i) v, values.length)
  | .update scope predicate set =>
    (rows.map fun r => if inScope B key rows scope predicate r then assign B now r r set else r,
      rows.countP (inScope B key rows scope predicate))
  | .upsert insert conflict update condition doNothing =>
    let fresh := newRow B now (defaults 0) insert
    match rows.find? (conflicts B conflict fresh) with
    | none => (rows ++ [fresh], 1)
    | some row =>
      if doNothing || !meets B key condition row then (rows, 0)
      else (rewriteFirst (conflicts B conflict fresh) (fun r => assign B now r fresh update) rows, 1)
  | .delete scope predicate =>
    (rows.filter fun r => !inScope B key rows scope predicate r, rows.countP (inScope B key rows scope predicate))

def run {key : String} (now : Int) (defaults : Nat → Row) (table : Table B key) (statement : Statement) :
    Option (Table B key × Nat) :=
  let after := runRows B key now defaults table.rows statement
  if h : Keyed B key after.1 then some (⟨after.1, h⟩, after.2) else none

/-! ### How a row comes about -/

variable {B} {old fresh : Row} {set : SetList} {id : Value}

theorem assign_of_mem {now : Int} {c : Column} {e : Expression}
    (hn : set.columns.Nodup) (h : (c, e) ∈ set) : assign B now old fresh set c.name = e.eval B now old fresh c := by
  have hf : set.find? (·.1.name = c.name) = some (c, e) := by
    rw [List.find?_eq_some_iff_append]
    obtain ⟨before, after, rfl⟩ := List.append_of_mem h
    refine ⟨by simp, before, after, rfl, fun other ho => ?_⟩
    rw [SetList.columns, List.map_append, List.nodup_append] at hn
    have hne := hn.2.2 other.1.name (List.mem_map_of_mem ho) c.name (by simp)
    simpa using hne
  simp only [assign, hf]

theorem assign_of_not_mem {now : Int} {column : String}
    (h : column ∉ set.columns) : assign B now old fresh set column = old column := by
  have hf : set.find? (·.1.name = column) = none := by
    rw [List.find?_eq_none]
    intro p hp heq
    exact h (List.mem_map.mpr ⟨p, hp, by simpa using heq⟩)
  simp only [assign, hf]

theorem least_some {ids : List Value} (h : least B ids = some id) :
    id ∈ ids ∧ ∀ other ∈ ids, B.precedes id other := by
  induction ids generalizing id with
  | nil => cases h
  | cons v rest ih =>
    have hsl : B.precedes v v = true := (B.precedes_total v v).elim (fun h => h) fun h => h
    unfold least at h
    cases hr : least B rest with
    | none =>
      rw [hr] at h
      cases h
      have hn : rest = [] := by
        cases rest with
        | nil => rfl
        | cons w tail =>
          unfold least at hr
          split at hr <;> (try split at hr) <;> cases hr
      subst hn
      exact ⟨List.mem_cons_self, by simpa using hsl⟩
    | some w =>
      rw [hr] at h
      obtain ⟨hw, hl⟩ := ih hr
      by_cases hvw : B.precedes v w
      · obtain rfl : v = id := by simpa [hvw] using h
        refine ⟨List.mem_cons_self, fun other ho => ?_⟩
        rcases List.mem_cons.mp ho with rfl | ho
        · exact hsl
        · exact B.precedes_trans _ _ _ hvw (hl other ho)
      · obtain rfl : w = id := by simpa [hvw] using h
        refine ⟨List.mem_cons_of_mem _ hw, fun other ho => ?_⟩
        rcases List.mem_cons.mp ho with rfl | ho
        · exact (B.precedes_total w other).resolve_right hvw
        · exact hl other ho

variable {key : String} {now : Int} {defaults : Nat → Row} {rows : List Row} {predicate : Filter} {row : Row}
  {r : Row} {statement : Statement}

theorem target_some (h : target B key rows predicate = some id) : (∃ r ∈ rows, predicate r ∧ r key = id) ∧
      ∀ r ∈ rows, predicate r → B.precedes id (r key) := by
  obtain ⟨hmm, hl⟩ := least_some h
  obtain ⟨r, hr, hid⟩ := List.mem_map.mp hmm
  obtain ⟨hr, hp⟩ := List.mem_filter.mp hr
  refine ⟨⟨r, hr, hp, hid⟩, fun other ho hm => ?_⟩
  exact hl _ (List.mem_map_of_mem (List.mem_filter.mpr ⟨ho, hm⟩))

theorem Keyed.eq (h : Keyed B key rows) {r' : Row} (hr : r ∈ rows) (hr' : r' ∈ rows)
    (hsm : B.same key (r key) (r' key)) : r = r' := by
  by_contra hne
  have : Std.Symm fun r r' : Row => B.same key (r key) (r' key) = false := ⟨fun a b hab => by
    cases hba : B.same key (b key) (a key) with
    | false => rfl
    | true => rw [B.same_symm _ _ _ hba] at hab; cases hab⟩
  rw [List.Pairwise.forall h hr hr' hne] at hsm
  cases hsm

theorem matches_of_inScope (h : Keyed B key rows) {scope : MutationScope} (hrw : row ∈ rows)
    (hs : inScope B key rows scope predicate row) : predicate row := by
  cases scope with
  | matching => exact hs
  | first =>
    simp only [inScope] at hs
    cases ht : target B key rows predicate with
    | none => simp [ht] at hs
    | some id =>
      rw [ht] at hs
      obtain ⟨⟨r, hr, hp, rfl⟩, _⟩ := target_some ht
      obtain rfl := h.eq hrw hr hs
      exact hp

/-- How a row comes about in a statement. -/
inductive Came (key : String) (now : Int) (defaults : Nat → Row) (rows : List Row) : Statement → Row → Prop
  | kept {statement : Statement} {r : Row} (old : r ∈ rows) : Came key now defaults rows statement r
  | inserted {values : List SetList} {v : SetList} {i : Nat} (given : v ∈ values) :
      Came key now defaults rows (.insert values) (newRow B now (defaults i) v)
  | updated {scope : MutationScope} {predicate : Filter} {set : SetList} {r : Row} (old : r ∈ rows)
      (matches_ : predicate r) : Came key now defaults rows (.update scope predicate set) (assign B now r r set)
  | upserted {insert update : SetList} {conflict : List Column} {condition : Option Value} {doNothing : Bool} :
      Came key now defaults rows (.upsert insert conflict update condition doNothing) (newRow B now (defaults 0) insert)
  | merged {insert update : SetList} {conflict : List Column} {condition : Option Value} {r : Row} (old : r ∈ rows)
      (conflicting : conflicts B conflict (newRow B now (defaults 0) insert) r)
      (expected : meets B key condition r) :
      Came key now defaults rows (.upsert insert conflict update condition false)
        (assign B now r (newRow B now (defaults 0) insert) update)

theorem mem_rewriteFirst {p : Row → Bool} {f : Row → Row} (h : r ∈ rewriteFirst p f rows) :
    r ∈ rows ∨ ∃ old, rows.find? p = some old ∧ r = f old := by
  induction rows with
  | nil => cases h
  | cons first rest ih =>
    unfold rewriteFirst at h
    by_cases hp : p first
    · rw [if_pos hp] at h
      rcases List.mem_cons.mp h with rfl | h
      · exact .inr ⟨first, by simp [hp], rfl⟩
      · exact .inl (List.mem_cons_of_mem _ h)
    · rw [if_neg hp] at h
      rcases List.mem_cons.mp h with rfl | h
      · exact .inl List.mem_cons_self
      · rcases ih h with h | ⟨old, ho, hr⟩
        · exact .inl (List.mem_cons_of_mem _ h)
        · exact .inr ⟨old, by simp [hp, ho], hr⟩

theorem mem_runRows (hk : Keyed B key rows)
    (h : row ∈ (runRows B key now defaults rows statement).1) : Came (B := B) key now defaults rows statement row := by
  cases statement with
  | insert values =>
    rcases List.mem_append.mp h with h | h
    · exact .kept h
    · obtain ⟨i, hi, rfl⟩ := List.mem_mapIdx.mp h
      exact .inserted (List.getElem_mem hi)
  | update scope predicate set =>
    obtain ⟨r, hr, rfl⟩ := List.mem_map.mp h
    by_cases hs : inScope B key rows scope predicate r
    · rw [if_pos hs]
      exact .updated hr (matches_of_inScope hk hr hs)
    · rw [if_neg hs]
      exact .kept hr
  | upsert insert conflict update condition doNothing =>
    simp only [runRows] at h
    cases hf : rows.find? (conflicts B conflict (newRow B now (defaults 0) insert)) with
    | none =>
      rw [hf] at h
      rcases List.mem_append.mp h with h | h
      · exact .kept h
      · rw [List.mem_singleton.mp h]
        exact .upserted
    | some old =>
      simp only [hf] at h
      by_cases hsk : (doNothing || !meets B key condition old)
      · rw [if_pos hsk] at h
        exact .kept h
      rw [if_neg hsk] at h
      simp only [Bool.or_eq_true, Bool.not_eq_true', not_or, Bool.not_eq_true, Bool.not_eq_false] at hsk
      obtain ⟨rfl, hm⟩ := hsk
      rcases mem_rewriteFirst h with h | ⟨old', ho', rfl⟩
      · exact .kept h
      · obtain rfl := Option.mem_unique hf ho'
        exact .merged (List.mem_of_find?_eq_some hf) (List.find?_some hf) hm
  | delete scope predicate => exact .kept (List.mem_filter.mp h).1

theorem mem_run {table table' : Table B key} {n : Nat}
    (h : run B now defaults table statement = some (table', n)) (hr : row ∈ table'.rows) :
    Came (B := B) key now defaults table.rows statement row := by
  simp only [run] at h
  split_ifs at h with hk
  cases h
  exact mem_runRows table.keyed hr

end

end Zeroship.Orm
