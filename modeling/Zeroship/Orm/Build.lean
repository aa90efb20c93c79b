import Zeroship.Orm.Documents
import Zeroship.Orm.Statement

/-! From a protected document or patch to a statement.

Each name a document still has is resolved to its column; what the caller gave, what the
database computes and what the platform assigns are put into one list. The lemmas say of each
list which column is set to what. -/
namespace Zeroship.Orm
open Base List

section
variable (B : Backend) (S : CollectionSchema)

def valueColumnForField (field : String) : String :=
  ((S.fields.lookup field).map (·.valueColumnOf field)).getD field

def keyColumn : String := valueColumnForField S "id"

variable {S} (T : ResolvedTable S)

def ResolvedTable.column (name : String) : Except DbError Column :=
  match T.inputs.find? (·.2.column.name = name) with
  | some (_, input) => .ok input.column
  | none => .error .undeclaredInput

def bindValue (storage : StorageType) (v : Value) : Except DbError Expression :=
  if v = .null then .ok .null else (storage.encode B v).map .bind

/-- The item of an input: its value, or the default if another document of the batch names it. -/
def itemOf (mentioned : String → Bool) (doc : Doc) (p : String × PhysicalInput) :
    Except DbError (Option (Column × Expression)) :=
  match doc p.1 with
  | some v => (bindValue B p.2.column.storage v).map fun e => some (p.2.column, e)
  | none => .ok (if mentioned p.1 then some (p.2.column, .default) else none)

def valuesOf (mentioned : String → Bool) (doc : Doc) : Except DbError SetList := do
  let items ← T.inputs.mapM (itemOf B mentioned doc)
  pure items.reduceOption

def insertStatement (docs : List Doc) : Except DbError Statement := do
  let rows ← docs.mapM (valuesOf B T fun name => docs.any fun doc => (doc name).isSome)
  let statement := Statement.insert rows
  validateStatement B (keyColumn S) statement
  pure statement

variable (doc : Doc)

/-- The documents have values under the same names. -/
def sameNames (doc' : Doc) : Bool := T.inputs.all fun p => (doc p.1).isSome = (doc' p.1).isSome

def maxInsertManyBatch : Nat := 1000

/-- One statement if the database has a default expression, and else one for each run of
documents with the same names. -/
def insertStatements (defaultExpression : Bool) (docs : List Doc) : Except DbError (List Statement) := do
  demand (docs.length ≤ maxInsertManyBatch) (.invalidStatement "insertMany exceeds the batch limit")
  demand (docs ≠ []) (.invalidStatement "insert requires at least one document")
  if defaultExpression then
    let statement ← insertStatement B T docs
    pure [statement]
  else (docs.splitBy (sameNames T)).mapM (insertStatement B T)

def operationItem (a : PatchAssignment) : Except DbError (Column × Expression) :=
  match T.inputs.lookup a.field with
  | none => .error .undeclaredInput
  | some input =>
    match a.operator.arithmetic?, a.operator.array? with
    | some operator, _ => do
      let operand ← input.column.storage.encode B a.operand
      pure (input.column, .arithmetic operator input.column operand)
    | none, some operator => do
      demand (input.column.storage = .json) (.invalidStatement "array operation requires array storage")
      let operand ← StorageType.encode B .json a.operand
      pure (input.column, .arrayMutation operator input.column operand)
    | none, none => do
      let e ← bindValue B input.column.storage a.operand
      pure (input.column, e)

def expressionItem (e : String × Int) : Except DbError (Column × Expression) :=
  match T.inputs.lookup e.1 with
  | none => .error .undeclaredInput
  | some input => .ok (input.column, .databaseTimestamp e.2)

/-- The expression of an assignment. -/
def generatedExpression (column : Column) : AssignedValue → Except DbError Expression
  | .currentTimestamp => .ok .currentTimestamp
  | .increment step => .ok (.increment column step)
  | .bound v => bindValue B column.storage v

def generatedItem (g : String × AssignedValue) : Except DbError (Column × Expression) := do
  let column ← T.column g.1
  let e ← generatedExpression B column g.2
  pure (column, e)

def resolveGenerated (generated : List (String × AssignedValue)) : Except DbError SetList :=
  generated.mapM (generatedItem B T)

/-- The list of an update, from the patch with its values as they were placed. -/
def resolveAssignments (patch : Patch) (placed : Doc) (generated : List (String × AssignedValue)) :
    Except DbError SetList := do
  let operations ← patch.operations.mapM (operationItem B T)
  let values ← valuesOf B T (fun _ => false) placed
  let expressions ← patch.expressions.mapM (expressionItem T)
  let assigned ← resolveGenerated B T generated
  pure (operations ++ values ++ expressions ++ assigned)

variable (S) in
def updateStatement (scope : MutationScope) (predicate : Filter) (set : SetList) : Except DbError Statement := do
  let statement := Statement.update scope predicate set
  validateStatement B (keyColumn S) statement
  pure statement

/-- Sets what deletion or restoration assigns, in the rows that it is not yet true of. -/
def lifecycle (scope : MutationScope) (predicate : Filter) (marker : String) (matchDeleted : Bool)
    (generated : List (String × AssignedValue)) : Except DbError Statement := do
  let column ← T.column (valueColumnForField S marker)
  let set ← resolveGenerated B T generated
  updateStatement B S scope (fun row => predicate row && decide (row column.name = .null) != matchDeleted) set

def parseConflictFields (conflict : List String) : Except DbError Unit := do
  demand (conflict ≠ []) (.invalidConflictFields "conflict fields cannot be empty")
  (conflict.forM validateFieldName)
  demand conflict.Nodup (.invalidConflictFields "duplicate conflict field")

/-- The columns that a conflict update takes from the row that was to be inserted. -/
def mergedInputs (targets assigned : List String) : SetList :=
  (T.inputs.filter fun p => (doc p.1).isSome && !p.2.insertOnly && p.2.column.name ∉ targets &&
    p.2.column.name ∉ assigned).map fun p => (p.2.column, .incoming p.2.column)

def mergeList (targets : List Column) (generated : List (String × AssignedValue)) : Except DbError SetList := do
  let assigned ← resolveGenerated B T generated
  let update := mergedInputs T doc (targets.map (·.name)) (generated.map (·.1)) ++ assigned
  match update, targets with
  | [], first :: _ => pure [(first, .incoming first)]
  | update, _ => pure update

def conflictUpdate (targets : List Column) (generated : List (String × AssignedValue)) (doNothing : Bool) :
    Except DbError SetList :=
  if doNothing then .ok [] else mergeList B T doc targets generated

/-- The identity that a conflicting row must have, as its column takes it. -/
def identityCondition : Option Value → Except DbError (Option Value)
  | none => .ok none
  | some id => do
    let key ← T.column (keyColumn S)
    let w ← key.storage.encode B id
    pure (some w)

def resolveUpsert (conflict : List String) (generated : List (String × AssignedValue))
    (expectedId : Option Value) (doNothing : Bool) : Except DbError Statement := do
  parseConflictFields conflict
  (conflict.forM fun field =>
    demand ((S.fields.lookup field).all fun column => !column.encrypted) (.encryptedConflictField field))
  let targets ← conflict.mapM fun field => T.column (valueColumnForField S field)
  let insert ← valuesOf B T (fun _ => false) doc
  let update ← conflictUpdate B T doc targets generated doNothing
  let condition ← identityCondition B T expectedId
  let statement := Statement.upsert insert targets update condition doNothing
  validateStatement B (keyColumn S) statement
  pure statement

/-! ### What a list sets -/

/-- What a column then holds of a value given to it. -/
inductive Stores (storage : StorageType) : Value → Value → Prop
  | null : Stores storage .null .null
  | kept {v w : Value} (present : v ≠ .null) (encoded : storage.encode B v = .ok w) : Stores storage v (storage.kept B w)

/-- What a column holds after it was given a value, or nothing. -/
def Takes (storage : StorageType) (v : Option Value) (before after : Value) : Prop :=
  match v with
  | some v => Stores B storage v after
  | none => after = before

variable {B T} {mentioned : String → Bool} {doc : Doc} {set : SetList} {name : String} {input : PhysicalInput} {v : Value}
  {names : List String} {p : Column × Expression} {storage : StorageType} {before after : Value}

theorem Takes.kept (h : Takes B storage none before after) : after = before := h

theorem Takes.stores (h : Takes B storage (some v) before after) : Stores B storage v after := h

theorem bindValue_stores {c : Column} {e : Expression} (h : bindValue B c.storage v = .ok e) (now : Int)
    (old fresh : Row) : Stores B c.storage v (e.eval B now old fresh c) := by
  unfold bindValue at h
  split_ifs at h with hn
  · cases h
    subst hn
    exact .null
  cases he : c.storage.encode B v with
  | error e' => simp [he, Except.map] at h
  | ok w =>
    rw [he] at h
    cases h
    exact .kept hn he

/-- The items of a list set the columns of inputs, named one after the other. -/
def Named (T : ResolvedTable S) (names : List String) (set : SetList) : Prop :=
  List.Forall₂ (fun name p => ∃ input, (name, input) ∈ T.inputs ∧ p.1 = input.column) names set

theorem Named.append {names' : List String} {set' : SetList} (h : Named T names set) (h' : Named T names' set') :
    Named T (names ++ names') (set ++ set') :=
  rel_append h h'

theorem Named.exists_name (h : Named T names set) (hp : p ∈ set) :
    ∃ name ∈ names, ∃ input, (name, input) ∈ T.inputs ∧ p.1 = input.column :=
  left_of_forall₂ h hp

theorem Named.not_mem_columns (h : Named T names set) (hinput : (name, input) ∈ T.inputs)
    (hn : name ∉ names) : input.column.name ∉ set.columns := by
  intro hm
  obtain ⟨p, hp, hc⟩ := mem_map.mp hm
  obtain ⟨other, ho, input', hi', hp⟩ := h.exists_name hp
  rw [hp] at hc
  obtain ⟨rfl, _⟩ := T.eq_of_column hi' hinput hc
  exact hn ho

theorem Named.nodup (h : Named T names set) (hn : names.Nodup) : set.columns.Nodup := by
  induction h with
  | nil => exact .nil
  | @cons name p names set hp hr ih =>
    obtain ⟨hnm, hn⟩ := nodup_cons.mp hn
    obtain ⟨input, hinput, hc⟩ := hp
    refine nodup_cons.mpr ⟨?_, ih hn⟩
    show p.1.name ∉ SetList.columns set
    rw [hc]
    exact Named.not_mem_columns hr hinput hnm

/-- The names under which a list of values sets something. -/
def valueNames (T : ResolvedTable S) (mentioned : String → Bool) (doc : Doc) : List String :=
  (T.inputs.filter fun p => (doc p.1).isSome || mentioned p.1).map (·.1)

theorem itemOf_some {p : String × PhysicalInput} {item : Option (Column × Expression)}
    (h : itemOf B mentioned doc p = .ok item) :
    (((doc p.1).isSome || mentioned p.1) ∧ ∃ e, item = some (p.2.column, e) ∧
        match doc p.1 with
        | some v => bindValue B p.2.column.storage v = .ok e
        | none => e = .default) ∨ (((doc p.1).isSome || mentioned p.1) = false ∧ item = none) := by
  unfold itemOf at h
  cases hd : doc p.1 with
  | some v =>
    rw [hd] at h
    cases hb : bindValue B p.2.column.storage v with
    | error e => simp [hb, Except.map] at h
    | ok e =>
      simp only [hb, Except.map, Except.ok.injEq] at h
      exact .inl ⟨by simp, e, h.symm, hb⟩
  | none =>
    rw [hd] at h
    cases hm : mentioned p.1 with
    | false =>
      simp only [hm, Except.ok.injEq] at h
      exact .inr ⟨by simp, h.symm⟩
    | true =>
      simp only [hm, Except.ok.injEq] at h
      exact .inl ⟨by simp, .default, h.symm, rfl⟩

theorem items_named {inputs : List (String × PhysicalInput)} {items : List (Option (Column × Expression))}
    (hs : ∀ p ∈ inputs, p ∈ T.inputs) (h : List.Forall₂ (fun p item => itemOf B mentioned doc p = .ok item) inputs items) :
    Named T ((inputs.filter fun p => (doc p.1).isSome || mentioned p.1).map (·.1)) items.reduceOption := by
  induction h with
  | nil => exact .nil
  | @cons p item inputs items hi hr ih =>
    obtain ⟨hp, hs⟩ := forall_mem_cons.mp hs
    rcases itemOf_some hi with ⟨hst, e, rfl, _⟩ | ⟨hst, rfl⟩
    · rw [filter_cons_of_pos (by simpa using hst), reduceOption_cons_of_some]
      exact .cons ⟨p.2, hp, rfl⟩ (ih hs)
    · rw [filter_cons_of_neg (by simp [hst]), reduceOption_cons_of_none]
      exact ih hs

theorem valuesOf_named (h : valuesOf B T mentioned doc = .ok set) : Named T (valueNames T mentioned doc) set := by
  simp only [valuesOf, bind_ok, pure_ok] at h
  obtain ⟨items, hi, rfl⟩ := h
  exact items_named (fun _ hp => hp) (mapM_ok.mp hi)

theorem nodup_valueNames : (valueNames T mentioned doc).Nodup :=
  T.nodup_names.sublist (filter_sublist.map _)

section
variable (h : valuesOf B T mentioned doc = .ok set) (hinput : (name, input) ∈ T.inputs)
include h hinput

theorem mem_valuesOf
    (hv : doc name = some v) : ∃ e, bindValue B input.column.storage v = .ok e ∧ (input.column, e) ∈ set := by
  simp only [valuesOf, bind_ok, pure_ok] at h
  obtain ⟨items, hitm, rfl⟩ := h
  obtain ⟨item, hm, hi⟩ := exists_of_mapM hitm hinput
  rcases itemOf_some hi with ⟨_, e, rfl, he⟩ | ⟨hs, _⟩
  · rw [hv] at he
    exact ⟨e, he, reduceOption_mem_iff.mpr hm⟩
  · simp [hv] at hs

theorem mem_valuesOf_default (hv : doc name = none) (hmn : mentioned name) : (input.column, .default) ∈ set := by
  simp only [valuesOf, bind_ok, pure_ok] at h
  obtain ⟨items, hitm, rfl⟩ := h
  obtain ⟨item, hm, hi⟩ := exists_of_mapM hitm hinput
  rcases itemOf_some hi with ⟨_, e, rfl, he⟩ | ⟨hs, _⟩
  · rw [hv] at he
    exact he ▸ reduceOption_mem_iff.mpr hm
  · simp [hmn] at hs

/-- A new row holds what the document gives, and the defaults elsewhere. -/
theorem newRow_valuesOf (now : Int) (defaults : Row) :
    Takes B input.column.storage (doc name) (defaults input.column.name)
      (newRow B now defaults set input.column.name) := by
  have hn := valuesOf_named h
  have hnd := hn.nodup nodup_valueNames
  cases hd : doc name with
  | some v =>
    obtain ⟨e, he, hm⟩ := mem_valuesOf h hinput hd
    show Stores B input.column.storage v (assign B now defaults defaults set input.column.name)
    rw [assign_of_mem hnd hm]
    exact bindValue_stores he now defaults defaults
  | none =>
    show assign B now defaults defaults set input.column.name = defaults input.column.name
    by_cases hmn : mentioned name
    · rw [assign_of_mem hnd (mem_valuesOf_default h hinput hd hmn)]
      rfl
    · refine assign_of_not_mem (hn.not_mem_columns hinput fun hm => ?_)
      obtain ⟨p, hp, rfl⟩ := mem_map.mp hm
      simp [hd, hmn] at hp

end

/-! ### What the platform assigns -/

def writtenFields (S : CollectionSchema) (actor : Option String) (deleting restoring : Bool) : List String :=
  (S.fields.entries.filter fun e => (e.2.assignment.bind (assignedValue actor deleting restoring)).isSome).map (·.1)

variable {actor : Option String} {deleting restoring : Bool} {field : String} {column : ColumnSchema} {c : String}
  {value : AssignedValue} {col : Column}

theorem mem_writtenFields : field ∈ writtenFields S actor deleting restoring ↔ ∃ column, S.fields.lookup field = some column ∧
    (column.assignment.bind (assignedValue actor deleting restoring)).isSome := by
  constructor
  · intro h
    obtain ⟨e, he, rfl⟩ := mem_map.mp h
    obtain ⟨he, hv⟩ := mem_filter.mp he
    exact ⟨e.2, AList.mem_lookup_iff.mpr he, hv⟩
  · intro ⟨column, hc, hv⟩
    exact mem_map.mpr ⟨⟨field, column⟩, mem_filter.mpr ⟨AList.mem_lookup_iff.mp hc, hv⟩, rfl⟩

theorem nodup_writtenFields : (writtenFields S actor deleting restoring).Nodup :=
  Nodup.sublist (filter_sublist.map Sigma.fst) S.fields.nodupKeys

theorem mem_writeAssignments : (c, value) ∈ writeAssignments S actor deleting restoring ↔
    ∃ field column a, S.fields.lookup field = some column ∧ column.assignment = some a ∧
      assignedValue actor deleting restoring a = some value ∧ c = column.valueColumnOf field := by
  simp only [writeAssignments, mem_filterMap, Option.map_eq_some_iff, Option.bind_eq_some_iff]
  constructor
  · intro ⟨e, he, value', ⟨a, ha, hv⟩, heq⟩
    cases heq
    exact ⟨e.1, e.2, a, AList.mem_lookup_iff.mpr he, ha, hv, rfl⟩
  · intro ⟨field, column, a, hcl, ha, hv, hc⟩
    exact ⟨⟨field, column⟩, AList.mem_lookup_iff.mp hcl, value, ⟨a, ha, hv⟩, by rw [hc]⟩

theorem column_ok (h : T.column c = .ok col) :
    ∃ name input, (name, input) ∈ T.inputs ∧ col = input.column ∧ input.column.name = c := by
  unfold ResolvedTable.column at h
  cases hf : T.inputs.find? (·.2.column.name = c) with
  | none => simp [hf] at h
  | some p =>
    rw [hf] at h
    cases h
    exact ⟨p.1, p.2, mem_of_find?_eq_some hf, rfl, by simpa using find?_some hf⟩

theorem column_of_field (h : S.fields.lookup field = some column)
    (hc : T.column (column.valueColumnOf field) = .ok col) : ∃ input, (field, input) ∈ T.inputs ∧ col = input.column := by
  obtain ⟨name, input, hinput, rfl, hn⟩ := column_ok hc
  obtain ⟨storage, hv, _⟩ := T.exists_value h
  obtain ⟨rfl, _⟩ := T.eq_of_column hv hinput hn.symm
  exact ⟨input, hinput, rfl⟩

theorem generatedItem_ok {g : String × AssignedValue} (h : generatedItem B T g = .ok p) :
    T.column g.1 = .ok p.1 ∧ generatedExpression B p.1 g.2 = .ok p.2 := by
  simp only [generatedItem, bind_ok, pure_ok] at h
  obtain ⟨col, hc, e, he, rfl⟩ := h
  exact ⟨hc, he⟩

theorem generated_named (h : resolveGenerated B T (writeAssignments S actor deleting restoring) = .ok set) :
    Named T (writtenFields S actor deleting restoring) set := by
  have ha : ∀ (entries : List (Sigma fun _ : String => ColumnSchema)) (set : SetList),
      (∀ e ∈ entries, S.fields.lookup e.1 = some e.2) →
      Forall₂ (fun g p => generatedItem B T g = .ok p)
        (entries.filterMap fun e =>
          (e.2.assignment.bind (assignedValue actor deleting restoring)).map (e.2.valueColumnOf e.1, ·)) set →
      Named T ((entries.filter fun e =>
        (e.2.assignment.bind (assignedValue actor deleting restoring)).isSome).map (·.1)) set := by
    intro entries
    induction entries with
    | nil =>
      intro set _ hs
      cases hs
      exact .nil
    | cons e rest ih =>
      intro set hd hs
      obtain ⟨he, hd⟩ := forall_mem_cons.mp hd
      cases hv : e.2.assignment.bind (assignedValue actor deleting restoring) with
      | none =>
        rw [filterMap_cons_none (by rw [hv]; rfl)] at hs
        rw [filter_cons_of_neg (by rw [hv]; decide)]
        exact ih set hd hs
      | some value =>
        rw [filterMap_cons_some (b := (e.2.valueColumnOf e.1, value)) (by rw [hv]; rfl)] at hs
        rw [filter_cons_of_pos (by rw [hv]; rfl), map_cons]
        cases hs with
        | cons hi hr =>
          obtain ⟨input, hinput, hc⟩ := column_of_field he (generatedItem_ok hi).1
          exact .cons ⟨input, hinput, hc⟩ (ih _ hd hr)
  exact ha _ set (fun e he => AList.mem_lookup_iff.mpr he) (mapM_ok.mp h)

theorem mem_resolveGenerated (h : resolveGenerated B T (writeAssignments S actor deleting restoring) = .ok set)
    (hcl : S.fields.lookup field = some column) {a : Policy.Assignment} (ha : column.assignment = some a)
    (hv : assignedValue actor deleting restoring a = some value) (hinput : (field, input) ∈ T.inputs) :
    ∃ e, generatedExpression B input.column value = .ok e ∧ (input.column, e) ∈ set := by
  have hm := mem_writeAssignments.mpr ⟨field, column, a, hcl, ha, hv, rfl⟩
  obtain ⟨p, hp, hi⟩ := exists_of_mapM h hm
  obtain ⟨hc, he⟩ := generatedItem_ok hi
  obtain ⟨input', hi', hc⟩ := column_of_field hcl hc
  obtain ⟨_, rfl⟩ := Prod.mk.inj (inj_on_of_nodup_map T.nodup_names hi' hinput rfl)
  rw [hc] at he
  refine ⟨p.2, he, ?_⟩
  rw [← hc]
  exact hp

/-! ### The list of an update -/

theorem operationItem_input {a : PatchAssignment} (h : operationItem B T a = .ok p) :
    ∃ input, (a.field, input) ∈ T.inputs ∧ p.1 = input.column := by
  unfold operationItem at h
  cases hl : T.inputs.lookup a.field with
  | none => simp [hl] at h
  | some input =>
    rw [hl] at h
    refine ⟨input, mem_of_lookup hl, ?_⟩
    dsimp only at h
    split at h
    · simp only [bind_ok, pure_ok] at h
      obtain ⟨_, _, rfl⟩ := h
      rfl
    · simp only [bind_ok, pure_ok] at h
      obtain ⟨_, _, _, _, rfl⟩ := h
      rfl
    · simp only [bind_ok, pure_ok] at h
      obtain ⟨_, _, rfl⟩ := h
      rfl

theorem expressionItem_input {e : String × Int} (h : expressionItem T e = .ok p) :
    ∃ input, (e.1, input) ∈ T.inputs ∧ p.1 = input.column := by
  unfold expressionItem at h
  cases hl : T.inputs.lookup e.1 with
  | none => simp [hl] at h
  | some input =>
    rw [hl] at h
    cases h
    exact ⟨input, mem_of_lookup hl, rfl⟩

theorem named_of_mapM {α : Type} {l : List α} {f : α → Except DbError (Column × Expression)} {nameOf : α → String}
    (h : l.mapM f = .ok set) (hi : ∀ {a p}, f a = .ok p → ∃ input, (nameOf a, input) ∈ T.inputs ∧ p.1 = input.column) :
    Named T (l.map nameOf) set := by
  have ha := mapM_ok.mp h
  unfold Named
  rw [forall₂_map_left_iff]
  exact ha.imp fun _ _ => hi

variable {patch : Patch} {placed : Doc}

/-- The inputs that an update sets, in the order of its list. -/
def updateNames (T : ResolvedTable S) (patch : Patch) (placed : Doc) (actor : Option String) : List String :=
  patch.operations.map (·.field) ++ valueNames T (fun _ => false) placed ++ patch.expressions.map (·.1) ++
    writtenFields S actor false false

theorem assignments_named (h : resolveAssignments B T patch placed (writeAssignments S actor false false) = .ok set) :
    Named T (updateNames T patch placed actor) set := by
  simp only [resolveAssignments, bind_ok, pure_ok] at h
  obtain ⟨operations, ho, values, hv, expressions, he, assigned, ha, rfl⟩ := h
  exact (((named_of_mapM ho operationItem_input).append (valuesOf_named hv)).append
    (named_of_mapM he expressionItem_input)).append (generated_named ha)

variable {A : Aead} {database : Option DatabaseId} {nonces : String → Nat} {rowPk : String} {given : Doc}

theorem placed_source (h : applyToDoc B A S database nonces rowPk given = .ok placed) (hd : Declared S given)
    (hinput : (name, input) ∈ T.inputs) (hn : (placed name).isSome) :
    ∃ field column, S.fields.lookup field = some column ∧ (name = field ∨ column.rawColumnOf = some name) ∧
      (given field).isSome := by
  cases T.serves_of_mem hinput with
  | value hc _ =>
    refine ⟨name, _, hc, .inl rfl, Option.isSome_iff_ne_none.mpr fun hnn => ?_⟩
    have hp := applyToDoc_placed h hd hc
    rw [hnn] at hp
    rw [hp.of_none.1] at hn
    cases hn
  | @raw field _ column _ hc hr _ =>
    refine ⟨field, column, hc, .inr hr, Option.isSome_iff_ne_none.mpr fun hnn => ?_⟩
    have hp := applyToDoc_placed h hd hc
    rw [hnn, hr, Option.bind_some] at hp
    rw [hp.of_none.2] at hn
    cases hn

theorem nodup_updateNames (accepted : patch.Accepted S)
    (h : applyToDoc B A S database nonces rowPk patch.sets = .ok placed) : (updateNames T patch placed actor).Nodup := by
  have hvl : ∀ name ∈ valueNames T (fun _ => false) placed, ∃ field column, S.fields.lookup field = some column ∧
      (name = field ∨ column.rawColumnOf = some name) ∧ ∃ v, ⟨field, .set, v⟩ ∈ patch.assignments := by
    intro name hn
    obtain ⟨p, hp, rfl⟩ := mem_map.mp hn
    obtain ⟨hp, hsm⟩ := mem_filter.mp hp
    obtain ⟨field, column, hc, hsr, hg⟩ := placed_source h accepted.sets_declared hp (by simpa using hsm)
    obtain ⟨v, hv⟩ := Option.isSome_iff_exists.mp hg
    exact ⟨field, column, hc, hsr, v, accepted.sets_some.mp hv⟩
  -- A declared name among the values is that of a field which is set.
  have hs : ∀ name ∈ valueNames T (fun _ => false) placed, S.fields.lookup name ≠ none →
      ∃ v, ⟨name, .set, v⟩ ∈ patch.assignments := by
    intro name hn hd
    obtain ⟨field, column, hc, rfl | hr, v, hv⟩ := hvl name hn
    · exact ⟨v, hv⟩
    · exact absurd (S.lookup_rawColumn hc hr) hd
  have hass : ∀ name ∈ writtenFields S actor false false, ∀ column, S.fields.lookup name = some column →
      column.assignment ≠ none := by
    intro name hn column hc hnn
    obtain ⟨column', hc', hsm⟩ := mem_writtenFields.mp hn
    rw [hc] at hc'
    cases hc'
    simp [hnn] at hsm
  refine nodup_append'.mpr ⟨nodup_append'.mpr ⟨nodup_append'.mpr ⟨?_, nodup_valueNames, ?_⟩,
    accepted.timedOnce, ?_⟩, nodup_writtenFields, ?_⟩
  · exact accepted.once.sublist (filter_sublist.map _)
  · intro name hop hn
    obtain ⟨a, ha, rfl⟩ := mem_map.mp hop
    obtain ⟨ha, ho⟩ := mem_filter.mp ha
    obtain ⟨_, column, hc, _⟩ := accepted.given a ha
    obtain ⟨v, hv⟩ := hs a.field hn (by simp [hc])
    have heq := inj_on_of_nodup_map accepted.once ha hv rfl
    rw [heq] at ho
    simp at ho
  · intro name hn ht
    obtain ⟨e, he, rfl⟩ := mem_map.mp ht
    rcases mem_append.mp hn with hn | hn
    · obtain ⟨a, ha, hf⟩ := mem_map.mp hn
      refine accepted.apart a (mem_filter.mp ha).1 ?_
      rw [hf]
      exact ht
    · obtain ⟨_, column, hc, _⟩ := accepted.timed e he
      obtain ⟨v, hv⟩ := hs e.1 hn (by simp [hc])
      exact accepted.apart _ hv ht
  · intro name hn hw
    rcases mem_append.mp hn with hn | hn
    · rcases mem_append.mp hn with hn | hn
      · obtain ⟨_, column, hc, hnn, _⟩ := accepted.operated (mem_append_left _ hn)
        exact hass _ hw column hc hnn
      obtain ⟨column, hc, _⟩ := mem_writtenFields.mp hw
      obtain ⟨v, hv⟩ := hs name hn (by simp [hc])
      obtain ⟨_, column', hc', hnn, _⟩ := accepted.given _ hv
      exact hass _ hw column' hc' hnn
    · obtain ⟨_, column, hc, hnn, _⟩ := accepted.operated (mem_append_right _ hn)
      exact hass _ hw column hc hnn

theorem assign_assignments
    (h : resolveAssignments B T patch placed (writeAssignments S actor false false) = .ok set)
    (hnd : set.columns.Nodup) (hinput : (name, input) ∈ T.inputs)
    (ho : name ∉ patch.operations.map (·.field) ++ patch.expressions.map (·.1))
    (hw : name ∉ writtenFields S actor false false) (now : Int) (old fresh : Row) :
    Takes B input.column.storage (placed name) (old input.column.name)
      (assign B now old fresh set input.column.name) := by
  have hn := assignments_named h
  simp only [resolveAssignments, bind_ok, pure_ok] at h
  obtain ⟨operations, _, values, hvl, expressions, _, assigned, _, rfl⟩ := h
  cases hpl : placed name with
  | some v =>
    obtain ⟨e, he, hm⟩ := mem_valuesOf hvl hinput hpl
    show Stores B input.column.storage v (assign B now old fresh _ input.column.name)
    have hm : (input.column, e) ∈ operations ++ values ++ expressions ++ assigned := by simp [hm]
    rw [assign_of_mem hnd hm]
    exact bindValue_stores he now old fresh
  | none =>
    show assign B now old fresh _ input.column.name = old input.column.name
    refine assign_of_not_mem (hn.not_mem_columns hinput ?_)
    have hv : name ∉ valueNames T (fun _ => false) placed := by
      intro hm
      obtain ⟨p, hp, rfl⟩ := mem_map.mp hm
      simp [hpl] at hp
    simp only [updateNames, mem_append, not_or] at ho ⊢
    exact ⟨⟨⟨ho.1, hv⟩, ho.2⟩, hw⟩

/-! ### The lists of an upsert -/

/-- What an upsert is resolved to. -/
structure ResolvedUpsert (T : ResolvedTable S) (doc : Doc) (conflict : List String)
    (generated : List (String × AssignedValue)) (expectedId : Option Value) (doNothing : Bool) (insert : SetList)
    (targets : List Column) (update : SetList) (condition : Option Value) : Prop where
  targets_eq : conflict.mapM (fun field => T.column (valueColumnForField S field)) = .ok targets
  inserts : valuesOf B T (fun _ => false) doc = .ok insert
  updates : if doNothing then update = [] else mergeList B T doc targets generated = .ok update
  expects : match expectedId with
    | none => condition = none
    | some id => ∃ key w, T.column (keyColumn S) = .ok key ∧ key.storage.encode B id = .ok w ∧ condition = some w
  nodup : update.columns.Nodup
  mergeable : ∀ p ∈ update, p.2.mergeable B p.1

variable {conflict : List String} {generated : List (String × AssignedValue)} {expectedId : Option Value}
  {doNothing : Bool} {statement : Statement} {targets : List Column} {update : SetList}

theorem resolveUpsert_ok (h : resolveUpsert B T doc conflict generated expectedId doNothing = .ok statement) :
    ∃ insert targets update condition, statement = .upsert insert targets update condition doNothing ∧
      ResolvedUpsert (B := B) T doc conflict generated expectedId doNothing insert targets update condition := by
  simp only [resolveUpsert, bind_ok, pure_ok] at h
  obtain ⟨_, _, _, _, targets, ht, insert, hi, update, hu, condition, hc, _, hv,
    rfl⟩ := h
  simp only [validateStatement, seq_ok, demand_ok] at hv
  obtain ⟨_, _, _, hn, _, hm, _⟩ := hv
  refine ⟨insert, targets, update, condition, rfl, ht, hi, ?_, ?_, hn.2, hm⟩
  · cases doNothing with
    | true => exact (Except.ok.inj hu).symm
    | false => exact hu
  cases expectedId with
  | none => exact (Except.ok.inj hc).symm
  | some id =>
    simp only [identityCondition, bind_ok, pure_ok] at hc
    obtain ⟨key, hk, w, he, hc⟩ := hc
    exact ⟨key, w, hk, he, hc.symm⟩

theorem written_of_column (hinput : (name, input) ∈ T.inputs)
    (h : input.column.name ∈ (writeAssignments S actor deleting restoring).map (·.1)) :
    name ∈ writtenFields S actor deleting restoring := by
  obtain ⟨g, hg, hn⟩ := mem_map.mp h
  obtain ⟨field, column, a, hc, ha, hv, hg⟩ := mem_writeAssignments.mp (show (g.1, g.2) ∈ _ from hg)
  obtain ⟨storage, hf, _⟩ := T.exists_value hc
  obtain ⟨rfl, _⟩ := T.eq_of_column hf hinput (by rw [← hn, hg])
  exact mem_writtenFields.mpr ⟨column, hc, by rw [ha, Option.bind_some, hv]; rfl⟩

theorem mem_mergedInputs {targets assigned : List String} :
    p ∈ mergedInputs T doc targets assigned ↔ ∃ name input, (name, input) ∈ T.inputs ∧ (doc name).isSome ∧
      input.insertOnly = false ∧ input.column.name ∉ targets ∧ input.column.name ∉ assigned ∧
      p = (input.column, .incoming input.column) := by
  simp only [mergedInputs, mem_map, mem_filter, Bool.and_eq_true, Bool.not_eq_true', decide_eq_true_eq]
  constructor
  · intro ⟨q, ⟨hq, ⟨⟨hd, ho⟩, ht⟩, ha⟩, hp⟩
    exact ⟨q.1, q.2, hq, hd, ho, ht, ha, hp.symm⟩
  · intro ⟨name, input, hinput, hd, ho, ht, ha, hp⟩
    exact ⟨(name, input), ⟨hinput, ⟨⟨hd, ho⟩, ht⟩, ha⟩, hp.symm⟩

/-- What a conflict update makes of a column that nothing assigns: the row's own, or that of the
row to be inserted. -/
theorem assign_mergeList
    (h : mergeList B T doc targets (writeAssignments S actor false false) = .ok update) (hnd : update.columns.Nodup)
    (hinput : (name, input) ∈ T.inputs) (hw : name ∉ writtenFields S actor false false) (now : Int)
    (old fresh : Row) :
    if (doc name).isSome ∧ input.insertOnly = false ∧ input.column.name ∉ targets.map (·.name) then
      assign B now old fresh update input.column.name = fresh input.column.name
    else assign B now old fresh update input.column.name = old input.column.name ∨
      input.column.name ∈ targets.map (·.name) ∧
        assign B now old fresh update input.column.name = fresh input.column.name := by
  have ha := fun hm => hw (written_of_column hinput hm)
  simp only [mergeList, bind_ok] at h
  obtain ⟨assigned, hr, h⟩ := h
  have hna := (generated_named hr).not_mem_columns hinput hw
  split_ifs with hmr
  · have hm := mem_mergedInputs.mpr ⟨name, input, hinput, hmr.1, hmr.2.1, hmr.2.2, ha, rfl⟩
    split at h
    · next hn =>
      rw [append_eq_nil_iff] at hn
      rw [hn.1] at hm
      cases hm
    · obtain rfl := pure_ok.mp h
      rw [assign_of_mem hnd (mem_append_left _ hm)]
      rfl
  · split at h
    · next first rest hn =>
      obtain rfl := pure_ok.mp h
      by_cases hf : input.column.name = first.name
      · right
        refine ⟨by simp [hf], ?_⟩
        rw [hf, assign_of_mem (e := .incoming first) (c := first) (by simp [SetList.columns]) (by simp)]
        rfl
      · left
        exact assign_of_not_mem (by simpa [SetList.columns] using hf)
    · obtain rfl := pure_ok.mp h
      left
      refine assign_of_not_mem ?_
      simp only [SetList.columns, map_append, mem_append, not_or]
      refine ⟨fun hm => ?_, hna⟩
      obtain ⟨p, hp, hc⟩ := mem_map.mp hm
      obtain ⟨other, input', hi', hd, ho, ht, _, rfl⟩ := mem_mergedInputs.mp hp
      obtain ⟨rfl, rfl⟩ := T.eq_of_column hi' hinput hc
      exact hmr ⟨hd, ho, ht⟩

theorem mergeList_assigned (h : mergeList B T doc targets generated = .ok update) :
    ∃ assigned, resolveGenerated B T generated = .ok assigned ∧ ∀ p ∈ assigned, p ∈ update := by
  simp only [mergeList, bind_ok] at h
  obtain ⟨assigned, ha, h⟩ := h
  refine ⟨assigned, ha, fun p hp => ?_⟩
  split at h
  · next hn =>
    rw [append_eq_nil_iff] at hn
    rw [hn.2] at hp
    cases hp
  · obtain rfl := pure_ok.mp h
    exact mem_append_right _ hp

end

end Zeroship.Orm
