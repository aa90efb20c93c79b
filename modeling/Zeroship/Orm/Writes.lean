import Zeroship.Base.Machine
import Zeroship.Orm.Build

/-! The write operations, and calls of them side by side.

A call is first prepared: its document or patch is checked and protected, and whatever it has
to know of the table is read at that moment. Its statements are then run one by one, with anything
else in between. A transaction that is rolled back is a call whose statements were never run, and
a call may be given up at any point. An upsert whose guard let no row through is prepared again. -/
namespace Zeroship.Orm
open Base

/-- A filter, with what the operations read off it: the version it asks for, and whether it
names an identity. -/
structure Query where
  predicate : Filter
  guard : Option Int
  byIdentity : Bool

structure UpsertRequest where
  doc : Document
  conflict : List String
  actor : Option String

inductive Request
  | insert (doc : Document) (actor : Option String)
  | insertMany (docs : List Document) (actor : Option String)
  | updateOne (query : Query) (input : UpdateInput) (actor : Option String)
  | updateMany (query : Query) (input : UpdateInput) (actor : Option String)
  | upsert (request : UpsertRequest)
  | insertOnConflict (doc : Document) (conflict : List String) (actor : Option String)
  | delete (scope : MutationScope) (predicate : Filter) (actor : Option String)
  | purge (scope : MutationScope) (predicate : Filter)
  | restore (scope : MutationScope) (predicate : Filter) (actor : Option String)

/-- What chance and the database decide when a call is prepared. -/
structure Chance where
  /-- For each document or row. -/
  draws : Nat → Draw
  /-- Which of the matching rows a probe for one row finds; it asks for no order. -/
  pick : Nat

/-- Chance that always falls the same way. -/
def Chance.sample : Chance := ⟨fun _ => ⟨fun _ => "", 0, fun _ => 0⟩, 0⟩

section
variable (B : Backend) (A : Aead) (S : CollectionSchema) (database : Option DatabaseId)

/-- A document up to the allocation of an identity. -/
def insertedDoc (draw : Draw) (actor : Option String) (doc : Document) : Except DbError Doc := do
  validateUserDocKeys S doc
  refuseGeneratedIdentifier S doc
  let prepared ← prepareDocument B S doc.lookup
  applyAssignmentsOnInsert S draw actor prepared

def withIdentity (draw : Draw) (allocate : Bool) (doc : Doc) : Doc :=
  if allocate then Function.update doc "id" (some (.number draw.allocated)) else doc

def protectDoc (draw : Draw) (doc : Doc) : Except DbError Doc :=
  applyToDoc B A S database draw.nonces (rowPkFromValue (doc "id")) doc

/-- Identities are allocated for all documents if one of them has something to encrypt. -/
def applyInsert (draws : Nat → Draw) (actor : Option String) (docs : List Document) : Except DbError (List Doc) := do
  let inserted ← docs.zipIdx.mapM fun p => insertedDoc B S (draws p.2) actor p.1
  let allocate := isGenerated S && inserted.any (docTouchesEncryptedField S)
  inserted.zipIdx.mapM fun p => protectDoc B A S database (draws p.2) (withIdentity (draws p.2) allocate p.1)

def concurrencyColumn : Option String :=
  (S.fields.entries.find? (·.2.concurrency)).map fun e => e.2.valueColumnOf e.1

def softDeleteColumn : Option String := (S.fields.entries.find? (·.2.softDelete)).map (·.1)

/-- The row of an identity, in the version that was asked for. -/
def rowFilter (id : Value) (guard : Option Int) : Filter := fun row =>
  B.same (keyColumn S) (row (keyColumn S)) id &&
    guard.all fun expected => (concurrencyColumn S).all fun column => B.same column (row column) (.number expected)

/-- The identities of rows that match, at most one of them if only one is wanted. -/
def resolveTargetRowIds (rows : List Row) (predicate : Filter) : List Value :=
  (rows.filter predicate).map (· (keyColumn S))

def resolveTargetRowId (pick : Nat) (rows : List Row) (predicate : Filter) : Option Value :=
  let ids := resolveTargetRowIds S rows predicate
  ids[pick]?.or ids.head?

/-- The statement of a patch, with its values protected for a row. -/
def patchStatement (draw : Draw) (rowPk : String) (actor : Option String) (scope : MutationScope) (predicate : Filter)
    (patch : Patch) : Except DbError Statement := do
  let placed ← applyToDoc B A S database draw.nonces rowPk patch.sets
  let T ← ResolvedTable.new S
  let set ← resolveAssignments B T patch placed (writeAssignments S actor false false)
  updateStatement B S scope predicate set

/-- A guarded update that finds no row fails. -/
def missing (query : Query) : Except DbError (List Statement) :=
  demand (query.guard = none) .concurrencyMismatch >>= fun _ => pure []

def inspectUpdate (query : Query) (input : UpdateInput) : Except DbError Patch := do
  let patch ← inspect B S input
  demand (query.guard.isSome → query.byIdentity) .multiRowConcurrencyFilterUnsupported
  preparePatch B S patch

def updateOneStatements (chance : Chance) (rows : List Row) (query : Query) (patch : Patch) (actor : Option String) :
    Except DbError (List Statement) :=
  if updateTouchesEncryptedField S patch then
    match resolveTargetRowId S chance.pick rows query.predicate with
    | none => missing query
    | some id => do
      let statement ← patchStatement B A S database (chance.draws 0) (rowPkFromValue (some id)) actor .first
        (rowFilter B S id query.guard) patch
      pure [statement]
  else do
    let statement ← patchStatement B A S database (chance.draws 0) "" actor .first query.predicate patch
    pure [statement]

def maxPerRowUpdateTargets : Nat := 500

/-- One statement for each row if there is something to encrypt, or a result to check. -/
def updateManyStatements (chance : Chance) (rows : List Row) (query : Query) (patch : Patch) (actor : Option String) :
    Except DbError (List Statement) :=
  if updateTouchesEncryptedField S patch ∨ patch.expressions ≠ [] then
    match resolveTargetRowIds S rows query.predicate with
    | [] => missing query
    | ids => do
      demand (ids.length ≤ maxPerRowUpdateTargets) .updateManyTargetLimitExceeded
      ids.zipIdx.mapM fun p => patchStatement B A S database (chance.draws p.2) (rowPkFromValue (some p.1)) actor
        .matching (rowFilter B S p.1 query.guard) patch
  else do
    let statement ← patchStatement B A S database (chance.draws 0) "" actor .matching query.predicate patch
    pure [statement]

def validateUpsertConflictFields (doc : Doc) (conflict : List String) : Except DbError Unit := do
  parseConflictFields conflict
  conflict.forM fun field =>
    match S.fields.lookup field with
    | none => .error (.invalidUpsertConflictField field)
    | some column => do
      demand (column.assignment = none) (.platformAssignedConflictField field)
      demand (!column.encrypted) (.encryptedConflictField field)
      demand (doc field ≠ none) (.invalidUpsertConflictField field)
      demand (docTouchesEncryptedField S doc → doc field ≠ some .null) .protectedUpsertNullableConflict

/-- A field has the value that a document gives it. -/
def agrees (T : ResolvedTable S) (doc : Doc) (field : String) : Except DbError Filter :=
  match T.inputs.lookup field, doc field with
  | some input, some v =>
    if v = .null then .ok fun row => row input.column.name = .null
    else (input.column.storage.encode B v).map fun w row =>
      row input.column.name ≠ .null && B.same input.column.name (row input.column.name) w
  | _, _ => .error .undeclaredInput

/-- Takes over the identity of the row that the conflict fields name, if the document has
something to encrypt. -/
def rewriteUpsertDocId (pick : Nat) (rows : List Row) (doc : Doc) (conflict : List String) : Except DbError Doc :=
  if docTouchesEncryptedField S doc then do
    let T ← ResolvedTable.new S
    let parts ← conflict.mapM (agrees B S T doc)
    match resolveTargetRowId S pick rows fun row => parts.all fun p => p row with
    | some id => pure (if id = .null then doc else Function.update doc "id" (some id))
    | none => pure doc
  else .ok doc

/-- The document of an upsert up to its protection. -/
def upsertDoc (chance : Chance) (rows : List Row) (request : UpsertRequest) : Except DbError Doc := do
  validateUserDocKeys S request.doc
  refuseGeneratedIdentifier S request.doc
  validateUpsertConflictFields S request.doc.lookup request.conflict
  let prepared ← prepareDocument B S request.doc.lookup
  let injected ← applyAssignmentsOnInsert S (chance.draws 0) request.actor prepared
  let rewritten ← rewriteUpsertDocId B S chance.pick rows injected request.conflict
  let allocate := isGenerated S && docTouchesEncryptedField S injected && (rewritten "id").all (· = .null)
  pure (withIdentity (chance.draws 0) allocate rewritten)

/-- The guard goes by the document as it was given. -/
def guardsIdentity (request : UpsertRequest) : Bool := docTouchesEncryptedField S request.doc.lookup

def expectedIdentity (request : UpsertRequest) (placed : Doc) : Except DbError (Option Value) :=
  if guardsIdentity S request then
    match placed "id" with
    | some id => .ok (some id)
    | none => .error .upsertRequiresIdentity
  else .ok none

def upsertStatement (chance : Chance) (rows : List Row) (request : UpsertRequest) : Except DbError Statement := do
  let doc ← upsertDoc B S chance rows request
  let placed ← protectDoc B A S database (chance.draws 0) doc
  let expected ← expectedIdentity S request placed
  let T ← ResolvedTable.new S
  resolveUpsert B T placed request.conflict (writeAssignments S request.actor false false) expected false

def insertOnConflictStatements (chance : Chance) (doc : Document) (conflict : List String) (actor : Option String) :
    Except DbError (List Statement) := do
  let docs ← applyInsert B A S database chance.draws actor [doc]
  let T ← ResolvedTable.new S
  docs.mapM fun doc => resolveUpsert B T doc conflict (writeAssignments S actor false false) none true

/-- Removes rows for good. -/
def purgeStatement (scope : MutationScope) (predicate : Filter) : Except DbError Statement := do
  let _ ← ResolvedTable.new S
  let statement := Statement.delete scope predicate
  validateStatement B (keyColumn S) statement
  pure statement

def deleteStatement (scope : MutationScope) (predicate : Filter) (actor : Option String) : Except DbError Statement :=
  match softDeleteColumn S with
  | none => purgeStatement B S scope predicate
  | some marker => do
    let T ← ResolvedTable.new S
    lifecycle B T scope predicate marker false (writeAssignments S actor true false)

def restoreStatement (scope : MutationScope) (predicate : Filter) (actor : Option String) : Except DbError Statement :=
  match softDeleteColumn S with
  | none => .error .restoreNotSupported
  | some marker => do
    let T ← ResolvedTable.new S
    lifecycle B T scope predicate marker true (writeAssignments S actor false true)

variable (defaultExpression : Bool)

inductive Call
  /-- Statements still to be run. -/
  | executing (rest : List Statement)
  | upserting (request : UpsertRequest) (statement : Statement) (retry : Bool)
  /-- The guard let no row through. -/
  | reissuing (request : UpsertRequest)

/-- The call that a request comes to, from what the table holds at that moment. -/
def prepare (chance : Chance) (rows : List Row) : Request → Except DbError Call
  | .insert doc actor => do
    let docs ← applyInsert B A S database chance.draws actor [doc]
    let T ← ResolvedTable.new S
    let statement ← insertStatement B T docs
    pure (.executing [statement])
  | .insertMany docs actor => do
    let docs ← applyInsert B A S database chance.draws actor docs
    let T ← ResolvedTable.new S
    let statements ← insertStatements B T defaultExpression docs
    pure (.executing statements)
  | .updateOne query input actor => do
    let patch ← inspectUpdate B S query input
    let statements ← updateOneStatements B A S database chance rows query patch actor
    pure (.executing statements)
  | .updateMany query input actor => do
    let patch ← inspectUpdate B S query input
    let statements ← updateManyStatements B A S database chance rows query patch actor
    pure (.executing statements)
  | .upsert request => do
    let statement ← upsertStatement B A S database chance rows request
    pure (.upserting request statement (guardsIdentity S request))
  | .insertOnConflict doc conflict actor => do
    let statements ← insertOnConflictStatements B A S database chance doc conflict actor
    pure (.executing statements)
  | .delete scope predicate actor => do
    let statement ← deleteStatement B S scope predicate actor
    pure (.executing [statement])
  | .purge scope predicate => do
    let statement ← purgeStatement B S scope predicate
    pure (.executing [statement])
  | .restore scope predicate actor => do
    let statement ← restoreStatement B S scope predicate actor
    pure (.executing [statement])

structure Store where
  table : Table B (keyColumn S)
  calls : List Call

inductive Event
  /-- A call comes in. -/
  | start (request : Request) (chance : Chance)
  /-- The next statement of a call is run. -/
  | execute (call : Nat) (now : Int) (defaults : Nat → Row)
  /-- An upsert is prepared a second time. -/
  | reissue (call : Nat) (chance : Chance)

inductive Reply
  | accepted
  | refused (error : DbError)
  /-- A statement ran, and returned so many rows. -/
  | ran (rows : Nat)
  /-- The database refused the statement. -/
  | failed

variable {B S}

/-- What follows a statement of an upsert. -/
def afterUpsert (request : UpsertRequest) (retry : Bool) (rows : Nat) : Call × List Reply :=
  if guardsIdentity S request && rows = 0 then
    if retry then (.reissuing request, [.ran rows]) else (.executing [], [.refused .upsertIdentityChanged])
  else (.executing [], [.ran rows])

def execute (now : Int) (defaults : Nat → Row) (store : Store B S) (k : Nat) (call : Call) :
    Option (Store B S × List Reply) :=
  match call with
  | .executing [] | .reissuing _ => none
  | .executing (statement :: rest) =>
    match run B now defaults store.table statement with
    | none => some ({ store with calls := store.calls.set k (.executing []) }, [.failed])
    | some (table, rows) => some (⟨table, store.calls.set k (.executing rest)⟩, [.ran rows])
  | .upserting request statement retry =>
    match run B now defaults store.table statement with
    | none => some ({ store with calls := store.calls.set k (.executing []) }, [.failed])
    | some (table, rows) =>
      let next := afterUpsert (S := S) request retry rows
      some (⟨table, store.calls.set k next.1⟩, next.2)

def Store.step (store : Store B S) : Event → Option (Store B S × List Reply)
  | .start request chance =>
    match prepare B A S database defaultExpression chance store.table.rows request with
    | .error e => some (store, [.refused e])
    | .ok call => some ({ store with calls := store.calls ++ [call] }, [.accepted])
  | .execute k now defaults => store.calls[k]?.bind (execute now defaults store k)
  | .reissue k chance =>
    match store.calls[k]? with
    | some (.reissuing request) =>
      match upsertStatement B A S database chance store.table.rows request with
      | .error e => some ({ store with calls := store.calls.set k (.executing []) }, [.refused e])
      | .ok statement => some ({ store with calls := store.calls.set k (.upserting request statement false) }, [.accepted])
    | _ => none

variable (B S)

/-- Calls on one collection, interleaved between their statements in any way. -/
def machine : Machine (Store B S) Event Reply := ⟨Store.step A database defaultExpression⟩

def Store.empty : Store B S := ⟨⟨[], .nil⟩, []⟩

end

end Zeroship.Orm
