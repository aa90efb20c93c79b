import Zeroship.Cdc.ReadSet
import Zeroship.Policy.Seal

/-! Collections: names, values, columns and where they are stored.

A field has a value column and, if it is masked, a raw column besides, which holds the value
while the value column shows the mask. A schema is only ever seen after it was accepted: the
physical columns of its fields are distinct, no raw column can be spelled as a field, and the
identity is neither masked nor encrypted. -/
namespace Zeroship.Orm
open Base List
open Policy (Assignment AssignmentEvent AssignmentGenerator Bytes utf8)
open Cdc (LogicalType MaskKind)

inductive IdentRole
  | collection | column | storedColumn
deriving DecidableEq

inductive Reservation
  | exact (name : String)
  | startsWith (text : String)
deriving DecidableEq

def lowercase (s : String) : List Char := s.toList.map Char.toLower

variable (fields : FieldMap) (field name : String)

def Reservation.matches : Reservation → Bool
  | exact other => name = other
  | startsWith text => (lowercase text).isPrefixOf (lowercase name)

def collectionReservations : List Reservation := [.startsWith "sqlite_"]

def backendCatalogReservations : List Reservation := [.startsWith "pg_", .startsWith "sqlite_"]

def storedColumnReservations : List Reservation :=
  [.exact "public", .exact "pii", .exact "spi", .exact "phi", .exact "pci", .exact "internal"]

def columnReservations : List Reservation :=
  [.startsWith "_", .startsWith "__zs_", .startsWith "__zeroship_"] ++ storedColumnReservations

def IdentRole.reservations : IdentRole → List Reservation
  | collection => collectionReservations
  | column => columnReservations ++ backendCatalogReservations
  | storedColumn => storedColumnReservations ++ backendCatalogReservations

inductive IdentError
  | empty (role : IdentRole)
  | nulByte (role : IdentRole)
  | tooLong (role : IdentRole) (len : Nat)
  | illegalCharacter (role : IdentRole) (character : Char)
  | reserved (role : IdentRole) (name : String) (reservation : Reservation)
deriving DecidableEq

def maxIdentBytes : Nat := 63

def parseAs (raw : String) (role : IdentRole) : Except IdentError Unit :=
  if raw = "" then .error (.empty role)
  else if Char.ofNat 0 ∈ raw.toList then .error (.nulByte role)
  else if maxIdentBytes < (utf8 raw).length then .error (.tooLong role (utf8 raw).length)
  else match raw.toList.find? fun c => !(c.isAlphanum || c = '_') with
    | some bad => .error (.illegalCharacter role bad)
    | none =>
      match role.reservations.find? (·.matches raw) with
      | some reservation => .error (.reserved role raw reservation)
      | none => .ok ()

theorem length_of_parseAs {raw : String} {role : IdentRole} (h : parseAs raw role = .ok ()) :
    (utf8 raw).length ≤ maxIdentBytes := by
  unfold parseAs at h
  split_ifs at h with he hn hl
  exact Nat.le_of_not_lt hl

/-- A value. An integer that is a number is one of 64 bits, with or without a sign. A float
is known by what it prints as, in JSON and plainly. Containers, JSON texts and cells that were
read masked are `structured`: nothing here looks into them. -/
inductive Value
  | null
  | bool (b : Bool)
  | number (n : Int)
  | float (json plain : String)
  | string (s : String)
  | bytes (b : Bytes)
  | timestampMicros (micros : Int)
  | decimal (s : String)
  | structured (text : String)
deriving DecidableEq

namespace Value

def asI64 : Value → Option Int
  | number n => if -2 ^ 63 ≤ n ∧ n < 2 ^ 63 then some n else none
  | _ => none

end Value

structure StorageMapping where
  (valueColumn rawColumn : Option String)

structure ColumnSchema where
  logicalType : LogicalType
  (required primaryKey unique writable : Bool)
  assignment : Option Assignment
  (softDelete concurrency encrypted : Bool)
  /-- The kind of the mask, as it is spelled. -/
  (mask idPrefix : Option String)
  storage : StorageMapping
  (precision scale : Option Nat)

namespace ColumnSchema

def new (logicalType : LogicalType) : ColumnSchema where
  logicalType := logicalType
  required := true
  primaryKey := false
  unique := false
  writable := true
  assignment := none
  softDelete := false
  concurrency := false
  encrypted := false
  mask := none
  idPrefix := none
  storage := ⟨none, none⟩
  precision := none
  scale := none

/-- A column for texts that application code chooses as identities. -/
def textIdentity : ColumnSchema := { new .text with primaryKey := true }

variable (column : ColumnSchema)

/-- No mask, and the mask `none`, leave the field as it is. -/
def effectiveMask : Option String := column.mask.filter (· ≠ "none")

def isMasked : Bool := column.effectiveMask.isSome

def isInteger : Bool := column.logicalType = .integer ∨ column.logicalType = .bigInt

def isExactDecimal : Bool := column.logicalType = .number ∧ column.precision.isSome

/-- The assignment takes place on an event. -/
def assignedOn (event : AssignmentEvent) : Bool :=
  column.assignment.any (·.event = event)

end ColumnSchema

abbrev FieldMap := AList (fun _ : String => ColumnSchema)

inductive DbError
  | ident (error : IdentError)
  | invalidCollectionIdentity (message : String)
  | invalidSchema (message : String)
  | invalidColumnRole
  | invalidAssignment (field : String)
  | encryptedTypeUnsupported | encryptedUniqueUnsupported | invalidNumericMetadata
  | rawStorageRequired (field : String)
  | rawColumnReachable (column field : String)
  | unsupportedStorage
  | unknownField (field : String)
  | platformAssignedField
  | platformAssignedConflictField (field : String)
  | encryptedConflictField (field : String)
  | invalidUpsertConflictField (field : String)
  | protectedUpsertNullableConflict
  | invalidConflictFields (message : String)
  | invalidTypedValue (field : String)
  | invalidIdPrefix | reservedIdPrefix | encryptedRowIdRequired | encryptedValueTypeMismatch
  | encryptionRequiresADatabase | encryptionAeadFailed
  | encryptedColumnNotBytes (field : String)
  | unknownMaskKind (kind : String)
  | unserializableMaskInput (field : String)
  | invalidBytesArg (field : String)
  | immutablePrimaryKey
  | immutableAssignedField (field : String)
  | invalidTimestampOperation
  | protectedUpdateOperation (field : String)
  | fieldNotWritable
  | invalidUpdate (message : String)
  | invalidUpdateOperation (field : String)
  | invalidArithmeticOperand (field : String)
  | undeclaredInput
  | invalidStatement (message : String)
  | upsertRequiresIdentity | upsertIdentityChanged | updateManyTargetLimitExceeded
  | multiRowConcurrencyFilterUnsupported | concurrencyMismatch | restoreNotSupported
deriving DecidableEq

def liftIdent (r : Except IdentError Unit) : Except DbError Unit := r.mapError .ident

@[simp] theorem liftIdent_ok {r : Except IdentError Unit} : liftIdent r = .ok () ↔ r = .ok () := by
  cases r <;> simp [liftIdent, Except.mapError]

def validateFieldName : Except DbError Unit := liftIdent (parseAs name .column)

/-- The raw column of a masked field: one that no query of a creator can spell. -/
def declaredRawColumn (column : ColumnSchema) : Except DbError (Option String) :=
  match column.effectiveMask with
  | none => .ok none
  | some _ =>
    match column.storage.rawColumn with
    | none => .error (.rawStorageRequired field)
    | some declared => do
      liftIdent (parseAs declared .storedColumn)
      demand (parseAs declared .column ≠ .ok ()) (.rawColumnReachable declared field)
      pure (some declared)

/-! ### Accepted schemas -/

def identity : Except DbError Unit :=
  match fields.lookup "id" with
  | none => .error (.invalidCollectionIdentity "collection requires an 'id' primary key")
  | some id => do
    demand id.primaryKey (.invalidCollectionIdentity "collection 'id' must be declared as its primary key")
    demand id.required (.invalidCollectionIdentity "collection 'id' must be required and non-null")
    demand (id.logicalType = .text ∨ id.isInteger)
      (.invalidCollectionIdentity "collection 'id' must use text or integer storage")
    demand (!id.encrypted && !id.isMasked)
      (.invalidCollectionIdentity "collection 'id' cannot be encrypted or masked")
    demand (id.assignment.all (·.event = .insert))
      (.invalidCollectionIdentity "collection 'id' can only be assigned on insertion")
    demand (fields.entries.all fun e => e.1 = "id" || !e.2.primaryKey)
      (.invalidCollectionIdentity "collection 'id' must be its sole primary key")

variable (column : ColumnSchema)

/-- The generator fits the type and the event. -/
def assignmentFits (assignment : Assignment) : Bool :=
  match assignment.generator with
  | .now => column.logicalType = .timestamp
  | .actor => column.logicalType = .text
  | .typedId => assignment.event = .insert ∧ column.logicalType = .text
  | .identity => assignment.event = .insert ∧ column.isInteger
  | .increment _ => assignment.event = .write ∧ column.isInteger

def encryptable : Bool :=
  column.logicalType ∈ [.text, .number, .integer, .bigInt, .bytes]

def maxPrecision : Nat := 1000

/-- The precision and the scale of a column with a fixed precision. -/
def decimalFits : Bool :=
  match column.precision with
  | none => column.scale = none
  | some precision =>
    column.logicalType = .number ∧ 1 ≤ precision ∧ precision ≤ maxPrecision ∧ column.scale.getD 0 ≤ precision

def validateColumn (column : ColumnSchema) : Except DbError Unit := do
  demand (column.assignment.all (assignmentFits column)) (.invalidAssignment name)
  demand (column.softDelete → column.assignment = some ⟨.now, .delete⟩) .invalidColumnRole
  demand (column.concurrency →
    column.assignment.any fun a => a.event = .write && a.generator matches .increment _) .invalidColumnRole
  demand (column.encrypted → encryptable column) .encryptedTypeUnsupported
  demand (column.encrypted → !column.unique) .encryptedUniqueUnsupported
  demand (decimalFits column) .invalidNumericMetadata
  (column.storage.valueColumn.toList.forM fun stored => liftIdent (parseAs stored .storedColumn))
  discard (declaredRawColumn name column)

def ColumnSchema.valueColumnOf (field : String) : String :=
  column.storage.valueColumn.getD field

def ColumnSchema.rawColumnOf : Option String :=
  column.effectiveMask.bind fun _ => column.storage.rawColumn

/-- The columns a field is stored in: its value column, and its raw column if it is masked. -/
def physicalColumns (column : ColumnSchema) : List String :=
  column.valueColumnOf field :: column.rawColumnOf.toList

def validate : Except DbError Unit := do
  identity fields
  (fields.entries.forM fun e => do
    validateFieldName e.1
    validateColumn e.1 e.2)
  demand (fields.entries.flatMap fun e => physicalColumns e.1 e.2).Nodup
    (.invalidSchema "conflicting physical column mappings")
  demand ((fields.entries.filter (·.2.softDelete)).length ≤ 1) .invalidColumnRole
  demand ((fields.entries.filter (·.2.concurrency)).length ≤ 1) .invalidColumnRole

structure CollectionSchema where
  name : String
  fields : FieldMap
  named : parseAs name .collection = .ok ()
  accepted : validate fields = .ok ()

theorem rawColumn_ok {field : String} {column : ColumnSchema} {raw : Option String}
    (h : declaredRawColumn field column = .ok raw) :
    raw = column.rawColumnOf ∧ raw.isSome = column.isMasked ∧ ∀ name ∈ raw, parseAs name .column ≠ .ok () := by
  unfold declaredRawColumn at h
  unfold ColumnSchema.rawColumnOf ColumnSchema.isMasked
  cases hm : column.effectiveMask with
  | none =>
    rw [hm] at h
    obtain rfl : none = raw := Except.ok.inj h
    simp
  | some kind =>
    rw [hm] at h
    cases hr : column.storage.rawColumn with
    | none =>
      rw [hr] at h
      cases h
    | some declared =>
      rw [hr] at h
      simp only [seq_ok, demand_ok, pure_ok] at h
      obtain ⟨_, hu, rfl⟩ := h
      exact ⟨rfl, rfl, fun name hn => by cases hn; exact hu⟩

namespace CollectionSchema
variable (S : CollectionSchema) {field : String} {column : ColumnSchema}

theorem checked (h : S.fields.lookup field = some column) :
    parseAs field .column = .ok () ∧ validateColumn field column = .ok () := by
  have ha := S.accepted
  simp only [validate, seq_ok, forM_eq_forM, forM_ok] at ha
  obtain ⟨_, hf, _⟩ := ha
  obtain ⟨hn, hc⟩ := hf ⟨field, column⟩ (AList.mem_lookup_iff.mp h)
  exact ⟨liftIdent_ok.mp hn, hc⟩

theorem nodup_physical : (S.fields.entries.flatMap fun e => physicalColumns e.1 e.2).Nodup := by
  have ha := S.accepted
  simp only [validate, seq_ok, demand_ok] at ha
  exact ha.2.2.1

section
variable (h : S.fields.lookup field = some column)
include h

theorem assignment_fits {assignment : Assignment}
    (ha : column.assignment = some assignment) : assignmentFits column assignment := by
  have hc := (S.checked h).2
  simp only [validateColumn, seq_ok, demand_ok] at hc
  simpa [ha] using hc.1

theorem rawColumn_checked : ∃ raw, declaredRawColumn field column = .ok raw := by
  have hc := (S.checked h).2
  simp only [validateColumn, seq_ok] at hc
  obtain ⟨_, _, _, _, _, _, _, hr⟩ := hc
  cases hd : declaredRawColumn field column with
  | ok raw => exact ⟨raw, rfl⟩
  | error e => simp [hd, discard, Functor.discard, Functor.mapConst, Except.map] at hr

theorem lookup_rawColumn {raw : String} (hr : column.rawColumnOf = some raw) : S.fields.lookup raw = none := by
  obtain ⟨declared, hd⟩ := S.rawColumn_checked h
  obtain ⟨rfl, _, hu⟩ := rawColumn_ok hd
  cases ho : S.fields.lookup raw with
  | none => rfl
  | some other => exact absurd (S.checked ho).1 (hu raw hr)

theorem rawColumnOf_isSome : column.rawColumnOf.isSome = column.isMasked := by
  obtain ⟨declared, hd⟩ := S.rawColumn_checked h
  obtain ⟨rfl, hs, _⟩ := rawColumn_ok hd
  exact hs

end

theorem nodup_names : (S.fields.entries.flatMap fun e => e.1 :: e.2.rawColumnOf.toList).Nodup := by
  rw [nodup_flatMap]
  have hp := nodup_flatMap.mp S.nodup_physical
  refine ⟨fun e he => ?_, ?_⟩
  · have hl : S.fields.lookup e.1 = some e.2 := AList.mem_lookup_iff.mpr he
    refine nodup_cons.mpr ⟨fun hm => ?_, (hp.1 e he).of_cons⟩
    rw [S.lookup_rawColumn hl (Option.mem_toList.mp hm)] at hl
    cases hl
  · have hk : S.fields.entries.Pairwise fun a b => a.1 ≠ b.1 := pairwise_map.mp S.fields.nodupKeys
    refine (hk.and hp.2).imp_of_mem fun {a b} ha hb hab => ?_
    have hlo : S.fields.lookup a.1 = some a.2 := AList.mem_lookup_iff.mpr ha
    have hlk : S.fields.lookup b.1 = some b.2 := AList.mem_lookup_iff.mpr hb
    intro name hnm hn
    rcases mem_cons.mp hnm with rfl | hrw
    · rcases mem_cons.mp hn with hs | hr
      · exact hab.1 hs
      · rw [S.lookup_rawColumn hlk (Option.mem_toList.mp hr)] at hlo
        cases hlo
    · rcases mem_cons.mp hn with rfl | hr
      · rw [S.lookup_rawColumn hlo (Option.mem_toList.mp hrw)] at hlk
        cases hlk
      · exact hab.2 (mem_cons_of_mem _ hrw) (mem_cons_of_mem _ hr)

theorem field_of_rawColumn {other raw : String} {column' : ColumnSchema} (h : S.fields.lookup field = some column)
    (h' : S.fields.lookup other = some column') (hr : column.rawColumnOf = some raw)
    (hr' : column'.rawColumnOf = some raw) : field = other := by
  by_contra hne
  have hp := (nodup_flatMap.mp S.nodup_physical).2
  have he : (⟨field, column⟩ : Sigma fun _ : String => ColumnSchema) ≠ ⟨other, column'⟩ := fun heq =>
    hne (Sigma.mk.inj heq).1
  have : Std.Symm (Function.onFun Disjoint fun e : Sigma fun _ : String => ColumnSchema => physicalColumns e.1 e.2) :=
    ⟨fun _ _ hd => List.Disjoint.symm hd⟩
  have hds := hp.forall (AList.mem_lookup_iff.mp h) (AList.mem_lookup_iff.mp h') he
  exact hds (mem_cons_of_mem _ (Option.mem_toList.mpr hr))
    (mem_cons_of_mem _ (Option.mem_toList.mpr hr'))

/-- The identity is a text or an integer, and what it is stored as is what it is. -/
theorem identity_column : ∃ id, S.fields.lookup "id" = some id ∧ id.encrypted = false ∧ id.isMasked = false ∧
    (id.logicalType = .text ∨ id.isInteger) ∧ ∀ a ∈ id.assignment, a.event = .insert := by
  have hal := S.accepted
  simp only [validate, seq_ok] at hal
  have hid := hal.1
  unfold identity at hid
  cases h : S.fields.lookup "id" with
  | none =>
    rw [h] at hid
    cases hid
  | some id =>
    rw [h] at hid
    simp only [seq_ok, demand_ok, Bool.and_eq_true, Bool.not_eq_true', Option.all_eq_true] at hid
    obtain ⟨_, _, ht, hp, hass, _⟩ := hid
    exact ⟨id, rfl, hp.1, hp.2, ht, fun a ha => by simpa using hass a ha⟩

end CollectionSchema

end Zeroship.Orm
