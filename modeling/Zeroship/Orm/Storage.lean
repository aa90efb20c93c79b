import Zeroship.Orm.Schema

/-! Where fields are stored, and what a column makes of a value.

The inputs of a table are the names a document may use after protection: each field by its
name, and the raw column of each masked field by its own. They are resolved from an accepted
schema, so that neither their names nor their columns repeat. -/
namespace Zeroship.Orm
open Base List
open Policy (Bytes)
open Cdc (LogicalType)

inductive StorageType
  | boolean | integer | real | text | bytes | timestamp
  | exactDecimal (precision scale : Nat)
  | json | vector | geoPoint
deriving DecidableEq

inductive ArithmeticOperator
  | add | subtract | multiply

inductive ArrayOperator
  | push | pull | addToSet

/-- What the pipeline leaves to its libraries and to the database: decimal texts, instants,
floating point, base64 and the insides of containers; and of the database what a column of
doubles or a container gives back, arithmetic, and how the values of a column compare. -/
structure Backend where
  validDecimal : String → Bool
  quantize : Nat → Nat → String → Option String
  /-- The microseconds of an instant, however it is given. -/
  timestampMicros : Value → Option Int
  timestampMicros_micros : ∀ micros given, timestampMicros (.timestampMicros given) = some micros → micros = given
  /-- The resolution of the database holds this instant. -/
  holdsMicros : Int → Bool
  validCalendarDate : String → Bool
  /-- The eight bytes of a finite double. -/
  doubleBytes : Value → Option Bytes
  doubleText : Bytes → String
  /-- How the double of an integer beyond 63 bits prints. -/
  wideText : Int → String
  base64 : Bytes → String
  prepareContainer : ColumnSchema → Value → Option Value
  encodeContainer : StorageType → Value → Option Value
  /-- What a column of doubles gives back. -/
  real : Value → Value
  keptContainer : StorageType → Value → Value
  arithmetic : ArithmeticOperator → Value → Value → Value
  arrayMutation : ArrayOperator → Value → Value → Value
  /-- Two values of a column are equal to the database. -/
  same : String → Value → Value → Bool
  same_refl : ∀ column v, same column v v
  same_symm : ∀ column v w, same column v w → same column w v
  same_trans : ∀ column u v w, same column u v → same column v w → same column u w
  /-- The order of identities. -/
  precedes : Value → Value → Bool
  precedes_total : ∀ v w, precedes v w ∨ precedes w v
  precedes_trans : ∀ u v w, precedes u v → precedes v w → precedes u w

/-- A backend to run examples on: a text compares by what it folds to. -/
def Backend.sample (fold : String → String) : Backend where
  validDecimal _ := true
  quantize _ _ s := some s
  timestampMicros
    | .timestampMicros micros => some micros
    | _ => none
  timestampMicros_micros _ _ h := (Option.some.inj h).symm
  holdsMicros _ := true
  validCalendarDate _ := true
  doubleBytes _ := none
  doubleText _ := ""
  wideText := toString
  base64 _ := ""
  prepareContainer _ v := some v
  encodeContainer _ v := some v
  real v := v
  keptContainer _ v := v
  arithmetic _ v _ := v
  arrayMutation _ v _ := v
  same _ v w := folded v = folded w
  same_refl _ _ := by simp
  same_symm _ _ _ h := by simpa using (of_decide_eq_true h).symm
  same_trans _ _ _ _ h h' := by simpa using (of_decide_eq_true h).trans (of_decide_eq_true h')
  precedes v w := rank v ≤ rank w
  precedes_total v w := by simpa using Nat.le_total (rank v) (rank w)
  precedes_trans _ _ _ h h' := by simpa using (of_decide_eq_true h).trans (of_decide_eq_true h')
where
  folded : Value → Value
    | .string s => .string (fold s)
    | v => v
  rank : Value → Nat
    | .number n => n.toNat
    | .string s => s.toList.foldl (fun n c => n * 256 + c.toNat) 0
    | _ => 0

theorem Backend.sample_exact (column : String) (v w : Value) (h : (Backend.sample id).same column v w) : v = w := by
  have hf : ∀ u : Value, Backend.sample.folded id u = u := by
    intro u
    cases u <;> rfl
  have heq : Backend.sample.folded id v = Backend.sample.folded id w := of_decide_eq_true h
  rwa [hf, hf] at heq

variable (field : String) (column : ColumnSchema)

def storageType : Except DbError StorageType :=
  if column.encrypted then .ok .bytes
  else if column.isExactDecimal then .ok (.exactDecimal (column.precision.getD 0) (column.scale.getD 0))
  else match column.logicalType with
    | .text | .calendarDate => .ok .text
    | .boolean => .ok .boolean
    | .integer | .bigInt => .ok .integer
    | .number => .ok .real
    | .bytes => .ok .bytes
    | .timestamp => .ok .timestamp
    | .json | .object | .array | .union => .ok .json
    | .vector => .ok .vector
    | .geoPoint => .ok .geoPoint
    | .time | .enum | .literal => .error .unsupportedStorage

namespace StorageType
variable (B : Backend) (storage : StorageType) (v : Value)

def encode : Except DbError Value :=
  match storage with
  | timestamp =>
    match B.timestampMicros v with
    | some micros =>
      if B.holdsMicros micros then .ok (.timestampMicros micros)
      else .error (.invalidStatement "timestamp precision is not supported")
    | none => .error (.invalidStatement "invalid timestamp storage value")
  | json | vector | geoPoint =>
    match B.encodeContainer storage v with
    | some encoded => .ok encoded
    | none => .error (.invalidStatement "invalid storage value")
  | _ => .ok v

def accepts : Bool :=
  match storage, v with
  | boolean, .bool _ => true
  | integer, v => v.asI64.isSome
  | real, .number n => (Value.number n).asI64.isSome
  | real, .float _ _ => true
  | real, .decimal s => B.validDecimal s
  | exactDecimal _ _, .decimal s => B.validDecimal s
  | text, .string _ => true
  | bytes, .bytes _ => true
  | timestamp, .timestampMicros _ => true
  | json, .structured _ => true
  | vector, .structured _ => true
  | geoPoint, .structured _ => true
  | _, _ => false

def numeric : Bool := storage matches integer | real | exactDecimal _ _

/-- What a column gives back of an accepted value. -/
def kept : Value :=
  match storage with
  | real => B.real v
  | json | vector | geoPoint => B.keptContainer storage v
  | _ => v

end StorageType

structure Column where
  name : String
  storage : StorageType
deriving DecidableEq

structure PhysicalInput where
  column : Column
  insertOnly : Bool

def insertOnly : Bool := field = "id" || column.assignedOn .insert

/-- The inputs of a field: the mask of a masked field is a text. -/
def fieldInputs : Except DbError (List (String × PhysicalInput)) := do
  let raw ← declaredRawColumn field column
  let storage ← storageType column
  match raw with
  | none => pure [(field, ⟨⟨column.valueColumnOf field, storage⟩, insertOnly field column⟩)]
  | some raw =>
    pure [(field, ⟨⟨column.valueColumnOf field, .text⟩, insertOnly field column⟩),
      (raw, ⟨⟨raw, storage⟩, insertOnly field column⟩)]

def resolveInputs (fields : FieldMap) : Except DbError (List (String × PhysicalInput)) := do
  let inputs ← fields.entries.mapM fun e => fieldInputs e.1 e.2
  pure inputs.flatten

structure ResolvedTable (S : CollectionSchema) where
  inputs : List (String × PhysicalInput)
  resolved : resolveInputs S.fields = .ok inputs

def ResolvedTable.new (S : CollectionSchema) : Except DbError (ResolvedTable S) :=
  match h : resolveInputs S.fields with
  | .ok inputs => .ok ⟨inputs, h⟩
  | .error e => .error e

/-- What an input is for: the value column of a field, or its raw column. -/
inductive Serves (S : CollectionSchema) : String → PhysicalInput → Prop
  | value {field : String} {column : ColumnSchema} {storage : StorageType}
      (declared : S.fields.lookup field = some column)
      (stored : if column.isMasked then storage = .text else storageType column = .ok storage) :
      Serves S field ⟨⟨column.valueColumnOf field, storage⟩, insertOnly field column⟩
  | raw {field raw : String} {column : ColumnSchema} {storage : StorageType}
      (declared : S.fields.lookup field = some column) (named : column.rawColumnOf = some raw)
      (stored : storageType column = .ok storage) :
      Serves S raw ⟨⟨raw, storage⟩, insertOnly field column⟩

variable {inputs : List (String × PhysicalInput)}

theorem fieldInputs_ok {field : String} {column : ColumnSchema} (h : fieldInputs field column = .ok inputs) :
    ∃ storage, storageType column = .ok storage ∧ match column.rawColumnOf with
      | none => column.isMasked = false ∧
          inputs = [(field, ⟨⟨column.valueColumnOf field, storage⟩, insertOnly field column⟩)]
      | some raw => column.isMasked ∧
          inputs = [(field, ⟨⟨column.valueColumnOf field, .text⟩, insertOnly field column⟩),
            (raw, ⟨⟨raw, storage⟩, insertOnly field column⟩)] := by
  unfold fieldInputs at h
  simp only [bind_ok] at h
  obtain ⟨raw, hr, storage, hs, h⟩ := h
  obtain ⟨rfl, hm, _⟩ := rawColumn_ok hr
  refine ⟨storage, hs, ?_⟩
  cases hc : column.rawColumnOf with
  | none | some raw =>
    rw [hc] at h hm
    exact ⟨hm.symm, (Except.ok.inj h).symm⟩

theorem fieldInputs_columns {field : String} {column : ColumnSchema} (h : fieldInputs field column = .ok inputs) :
    inputs.map (·.1) = field :: column.rawColumnOf.toList ∧
      inputs.map (·.2.column.name) = physicalColumns field column := by
  obtain ⟨storage, _, h⟩ := fieldInputs_ok h
  unfold physicalColumns
  cases hr : column.rawColumnOf with
  | none | some raw =>
    rw [hr] at h
    obtain ⟨_, rfl⟩ := h
    exact ⟨rfl, rfl⟩

namespace ResolvedTable
variable {S : CollectionSchema} (T : ResolvedTable S) {field : String} {column : ColumnSchema} {name : String}
  {input : PhysicalInput}

theorem parts : ∃ parts, T.inputs = parts.flatten ∧
    List.Forall₂ (fun e inputs => fieldInputs e.1 e.2 = .ok inputs) S.fields.entries parts := by
  have h := T.resolved
  simp only [resolveInputs, bind_ok, pure_ok] at h
  obtain ⟨parts, hp, hf⟩ := h
  exact ⟨parts, hf.symm, mapM_ok.mp hp⟩

theorem names_eq : T.inputs.map (·.1) = S.fields.entries.flatMap fun e => e.1 :: e.2.rawColumnOf.toList := by
  obtain ⟨parts, hf, hp⟩ := T.parts
  rw [hf]
  exact map_flatten_of_forall₂ (hp.imp fun _ _ h => (fieldInputs_columns h).1)

theorem columns_eq : T.inputs.map (·.2.column.name) = S.fields.entries.flatMap fun e => physicalColumns e.1 e.2 := by
  obtain ⟨parts, hf, hp⟩ := T.parts
  rw [hf]
  exact map_flatten_of_forall₂ (hp.imp fun _ _ h => (fieldInputs_columns h).2)

theorem nodup_columns : (T.inputs.map (·.2.column.name)).Nodup := by
  rw [columns_eq]
  exact S.nodup_physical

theorem nodup_names : (T.inputs.map (·.1)).Nodup := by
  rw [names_eq]
  exact S.nodup_names

theorem serves_of_mem (h : (name, input) ∈ T.inputs) : Serves S name input := by
  obtain ⟨parts, hf, hp⟩ := T.parts
  rw [hf] at h
  obtain ⟨part, hpr, hm⟩ := mem_flatten.mp h
  obtain ⟨e, he, hi⟩ := left_of_forall₂ hp hpr
  have hl : S.fields.lookup e.1 = some e.2 := AList.mem_lookup_iff.mpr he
  obtain ⟨storage, hs, hc⟩ := fieldInputs_ok hi
  cases hr : e.2.rawColumnOf with
  | none =>
    rw [hr] at hc
    obtain ⟨hpl, rfl⟩ := hc
    obtain ⟨rfl, rfl⟩ := Prod.mk.inj (mem_singleton.mp hm)
    exact .value hl (by simpa [hpl] using hs)
  | some raw =>
    rw [hr] at hc
    obtain ⟨hms, rfl⟩ := hc
    rcases mem_pair.mp hm with hv | hv
    · cases hv
      exact .value hl (by simp [hms])
    · cases hv
      exact .raw hl hr hs

theorem exists_value (h : S.fields.lookup field = some column) :
    ∃ storage, (field, ⟨⟨column.valueColumnOf field, storage⟩, insertOnly field column⟩) ∈ T.inputs ∧
      if column.isMasked then storage = .text else storageType column = .ok storage := by
  obtain ⟨parts, hf, hpr⟩ := T.parts
  obtain ⟨part, hp, hi⟩ := right_of_forall₂ hpr (AList.mem_lookup_iff.mp h)
  obtain ⟨storage, hs, hc⟩ := fieldInputs_ok hi
  rw [hf]
  cases hr : column.rawColumnOf with
  | none =>
    rw [hr] at hc
    obtain ⟨hpl, rfl⟩ := hc
    exact ⟨storage, mem_flatten.mpr ⟨_, hp, mem_singleton.mpr rfl⟩, by simpa [hpl] using hs⟩
  | some raw =>
    rw [hr] at hc
    obtain ⟨hm, rfl⟩ := hc
    exact ⟨.text, mem_flatten.mpr ⟨_, hp, mem_cons_self⟩, by simp [hm]⟩

theorem exists_raw (h : S.fields.lookup field = some column) {raw : String} (hr : column.rawColumnOf = some raw) :
    ∃ storage, (raw, ⟨⟨raw, storage⟩, insertOnly field column⟩) ∈ T.inputs ∧ storageType column = .ok storage := by
  obtain ⟨parts, hf, hp⟩ := T.parts
  obtain ⟨part, hpr, hi⟩ := right_of_forall₂ hp (AList.mem_lookup_iff.mp h)
  obtain ⟨storage, hs, hc⟩ := fieldInputs_ok hi
  rw [hr] at hc
  obtain ⟨_, rfl⟩ := hc
  rw [hf]
  exact ⟨storage, mem_flatten.mpr ⟨_, hpr, by simp⟩, hs⟩

theorem eq_of_column {other : String} {input' : PhysicalInput} (h : (name, input) ∈ T.inputs)
    (h' : (other, input') ∈ T.inputs) (hc : input.column.name = input'.column.name) : name = other ∧ input = input' :=
  Prod.mk.inj (inj_on_of_nodup_map T.nodup_columns h h' hc)

end ResolvedTable

end Zeroship.Orm
