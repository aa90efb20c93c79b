import Zeroship.Orm.Protection

/-! Documents and patches, up to their protection.

A document's keys are checked, its values prepared, and the columns that the platform assigns
are taken over before anything is encrypted. A patch is first brought to a list of single
assignments; those of the platform are refused or stripped from it. -/
namespace Zeroship.Orm
open Base List Except
open Policy (Assignment AssignmentEvent AssignmentGenerator)
open Cdc (LogicalType)

/-- A document as a caller gives it. -/
abbrev Document := AList (fun _ : String => Value)

/-- What chance and the database's sequence contribute to one document. -/
structure Draw where
  /-- The random part of a typed id. -/
  body : String → String
  /-- The number allocated from the identity's sequence. -/
  allocated : Int
  nonces : String → Nat

def Document.of (fields : List (String × Value)) : Document :=
  (fields.map fun f => (⟨f.1, f.2⟩ : Sigma fun _ : String => Value)).toAList

section
variable (B : Backend) (S : CollectionSchema)

variable (draw : Draw) (actor : Option String) (field : String) (column : ColumnSchema) (doc : Document)

def validateUserDocKeys : Except DbError Unit :=
  doc.keys.forM fun name => do
    validateFieldName name
    demand (S.fields.lookup name ≠ none) (.unknownField name)

def refuseGeneratedIdentifier : Except DbError Unit :=
  demand (∀ e ∈ S.fields.entries,
      (e.2.assignment.any fun a => a.generator = .typedId || a.generator = .identity) → e.1 ∉ doc)
    .platformAssignedField

/-- A value made ready for its column; null stays null. -/
def prepareValue (v : Value) : Except DbError Value :=
  if v = .null then .ok v
  else if column.isExactDecimal then
    match v with
    | .decimal s | .string s =>
      match if B.validDecimal s then B.quantize (column.precision.getD 0) (column.scale.getD 0) s else none with
      | some quantized => .ok (.decimal quantized)
      | none => .error (.invalidTypedValue field)
    | _ => .error (.invalidTypedValue field)
  else match column.logicalType with
    | .calendarDate =>
      match v with
      | .string s => if B.validCalendarDate s then .ok v else .error (.invalidTypedValue field)
      | _ => .error (.invalidTypedValue field)
    | .timestamp =>
      match B.timestampMicros v with
      | some micros => .ok (.timestampMicros micros)
      | none => .error (.invalidTypedValue field)
    | .boolean => if v matches .bool _ then .ok v else .error (.invalidTypedValue field)
    | .vector | .geoPoint | .json | .array | .object | .union =>
      match B.prepareContainer column v with
      | some prepared => if prepared = .null then .error (.invalidTypedValue field) else .ok prepared
      | none => .error (.invalidTypedValue field)
    | _ => .ok v

def preparedField (doc : Doc) (field : String) : Except DbError (Option Value) :=
  match S.fields.lookup field, doc field with
  | some column, some v => (prepareValue B field column v).map some
  | _, v => .ok v

def prepareDocument (doc : Doc) : Except DbError Doc := do
  (S.fields.entries.forM fun e => (preparedField B S doc e.1).map fun _ => ())
  pure fun field =>
    match preparedField B S doc field with
    | .ok v => v
    | .error _ => none

/-- The document has a value for an encrypted field. -/
def docTouchesEncryptedField (doc : Doc) : Bool :=
  S.fields.entries.any fun e => e.2.encrypted && (doc e.1).any (· ≠ .null)

def rowPkFromValue : Option Value → String
  | some (.string s) => s
  | some (.number n) => toString n
  | some (.float json _) => json
  | _ => ""

def isGenerated : Bool :=
  ((S.fields.lookup "id").bind (·.assignment)).any fun a => a.generator = .identity && a.event = .insert

def maxAutoPrefixLen : Nat := 4

def derivePrefixFromCollectionName (collection : String) : String :=
  let name := collection.toList
  let stem := if 1 < name.length ∧ name.getLast? = some 's' then name.dropLast else name
  let truncated := ((stem.filter Char.isAlphanum).take maxAutoPrefixLen).map Char.toLower
  if truncated = [] then "row" else .ofList truncated

def reservedIdPrefixes : List String := ["usr"]

def validateIdPrefix (text : String) : Except DbError Unit := do
  demand ((text.toList.head?).any Char.isLower ∧ text.toList.all fun c => c.isLower || c.isDigit || c = '_')
    .invalidIdPrefix
  demand (text ∉ reservedIdPrefixes) .reservedIdPrefix

def prefixForCollection : String :=
  column.idPrefix.getD (derivePrefixFromCollectionName S.name)

def typedId (body : String) : Value := .string (prefixForCollection S column ++ "_" ++ body)

def actorValue : Value := actor.elim .null .string

/-- What an assigned field holds in a document to be inserted: none for what the database's
default supplies. -/
def injectedValue (a : Assignment)
    (given : Option Value) : Option Value :=
  if a.event = .delete then none
  else match a.generator with
    | .typedId => some (given.getD (typedId S column (draw.body field)))
    | .actor => some (actorValue actor)
    | .now | .increment _ | .identity => none

def injected (doc : Doc) : Doc := fun field =>
  match S.fields.lookup field with
  | none => doc field
  | some column =>
    match column.assignment with
    | none => doc field
    | some a => injectedValue S draw actor field column a (doc field)

def applyAssignmentsOnInsert (doc : Doc) : Except DbError Doc := do
  (S.fields.entries.forM fun e =>
    match e.2.assignment with
    | some ⟨.typedId, .insert⟩ | some ⟨.typedId, .write⟩ =>
      if (doc e.1).isSome then .ok () else validateIdPrefix (prefixForCollection S e.2)
    | _ => .ok ())
  pure (injected S draw actor doc)

/-! ### What a document is prepared to -/

/-- A document ready for protection: fields as they were given, unless they are assigned. -/
structure Ready (actor : Option String) (doc : Document) (given : Doc) : Prop where
  declared : Declared S given
  plain : ∀ {field column}, S.fields.lookup field = some column → field ≠ "id" → column.assignment = none →
    match doc.lookup field with
    | none => given field = none
    | some v => ∃ w, prepareValue B field column v = .ok w ∧ given field = some w
  assigned : ∀ {field column a}, S.fields.lookup field = some column → field ≠ "id" → column.assignment = some a →
    ∃ draw, given field = injectedValue S draw actor field column a none

variable {B S} {draw : Draw} {actor : Option String} {doc : Document} {field : String} {column : ColumnSchema} {given : Doc}
  {v : Value}

/-- What a field that nothing assigns is given comes from the document. -/
theorem Ready.given_plain (ready : Ready B S actor doc given) (hc : S.fields.lookup field = some column)
    (hne : field ≠ "id") (ha : column.assignment = none) (hv : given field = some v) :
    ∃ u, doc.lookup field = some u ∧ prepareValue B field column u = .ok v := by
  have hp := ready.plain hc hne ha
  split at hp
  · rw [hp] at hv
    cases hv
  next u hd =>
  obtain ⟨w, hpr, hw⟩ := hp
  rw [hv] at hw
  cases hw
  exact ⟨u, hd, hpr⟩

theorem prepareValue_null {w : Value} (h : prepareValue B field column v = .ok w) : w = .null ↔ v = .null := by
  unfold prepareValue at h
  by_cases hv : v = .null
  · rw [if_pos hv] at h
    cases h
    exact Iff.rfl
  rw [if_neg hv] at h
  refine iff_of_false ?_ hv
  rintro rfl
  by_cases he : column.isExactDecimal
  · rw [if_pos he] at h
    split at h
    · split at h <;> cases h
    · split at h <;> cases h
    · cases h
  · rw [if_neg he] at h
    split at h
    · split at h
      · split_ifs at h
        exact hv (ok.inj h)
      · cases h
    · split at h <;> cases h
    · split_ifs at h
      exact hv (ok.inj h)
    all_goals first
      | exact hv (ok.inj h)
      | (split at h
         · split_ifs at h with hn
           exact hn (ok.inj h)
         · cases h)

theorem prepareDocument_ok (h : prepareDocument B S doc.lookup = .ok given) :
    (∀ name, S.fields.lookup name = none → given name = doc.lookup name) ∧
      ∀ {field column}, S.fields.lookup field = some column →
        match doc.lookup field with
        | none => given field = none
        | some v => ∃ w, prepareValue B field column v = .ok w ∧ given field = some w := by
  simp only [prepareDocument, seq_ok, forM_eq_forM, forM_ok, pure_ok] at h
  obtain ⟨ha, rfl⟩ := h
  refine ⟨fun name hn => by simp [preparedField, hn], fun {field column} hc => ?_⟩
  have he := ha ⟨field, column⟩ (AList.mem_lookup_iff.mp hc)
  cases hd : doc.lookup field with
  | none =>
    show (match preparedField B S (fun name => doc.lookup name) field with
      | .ok v => v
      | .error _ => none) = none
    simp [preparedField, hc, hd]
  | some v =>
    simp only [preparedField, hc, hd] at he ⊢
    cases hp : prepareValue B field column v with
    | error e => simp [hp, Except.map] at he
    | ok w => exact ⟨w, rfl, rfl⟩

theorem onInsert_ok {injectedDoc : Doc}
    (h : applyAssignmentsOnInsert S draw actor given = .ok injectedDoc) : injectedDoc = injected S draw actor given := by
  simp only [applyAssignmentsOnInsert, bind_ok, pure_ok] at h
  obtain ⟨_, _, rfl⟩ := h
  rfl

theorem validateUserDocKeys_ok (h : validateUserDocKeys S doc = .ok ()) : Declared S doc.lookup := by
  intro name hn
  cases hd : doc.lookup name with
  | none => exact hd
  | some v =>
    rw [validateUserDocKeys, forM_eq_forM, forM_ok] at h
    have hk : name ∈ doc.keys := AList.mem_keys.mp (AList.lookup_isSome.mp (by rw [hd]; rfl))
    have hn' := h name hk
    simp only [seq_ok, demand_ok] at hn'
    exact absurd hn hn'.2

/-- The stages before protection make a document ready. -/
theorem ready_of_injected (hk : validateUserDocKeys S doc = .ok ())
    (hg : refuseGeneratedIdentifier S doc = .ok ()) (hp : prepareDocument B S doc.lookup = .ok given) :
    Ready B S actor doc (injected S draw actor given) := by
  obtain ⟨hu, hf⟩ := prepareDocument_ok hp
  refine ⟨fun name hnm => ?_, fun {field column} hc _ hn => ?_, fun {field column a} hc _ ha => ?_⟩
  · simp only [injected, hnm]
    rw [hu name hnm]
    exact validateUserDocKeys_ok hk name hnm
  · simpa only [injected, hc, hn] using hf hc
  · refine ⟨draw, ?_⟩
    simp only [injected, hc, ha]
    unfold injectedValue
    by_cases hd : a.event = .delete
    · rw [if_pos hd, if_pos hd]
    rw [if_neg hd, if_neg hd]
    cases hgn : a.generator with
    | typedId =>
      have hfr : field ∉ doc := demand_ok.mp hg ⟨field, column⟩ (AList.mem_lookup_iff.mp hc)
        (by simp [ha, hgn])
      have hn := hf hc
      rw [AList.lookup_eq_none.mpr hfr] at hn
      simp only [hn]
    | _ => rfl

end

inductive AssignedValue
  | currentTimestamp
  | increment (step : Int)
  | bound (v : Value)

/-- What an assignment sets its column to, in a write that deletes, restores or does neither. -/
def assignedValue (actor : Option String) (deleting restoring : Bool) (a : Assignment) : Option AssignedValue :=
  if a.event = .delete ∧ restoring then some (.bound .null)
  else if a.event = .write ∨ (a.event = .delete ∧ deleting) then
    match a.generator with
    | .now => some .currentTimestamp
    | .actor => some (.bound (actorValue actor))
    | .increment step => some (.increment step)
    | .typedId | .identity => none
  else none

def writeAssignments (S : CollectionSchema) (actor : Option String) (deleting restoring : Bool) :
    List (String × AssignedValue) :=
  S.fields.entries.filterMap fun e =>
    (e.2.assignment.bind (assignedValue actor deleting restoring)).map (e.2.valueColumnOf e.1, ·)

/-! ### Patches -/

inductive Operator
  | set | increment | decrement | multiply | push | pull | addToSet
deriving DecidableEq

namespace Operator

def parse : String → Except DbError Operator
  | "$set" => .ok set
  | "$inc" => .ok increment
  | "$dec" => .ok decrement
  | "$mul" => .ok multiply
  | "$push" => .ok push
  | "$pull" => .ok pull
  | "$addToSet" => .ok addToSet
  | _ => .error (.invalidUpdate "unsupported update operator")

def arithmetic? : Operator → Option ArithmeticOperator
  | increment => some .add
  | decrement => some .subtract
  | multiply => some .multiply
  | _ => none

def array? : Operator → Option ArrayOperator
  | push => some .push
  | pull => some .pull
  | addToSet => some .addToSet
  | _ => none

/-- The operator is one for the type of the column. -/
def supports (operator : Operator) (column : ColumnSchema) : Bool :=
  match operator with
  | set => true
  | increment | decrement | multiply => column.isInteger || column.logicalType = .number
  | push | pull | addToSet => column.logicalType = .array

end Operator

/-- An operand: a value, or an object, which is a value as a whole. -/
inductive PatchValue
  | value (v : Value)
  | object (whole : Value) (fields : List (String × Value))

structure PatchAssignment where
  field : String
  operator : Operator
  operand : Value

def isOperatorName (name : String) : Bool := name.toList.head? = some '$'

section
variable (B : Backend)

/-- One entry of a patch: the fields under an operator, or one field, itself under an operator
or with the value to set. -/
def entryAssignments (name : String) (value : PatchValue) : Except DbError (List PatchAssignment) :=
  if isOperatorName name then do
    let operator ← Operator.parse name
    match value with
    | .value _ => .error (.invalidUpdate (name ++ " requires an object"))
    | .object _ fields => do
      demand (∀ f ∈ fields, ¬ isOperatorName f.1) (.invalidUpdate "update field names cannot begin with '$'")
      pure (fields.map fun f => ⟨f.1, operator, f.2⟩)
  else
    match value with
    | .value v => .ok [⟨name, .set, v⟩]
    | .object whole fields =>
      match fields.find? (isOperatorName ·.1) with
      | none => .ok [⟨name, .set, whole⟩]
      | some (spelled, operand) => do
        demand (fields.length = 1) (.invalidUpdate "a field update must contain exactly one operator")
        let operator ← Operator.parse spelled
        pure [⟨name, operator, operand⟩]

def numericOperand : Value → Bool
  | .number _ | .float _ _ => true
  | .decimal s | .string s => B.validDecimal s
  | _ => false

def patchAssignments (patch : List (String × PatchValue)) : Except DbError (List PatchAssignment) := do
  let parts ← patch.mapM fun e => entryAssignments e.1 e.2
  let assignments := parts.flatten
  demand (assignments.map (·.field)).Nodup (.invalidUpdate "a field may be assigned only once per update")
  (assignments.forM fun a =>
    demand (a.operator.arithmetic?.isSome → numericOperand B a.operand) (.invalidArithmeticOperand a.field))
  demand (assignments ≠ []) (.invalidUpdate "update fields cannot be empty")
  pure assignments

/-- An update as a caller gives it: values, and fields set to the database's clock. -/
structure UpdateInput where
  values : List (String × PatchValue)
  /-- Fields and the offset from the current instant, in microseconds. -/
  expressions : AList (fun _ : String => Int)

/-- An update that was inspected: nothing in it is the platform's to assign. -/
structure Patch where
  assignments : List PatchAssignment
  expressions : List (String × Int)

variable (S : CollectionSchema)

def immutableAfterInsert (field : String) : Bool :=
  ((S.fields.lookup field).bind (·.assignment)).any fun a => a.event ≠ .write

def reassignedOnWrite (field : String) : Bool :=
  ((S.fields.lookup field).bind (·.assignment)).any fun a => a.event = .write

def inspectExpression (field : String) : Except DbError Unit := do
  validateFieldName field
  match S.fields.lookup field with
  | none => .error (.unknownField field)
  | some column =>
    demand (field ≠ "id") .immutablePrimaryKey
    demand (!immutableAfterInsert S field) (.immutableAssignedField field)
    demand (column.logicalType = .timestamp) .invalidTimestampOperation
    demand (!column.encrypted && !column.isMasked) (.protectedUpdateOperation field)
    demand (column.writable || column.assignment.isSome) .fieldNotWritable

variable (input : UpdateInput)

/-- The values of a patch, without those the platform sets itself. -/
def inspectValues : Except DbError (List PatchAssignment) := do
  let assignments ← patchAssignments B input.values
  demand (∀ a ∈ assignments, a.field ∉ input.expressions.keys)
    (.invalidUpdate "a field may be assigned only once per update")
  demand (∀ a ∈ assignments, a.field ≠ "id") .immutablePrimaryKey
  (assignments.forM fun a => demand (!immutableAfterInsert S a.field) (.immutableAssignedField a.field))
  pure (assignments.filter fun a => !reassignedOnWrite S a.field)

/-- A patch made of expressions only carries no values. -/
def givenValues : Except DbError (List PatchAssignment) :=
  if input.expressions.keys = [] ∨ input.values ≠ [] then inspectValues B S input else .ok []

def inspect : Except DbError Patch := do
  (input.expressions.keys.forM (inspectExpression S))
  let assignments ← givenValues B S input
  let expressions := (input.expressions.entries.filter fun e => !reassignedOnWrite S e.1).map fun e => (e.1, e.2)
  demand (assignments ≠ [] ∨ expressions ≠ []) (.invalidUpdate "update fields cannot be empty")
  pure ⟨assignments, expressions⟩

variable (a : PatchAssignment)

def validateAssignment : Except DbError Unit :=
  match S.fields.lookup a.field with
  | none => .error (.unknownField a.field)
  | some column => do
    demand (a.operator ≠ .set → !column.encrypted && !column.isMasked) (.protectedUpdateOperation a.field)
    demand (a.operator.supports column) (.invalidUpdateOperation a.field)

/-- The operand of arithmetic has the type of the column. -/
def arithmeticOperand (column : ColumnSchema) (v : Value) : Bool :=
  if column.isInteger then v.asI64.isSome
  else match v with
    | .number _ | .float _ _ => true
    | .decimal s => B.validDecimal s
    | _ => false

def prepareAssignment : Except DbError PatchAssignment :=
  match S.fields.lookup a.field with
  | none => .ok a
  | some column =>
    match a.operator with
    | .set => (prepareValue B a.field column a.operand).map fun v => { a with operand := v }
    | .push | .pull | .addToSet =>
      match B.prepareContainer column a.operand with
      | some v => .ok { a with operand := v }
      | none => .error (.invalidTypedValue a.field)
    | .increment | .decrement | .multiply =>
      if column.isExactDecimal then (prepareValue B a.field column a.operand).map fun v => { a with operand := v }
      else if arithmeticOperand B column a.operand then .ok a else .error (.invalidArithmeticOperand a.field)

/-- What is still checked of an update before a row is looked for. -/
def preparePatch (patch : Patch) : Except DbError Patch := do
  (patch.assignments.forM fun a => validateAssignment S a)
  let assignments ← patch.assignments.mapM fun a => prepareAssignment B S a
  pure ⟨assignments, patch.expressions⟩

/-- The values a patch sets, as a document. -/
def Patch.sets (patch : Patch) : Doc := fun field =>
  (patch.assignments.find? fun a => a.operator = .set && a.field = field).map (·.operand)

def Patch.operations (patch : Patch) : List PatchAssignment := patch.assignments.filter fun a => a.operator ≠ .set

def updateTouchesEncryptedField (patch : Patch) : Bool :=
  patch.assignments.any fun a => (S.fields.lookup a.field).any (·.encrypted)

/-! ### Accepted patches -/

/-- What inspection leaves of a patch: declared fields other than the identity that nothing
assigns, each once, and operations on fields in the clear only. -/
structure Patch.Accepted (patch : Patch) : Prop where
  given : ∀ a ∈ patch.assignments, a.field ≠ "id" ∧ ∃ column, S.fields.lookup a.field = some column ∧
    column.assignment = none ∧ (a.operator ≠ .set → column.encrypted = false ∧ column.isMasked = false)
  timed : ∀ e ∈ patch.expressions, e.1 ≠ "id" ∧ ∃ column, S.fields.lookup e.1 = some column ∧
    column.assignment = none ∧ column.encrypted = false ∧ column.isMasked = false
  once : (patch.assignments.map (·.field)).Nodup
  timedOnce : (patch.expressions.map (·.1)).Nodup
  apart : ∀ a ∈ patch.assignments, a.field ∉ patch.expressions.map (·.1)

variable {B S} {input : UpdateInput} {patch : Patch} {field : String} {assignments : List PatchAssignment}
  {inspected : Patch}

theorem assignment_none {column : ColumnSchema} (h : S.fields.lookup field = some column)
    (hi : immutableAfterInsert S field = false) (hr : reassignedOnWrite S field = false) :
    column.assignment = none := by
  cases ha : column.assignment with
  | none => rfl
  | some a =>
    by_cases he : a.event = .write
    · simp [reassignedOnWrite, h, ha, he] at hr
    · simp [immutableAfterInsert, h, ha, he] at hi

theorem patchAssignments_once {patch : List (String × PatchValue)}
    (h : patchAssignments B patch = .ok assignments) : (assignments.map (·.field)).Nodup := by
  simp only [patchAssignments, bind_ok, pure_ok] at h
  obtain ⟨parts, _, _, hn, _, _, _, _, rfl⟩ := h
  exact demand_ok.mp hn

theorem givenValues_ok (h : givenValues B S input = .ok assignments) :
    (assignments.map (·.field)).Nodup ∧ ∀ a ∈ assignments, a.field ≠ "id" ∧ a.field ∉ input.expressions.keys ∧
      immutableAfterInsert S a.field = false ∧ reassignedOnWrite S a.field = false := by
  unfold givenValues at h
  split_ifs at h with hass
  · simp only [inspectValues, bind_ok, pure_ok] at h
    obtain ⟨all, hal, _, he, _, hid, _, hi, rfl⟩ := h
    rw [forM_eq_forM, forM_ok] at hi
    refine ⟨(patchAssignments_once hal).sublist (filter_sublist.map _), fun a ha => ?_⟩
    obtain ⟨ha, hr⟩ := mem_filter.mp ha
    refine ⟨demand_ok.mp hid a ha, demand_ok.mp he a ha, ?_, by simpa using hr⟩
    simpa using demand_ok.mp (hi a ha)
  · cases h
    exact ⟨.nil, by simp⟩

theorem inspectExpression_ok (h : inspectExpression S field = .ok ()) :
    field ≠ "id" ∧ immutableAfterInsert S field = false ∧ ∃ column, S.fields.lookup field = some column ∧
      column.encrypted = false ∧ column.isMasked = false := by
  simp only [inspectExpression, seq_ok] at h
  obtain ⟨_, h⟩ := h
  cases hc : S.fields.lookup field with
  | none =>
    rw [hc] at h
    cases h
  | some column =>
    rw [hc] at h
    simp only [seq_ok, demand_ok] at h
    obtain ⟨hid, hi, _, hp, _⟩ := h
    simp only [Bool.and_eq_true, Bool.not_eq_true'] at hp
    exact ⟨hid, by simpa using hi, column, rfl, hp.1, hp.2⟩

theorem prepare_ok {a a' : PatchAssignment} (h : prepareAssignment B S a = .ok a') :
    a'.field = a.field ∧ a'.operator = a.operator := by
  have hm : ∀ {x : Except DbError Value}, x.map (fun v => { a with operand := v }) = .ok a' →
      a'.field = a.field ∧ a'.operator = a.operator := by
    intro x hx
    cases x with
    | error e => cases hx
    | ok v =>
      cases hx
      exact ⟨rfl, rfl⟩
  unfold prepareAssignment at h
  split at h
  · cases h
    exact ⟨rfl, rfl⟩
  split at h
  · exact hm h
  all_goals first
    | (split at h
       · cases h
         exact ⟨rfl, rfl⟩
       · cases h)
    | (split_ifs at h
       · exact hm h
       · cases h
         exact ⟨rfl, rfl⟩)

theorem preparePatch_fields {prepared : List PatchAssignment}
    (h : assignments.mapM (fun a => prepareAssignment B S a) = .ok prepared) :
    prepared.map (·.field) = assignments.map (·.field) := by
  have hal := mapM_ok.mp h
  induction hal with
  | nil => rfl
  | @cons a a' _ _ ha _ ih =>
    rw [map_cons, map_cons, (prepare_ok ha).1, ih (mapM_ok.mpr ‹_›)]

/-- Inspection and preparation accept a patch only in this form. -/
theorem inspect_accepted (h : inspect B S input = .ok inspected)
    (hp : preparePatch B S inspected = .ok patch) : patch.Accepted S := by
  simp only [inspect, bind_ok, pure_ok] at h
  obtain ⟨_, hex, assignments, hg, _, _, rfl⟩ := h
  rw [forM_eq_forM, forM_ok] at hex
  simp only [preparePatch, bind_ok, pure_ok] at hp
  obtain ⟨_, hv, prepared, hm, rfl⟩ := hp
  rw [forM_eq_forM, forM_ok] at hv
  obtain ⟨hon, hf⟩ := givenValues_ok hg
  have hky : ∀ e ∈ (input.expressions.entries.filter fun e => !reassignedOnWrite S e.1).map fun e => (e.1, e.2),
      e.1 ∈ input.expressions.keys ∧ reassignedOnWrite S e.1 = false := by
    intro e he
    obtain ⟨entry, hen, rfl⟩ := mem_map.mp he
    obtain ⟨hen, hr⟩ := mem_filter.mp hen
    exact ⟨mem_map_of_mem hen, by simpa using hr⟩
  refine ⟨fun a ha => ?_, fun e he => ?_, ?_, ?_, fun a ha hmm => ?_⟩
  · obtain ⟨b, hb, hab⟩ := mem_of_mapM hm ha
    obtain ⟨hfi, ho⟩ := prepare_ok hab
    obtain ⟨hid, _, hi, hr⟩ := hf b hb
    have hok := hv b hb
    unfold validateAssignment at hok
    rw [hfi, ho]
    cases hc : S.fields.lookup b.field with
    | none =>
      rw [hc] at hok
      cases hok
    | some column =>
      rw [hc] at hok
      simp only [seq_ok, demand_ok, Bool.and_eq_true, Bool.not_eq_true'] at hok
      exact ⟨hid, column, rfl, assignment_none hc hi hr, hok.1⟩
  · obtain ⟨hk, hr⟩ := hky e he
    obtain ⟨hid, hi, column, hc, hcl, hpl⟩ := inspectExpression_ok (hex e.1 hk)
    exact ⟨hid, column, hc, assignment_none hc hi hr, hcl, hpl⟩
  · rw [preparePatch_fields hm]
    exact hon
  · rw [map_map]
    exact Nodup.sublist (filter_sublist.map Sigma.fst) input.expressions.nodupKeys
  · obtain ⟨b, hb, hab⟩ := mem_of_mapM hm ha
    obtain ⟨e, he, heq⟩ := mem_map.mp hmm
    rw [(prepare_ok hab).1] at heq
    exact (hf b hb).2.1 (heq ▸ (hky e he).1)

/-- What an accepted patch sets is what one of its entries gives, prepared. -/
theorem inspect_source (h : inspect B S input = .ok inspected)
    (hp : preparePatch B S inspected = .ok patch) {v : Value} {column : ColumnSchema}
    (hc : S.fields.lookup field = some column) (hs : ⟨field, .set, v⟩ ∈ patch.assignments) :
    ∃ entry ∈ input.values, ∃ assignments, entryAssignments entry.1 entry.2 = .ok assignments ∧
      ∃ u, ⟨field, .set, u⟩ ∈ assignments ∧ prepareValue B field column u = .ok v := by
  simp only [inspect, bind_ok, pure_ok] at h
  obtain ⟨_, _, values, hg, _, _, rfl⟩ := h
  simp only [preparePatch, bind_ok, pure_ok] at hp
  obtain ⟨_, _, prepared, hm, rfl⟩ := hp
  obtain ⟨⟨field', operator, u⟩, hb, hab⟩ := mem_of_mapM hm hs
  obtain ⟨hf, ho⟩ := prepare_ok hab
  cases hf
  cases ho
  have hv : prepareValue B field column u = .ok v := by
    simp only [prepareAssignment, hc] at hab
    cases hu : prepareValue B field column u with
    | error e => simp [hu, Except.map] at hab
    | ok w =>
      simp only [hu, Except.map, Except.ok.injEq, PatchAssignment.mk.injEq, true_and] at hab
      rw [hab]
  unfold givenValues at hg
  split_ifs at hg with ha
  · simp only [inspectValues, patchAssignments, bind_ok, pure_ok] at hg
    obtain ⟨_, ⟨parts, hprt, _, _, _, _, _, _, rfl⟩, _, _, _, _, _, _, rfl⟩ := hg
    obtain ⟨part, hpr, hmm⟩ := mem_flatten.mp (mem_filter.mp hb).1
    obtain ⟨entry, he, hpa⟩ := mem_of_mapM hprt hpr
    exact ⟨entry, he, part, hpa, u, hmm, hv⟩
  · cases hg
    cases hb

namespace Patch.Accepted
variable (accepted : patch.Accepted S)
include accepted

theorem sets_some {field : String} {v : Value} : patch.sets field = some v ↔ ⟨field, .set, v⟩ ∈ patch.assignments := by
  unfold Patch.sets
  constructor
  · intro h
    obtain ⟨a, ha, rfl⟩ := Option.map_eq_some_iff.mp h
    have hp := find?_some ha
    simp only [Bool.and_eq_true, decide_eq_true_eq] at hp
    obtain ⟨ho, rfl⟩ := hp
    have hm := mem_of_find?_eq_some ha
    rw [← ho]
    exact hm
  · intro hm
    cases hf : patch.assignments.find? fun a => a.operator = .set && a.field = field with
    | none => simpa using find?_eq_none.mp hf _ hm
    | some a =>
      have hp := find?_some hf
      simp only [Bool.and_eq_true, decide_eq_true_eq] at hp
      have heq := inj_on_of_nodup_map accepted.once (mem_of_find?_eq_some hf) hm hp.2
      rw [Option.map_some, heq]

theorem sets_declared : Declared S patch.sets := by
  intro name hn
  cases h : patch.sets name with
  | none => rfl
  | some v =>
    obtain ⟨_, column, hc, _⟩ := accepted.given _ (accepted.sets_some.mp h)
    rw [hn] at hc
    cases hc

theorem sets_identity : patch.sets "id" = none := by
  cases h : patch.sets "id" with
  | none => rfl
  | some v => exact absurd rfl (accepted.given _ (accepted.sets_some.mp h)).1

theorem operated {name : String} (h : name ∈ patch.operations.map (·.field) ++ patch.expressions.map (·.1)) :
    name ≠ "id" ∧ ∃ column, S.fields.lookup name = some column ∧ column.assignment = none ∧ column.encrypted = false ∧
      column.isMasked = false := by
  rcases mem_append.mp h with h | h
  · obtain ⟨a, ha, rfl⟩ := mem_map.mp h
    obtain ⟨ha, ho⟩ := mem_filter.mp ha
    obtain ⟨hid, column, hc, hn, hp⟩ := accepted.given a ha
    exact ⟨hid, column, hc, hn, hp (by simpa using ho)⟩
  · obtain ⟨e, he, rfl⟩ := mem_map.mp h
    exact accepted.timed e he

end Patch.Accepted

end

end Zeroship.Orm
