import Zeroship.Orm.Compiled

/-! Ciphertexts and the rows they are bound to.

A ciphertext is made for one cell: a field of the row with some identity, in a collection of a
database. The identity is chosen before anything is encrypted: given, minted, allocated, or read
from a row that another writer may change. What holds a ciphertext in its own row is the filter
by identity of an update, and the guard of an upsert. -/
namespace Zeroship.Orm
open Base List ColumnSchema Expression
open Policy (Bytes utf8)

/-- A cell that something can be encrypted for. -/
structure Cell where
  database : DatabaseId
  (collection field rowPk : String)
  named : parseAs collection .collection = .ok ()
  declared : parseAs field .column = .ok ()

def Cell.aad (cell : Cell) : Bytes := canonicalAad cell.database cell.collection cell.field (utf8 cell.rowPk)

theorem Cell.aad_injective : Function.Injective Cell.aad := by
  intro a b h
  obtain ⟨hd, hc, hf, hr⟩ := canonicalAad_injective (length_of_parseAs a.named)
    (length_of_parseAs b.named) (length_of_parseAs a.declared) (length_of_parseAs b.declared) h
  obtain ⟨⟨_, _⟩, _, _, _, _, _⟩ := b
  cases hd
  cases hc
  cases hf
  cases Policy.utf8_injective hr
  rfl

section
variable (B : Backend) (A : Aead) (S : CollectionSchema) (database : DatabaseId)

/-- The cell of a declared field. -/
def cellOf {field : String} {column : ColumnSchema} (declared : S.fields.lookup field = some column) (rowPk : String) :
    Cell :=
  ⟨database, S.name, field, rowPk, S.named, (S.checked declared).1⟩

/-- Where the ciphertext of a field is stored. -/
def ciphertextColumn (field : String) (column : ColumnSchema) : String :=
  column.rawColumnOf.getD (column.valueColumnOf field)

variable (row : Row)

/-- The text of a row's identity. -/
def identityText : String := rowPkFromValue (some (row (keyColumn S)))

/-- What a read or an unmasking makes of a stored ciphertext. -/
def decryptCell (cell : Cell) (v : Value) : Except DbError (Option Bytes) :=
  if v = .null then .ok none
  else if cell.rowPk = "" then .error .encryptedRowIdRequired
  else match v with
    | .bytes blob =>
      match A.decrypt cell.aad blob with
      | some plaintext => .ok (some plaintext)
      | none => .error .encryptionAeadFailed
    | _ => .error (.encryptedColumnNotBytes cell.field)

/-- Nothing, or a ciphertext made for a cell. -/
inductive Sealed (cell : Cell) : Value → Prop
  | null : Sealed cell .null
  | bytes (nonce : Nat) (plaintext : Bytes) (identified : cell.rowPk ≠ "") :
      Sealed cell (.bytes (A.encrypt nonce cell.aad plaintext))

/-- Every encrypted field of a row holds what was made for it there. -/
def RowBound : Prop :=
  ∀ {field : String} {column : ColumnSchema} (declared : S.fields.lookup field = some column), column.encrypted →
    Sealed A (cellOf S database declared (identityText S row)) (row (ciphertextColumn field column))

variable {A} in
theorem Sealed.decrypts {cell : Cell} {v : Value} (h : Sealed A cell v) : ∃ plaintext, decryptCell A cell v = .ok plaintext := by
  cases h with
  | null => exact ⟨none, rfl⟩
  | bytes nonce plaintext hi =>
    refine ⟨some plaintext, ?_⟩
    simp [decryptCell, hi, A.decrypt_encrypt]

variable {A} in
/-- And nowhere else. -/
theorem Sealed.moved {cell other : Cell} {v : Value} (h : Sealed A cell v) (hv : v ≠ .null) (ho : other ≠ cell) :
    decryptCell A other v = .error (if other.rowPk = "" then .encryptedRowIdRequired else .encryptionAeadFailed) := by
  cases h with
  | null => exact absurd rfl hv
  | bytes nonce plaintext _ =>
    have hn := A.authentic nonce cell.aad other.aad plaintext fun heq => ho (Cell.aad_injective heq)
    by_cases hi : other.rowPk = ""
    · simp [decryptCell, hi]
    · simp [decryptCell, hi, hn]

/-- Identities compare exactly, and no field that is encrypted and masked is assigned when a
row is written. -/
structure Bindable : Prop where
  exact : ∀ v w, B.same (keyColumn S) v w → v = w
  unassigned : ∀ {field column}, S.fields.lookup field = some column → column.encrypted →
    column.isMasked → column.assignedOn .write = false

/-- The database has no default for a ciphertext. -/
def NoCiphertext (defaults : Nat → Row) : Prop :=
  ∀ {field column}, S.fields.lookup field = some column → column.encrypted →
    ∀ i, defaults i (ciphertextColumn field column) = .null

variable {B A S database} {T : ResolvedTable S} {field name : String} {column : ColumnSchema} {input : PhysicalInput}
  {given placed : Doc} {draw : Draw} {rowPk : String} {now : Int} {row old fresh : Row} {set : SetList} {v w : Value}
  {deleting restoring : Bool} {actor : Option String} {storage : StorageType} {mentioned : String → Bool}

/-! ### The columns of ciphertexts and identities -/

/-- The input of a ciphertext: the raw column of a masked field, the value column of another. -/
structure CiphertextInput (T : ResolvedTable S) (field : String) (column : ColumnSchema) (name : String)
    (input : PhysicalInput) : Prop where
  mem : (name, input) ∈ T.inputs
  column_eq : input.column = ⟨ciphertextColumn field column, .bytes⟩
  insertOnly_eq : input.insertOnly = insertOnly field column
  named : (column.isMasked = false ∧ column.rawColumnOf = none ∧ name = field) ∨ column.rawColumnOf = some name

theorem exists_ciphertext (T : ResolvedTable S) (hc : S.fields.lookup field = some column)
    (he : column.encrypted) : ∃ name input, CiphertextInput T field column name input := by
  have hb : storageType column = .ok .bytes := by simp [storageType, he]
  have hsm := S.rawColumnOf_isSome hc
  cases hr : column.rawColumnOf with
  | none =>
    have hms : column.isMasked = false := by simpa [hr] using hsm.symm
    obtain ⟨storage, hm, hs⟩ := T.exists_value hc
    rw [hms, hb] at hs
    cases hs
    exact ⟨field, _, hm, by simp [ciphertextColumn, hr], rfl, .inl ⟨hms, hr, rfl⟩⟩
  | some raw =>
    obtain ⟨storage, hm, hs⟩ := T.exists_raw hc hr
    rw [hb] at hs
    cases hs
    exact ⟨raw, _, hm, by simp [ciphertextColumn, hr], rfl, .inr hr⟩

theorem placed_ciphertext (h : applyToDoc B A S (some database) draw.nonces rowPk given = .ok placed)
    (hd : Declared S given) (hcl : S.fields.lookup field = some column) (he : column.encrypted)
    (hin : CiphertextInput T field column name input) : (placed name = none) ∨ (placed name = some .null) ∨
      ∃ v, given field = some v ∧ v ≠ .null ∧ ∃ nonce plaintext, rowPk ≠ "" ∧
        placed name = some (.bytes (A.encrypt nonce (cellOf S database hcl rowPk).aad plaintext)) := by
  have hp := applyToDoc_placed h hd hcl
  rcases hin.named with ⟨hm, hr, rfl⟩ | hr
  · rw [hr, Option.bind_none] at hp
    generalize hg : given name = g at hp ⊢
    generalize hv : placed name = v at hp ⊢
    cases hp with
    | absent => exact .inl rfl
    | cleared => exact .inr (.inl rfl)
    | plain _ _ hc => simp [he] at hc
    | sealed hpr _ _ _ hi hs =>
      cases hs
      exact .inr (.inr ⟨_, rfl, hpr, _, _, hi, rfl⟩)
  · rw [hr, Option.bind_some] at hp
    generalize hg : given field = g at hp ⊢
    generalize hv : placed name = v at hp ⊢
    generalize placed field = shown at hp
    cases hp with
    | absent | cleared | plain _ hm _ | sealed _ _ _ _ _ _ => exact .inl rfl
    | masked _ _ hc _ => simp [he] at hc
    | sealedMasked hpr _ _ _ hi hs =>
      cases hs
      exact .inr (.inr ⟨_, rfl, hpr, _, _, hi, rfl⟩)

theorem stores_bytes (h : Stores B .bytes v w) : w = v := by
  cases h with
  | null => rfl
  | kept _ he =>
    cases he
    rfl

theorem exists_keyInput (T : ResolvedTable S) : ∃ input, ("id", input) ∈ T.inputs ∧ input.column.name = keyColumn S ∧
    input.insertOnly ∧ (input.column.storage = .text ∨ input.column.storage = .integer) := by
  obtain ⟨column, hcl, hc, hu, ht, _⟩ := S.identity_column
  obtain ⟨storage, hm, hs⟩ := T.exists_value hcl
  refine ⟨_, hm, by simp [keyColumn, valueColumnForField, hcl], by simp [insertOnly], ?_⟩
  rw [if_neg (by simp [hu])] at hs
  unfold storageType at hs
  rcases ht with ht | ht
  · have he : column.isExactDecimal = false := by simp [isExactDecimal, ht]
    rw [if_neg (by simp [hc]), if_neg (by simp [he]), ht] at hs
    cases hs
    exact .inl rfl
  · simp only [isInteger, decide_eq_true_eq] at ht
    have he : column.isExactDecimal = false := by
      rcases ht with ht | ht <;> simp [isExactDecimal, ht]
    rw [if_neg (by simp [hc]), if_neg (by simp [he])] at hs
    rcases ht with ht | ht
    all_goals
      rw [ht] at hs
      cases hs
      exact .inr rfl

theorem encode_key (hs : storage = .text ∨ storage = .integer) (h : storage.encode B v = .ok w) : w = v := by
  rcases hs with rfl | rfl <;> exact (Except.ok.inj h).symm

theorem stores_key (hs : storage = .text ∨ storage = .integer) (h : Stores B storage v w) : w = v := by
  cases h with
  | null => rfl
  | kept _ he =>
    rw [encode_key hs he]
    rcases hs with rfl | rfl <;> rfl

theorem placed_identity (h : applyToDoc B A S (some database) draw.nonces rowPk given = .ok placed)
    (hd : Declared S given) : placed "id" = given "id" := by
  obtain ⟨column, hcl, hc, hu, _⟩ := S.identity_column
  have hp := applyToDoc_placed h hd hcl
  have hms : column.effectiveMask = none := by simpa [isMasked] using hu
  generalize column.rawColumnOf.bind placed = raw at hp
  generalize placed "id" = v at hp ⊢
  generalize given "id" = g at hp ⊢
  cases hp with
  | absent | cleared | plain _ _ _ => rfl
  | masked _ hm _ _ | sealedMasked _ hm _ _ _ _ => simp [hms] at hm
  | sealed _ _ ht _ _ _ => simp [PlaintextType.fromField, hc] at ht

theorem newRow_identity (h : protectDoc B A S (some database) draw given = .ok placed)
    (hd : Declared S given) (hvl : valuesOf B T mentioned placed = .ok set) (defaults : Row)
    (hv : given "id" = some v) : newRow B now defaults set (keyColumn S) = v := by
  obtain ⟨input, hi, hn, _, hst⟩ := exists_keyInput T
  have hs := newRow_valuesOf hvl hi now defaults
  rw [placed_identity h hd, hv, hn] at hs
  exact stores_key hst hs.stores

theorem rowPk_given {g : Option Value} (h : rowPkFromValue g ≠ "") : ∃ v, g = some v := by
  cases g with
  | none => exact absurd rfl h
  | some v => exact ⟨v, rfl⟩

theorem newRow_bound (h : protectDoc B A S (some database) draw given = .ok placed)
    (hd : Declared S given) (hvl : valuesOf B T mentioned placed = .ok set) {defaults : Nat → Row}
    (hdf : NoCiphertext S defaults) (i : Nat) : RowBound A S database (newRow B now (defaults i) set) := by
  intro field column hc he
  obtain ⟨name, input, hi⟩ := exists_ciphertext T hc he
  have hs := newRow_valuesOf hvl hi.mem now (defaults i)
  rw [hi.column_eq] at hs
  rcases placed_ciphertext h hd hc he hi with hn | hnl | ⟨v, _, _, nonce, plaintext, hp, hv⟩
  · rw [hn] at hs
    rw [hs.kept, hdf hc he]
    exact .null
  · rw [hnl] at hs
    rw [stores_bytes hs.stores]
    exact .null
  · rw [hv] at hs
    rw [stores_bytes hs.stores]
    obtain ⟨id, hid⟩ := rowPk_given hp
    have hidn : identityText S (newRow B now (defaults i) set) = rowPkFromValue (given "id") := by
      rw [identityText, newRow_identity h hd hvl (defaults i) hid, hid]
    rw [hidn]
    exact .bytes nonce plaintext hp

/-! ### Updates -/

theorem id_not_written : "id" ∉ writtenFields S actor deleting restoring := by
  intro h
  obtain ⟨column, hc, hs⟩ := mem_writtenFields.mp h
  obtain ⟨column', hc', _, _, _, hi⟩ := S.identity_column
  rw [hc] at hc'
  cases hc'
  cases ha : column.assignment with
  | none => simp [ha] at hs
  | some a => simp [ha, assignedValue, hi a ha] at hs

theorem CiphertextInput.name_eq (h : CiphertextInput T field column name input) :
    input.column.name = ciphertextColumn field column := by rw [h.column_eq]

theorem CiphertextInput.ne_clear (h : CiphertextInput T field column name input)
    (hcl : S.fields.lookup field = some column) (he : column.encrypted) {other : String}
    {column' : ColumnSchema} (ho : S.fields.lookup other = some column') (hc : column'.encrypted = false) :
    name ≠ other := by
  rintro rfl
  rcases h.named with ⟨_, _, rfl⟩ | hr
  · rw [hcl] at ho
    cases ho
    rw [he] at hc
    cases hc
  · rw [S.lookup_rawColumn hcl hr] at ho
    cases ho

theorem generated_null {a : Policy.Assignment} {value : AssignedValue} {e : Expression} {c : Column}
    (hb : c.storage = .bytes) (hv : assignedValue actor deleting restoring a = some value)
    (he : generatedExpression B c value = .ok e) (ha : e.settable B c ∨ e.mergeable B c) : e = .null := by
  have hbn : ∀ v, value = .bound v → v = .null ∨ ∃ s, v = .string s := by
    rintro v rfl
    unfold assignedValue at hv
    split_ifs at hv
    · cases hv
      exact .inl rfl
    split at hv
    · cases hv
    · cases hv
      cases actor with
      | none => exact .inl rfl
      | some s => exact .inr ⟨s, rfl⟩
    · cases hv
    · cases hv
    · cases hv
  cases value with
  | currentTimestamp | increment step =>
    cases he
    simp [settable, mergeable, hb] at ha
  | bound v =>
    rcases hbn v rfl with rfl | ⟨s, rfl⟩
    · cases he
      rfl
    · simp only [generatedExpression, bindValue, hb, StorageType.encode, Except.map] at he
      cases he
      simp [settable, mergeable, hb, StorageType.accepts] at ha

theorem assign_written {assigned : SetList}
    (h : resolveGenerated B T (writeAssignments S actor deleting restoring) = .ok assigned)
    (hs : ∀ p ∈ assigned, p ∈ set) (hn : set.columns.Nodup)
    (hac : ∀ p ∈ set, p.2.settable B p.1 ∨ p.2.mergeable B p.1)
    (hi : CiphertextInput T field column name input) (hw : name ∈ writtenFields S actor deleting restoring) :
    assign B now old fresh set input.column.name = .null := by
  obtain ⟨column', hc, hsm⟩ := mem_writtenFields.mp hw
  obtain ⟨value, hv⟩ := Option.isSome_iff_exists.mp hsm
  obtain ⟨a, ha, hv⟩ := Option.bind_eq_some_iff.mp hv
  obtain ⟨e, he, hm⟩ := mem_resolveGenerated h hc ha hv hi.mem
  obtain rfl := generated_null (by rw [hi.column_eq]) hv he (hac _ (hs _ hm))
  rw [assign_of_mem hn (hs _ hm)]
  rfl

variable {patch : Patch}

theorem assign_identity (accepted : patch.Accepted S)
    (h : applyToDoc B A S (some database) draw.nonces rowPk patch.sets = .ok placed)
    (hr : resolveAssignments B T patch placed (writeAssignments S actor false false) = .ok set) :
    assign B now old fresh set (keyColumn S) = old (keyColumn S) := by
  obtain ⟨input, hi, hn, _⟩ := exists_keyInput T
  have hnd := (assignments_named hr).nodup (nodup_updateNames accepted h)
  have ha := assign_assignments hr hnd hi (fun hm => (accepted.operated hm).1 rfl)
    id_not_written now old fresh
  rw [placed_identity h accepted.sets_declared, accepted.sets_identity, hn] at ha
  exact ha.kept

theorem sets_of_untouched (accepted : patch.Accepted S) (hu : updateTouchesEncryptedField S patch = false)
    (hc : S.fields.lookup field = some column) (he : column.encrypted) : patch.sets field = none := by
  cases hv : patch.sets field with
  | none => rfl
  | some v =>
    have hm := accepted.sets_some.mp hv
    have hf := any_eq_false.mp hu _ hm
    simp [hc, he] at hf

theorem patch_bound (bindable : Bindable B S) (accepted : patch.Accepted S) {predicate : Filter} {guard : Option Int}
    (h : applyToDoc B A S (some database) draw.nonces rowPk patch.sets = .ok placed)
    (hr : resolveAssignments B T patch placed (writeAssignments S actor false false) = .ok set)
    (hs : ∀ p ∈ set, p.2.settable B p.1) (hfr : updateTouchesEncryptedField S patch →
      ∃ id, rowPk = rowPkFromValue (some id) ∧ predicate = rowFilter B S id guard)
    (hm : predicate old) (ho : RowBound A S database old) : RowBound A S database (assign B now old old set) := by
  have hn := (assignments_named hr).nodup (nodup_updateNames accepted h)
  intro field column hc he
  have hid : identityText S (assign B now old old set) = identityText S old := by
    rw [identityText, identityText, assign_identity accepted h hr]
  rw [hid]
  obtain ⟨name, input, hi⟩ := exists_ciphertext T hc he
  by_cases hw : name ∈ writtenFields S actor false false
  · simp only [resolveAssignments, bind_ok, pure_ok] at hr
    obtain ⟨operations, _, values, _, expressions, _, assigned, ha, rfl⟩ := hr
    rw [← hi.name_eq, assign_written ha (fun p hp => mem_append_right _ hp) hn
      (fun p hp => .inl (hs p hp)) hi hw]
    exact .null
  · have hop : name ∉ patch.operations.map (·.field) ++ patch.expressions.map (·.1) := by
      intro hmm
      obtain ⟨_, column', hc', _, hcl, _⟩ := accepted.operated hmm
      exact hi.ne_clear hc he hc' hcl rfl
    have ha := assign_assignments hr hn hi.mem hop hw now old old
    rw [hi.column_eq] at ha
    rcases placed_ciphertext h accepted.sets_declared hc he hi with
      hnn | hnl | ⟨v, hg, _, nonce, plaintext, hpk, hv⟩
    · rw [hnn] at ha
      rw [ha.kept]
      exact ho hc he
    · rw [hnl] at ha
      rw [stores_bytes ha.stores]
      exact .null
    · rw [hv] at ha
      rw [stores_bytes ha.stores]
      have ht : updateTouchesEncryptedField S patch := by
        by_contra hf
        rw [sets_of_untouched accepted (by simpa using hf) hc he] at hg
        cases hg
      obtain ⟨id, rfl, rfl⟩ := hfr ht
      have hsm : B.same (keyColumn S) (old (keyColumn S)) id = true := (Bool.and_eq_true_iff.mp hm).1
      have ho : identityText S old = rowPkFromValue (some id) := by
        rw [identityText, bindable.exact _ _ hsm]
      rw [ho]
      exact .bytes nonce plaintext hpk

theorem lifecycle_bound (hr : resolveGenerated B T (writeAssignments S actor deleting restoring) = .ok set)
    (hs : ∀ p ∈ set, p.2.settable B p.1) (ho : RowBound A S database old) :
    RowBound A S database (assign B now old old set) := by
  have hn := generated_named hr
  have hnd := hn.nodup nodup_writtenFields
  intro field column hc he
  obtain ⟨key, hk, hnm, _⟩ := exists_keyInput T
  have hid : identityText S (assign B now old old set) = identityText S old := by
    rw [identityText, identityText, ← hnm, assign_of_not_mem (hn.not_mem_columns hk id_not_written)]
  rw [hid]
  obtain ⟨name, input, hi⟩ := exists_ciphertext T hc he
  rw [← hi.name_eq]
  by_cases hw : name ∈ writtenFields S actor deleting restoring
  · rw [assign_written hr (fun p hp => hp) hnd (fun p hp => .inl (hs p hp)) hi hw]
    exact .null
  · rw [assign_of_not_mem (hn.not_mem_columns hi.mem hw), hi.name_eq]
    exact ho hc he

/-! ### Upserts -/

variable {doc : Document} {conflict : List String} {expectedId : Option Value} {insert update : SetList}
  {targets : List Column} {condition : Option Value}

theorem target_input (h : conflict.mapM (fun field => T.column (valueColumnForField S field)) = .ok targets)
    (htr : ∀ field ∈ conflict, ∃ column, S.fields.lookup field = some column ∧ column.assignment = none ∧
      column.encrypted = false) {c : String} (hc : c ∈ targets.map (·.name)) :
    ∃ field column input, S.fields.lookup field = some column ∧ column.encrypted = false ∧ (field, input) ∈ T.inputs ∧
      input.column.name = c := by
  obtain ⟨target, ht, rfl⟩ := mem_map.mp hc
  obtain ⟨field, hf, hr⟩ := mem_of_mapM h ht
  obtain ⟨column, hcl, _, hclr⟩ := htr field hf
  rw [show valueColumnForField S field = column.valueColumnOf field by simp [valueColumnForField, hcl]] at hr
  obtain ⟨input, hi, rfl⟩ := column_of_field hcl hr
  exact ⟨field, column, input, hcl, hclr, hi, rfl⟩

/-- A conflict update keeps identities, if they compare exactly. -/
theorem merge_identity (bindable : Bindable B S)
    (h : mergeList B T placed targets (writeAssignments S actor false false) = .ok update)
    (hnd : update.columns.Nodup) (hc : conflicts B targets fresh old) :
    assign B now old fresh update (keyColumn S) = old (keyColumn S) := by
  obtain ⟨input, hi, hn, ho, _⟩ := exists_keyInput T
  have hm := assign_mergeList h hnd hi id_not_written now old fresh
  rw [if_neg (by simp [ho]), hn] at hm
  rcases hm with hkp | ⟨ht, hm⟩
  · exact hkp
  rw [hm]
  obtain ⟨target, hmm, hk⟩ := mem_map.mp ht
  have hs := all_eq_true.mp hc target hmm
  simp only [Bool.and_eq_true, hk] at hs
  exact (bindable.exact _ _ hs.2).symm

/-- Without a guard a document has nothing to encrypt but what is assigned on insertion. -/
theorem unguarded_insertOnly (bindable : Bindable B S) (ready : Ready B S actor doc given)
    (hu : docTouchesEncryptedField S doc.lookup = false) (hc : S.fields.lookup field = some column)
    (hen : column.encrypted) (hin : CiphertextInput T field column name input)
    (hw : name ∉ writtenFields S actor false false) (hgv : given field = some v) (hv : v ≠ .null) :
    insertOnly field column := by
  obtain ⟨idColumn, hid, hcl, _⟩ := S.identity_column
  have hne : field ≠ "id" := by
    rintro rfl
    rw [hc] at hid
    cases hid
    rw [hen] at hcl
    cases hcl
  cases ha : column.assignment with
  | none =>
    obtain ⟨w, hd, hp⟩ := ready.given_plain hc hne ha hgv
    have hn := any_eq_false.mp hu ⟨field, column⟩ (AList.mem_lookup_iff.mp hc)
    simp only [hen, hd, Bool.true_and, Option.any_some, decide_eq_true_eq, not_not] at hn
    exact absurd ((prepareValue_null hp).mpr hn) hv
  | some a =>
    obtain ⟨draw, hi⟩ := ready.assigned hc hne ha
    rw [hgv] at hi
    have hf := S.assignment_fits hc ha
    unfold insertOnly assignedOn
    simp only [ha, Option.any_some, Bool.or_eq_true, decide_eq_true_eq]
    right
    cases he : a.event with
    | insert => rfl
    | delete => simp [injectedValue, he] at hi
    | write =>
      -- Only the actor is assigned on a write and injected; the field is then written besides.
      cases hg : a.generator with
      | actor =>
        rcases hin.named with ⟨_, _, rfl⟩ | hr
        · refine absurd (mem_writtenFields.mpr ⟨column, hc, ?_⟩) hw
          simp [ha, assignedValue, he, hg]
        · have hm : column.isMasked := by rw [← S.rawColumnOf_isSome hc, hr]; rfl
          have hnt := bindable.unassigned hc hen hm
          simp [assignedOn, ha, he] at hnt
      | typedId => simp [assignmentFits, hg, he] at hf
      | now | increment step | identity => simp [injectedValue, he, hg] at hi

/-- The guard of an upsert lets a row through only if its identity is the one that was
encrypted for. -/
theorem guarded_identity (bindable : Bindable B S)
    (h : protectDoc B A S (some database) draw given = .ok placed) (hd : Declared S given)
    (hg : expectedIdentity S ⟨doc, conflict, actor⟩ placed = .ok expectedId)
    (hgu : docTouchesEncryptedField S doc.lookup)
    (hr : ResolvedUpsert (B := B) T placed conflict (writeAssignments S actor false false) expectedId false insert
      targets update condition)
    (hm : meets B (keyColumn S) condition old) : identityText S old = rowPkFromValue (given "id") := by
  rw [expectedIdentity, guardsIdentity, if_pos hgu, placed_identity h hd] at hg
  cases hid : given "id" with
  | none =>
    rw [hid] at hg
    cases hg
  | some id =>
    rw [hid] at hg
    cases hg
    obtain ⟨key, w, hk, he, rfl⟩ := hr.expects
    obtain ⟨input, hi, hn, _, hs⟩ := exists_keyInput T
    obtain ⟨name, input', hi', rfl, hn'⟩ := column_ok hk
    obtain ⟨_, rfl⟩ := T.eq_of_column hi hi' (hn.trans hn'.symm)
    obtain rfl := encode_key hs he
    have hsm : B.same (keyColumn S) (old (keyColumn S)) w := by simpa [meets] using hm
    rw [identityText, bindable.exact _ _ hsm]

theorem merge_bound (bindable : Bindable B S) (ready : Ready B S actor doc given)
    (h : protectDoc B A S (some database) draw given = .ok placed)
    (hgr : expectedIdentity S ⟨doc, conflict, actor⟩ placed = .ok expectedId)
    (htr : ∀ field ∈ conflict, ∃ column, S.fields.lookup field = some column ∧ column.assignment = none ∧
      column.encrypted = false)
    (hr : ResolvedUpsert (B := B) T placed conflict (writeAssignments S actor false false) expectedId false insert
      targets update condition)
    (defaults : Row) (hcon : conflicts B targets (newRow B now defaults insert) old)
    (hmt : meets B (keyColumn S) condition old) (ho : RowBound A S database old) :
    RowBound A S database (assign B now old (newRow B now defaults insert) update) := by
  have hmr : mergeList B T placed targets (writeAssignments S actor false false) = .ok update := hr.updates
  intro field column hc he
  have hid : identityText S (assign B now old (newRow B now defaults insert) update) = identityText S old := by
    rw [identityText, identityText, merge_identity bindable hmr hr.nodup hcon]
  rw [hid]
  obtain ⟨name, input, hi⟩ := exists_ciphertext T hc he
  rw [← hi.name_eq]
  by_cases hw : name ∈ writtenFields S actor false false
  · obtain ⟨assigned, ha, hsb⟩ := mergeList_assigned hmr
    rw [assign_written ha hsb hr.nodup (fun p hp => .inr (hr.mergeable p hp)) hi hw]
    exact .null
  have hm := assign_mergeList hmr hr.nodup hi.mem hw now old (newRow B now defaults insert)
  have ht : input.column.name ∉ targets.map (·.name) := by
    intro hmm
    obtain ⟨other, column', input', hot, hcl, hi', hn⟩ := target_input hr.targets_eq htr hmm
    obtain ⟨rfl, _⟩ := T.eq_of_column hi.mem hi' hn.symm
    exact hi.ne_clear hc he hot hcl rfl
  have hk : ∀ {v : Value}, v = old input.column.name →
      Sealed A (cellOf S database hc (identityText S old)) v := by
    rintro v rfl
    rw [hi.name_eq]
    exact ho hc he
  split_ifs at hm with hco
  · rw [hm]
    have hs := newRow_valuesOf hr.inserts hi.mem now defaults
    rw [hi.column_eq] at hs ⊢
    rcases placed_ciphertext h ready.declared hc he hi with
      hnn | hnl | ⟨v, hg, hv, nonce, plaintext, hpk, hpl⟩
    · rw [hnn] at hco
      cases hco.1
    · rw [hnl] at hs
      rw [stores_bytes hs.stores]
      exact .null
    · rw [hpl] at hs
      rw [stores_bytes hs.stores]
      have hgu : docTouchesEncryptedField S doc.lookup := by
        by_contra hf
        have hon := unguarded_insertOnly bindable ready (by simpa using hf) hc he hi hw
          hg hv
        rw [hi.insertOnly_eq, hon] at hco
        cases hco.2.1
      rw [guarded_identity bindable h ready.declared hgr hgu hr hmt]
      exact .bytes nonce plaintext hpk
  · rcases hm with hm | ⟨hmm, _⟩
    · exact hk hm
    · exact absurd hmm ht

/-- No statement of any call takes a row's bond away. -/
theorem keeps_bound (bindable : Bindable B S) :
    Keeps B A S (some database) (RowBound A S database) (fun _ => True) (NoCiphertext S) := by
  intro request T statement now defaults rows row _ hc hd hrw hcm
  cases hcm with
  | kept ho => exact hrw _ ho
  | inserted hv =>
    cases hc with
    | insert he =>
      obtain ⟨doc, actor, given, placed, draw, mentioned, _, hrd, hp, hvl⟩ := he _ hv
      exact newRow_bound hp hrd.declared hvl hd _
  | updated ho hm =>
    cases hc with
    | patch _ hi hp hr hs hf =>
      simp only [inspectUpdate, bind_ok] at hi
      obtain ⟨_, hin, _, _, hpr⟩ := hi
      exact patch_bound bindable (inspect_accepted hin hpr) hp hr hs hf hm
        (hrw _ ho)
    | lifecycle _ hr hs => exact lifecycle_bound hr hs (hrw _ ho)
  | upserted =>
    cases hc with
    | upsert _ hrd hp _ _ hr =>
      exact newRow_bound hp hrd.declared hr.inserts hd _
    | unlessConflict _ hrd hp hr =>
      exact newRow_bound hp hrd.declared hr hd _
  | merged ho hcn hmt =>
    cases hc with
    | upsert _ hrd hp hg ht hr =>
      exact merge_bound bindable hrd hp hg ht hr _ hcn hmt (hrw _ ho)

/-- However calls are interleaved, every encrypted field of every row holds null or a ciphertext
made for that field of that row; so it can be read there and nowhere else. -/
theorem ciphertexts_bound (defaultExpression : Bool) (bindable : Bindable B S)
    {history : History (Store B S) Event Reply} {store : Store B S}
    (run : (machine B A S (some database) defaultExpression).Run (Offers (fun _ => True) (NoCiphertext S)) (.empty B S)
      history store)
    (hrow : row ∈ store.table.rows) (declared : S.fields.lookup field = some column) (hencrypted : column.encrypted) :
    let cell := cellOf S database declared (identityText S row)
    let held := row (ciphertextColumn field column)
    (held = .null ∨ ∃ nonce plaintext, held = .bytes (A.encrypt nonce cell.aad plaintext)) ∧
      (∃ plaintext, decryptCell A cell held = .ok plaintext) ∧
      (held ≠ .null → ∀ other : Cell, other ≠ cell → decryptCell A other held =
        .error (if other.rowPk = "" then .encryptedRowIdRequired else .encryptionAeadFailed)) ∧
      Function.Injective Cell.aad := by
  have hs := rows_of_run defaultExpression (keeps_bound bindable) run row hrow declared hencrypted
  refine ⟨?_, hs.decrypts, fun hh other ho => hs.moved hh ho, Cell.aad_injective⟩
  generalize row (ciphertextColumn field column) = held at hs
  cases hs with
  | null => exact .inl rfl
  | bytes nonce plaintext _ => exact .inr ⟨nonce, plaintext, rfl⟩

end

def sampleDatabase : DatabaseId := ⟨"dbs_0000000000000000000000000", by decide +kernel⟩

def emailColumn : ColumnSchema := { ColumnSchema.new .text with required := false, unique := true }

/-- Notes with an address and one encrypted field. -/
def notes (field : String) (column : ColumnSchema)
    (accepted : validate [⟨"id", .textIdentity⟩, ⟨"email", emailColumn⟩, ⟨field, column⟩].toAList = .ok ()) :
    CollectionSchema where
  name := "notes"
  fields := [⟨"id", .textIdentity⟩, ⟨"email", emailColumn⟩, ⟨field, column⟩].toAList
  named := by decide +kernel
  accepted := accepted

def bodyColumn : ColumnSchema := { ColumnSchema.new .text with required := false, encrypted := true }

/-- The last writer, encrypted, masked and assigned. -/
def ownerColumn : ColumnSchema :=
  { ColumnSchema.new .text with
    required := false
    encrypted := true
    mask := some "full"
    assignment := some ⟨.actor, .write⟩
    storage := ⟨none, some "__zs_raw__owner"⟩ }

def plainNotes : CollectionSchema := notes "body" bodyColumn (by decide +kernel)

def ownedNotes : CollectionSchema := notes "owner" ownerColumn (by decide +kernel)

/-- An upsert is prepared for a new row; before its statement is run, another row with the same
address is inserted. -/
def overtakenUpsert (more : List (String × Value)) : List Event :=
  [.start (.upsert ⟨.of ([("id", .string "a"), ("email", .string "x")] ++ more), ["email"], some "u"⟩) .sample,
    .start (.insert (.of [("id", .string "b"), ("email", .string "x")]) (some "v")) .sample,
    .execute 1 0 fun _ _ => .null,
    .execute 0 0 fun _ _ => .null]

/-- The actor's name is encrypted for the row that the upsert would have inserted, and written to
the one that it found in its way: no guard, since the document itself had nothing to encrypt. -/
theorem overtakenUpsert_unreadable :
    ∃ history store, (machine (.sample id) .sample ownedNotes (some sampleDatabase) true).Run .anything (.empty _ _)
        history store ∧ ∃ row ∈ store.table.rows, decryptCell .sample
          (cellOf ownedNotes sampleDatabase (show ownedNotes.fields.lookup "owner" = some ownerColumn from rfl)
            (identityText ownedNotes row))
          (row (ciphertextColumn "owner" ownerColumn)) = .error .encryptionAeadFailed := by
  have hr : (machine (.sample id) .sample ownedNotes (some sampleDatabase) true).Run .anything (.empty _ _) _ _ :=
    .of_trace (Machine.offered_anything _ (Machine.trace _ _ (overtakenUpsert [])))
  exact ⟨_, _, hr, by decide +kernel⟩

/-- With a guard the upsert is prepared again, for the row that is there. -/
theorem overtakenUpsert_bound :
    let store := (machine (.sample id) .sample plainNotes (some sampleDatabase) true).reach (.empty _ _)
      (overtakenUpsert [("body", .string "secret")] ++ [.reissue 0 .sample, .execute 0 0 fun _ _ => .null])
    ∃ row ∈ store.table.rows, row (ciphertextColumn "body" bodyColumn) ≠ .null ∧
      ∃ plaintext, decryptCell .sample
        (cellOf plainNotes sampleDatabase (show plainNotes.fields.lookup "body" = some bodyColumn from rfl)
          (identityText plainNotes row)) (row (ciphertextColumn "body" bodyColumn)) = .ok plaintext := by
  have hb : Bindable (.sample id) plainNotes := by
    refine ⟨Backend.sample_exact _, fun {field column} hc hen hm => ?_⟩
    have hal : ∀ e ∈ plainNotes.fields.entries, e.2.isMasked = false := by decide +kernel
    rw [hal ⟨field, column⟩ (AList.mem_lookup_iff.mp hc)] at hm
    cases hm
  have ha : ∀ event ∈ overtakenUpsert [("body", .string "secret")] ++ [.reissue 0 .sample, .execute 0 0 fun _ _ => .null],
      Admits (fun _ => True) (NoCiphertext plainNotes) event := by
    intro event he
    simp only [overtakenUpsert, cons_append, nil_append, mem_cons, not_mem_nil, or_false] at he
    rcases he with rfl | rfl | rfl | rfl | rfl | rfl <;> first | trivial | exact fun _ _ _ => rfl
  have hs : ∃ row ∈ ((machine (.sample id) .sample plainNotes (some sampleDatabase) true).reach (.empty _ _)
      (overtakenUpsert [("body", .string "secret")] ++ [.reissue 0 .sample, .execute 0 0 fun _ _ => .null])).table.rows,
      row (ciphertextColumn "body" bodyColumn) ≠ .null := by decide +kernel
  obtain ⟨row, hr, hh⟩ := hs
  exact ⟨row, hr, hh,
    (ciphertexts_bound true hb (run_of_events true ha) hr rfl rfl).2.1⟩

end Zeroship.Orm
