import Zeroship.Orm.Storage

/-! Encryption and masks, between a document and the columns it is written to.

Encryption replaces the value of an encrypted field and remembers the text its mask is made of;
the mask pass derives the masks; relocation moves each masked field's value to its raw column.
`applyToDoc_placed` says what becomes of one field, in six cases. -/
namespace Zeroship.Orm
open Base List Except
open Policy (Bytes utf8 writeBytes readable_bytes utf8_injective)
open Cdc (LogicalType MaskKind applyMaskKind)

/-- A document on its way to a statement: what it holds under a name. -/
abbrev Doc := String → Option Value

def wireVersionV2 : UInt8 := 2

/-- The id of a database, `dbs_` and 25 digits. -/
structure DatabaseId where
  text : String
  sized : (utf8 text).length = 29

def canonicalAad (database : DatabaseId) (collection column : String) (rowPk : Bytes) : Bytes :=
  writeBytes [wireVersionV2] ++ writeBytes (utf8 database.text) ++ writeBytes (utf8 collection) ++
    writeBytes (utf8 column) ++ writeBytes rowPk

/-- Identifiers are short, and the row identity comes last: whatever its length, it is all
that is left. -/
theorem canonicalAad_injective {database database' : DatabaseId} {collection collection' column column' : String}
    {rowPk rowPk' : Bytes} (hc : (utf8 collection).length ≤ maxIdentBytes)
    (hcl' : (utf8 collection').length ≤ maxIdentBytes) (hclm : (utf8 column).length ≤ maxIdentBytes)
    (hc' : (utf8 column').length ≤ maxIdentBytes)
    (h : canonicalAad database collection column rowPk = canonicalAad database' collection' column' rowPk') :
    database.text = database'.text ∧ collection = collection' ∧ column = column' ∧ rowPk = rowPk' := by
  have hsh : ∀ {s : String}, (utf8 s).length ≤ maxIdentBytes → (utf8 s).length < 2 ^ 32 := fun hs =>
    lt_of_le_of_lt hs (by decide)
  have hid : ∀ d : DatabaseId, (utf8 d.text).length < 2 ^ 32 := fun d => d.sized ▸ (by decide)
  simp only [canonicalAad, append_assoc] at h
  obtain ⟨_, h⟩ := readable_bytes (by decide) (by decide) h
  obtain ⟨hd, h⟩ := readable_bytes (hid database) (hid database') h
  obtain ⟨hcl, h⟩ := readable_bytes (hsh hc) (hsh hcl') h
  obtain ⟨hco, h⟩ := readable_bytes (hsh hclm) (hsh hc') h
  obtain ⟨_, hp⟩ := append_inj h (by simp)
  exact ⟨utf8_injective hd, utf8_injective hcl, utf8_injective hco, hp⟩

/-- Authenticated encryption under the key of the database: a ciphertext opens under the
context it was made under, and under no other. -/
structure Aead where
  encrypt : Nat → Bytes → Bytes → Bytes
  decrypt : Bytes → Bytes → Option Bytes
  decrypt_encrypt : ∀ nonce aad plaintext, decrypt aad (encrypt nonce aad plaintext) = some plaintext
  authentic : ∀ nonce aad aad' plaintext, aad' ≠ aad → decrypt aad' (encrypt nonce aad plaintext) = none

/-- The plaintext after its context. -/
def opened : Bytes → Bytes → Option Bytes
  | [], mark :: plaintext => if mark = 0 then some plaintext else none
  | b :: aad, mark :: b' :: rest => if mark = 1 ∧ b = b' then opened aad rest else none
  | _, _ => none

/-- The context written before the plaintext, byte by byte: the laws without the secrecy, to run
examples on. -/
def Aead.sample : Aead where
  encrypt _ aad plaintext := aad.flatMap (fun b => [1, b]) ++ 0 :: plaintext
  decrypt := opened
  decrypt_encrypt _ aad plaintext := by
    induction aad with
    | nil => simp [opened]
    | cons b rest ih => simpa [opened] using ih
  authentic _ aad aad' plaintext := by
    intro hne
    induction aad generalizing aad' with
    | nil =>
      cases aad' with
      | nil => exact absurd rfl hne
      | cons b rest => cases plaintext <;> simp [opened]
    | cons b rest ih =>
      cases aad' with
      | nil => simp [opened]
      | cons b' rest' =>
        by_cases hb : b' = b
        · subst hb
          simpa [opened] using ih rest' fun heq => hne (by rw [heq])
        · simp [opened, hb]

inductive PlaintextType
  | string | number | integer
  | exactDecimal (precision scale : Nat)
  | bytes

variable (b : Bytes)

def decodeUtf8 : String := (String.fromUTF8? ⟨b.toArray⟩).getD ""

def ofBigEndian : Nat := b.foldl (fun n byte => n * 256 + byte.toNat) 0

/-- The signed integer of eight bytes. -/
def ofBigEndianSigned : Int :=
  if ofBigEndian b < 2 ^ 63 then ofBigEndian b else (ofBigEndian b : Int) - 2 ^ 64

namespace PlaintextType
variable (B : Backend)

def fromField (column : ColumnSchema) : Except DbError (Option PlaintextType) :=
  if !column.encrypted then .ok none
  else match column.logicalType with
    | .text => .ok (some string)
    | .number =>
      match column.precision with
      | some precision => .ok (some (exactDecimal precision (column.scale.getD 0)))
      | none => .ok (some number)
    | .integer | .bigInt => .ok (some integer)
    | .bytes => .ok (some bytes)
    | _ => .error .encryptedTypeUnsupported

variable (type : PlaintextType)

def encode (v : Value) : Except DbError Bytes :=
  let encoded : Option Bytes :=
    match type, v with
    | string, .string s => some (utf8 s)
    | number, v => B.doubleBytes v
    | integer, v => v.asI64.map fun n => bigEndian 8 (n % 2 ^ 64).toNat
    | exactDecimal precision scale, .decimal s =>
      if B.validDecimal s then (B.quantize precision scale s).map utf8 else none
    | bytes, .bytes b => some b
    | _, _ => none
  match encoded with
  | some b => .ok b
  | none => .error .encryptedValueTypeMismatch

/-- What a mask is made of, from the encoded plaintext. -/
def maskText (b : Bytes) : String :=
  match type with
  | string | exactDecimal _ _ => decodeUtf8 b
  | number => B.doubleText b
  | integer => toString (ofBigEndianSigned b)
  | bytes => B.base64 b

end PlaintextType

structure Encrypted where
  doc : Doc
  /-- The texts that masks are made of. -/
  sidechannel : String → Option String

structure DerivedMask where
  (field rawColumn masked : String)

section
variable (B : Backend) (A : Aead) (S : CollectionSchema) (database : Option DatabaseId)

variable (encrypted : Encrypted) (nonces : String → Nat) (rowPk : String) (doc : Doc)

variable (field : String) (column : ColumnSchema)

/-- The plaintext to encrypt for a field: none if it is not encrypted, absent or null. -/
def pendingEncryption (v : Option Value) :
    Except DbError (Option (PlaintextType × Bytes)) :=
  match PlaintextType.fromField column with
  | .error e => .error e
  | .ok none => .ok none
  | .ok (some type) =>
    match v with
    | none | some .null => .ok none
    | some v =>
      if rowPk = "" then .error .encryptedRowIdRequired
      else (type.encode B v).map fun plaintext => some (type, plaintext)

/-- What was staged for a field. -/
def staged : Option (PlaintextType × Bytes) :=
  match S.fields.lookup field with
  | none => none
  | some column =>
    match pendingEncryption B rowPk column (doc field) with
    | .ok pending => pending
    | .error _ => none

def encryptRowOnWrite : Except DbError Encrypted := do
  (S.fields.entries.forM fun e => (pendingEncryption B rowPk e.2 (doc e.1)).map fun _ => ())
  match database with
  | none => .error .encryptionRequiresADatabase
  | some database =>
    pure
      { doc := fun field =>
          match staged B S rowPk doc field with
          | some (_, plaintext) =>
            some (.bytes (A.encrypt (nonces field) (canonicalAad database S.name field (utf8 rowPk)) plaintext))
          | none => doc field
        sidechannel := fun field =>
          (staged B S rowPk doc field).map fun pending => pending.1.maskText B pending.2 }

/-- The text of a value in the clear. -/
def plainText : Value → Except DbError (Option String)
  | .null => .ok none
  | .decimal s => .ok (some s)
  | .string s => .ok (some s)
  | .timestampMicros micros => .ok (some (toString micros))
  | .number n => .ok (some (if (Value.number n).asI64.isSome then toString n else B.wideText n))
  | .float _ plain => .ok (some plain)
  | _ => .error (.unserializableMaskInput field)

def maskInput : Except DbError (Option String) :=
  match encrypted.sidechannel field with
  | some text => .ok (some text)
  | none =>
    match encrypted.doc field with
    | some v => plainText B field v
    | none => .ok none

def deriveMask : Except DbError (Option DerivedMask) :=
  match column.effectiveMask with
  | none => .ok none
  | some spelled =>
    match MaskKind.fromSql spelled with
    | none => .error (.unknownMaskKind spelled)
    | some kind => do
      match ← declaredRawColumn field column with
      | none => pure none
      | some raw =>
        let text ← maskInput B encrypted field
        pure (text.map fun text => ⟨field, raw, applyMaskKind kind text⟩)

def applyMaskOnWrite : Except DbError (List DerivedMask) := do
  let derived ← S.fields.entries.mapM fun e => deriveMask B encrypted e.1 e.2
  pure derived.reduceOption

/-- Move a masked field's value to its raw column and put the mask in its place. -/
def relocate (mask : DerivedMask) : Doc :=
  let moved : Doc := match doc mask.field with
    | some v => Function.update (Function.update doc mask.field none) mask.rawColumn (some v)
    | none => doc
  Function.update moved mask.field (some (.string mask.masked))

def relocateMaskedColumns (masks : List DerivedMask) (doc : Doc) : Doc := masks.foldl relocate doc

def isPlainBytes : Bool := !column.encrypted && column.logicalType = .bytes

def validateBytesOnWrite : Except DbError Unit :=
  S.fields.entries.forM fun e =>
    demand (isPlainBytes e.2 → (doc e.1).all fun v => v matches .null | .bytes _) (.invalidBytesArg e.1)

def hasEncrypted : Bool := S.fields.entries.any (·.2.encrypted)

/-- Nothing is asked of the database's key unless a field is encrypted. -/
def encryptStage : Except DbError Encrypted :=
  if hasEncrypted S then encryptRowOnWrite B A S database nonces rowPk doc else .ok ⟨doc, fun _ => none⟩

/-- The stages of a document, in order; placement is last. -/
def applyToDoc : Except DbError Doc := do
  let encrypted ← encryptStage B A S database nonces rowPk doc
  let masks ← applyMaskOnWrite B S encrypted
  validateBytesOnWrite S encrypted.doc
  pure (relocateMaskedColumns masks encrypted.doc)

/-! ### What becomes of a field -/

/-- What a field was given, and what its value column and its raw column are then given. -/
inductive Placed (nonces : String → Nat) (rowPk field : String) (column : ColumnSchema) :
    Option Value → Option Value → Option Value → Prop
  | absent : Placed nonces rowPk field column none none none
  | cleared : Placed nonces rowPk field column (some .null) (some .null) none
  | plain {v : Value} (present : v ≠ .null) (unmasked : column.isMasked = false) (clear : column.encrypted = false) :
      Placed nonces rowPk field column (some v) (some v) none
  | masked {v : Value} {kind : MaskKind} {text : String} (present : v ≠ .null)
      (masked : column.effectiveMask.bind MaskKind.fromSql = some kind) (clear : column.encrypted = false)
      (printed : plainText B field v = .ok (some text)) :
      Placed nonces rowPk field column (some v) (some (.string (applyMaskKind kind text))) (some v)
  | sealed {v : Value} {type : PlaintextType} {plaintext : Bytes} {id : DatabaseId} (present : v ≠ .null)
      (unmasked : column.isMasked = false) (typed : PlaintextType.fromField column = .ok (some type))
      (encoded : type.encode B v = .ok plaintext) (identified : rowPk ≠ "") (stored : database = some id) :
      Placed nonces rowPk field column (some v)
        (some (.bytes (A.encrypt (nonces field) (canonicalAad id S.name field (utf8 rowPk)) plaintext))) none
  | sealedMasked {v : Value} {kind : MaskKind} {type : PlaintextType} {plaintext : Bytes} {id : DatabaseId}
      (present : v ≠ .null) (masked : column.effectiveMask.bind MaskKind.fromSql = some kind)
      (typed : PlaintextType.fromField column = .ok (some type)) (encoded : type.encode B v = .ok plaintext)
      (identified : rowPk ≠ "") (stored : database = some id) :
      Placed nonces rowPk field column (some v) (some (.string (applyMaskKind kind (type.maskText B plaintext))))
        (some (.bytes (A.encrypt (nonces field) (canonicalAad id S.name field (utf8 rowPk)) plaintext)))

variable {B A S database} in
theorem Placed.of_none {nonces : String → Nat} {rowPk field : String} {column : ColumnSchema} {shown raw : Option Value}
    (h : Placed B A S database nonces rowPk field column none shown raw) : shown = none ∧ raw = none := by
  cases h
  exact ⟨rfl, rfl⟩

/-- What encryption leaves of a field. -/
inductive Held (nonces : String → Nat) (rowPk field : String) (column : ColumnSchema) (given : Option Value)
    (encrypted : Encrypted) : Prop
  | kept (clear : column.encrypted = false ∨ given = none ∨ given = some .null)
      (held : encrypted.doc field = given) (silent : encrypted.sidechannel field = none)
  | sealed {v : Value} {type : PlaintextType} {plaintext : Bytes} {id : DatabaseId} (isGiven : given = some v)
      (present : v ≠ .null) (typed : PlaintextType.fromField column = .ok (some type))
      (encoded : type.encode B v = .ok plaintext) (identified : rowPk ≠ "") (stored : database = some id)
      (held : encrypted.doc field =
        some (.bytes (A.encrypt (nonces field) (canonicalAad id S.name field (utf8 rowPk)) plaintext)))
      (told : encrypted.sidechannel field = some (type.maskText B plaintext))

variable {B A S database} {nonces : String → Nat} {rowPk field : String} {column : ColumnSchema} {given placed : Doc}
  {encrypted : Encrypted} {masks : List DerivedMask} {m : DerivedMask} {doc : Doc} {v : Value} {name : String}

theorem fromField_none (h : PlaintextType.fromField column = .ok none) : column.encrypted = false := by
  unfold PlaintextType.fromField at h
  split_ifs at h with hc
  · simpa using hc
  · split at h <;> first | cases h | (split at h <;> cases h)

theorem pendingEncryption_ok {v : Option Value} {pending : Option (PlaintextType × Bytes)}
    (h : pendingEncryption B rowPk column v = .ok pending) :
    (pending = none ∧ (column.encrypted = false ∨ v = none ∨ v = some .null)) ∨
      ∃ w type plaintext, pending = some (type, plaintext) ∧ v = some w ∧ w ≠ .null ∧
        PlaintextType.fromField column = .ok (some type) ∧ type.encode B w = .ok plaintext ∧ rowPk ≠ "" := by
  unfold pendingEncryption at h
  split at h
  · cases h
  · next ht => exact .inl ⟨(ok.inj h).symm, .inl (fromField_none ht)⟩
  · next type ht =>
    split at h
    · exact .inl ⟨(ok.inj h).symm, .inr (.inl rfl)⟩
    · exact .inl ⟨(ok.inj h).symm, .inr (.inr rfl)⟩
    · next w hn =>
      split_ifs at h with hpk
      cases he : type.encode B w with
      | error e => simp [he, Except.map] at h
      | ok plaintext =>
        rw [he] at h
        have hp := (ok.inj h).symm
        exact .inr ⟨w, type, plaintext, hp, rfl, fun hw => hn (hw ▸ rfl), ht, he, hpk⟩

theorem encryptRowOnWrite_held (h : encryptRowOnWrite B A S database nonces rowPk given = .ok encrypted)
    (hf : S.fields.lookup field = some column) :
    Held B A S database nonces rowPk field column (given field) encrypted := by
  simp only [encryptRowOnWrite, seq_ok, forM_eq_forM, forM_ok] at h
  obtain ⟨hp, h⟩ := h
  cases hd : database with
  | none =>
    rw [hd] at h
    cases h
  | some id =>
    rw [hd] at h
    obtain rfl := pure_ok.mp h
    have hen := hp ⟨field, column⟩ (AList.mem_lookup_iff.mp hf)
    cases ho : pendingEncryption B rowPk column (given field) with
    | error e => simp [ho, Except.map] at hen
    | ok pending =>
      have hs : staged B S rowPk given field = pending := by simp [staged, hf, ho]
      rcases pendingEncryption_ok ho with ⟨rfl, hc⟩ | ⟨w, type, plaintext, rfl, hw, hn, ht, he, hpk⟩
      · exact .kept hc (by simp [hs]) (by simp [hs])
      · exact .sealed hw hn ht he hpk rfl (by simp [hs]) (by simp [hs])

theorem held_of_stage (h : encryptStage B A S database nonces rowPk given = .ok encrypted)
    (hf : S.fields.lookup field = some column) :
    Held B A S database nonces rowPk field column (given field) encrypted := by
  unfold encryptStage at h
  split_ifs at h with ha
  · exact encryptRowOnWrite_held h hf
  obtain rfl := pure_ok.mp h
  have hc : column.encrypted = false := by
    have hn := any_eq_false.mp (Bool.not_eq_true _ ▸ ha) ⟨field, column⟩ (AList.mem_lookup_iff.mp hf)
    simpa using hn
  exact .kept (.inl hc) rfl rfl

/-! ### Masks and their placement -/

theorem deriveMask_ok {derived : Option DerivedMask} (h : deriveMask B encrypted field column = .ok derived) :
    (column.effectiveMask = none ∧ derived = none) ∨ ∃ kind, column.effectiveMask.bind MaskKind.fromSql = some kind ∧
        ∃ input, maskInput B encrypted field = .ok input ∧ ∃ raw, column.rawColumnOf = some raw ∧
          derived = input.map fun text => ⟨field, raw, applyMaskKind kind text⟩ := by
  unfold deriveMask at h
  cases hm : column.effectiveMask with
  | none =>
    rw [hm] at h
    exact .inl ⟨rfl, (ok.inj h).symm⟩
  | some spelled =>
    rw [hm] at h
    cases hk : MaskKind.fromSql spelled with
    | none => simp [hk] at h
    | some kind =>
      simp only [hk, bind_ok] at h
      obtain ⟨raw, hr, h⟩ := h
      obtain ⟨hro, hs, _⟩ := rawColumn_ok hr
      cases raw with
      | none => simp [ColumnSchema.isMasked, hm] at hs
      | some raw =>
        simp only [bind_ok, pure_ok] at h
        obtain ⟨input, hi, rfl⟩ := h
        exact .inr ⟨kind, hk, input, hi, raw, hro.symm, rfl⟩

/-- The names the masks are about do not repeat: neither fields nor raw columns. -/
def Apart (masks : List DerivedMask) : Prop := (masks.flatMap fun m => [m.field, m.rawColumn]).Nodup

theorem derived_sublist {entries : List (Sigma fun _ : String => ColumnSchema)} {derived : List (Option DerivedMask)}
    (h : List.Forall₂ (fun e d => deriveMask B encrypted e.1 e.2 = .ok d) entries derived) :
    (derived.reduceOption.flatMap fun m => [m.field, m.rawColumn]).Sublist
      (entries.flatMap fun e => e.1 :: e.2.rawColumnOf.toList) := by
  induction h with
  | nil => exact .refl _
  | @cons e d _ _ hd _ ih =>
    rw [flatMap_cons]
    rcases deriveMask_ok hd with ⟨_, rfl⟩ | ⟨kind, _, input, _, raw, hr, rfl⟩
    · exact ih.trans (sublist_append_right _ _)
    cases input with
    | none => exact ih.trans (sublist_append_right _ _)
    | some text =>
      rw [hr]
      exact (Sublist.refl [e.1, raw]).append ih

section
variable (h : applyMaskOnWrite B S encrypted = .ok masks)
include h

theorem applyMaskOnWrite_apart : Apart masks := by
  simp only [applyMaskOnWrite, bind_ok, pure_ok] at h
  obtain ⟨derived, hd, rfl⟩ := h
  exact S.nodup_names.sublist (derived_sublist (mapM_ok.mp hd))

theorem mem_maskOnWrite :
    m ∈ masks ↔ ∃ field column, S.fields.lookup field = some column ∧ deriveMask B encrypted field column = .ok (some m) := by
  simp only [applyMaskOnWrite, bind_ok, pure_ok] at h
  obtain ⟨derived, hdr, rfl⟩ := h
  have hf := mapM_ok.mp hdr
  rw [reduceOption_mem_iff]
  constructor
  · intro hm
    obtain ⟨e, he, hd⟩ := left_of_forall₂ hf hm
    exact ⟨e.1, e.2, AList.mem_lookup_iff.mpr he, hd⟩
  intro ⟨field, column, hfl, hd⟩
  obtain ⟨d, hmm, hd'⟩ := right_of_forall₂ hf (AList.mem_lookup_iff.mp hfl)
  rw [hd] at hd'
  exact ok.inj hd' ▸ hmm

theorem derives_of_mask
    (hf : S.fields.lookup field = some column) : ∃ derived, deriveMask B encrypted field column = .ok derived := by
  simp only [applyMaskOnWrite, bind_ok, pure_ok] at h
  obtain ⟨derived, hdr, _⟩ := h
  obtain ⟨d, _, hd⟩ := right_of_forall₂ (mapM_ok.mp hdr) (AList.mem_lookup_iff.mp hf)
  exact ⟨d, hd⟩

end

theorem relocate_field (doc : Doc) (m : DerivedMask) : relocate doc m m.field = some (.string m.masked) := by
  simp [relocate]

theorem relocate_raw (hne : m.rawColumn ≠ m.field) (hv : doc m.field = some v) : relocate doc m m.rawColumn = some v := by
  simp [relocate, hv, hne]

theorem relocate_other (hf : name ≠ m.field) (hr : name ≠ m.rawColumn) : relocate doc m name = doc name := by
  unfold relocate
  rw [Function.update_of_ne hf]
  cases doc m.field with
  | none => rfl
  | some v =>
    show Function.update (Function.update doc m.field none) m.rawColumn (some v) name = doc name
    rw [Function.update_of_ne hr, Function.update_of_ne hf]

theorem relocate_untouched
    (h : ∀ m ∈ masks, name ≠ m.field ∧ name ≠ m.rawColumn) : relocateMaskedColumns masks doc name = doc name := by
  induction masks generalizing doc with
  | nil => rfl
  | cons m rest ih =>
    obtain ⟨hh, hr⟩ := forall_mem_cons.mp h
    show relocateMaskedColumns rest (relocate doc m) name = doc name
    rw [ih hr, relocate_other hh.1 hh.2]

theorem relocate_placed (ha : Apart masks) (hm : m ∈ masks) (hv : doc m.field = some v) :
    relocateMaskedColumns masks doc m.field = some (.string m.masked) ∧
      relocateMaskedColumns masks doc m.rawColumn = some v := by
  induction masks generalizing doc with
  | nil => cases hm
  | cons first rest ih =>
    unfold Apart at ha
    rw [flatMap_cons, nodup_append] at ha
    obtain ⟨hfr, hr, hd⟩ := ha
    have hf : ∀ other ∈ rest, ∀ name ∈ [first.field, first.rawColumn],
        name ≠ other.field ∧ name ≠ other.rawColumn := fun other ho name hn =>
      ⟨hd name hn other.field (mem_flatMap.mpr ⟨other, ho, by simp⟩),
        hd name hn other.rawColumn (mem_flatMap.mpr ⟨other, ho, by simp⟩)⟩
    show relocateMaskedColumns rest (relocate doc first) m.field = _ ∧
      relocateMaskedColumns rest (relocate doc first) m.rawColumn = _
    rcases mem_cons.mp hm with rfl | hm
    · have hne : m.rawColumn ≠ m.field := by
        intro heq
        simp [heq] at hfr
      constructor
      · rw [relocate_untouched fun other ho => hf other ho m.field (by simp)]
        exact relocate_field doc m
      · rw [relocate_untouched fun other ho => hf other ho m.rawColumn (by simp)]
        exact relocate_raw hne hv
    · refine ih hr hm ?_
      rw [relocate_other (fun heq => (hf m hm first.field (by simp)).1 heq.symm)
        (fun heq => (hf m hm first.rawColumn (by simp)).1 heq.symm)]
      exact hv

/-- A document that names fields only. -/
def Declared (S : CollectionSchema) (doc : Doc) : Prop := ∀ name, S.fields.lookup name = none → doc name = none

theorem doc_undeclared (h : encryptStage B A S database nonces rowPk given = .ok encrypted)
    (hn : S.fields.lookup name = none) : encrypted.doc name = given name := by
  unfold encryptStage at h
  split_ifs at h with ha
  · simp only [encryptRowOnWrite, seq_ok] at h
    obtain ⟨_, h⟩ := h
    cases hd : database with
    | none =>
      rw [hd] at h
      cases h
    | some id =>
      rw [hd] at h
      obtain rfl := pure_ok.mp h
      simp [staged, hn]
  · obtain rfl := pure_ok.mp h
    rfl

theorem plainText_none (h : plainText B field v = .ok none) : v = .null := by
  cases v <;> simp [plainText] at h ⊢

theorem applyToDoc_placed (h : applyToDoc B A S database nonces rowPk given = .ok placed) (hdc : Declared S given)
    (hf : S.fields.lookup field = some column) :
    Placed B A S database nonces rowPk field column (given field) (placed field) (column.rawColumnOf.bind placed) := by
  simp only [applyToDoc, bind_ok, pure_ok] at h
  obtain ⟨encrypted, hst, masks, hma, _, _, rfl⟩ := h
  have hh := held_of_stage hst hf
  obtain ⟨derived, hdr⟩ := derives_of_mask hma hf
  -- A name with no mask of its own is left alone by relocation.
  have hu : derived = none → relocateMaskedColumns masks encrypted.doc field = encrypted.doc field := by
    rintro rfl
    refine relocate_untouched fun m hm => ?_
    obtain ⟨other, col, ho, hm⟩ := (mem_maskOnWrite hma).mp hm
    obtain ⟨_, hnn⟩ | ⟨kind, _, input, _, raw, hr, hsm⟩ := deriveMask_ok hm
    · cases hnn
    obtain ⟨text, _, rfl⟩ := Option.map_eq_some_iff.mp hsm.symm
    refine ⟨?_, ?_⟩
    · rintro rfl
      rw [ho] at hf
      cases hf
      rw [hm] at hdr
      cases hdr
    · rintro rfl
      rw [S.lookup_rawColumn ho hr] at hf
      cases hf
  -- And so is a raw column whose field has none.
  have hru : ∀ raw, column.rawColumnOf = some raw → derived = none →
      relocateMaskedColumns masks encrypted.doc raw = none := by
    rintro raw hr rfl
    have hnm := S.lookup_rawColumn hf hr
    rw [relocate_untouched, doc_undeclared hst hnm, hdc raw hnm]
    intro m hm
    obtain ⟨other, col, ho, hm⟩ := (mem_maskOnWrite hma).mp hm
    obtain ⟨_, hnn⟩ | ⟨kind, _, input, _, raw', hr', hsm⟩ := deriveMask_ok hm
    · cases hnn
    obtain ⟨text, _, rfl⟩ := Option.map_eq_some_iff.mp hsm.symm
    refine ⟨?_, ?_⟩
    · rintro rfl
      rw [hnm] at ho
      cases ho
    rintro rfl
    obtain rfl := S.field_of_rawColumn hf ho hr hr'
    rw [ho] at hf
    cases hf
    rw [hm] at hdr
    cases hdr
  rcases deriveMask_ok hdr with ⟨hms, rfl⟩ | ⟨kind, hk, input, hi, raw, hr, rfl⟩
  · have hun : column.isMasked = false := by simp [ColumnSchema.isMasked, hms]
    have hnr : column.rawColumnOf = none := by simp [ColumnSchema.rawColumnOf, hms]
    rw [hu rfl, hnr, Option.bind_none]
    cases hh with
    | kept hc hd _ =>
      rw [hd]
      cases hg : given field with
      | none => exact .absent
      | some v =>
        by_cases hn : v = .null
        · subst hn
          exact .cleared
        · exact .plain hn hun (by simpa [hg, hn] using hc)
    | sealed hg hn ht he hp hdb hd _ =>
      rw [hd, hg]
      exact .sealed hn hun ht he hp hdb
  · rw [hr, Option.bind_some]
    cases hh with
    | kept hc hd hsd =>
      rw [maskInput, hsd, hd] at hi
      cases hg : given field with
      | none =>
        rw [hg] at hi hd
        obtain rfl := (ok.inj hi).symm
        rw [hu rfl, hru raw hr rfl, hd]
        exact .absent
      | some v =>
        rw [hg] at hi hd
        cases input with
        | none =>
          obtain rfl := plainText_none hi
          rw [hu rfl, hru raw hr rfl, hd]
          exact .cleared
        | some text =>
          have hn : v ≠ .null := by
            rintro rfl
            simp [plainText] at hi
          obtain ⟨hs, hmv⟩ := relocate_placed (applyMaskOnWrite_apart hma)
            ((mem_maskOnWrite hma).mpr ⟨field, column, hf, hdr⟩) hd
          rw [hs, hmv]
          exact .masked hn hk (by simpa [hg, hn] using hc) hi
    | sealed hg hn ht he hp hdb hd hsd =>
      rw [maskInput, hsd] at hi
      obtain rfl := (ok.inj hi).symm
      obtain ⟨hs, hmv⟩ := relocate_placed (applyMaskOnWrite_apart hma)
        ((mem_maskOnWrite hma).mpr ⟨field, column, hf, hdr⟩) hd
      rw [hs, hmv, hg]
      exact .sealedMasked hn hk ht he hp hdb

end

end Zeroship.Orm
