import Zeroship.Orm.Binding

/-! The two columns of a masked field.

The value column shows the mask of what the raw column holds. Inserts, updates and upserts
write the two together, except where a value is null: then the pipeline derives no mask, sets
the value column to null and leaves the raw column of an existing row as it is. The platform's
own assignments go to the value column only, and a column may give back something that prints
otherwise than what it was given. -/
namespace Zeroship.Orm
open Base ColumnSchema
open Policy (Bytes)
open Cdc (LogicalType MaskKind applyMaskKind)

section
variable (B : Backend) (A : Aead) (S : CollectionSchema) (database : Option DatabaseId)

/-- The text of what a raw column holds: of its plaintext if it is encrypted. -/
inductive HeldText (field : String) (column : ColumnSchema) : Value → String → Prop
  | plain {v : Value} {text : String} (clear : column.encrypted = false) (printed : plainText B field v = .ok (some text)) :
      HeldText field column v text
  | sealed {type : PlaintextType} (nonce : Nat) (aad plaintext : Bytes)
      (typed : PlaintextType.fromField column = .ok (some type)) :
      HeldText field column (.bytes (A.encrypt nonce aad plaintext)) (type.maskText B plaintext)

/-- Both columns are null, or the one shows the mask of what the other holds. -/
structure Paired (field : String) (column : ColumnSchema) (kind : MaskKind) (shown raw : Value) : Prop where
  null : shown = .null ↔ raw = .null
  masked : raw ≠ .null → ∃ text, HeldText B A field column raw text ∧ shown = .string (applyMaskKind kind text)

/-- A field with a mask, and its raw column. -/
structure MaskedField (field : String) (column : ColumnSchema) (kind : MaskKind) (raw : String) : Prop where
  declared : S.fields.lookup field = some column
  kind_eq : column.effectiveMask.bind MaskKind.fromSql = some kind
  raw_eq : column.rawColumnOf = some raw

def RowPaired (row : Row) : Prop :=
  ∀ {field column kind raw}, MaskedField S field column kind raw →
    Paired B A field column kind (row (column.valueColumnOf field)) (row raw)

/-! ### What the pairs rest on -/

/-- The type is one whose columns give back what they are given. -/
def keepsValue (column : ColumnSchema) : Bool :=
  column.isExactDecimal || column.logicalType ∈ [.text, .calendarDate, .boolean, .integer, .bigInt, .bytes, .timestamp]

/-- No masked field is assigned when rows are written or deleted, and masks compare exactly. -/
structure Maskable : Prop where
  unassigned : ∀ {field column}, S.fields.lookup field = some column → column.isMasked →
    column.assignedOn .write = false ∧ column.assignedOn .delete = false
  exact : ∀ {field column}, S.fields.lookup field = some column → column.isMasked →
    ∀ v w, B.same (column.valueColumnOf field) v w → v = w

/-- A request gives a value to a field, in whatever form. -/
inductive Gives (request : Request) (field : String) (v : Value) : Prop
  | doc {doc : Document} {actor : Option String} (inserts : Inserts request doc actor) (given : doc.lookup field = some v)
  | patch {query : Query} {input : UpdateInput} {actor : Option String} {entry : String × PatchValue}
      {assignments : List PatchAssignment} (patches : Patches request query input actor) (entered : entry ∈ input.values)
      (parsed : entryAssignments entry.1 entry.2 = .ok assignments) (given : ⟨field, .set, v⟩ ∈ assignments)

/-- The request can only add rows. -/
def Request.insertsOnly : Request → Bool
  | .insert _ _ | .insertMany _ _ | .insertOnConflict _ _ _ => true
  | _ => false

/-- No masked field of an existing row is set to null, and what is given to one is given back
so that it prints alike. -/
structure KeepsMasks (request : Request) : Prop where
  present : ∀ {field column}, S.fields.lookup field = some column → column.isMasked →
    Gives request field .null → request.insertsOnly
  printed : ∀ {field column v w storage stored}, S.fields.lookup field = some column → column.isMasked →
    column.encrypted = false → keepsValue column = false → Gives request field v → prepareValue B field column v = .ok w →
    storageType column = .ok storage → Stores B storage w stored → plainText B field stored = plainText B field w

/-- The database has no defaults for the columns of a masked field. -/
def NoMasked (defaults : Nat → Row) : Prop :=
  ∀ {field column kind raw}, MaskedField S field column kind raw → ∀ i,
    defaults i (column.valueColumnOf field) = .null ∧ defaults i raw = .null

variable {B A S database} {T : ResolvedTable S} {field raw : String} {column : ColumnSchema} {kind : MaskKind}
  {request : Request} {actor : Option String} {doc : Document} {given placed : Doc} {draw : Draw} {rowPk : String}
  {now : Int} {old fresh : Row} {set : SetList} {v w : Value} {storage : StorageType} {defaults : Nat → Row}

theorem MaskedField.isMasked (h : MaskedField S field column kind raw) : column.isMasked := by
  rw [← S.rawColumnOf_isSome h.declared, h.raw_eq]
  rfl

theorem MaskedField.inputs (h : MaskedField S field column kind raw) (T : ResolvedTable S) :
    ∃ storage, (field, ⟨⟨column.valueColumnOf field, .text⟩, insertOnly field column⟩) ∈ T.inputs ∧
      (raw, ⟨⟨raw, storage⟩, insertOnly field column⟩) ∈ T.inputs ∧ storageType column = .ok storage := by
  obtain ⟨shown, hs, ht⟩ := T.exists_value h.declared
  obtain ⟨storage, hr, hst⟩ := T.exists_raw h.declared h.raw_eq
  rw [if_pos h.isMasked] at ht
  subst ht
  exact ⟨storage, hs, hr, hst⟩

theorem stores_text (h : Stores B .text v w) : w = v := stores_key (.inl rfl) h

/-- A type that keeps values keeps their texts. -/
theorem printed_of_keepsValue (hk : keepsValue column) (hc : column.encrypted = false) {u : Value}
    (hp : prepareValue B field column v = .ok w) (hs : storageType column = .ok storage)
    (hst : Stores B storage w u) : u = w := by
  cases hst with
  | null => rfl
  | @kept _ x hpr he =>
    unfold storageType at hs
    rw [if_neg (by simp [hc])] at hs
    split_ifs at hs with hex
    · cases hs
      cases he
      rfl
    have hn : v ≠ .null := fun hv => hpr ((prepareValue_null hp).mpr hv)
    simp only [keepsValue, hex, Bool.false_or, decide_eq_true_eq] at hk
    cases ht : column.logicalType <;> rw [ht] at hs hk <;> simp at hk
    case timestamp =>
      cases hs
      unfold prepareValue at hp
      rw [if_neg hn, if_neg hex, ht] at hp
      cases hm : B.timestampMicros v with
      | none => simp [hm] at hp
      | some micros =>
        simp only [hm, Except.ok.injEq] at hp
        subst hp
        unfold StorageType.encode at he
        cases ha : B.timestampMicros (.timestampMicros micros) with
        | none => simp [ha] at he
        | some micros' =>
          simp only [ha] at he
          split_ifs at he
          cases he
          rw [B.timestampMicros_micros micros' micros ha]
          rfl
    all_goals
      cases hs
      cases he
      rfl

/-- What a masked field is given prints as what its raw column then holds. -/
def PrintsAlike (B : Backend) (field : String) (column : ColumnSchema) (g : Option Value) : Prop :=
  ∀ v, g = some v → v ≠ .null → column.encrypted = false → ∀ {storage stored}, storageType column = .ok storage →
    Stores B storage v stored → plainText B field stored = plainText B field v

/-- The pair of columns after they were given what protection placed for them. -/
theorem Placed.paired {nonces : String → Nat} {g shown moved : Option Value} {x y x₀ y₀ : Value}
    (h : Placed B A S database nonces rowPk field column g shown moved) (hf : MaskedField S field column kind raw)
    (hst : storageType column = .ok storage) (hs : Takes B .text shown x₀ x) (hm : Takes B storage moved y₀ y)
    (ho : g = none → Paired B A field column kind x₀ y₀) (hn : g = some .null → y₀ = .null)
    (ha : PrintsAlike B field column g) : Paired B A field column kind x y := by
  have hk : ∀ {kind'}, column.effectiveMask.bind MaskKind.fromSql = some kind' → kind' = kind := fun hk' =>
    Option.mem_unique hk' hf.kind_eq
  cases h with
  | absent =>
    rw [hs.kept, hm.kept]
    exact ho rfl
  | cleared =>
    obtain rfl : x = .null := stores_text hs.stores
    rw [hm.kept, hn rfl]
    exact ⟨Iff.rfl, fun hy => absurd rfl hy⟩
  | plain _ hu _ | sealed _ hu _ _ _ _ => simp [hf.isMasked] at hu
  | @masked v kind' text hp hk' hc hpr =>
    obtain rfl := hk hk'
    obtain rfl := stores_text hs.stores
    have hp' : plainText B field y = .ok (some text) :=
      (ha v rfl hp hc hst hm.stores).trans hpr
    have hy : y ≠ .null := by
      rintro rfl
      cases hp'
    exact ⟨iff_of_false (by simp) hy, fun _ => ⟨text, .plain hc hp', rfl⟩⟩
  | @sealedMasked v kind' type plaintext id hp hk' ht hen _ _ =>
    obtain rfl := hk hk'
    obtain rfl := stores_text hs.stores
    have he : column.encrypted := by
      by_contra hc
      rw [PlaintextType.fromField, if_pos (by simpa using hc)] at ht
      cases ht
    have hb : storage = .bytes := by simpa [storageType, he] using hst.symm
    rw [hb] at hm
    obtain rfl := stores_bytes hm.stores
    exact ⟨iff_of_false (by simp) (by simp), fun _ => ⟨_, .sealed _ _ plaintext ht, rfl⟩⟩

/-- A document's values print alike: given ones by assumption, assigned ones because they are
texts. -/
theorem Ready.printsAlike (ready : Ready B S actor doc given) (hin : Inserts request doc actor)
    (hk : KeepsMasks B S request) (hf : MaskedField S field column kind raw) :
    PrintsAlike B field column (given field) := by
  intro v hv hpr hc storage stored hstr hs
  obtain ⟨idColumn, hid, _, hu, _⟩ := S.identity_column
  have hne : field ≠ "id" := by
    rintro rfl
    have hsm := hf.declared
    rw [hid] at hsm
    cases hsm
    rw [hf.isMasked] at hu
    cases hu
  cases ha : column.assignment with
  | none =>
    obtain ⟨u, hd, hp⟩ := ready.given_plain hf.declared hne ha hv
    by_cases hkp : keepsValue column
    · rw [printed_of_keepsValue hkp hc hp hstr hs]
    · exact hk.printed hf.declared hf.isMasked hc (by simpa using hkp) (.doc hin hd) hp
        hstr hs
  | some a =>
    have hft := S.assignment_fits hf.declared ha
    obtain ⟨draw, hi⟩ := ready.assigned hf.declared hne ha
    rw [hv] at hi
    have ht : column.logicalType = .text := by
      unfold injectedValue at hi
      cases hg : a.generator with
      | typedId =>
        simp only [assignmentFits, hg, decide_eq_true_eq] at hft
        exact hft.2
      | actor => simpa [assignmentFits, hg] using hft
      | now | increment step | identity => simp [hg] at hi
    have hst : storage = .text := by simpa [storageType, hc, isExactDecimal, ht] using hstr.symm
    subst hst
    rw [stores_text hs]

theorem newRow_paired {mentioned : String → Bool} (ready : Ready B S actor doc given)
    (hi : Inserts request doc actor) (hk : KeepsMasks B S request)
    (h : protectDoc B A S database draw given = .ok placed) (hv : valuesOf B T mentioned placed = .ok set)
    (hd : NoMasked S defaults) (i : Nat) : RowPaired B A S (newRow B now (defaults i) set) := by
  intro field column kind raw hf
  obtain ⟨storage, hsh, hri, hst⟩ := hf.inputs T
  obtain ⟨hshw, hr⟩ := hd hf i
  have hp := applyToDoc_placed h ready.declared hf.declared
  rw [hf.raw_eq, Option.bind_some] at hp
  have hs := newRow_valuesOf hv hsh now (defaults i)
  have hrs := newRow_valuesOf hv hri now (defaults i)
  rw [hshw] at hs
  rw [hr] at hrs
  exact hp.paired hf hst hs hrs (fun _ => ⟨Iff.rfl, fun hy => absurd rfl hy⟩)
    (fun _ => rfl) (ready.printsAlike hi hk hf)

variable {patch : Patch} {query : Query} {input : UpdateInput} {deleting restoring : Bool}

theorem MaskedField.ne_plain (h : MaskedField S field column kind raw) {other : String} {column' : ColumnSchema}
    (ho : S.fields.lookup other = some column') (hp : column'.isMasked = false) : field ≠ other ∧ raw ≠ other := by
  constructor
  · rintro rfl
    have hs := h.declared
    rw [ho] at hs
    cases hs
    rw [h.isMasked] at hp
    cases hp
  · rintro rfl
    rw [S.lookup_rawColumn h.declared h.raw_eq] at ho
    cases ho

/-- Nothing that the platform assigns goes to a masked field. -/
theorem MaskedField.not_written (h : MaskedField S field column kind raw) (maskable : Maskable B S)
    : field ∉ writtenFields S actor deleting restoring ∧ raw ∉ writtenFields S actor deleting restoring := by
  constructor
  · intro hm
    obtain ⟨column', hc', hso⟩ := mem_writtenFields.mp hm
    have hs := h.declared
    rw [hc'] at hs
    cases hs
    obtain ⟨hw, hd⟩ := maskable.unassigned h.declared h.isMasked
    cases ha : column.assignment with
    | none => simp [ha] at hso
    | some a =>
      simp only [assignedOn, ha, Option.any_some, decide_eq_false_iff_not] at hw hd
      simp [ha, assignedValue, hw, hd] at hso
  · intro hm
    obtain ⟨column', hc', _⟩ := mem_writtenFields.mp hm
    rw [S.lookup_rawColumn h.declared h.raw_eq] at hc'
    cases hc'

theorem patch_paired (maskable : Maskable B S) (hk : KeepsMasks B S request)
    (ha : Patches request query input actor) (hin : inspectUpdate B S query input = .ok patch)
    (h : applyToDoc B A S database draw.nonces rowPk patch.sets = .ok placed)
    (hr : resolveAssignments B T patch placed (writeAssignments S actor false false) = .ok set)
    (hol : RowPaired B A S old) : RowPaired B A S (assign B now old old set) := by
  simp only [inspectUpdate, bind_ok] at hin
  obtain ⟨inspected, hi, _, _, hpr⟩ := hin
  have accepted := inspect_accepted hi hpr
  have hn := (assignments_named hr).nodup (nodup_updateNames accepted h)
  intro field column kind raw hf
  obtain ⟨storage, hsh, hri, hst⟩ := hf.inputs T
  obtain ⟨hshw, hrw⟩ := hf.not_written maskable
  have ho : ∀ name, name = field ∨ name = raw → name ∉ patch.operations.map (·.field) ++ patch.expressions.map (·.1) := by
    intro name hnm hm
    obtain ⟨_, column', hc', _, _, hpln⟩ := accepted.operated hm
    have hne := hf.ne_plain hc' hpln
    exact hnm.elim (fun heq => hne.1 heq.symm) fun heq => hne.2 heq.symm
  have hg : ∀ {v}, patch.sets field = some v →
      ∃ u, Gives request field u ∧ prepareValue B field column u = .ok v := by
    intro v hv
    obtain ⟨entry, he, assignments, hpa, u, hu, hp⟩ :=
      inspect_source hi hpr hf.declared (accepted.sets_some.mp hv)
    exact ⟨u, .patch ha he hpa hu, hp⟩
  have hpl := applyToDoc_placed h accepted.sets_declared hf.declared
  rw [hf.raw_eq, Option.bind_some] at hpl
  refine hpl.paired hf hst
    (assign_assignments hr hn hsh (ho _ (.inl rfl)) hshw now old old)
    (assign_assignments hr hn hri (ho _ (.inr rfl)) hrw now old old)
    (fun _ => hol hf) (fun hnl => ?_) fun v hv hprs hc storage' stored hs' hs => ?_
  · obtain ⟨u, hg, hp⟩ := hg hnl
    obtain rfl := (prepareValue_null hp).mp rfl
    have hon := hk.present hf.declared hf.isMasked hg
    cases ha <;> cases hon
  · obtain ⟨u, hg, hp⟩ := hg hv
    by_cases hkp : keepsValue column
    · rw [printed_of_keepsValue hkp hc hp hs' hs]
    · exact hk.printed hf.declared hf.isMasked hc (by simpa using hkp) hg hp hs' hs

theorem lifecycle_paired (maskable : Maskable B S)
    (hrs : resolveGenerated B T (writeAssignments S actor deleting restoring) = .ok set)
    (ho : RowPaired B A S old) : RowPaired B A S (assign B now old old set) := by
  have hn := generated_named hrs
  intro field column kind raw hf
  obtain ⟨storage, hs, hri, _⟩ := hf.inputs T
  obtain ⟨hshw, hr⟩ := hf.not_written maskable
  have hsh : assign B now old old set (column.valueColumnOf field) = old (column.valueColumnOf field) :=
    assign_of_not_mem (hn.not_mem_columns hs hshw)
  have hrk : assign B now old old set raw = old raw := assign_of_not_mem (hn.not_mem_columns hri hr)
  rw [hsh, hrk]
  exact ho hf

/-! ### Upserts -/

variable {conflict : List String} {expectedId condition : Option Value} {insert update : SetList} {targets : List Column}

theorem Ready.null_insertOnly (ready : Ready B S actor doc given) (maskable : Maskable B S)
    (hk : KeepsMasks B S (.upsert ⟨doc, conflict, actor⟩)) (hf : MaskedField S field column kind raw)
    (hn : given field = some .null) : insertOnly field column := by
  obtain ⟨hw, hd⟩ := maskable.unassigned hf.declared hf.isMasked
  by_cases hid : field = "id"
  · simp [insertOnly, hid]
  cases ha : column.assignment with
  | none =>
    obtain ⟨u, hdc, hp⟩ := ready.given_plain hf.declared hid ha hn
    obtain rfl := (prepareValue_null hp).mp rfl
    have ho := hk.present hf.declared hf.isMasked (.doc (.upsert _) hdc)
    cases ho
  | some a =>
    simp only [assignedOn, ha, Option.any_some, decide_eq_false_iff_not] at hw hd
    cases he : a.event with
    | insert => simp [insertOnly, assignedOn, ha, he]
    | write => exact absurd he hw
    | delete => exact absurd he hd

/-- A row that an upsert rewrites stays paired: it keeps both columns, or takes both over. -/
theorem merge_paired (maskable : Maskable B S) (hk : KeepsMasks B S (.upsert ⟨doc, conflict, actor⟩))
    (ready : Ready B S actor doc given) (h : protectDoc B A S database draw given = .ok placed)
    (htr : ∀ field ∈ conflict, ∃ column, S.fields.lookup field = some column ∧ column.assignment = none ∧
      column.encrypted = false)
    (hr : ResolvedUpsert (B := B) T placed conflict (writeAssignments S actor false false) expectedId false insert
      targets update condition)
    (hd : NoMasked S defaults)
    (hc : conflicts B targets (newRow B now (defaults 0) insert) old) (hol : RowPaired B A S old) :
    RowPaired B A S (assign B now old (newRow B now (defaults 0) insert) update) := by
  intro field column kind raw hf
  obtain ⟨storage, hshi, hri, _⟩ := hf.inputs T
  obtain ⟨hsh, hrw⟩ :
      field ∉ writtenFields S actor false false ∧ raw ∉ writtenFields S actor false false := hf.not_written maskable
  have hmr : mergeList B T placed targets (writeAssignments S actor false false) = .ok update := hr.updates
  have hpr : RowPaired B A S (newRow B now (defaults 0) insert) :=
    newRow_paired ready (.upsert ⟨doc, conflict, actor⟩) hk h hr.inserts hd 0
  have hfr := hpr hf
  generalize newRow B now (defaults 0) insert = fresh at hc hfr ⊢
  have hs := assign_mergeList hmr hr.nodup hshi hsh now old fresh
  have hra := assign_mergeList hmr hr.nodup hri hrw now old fresh
  -- A raw column is never a target, and a mask that is one is the same in both rows.
  have hrt : raw ∉ targets.map (·.name) := by
    intro hm
    obtain ⟨other, column', input', ho, _, hi', hn⟩ := target_input hr.targets_eq htr hm
    obtain ⟨rfl, _⟩ := T.eq_of_column hri hi' hn.symm
    rw [S.lookup_rawColumn hf.declared hf.raw_eq] at ho
    cases ho
  have hsht : column.valueColumnOf field ∈ targets.map (·.name) →
      fresh (column.valueColumnOf field) = old (column.valueColumnOf field) := by
    intro hm
    obtain ⟨target, ht, hn⟩ := List.mem_map.mp hm
    have hsm := List.all_eq_true.mp hc target ht
    simp only [Bool.and_eq_true, hn] at hsm
    exact (maskable.exact hf.declared hf.isMasked _ _ hsm.2).symm
  have hp := applyToDoc_placed h ready.declared hf.declared
  rw [hf.raw_eq, Option.bind_some] at hp
  by_cases hmv : (placed raw).isSome ∧ insertOnly field column = false
  · rw [if_pos ⟨hmv.1, hmv.2, hrt⟩] at hra
    have hshs : (placed field).isSome := by
      have hmvd := hmv.1
      generalize given field = g at hp
      generalize placed field = shown at hp ⊢
      generalize placed raw = moved at hp hmvd
      cases hp <;> first | rfl | cases hmvd
    have hshn : assign B now old fresh update (column.valueColumnOf field) = fresh (column.valueColumnOf field) := by
      split_ifs at hs with hcn
      · exact hs
      · rcases hs with hs | ⟨_, hs⟩
        · rw [hs, hsht (by_contra fun hm => hcn ⟨hshs, hmv.2, hm⟩)]
        · exact hs
    rw [hshn, hra]
    exact hfr
  · rw [if_neg (fun hcn => hmv ⟨hcn.1, hcn.2.1⟩)] at hra
    have hro := hra.resolve_right fun hm => hrt hm.1
    have hsho : assign B now old fresh update (column.valueColumnOf field) = old (column.valueColumnOf field) := by
      split_ifs at hs with hcn
      · -- The field was given null: then only the platform can have done so.
        have hnl : given field = some .null := by
          have hshs := hcn.1
          have hnm : (placed raw).isSome = false :=
            Bool.eq_false_iff.mpr fun hmvd => hmv ⟨hmvd, hcn.2.1⟩
          generalize given field = g at hp ⊢
          generalize placed field = shown at hp hshs
          generalize placed raw = moved at hp hnm
          cases hp with
          | absent => cases hshs
          | cleared => rfl
          | plain _ hu _ | sealed _ hu _ _ _ _ => simp [hf.isMasked] at hu
          | masked _ _ _ _ | sealedMasked _ _ _ _ _ _ => cases hnm
        have hon : insertOnly field column = false := hcn.2.1
        rw [ready.null_insertOnly maskable hk hf hnl] at hon
        cases hon
      · rcases hs with hs | ⟨hm, hs⟩
        · exact hs
        · rw [hs, hsht hm]
    rw [hsho, hro]
    exact hol hf

/-- No statement of such requests separates a pair. -/
theorem keeps_paired (maskable : Maskable B S) :
    Keeps B A S database (RowPaired B A S) (KeepsMasks B S) (NoMasked S) := by
  intro request T statement now defaults rows row hk hc hd hrw hcm
  cases hcm with
  | kept ho => exact hrw _ ho
  | inserted hv =>
    cases hc with
    | insert he =>
      obtain ⟨doc, actor, given, placed, draw, mentioned, hi, hrd, hp, hvl⟩ := he _ hv
      exact newRow_paired hrd hi hk hp hvl hd _
  | updated ho _ =>
    cases hc with
    | patch ha hin hp hr _ _ =>
      exact patch_paired maskable hk ha hin hp hr (hrw _ ho)
    | lifecycle _ hr _ => exact lifecycle_paired maskable hr (hrw _ ho)
  | upserted =>
    cases hc with
    | upsert ha hrd hp _ _ hr =>
      subst ha
      exact newRow_paired hrd (.upsert ⟨_, _, _⟩) hk hp hr.inserts hd _
    | unlessConflict ha hrd hp hr =>
      exact newRow_paired hrd ha hk hp hr hd _
  | merged ho hcn _ =>
    cases hc with
    | upsert ha hrd hp _ ht hr =>
      subst ha
      exact merge_paired maskable hk hrd hp ht hr hd hcn (hrw _ ho)

/-- However calls are interleaved, a masked field shows null just when its raw column is null,
and else the mask of what its raw column holds. -/
theorem masked_pairs (defaultExpression : Bool) (maskable : Maskable B S) {history : History (Store B S) Event Reply}
    {store : Store B S}
    (run : (machine B A S database defaultExpression).Run (Offers (KeepsMasks B S) (NoMasked S)) (.empty B S) history store)
    {row : Row} (hrow : row ∈ store.table.rows) (hfield : MaskedField S field column kind raw) :
    (row (column.valueColumnOf field) = .null ↔ row raw = .null) ∧
      (row raw ≠ .null → ∃ text, HeldText B A field column (row raw) text ∧
        row (column.valueColumnOf field) = .string (applyMaskKind kind text)) :=
  have hp := rows_of_run defaultExpression (keeps_paired maskable) run row hrow hfield
  ⟨hp.null, hp.masked⟩

end

def ssnColumn : ColumnSchema :=
  { ColumnSchema.new .text with
    required := false
    mask := some "full"
    storage := ⟨none, some "__zs_raw__ssn"⟩ }

def people : CollectionSchema where
  name := "people"
  fields := [⟨"id", .textIdentity⟩, ⟨"ssn", ssnColumn⟩].toAList
  named := by decide +kernel
  accepted := by decide +kernel

/-- A person is added, and their number then set to something else. -/
def renumbered (v : Value) : List Event :=
  [.start (.insert (.of [("id", .string "p1"), ("ssn", .string "123-45-6789")]) none) .sample,
    .execute 0 0 fun _ _ => .null,
    .start (.updateOne ⟨fun _ => true, none, false⟩ ⟨[("ssn", .value v)], ∅⟩ none) .sample,
    .execute 1 0 fun _ _ => .null]

/-- Set to null, the number is gone from view and still there to be unmasked. -/
theorem cleared_ssn_kept :
    ∃ history store, (machine (.sample id) .sample people none true).Run .anything (.empty _ _) history store ∧
      ∃ row ∈ store.table.rows, row (ssnColumn.valueColumnOf "ssn") = .null ∧
        row "__zs_raw__ssn" = .string "123-45-6789" := by
  have hr : (machine (.sample id) .sample people none true).Run .anything (.empty _ _) _ _ :=
    .of_trace (Machine.offered_anything _ (Machine.trace _ _ (renumbered .null)))
  exact ⟨_, _, hr, by decide +kernel⟩

theorem people_masked {field : String} {column : ColumnSchema} (hc : people.fields.lookup field = some column)
    (hm : column.isMasked) : keepsValue column ∧ column.assignment = none := by
  have ha : ∀ e ∈ people.fields.entries, e.2.isMasked → keepsValue e.2 ∧ e.2.assignment = none := by
    decide +kernel
  exact ha ⟨field, column⟩ (AList.mem_lookup_iff.mp hc) hm

theorem changed_ssn_masked :
    let store := (machine (.sample id) .sample people none true).reach (.empty _ _) (renumbered (.string "987-65-4321"))
    ∃ row ∈ store.table.rows, row "__zs_raw__ssn" = .string "987-65-4321" ∧
      (row (ssnColumn.valueColumnOf "ssn") = .null ↔ row "__zs_raw__ssn" = .null) := by
  have hms : Maskable (.sample id) people := by
    refine ⟨fun hc hm => ?_, fun _ _ => Backend.sample_exact _⟩
    simp [assignedOn, (people_masked hc hm).2]
  have hp : ∀ request, (∀ {field}, Gives request field .null → request.insertsOnly) →
      KeepsMasks (.sample id) people request := by
    intro request hprs
    refine ⟨fun _ _ => hprs, fun hc hm _ hk => ?_⟩
    rw [(people_masked hc hm).1] at hk
    cases hk
  have ha : ∀ event ∈ renumbered (.string "987-65-4321"),
      Admits (KeepsMasks (.sample id) people) (NoMasked people) event := by
    intro event he
    simp only [renumbered, List.mem_cons, List.not_mem_nil, or_false] at he
    rcases he with rfl | rfl | rfl | rfl
    · exact hp _ fun _ => rfl
    · exact fun _ _ => ⟨rfl, rfl⟩
    · refine hp _ fun hgv => ?_
      cases hgv with
      | doc hi _ => cases hi
      | patch hpt hen hpr hg =>
        cases hpt
        obtain rfl := List.mem_singleton.mp hen
        have hass := Except.ok.inj hpr
        rw [← hass] at hg
        simp at hg
    · exact fun _ _ => ⟨rfl, rfl⟩
  have hs : ∃ row ∈ ((machine (.sample id) .sample people none true).reach (.empty _ _)
      (renumbered (.string "987-65-4321"))).table.rows, row "__zs_raw__ssn" = .string "987-65-4321" := by decide +kernel
  obtain ⟨row, hr, hrw⟩ := hs
  have hf : MaskedField people "ssn" ssnColumn .full "__zs_raw__ssn" := ⟨rfl, rfl, rfl⟩
  exact ⟨row, hr, hrw, (masked_pairs true hms (run_of_events true ha) hr hf).1⟩

end Zeroship.Orm
