import Zeroship.Base.Encoding
import Zeroship.Policy.Region

/-! The bytes a policy is sealed under.

The seal is a keyed digest over the layers of a policy, the digest of its registry and
what it is bound to, encoded field by field: strings and lists after their length, cases
after a tag, sets sorted. Two policies with the same bytes have the same layers up to the
order of their sets, and answer every question alike. -/
namespace Zeroship.Policy
open InjectColumn SegGlob InjectSpec
open Base (bigEndian Readable readable_bigEndian sorted)

def boolByte (b : Bool) : UInt8 := if b then 1 else 0

def writeBytes (bytes : Bytes) : Bytes := bigEndian 4 bytes.length ++ bytes

variable (g : SegGlob) (s : String)

def utf8 : Bytes := s.toUTF8.data.toList

def writeStr : Bytes := writeBytes (utf8 s)

/-- The elements after their number. -/
def writeVec {α : Type} (write : α → Bytes) (v : List α) : Bytes := bigEndian 4 v.length ++ v.flatMap write

def writeStrVec (v : List String) : Bytes := writeVec writeStr v

def writeOption {α : Type} (write : α → Bytes) (o : Option α) : Bytes := o.elim [0x00] fun a => 0x01 :: write a

/-- The bytes of a signed word. -/
def writeI64 (i : Int) : Bytes := bigEndian 8 (i % 2 ^ 64).toNat

/-- A set of strings is sorted. -/
def writeValue : KnobValue → Bytes
  | .bool x => [0x00, boolByte x]
  | .uint x => 0x01 :: bigEndian 8 x
  | .strSet xs => 0x02 :: writeStrVec (sorted xs)
  | .str s => 0x03 :: writeStr s

/-- The pieces of a glob and not its text: two globs may read alike. -/
def writeSeg : Bytes := boolByte g.hasStar :: (writeBytes g.prefixBytes ++ writeBytes g.suffixBytes)

def writePattern (p : Pattern) : Bytes := writeSeg p.schema ++ writeSeg p.table

def writePatterns (patterns : List Pattern) : Bytes := writeVec writePattern (sorted patterns)

def writeScope : Scope → Bytes
  | .nothing => [0x00]
  | .all => [0x01]
  | .of includes excludes => 0x02 :: (writePatterns includes ++ writePatterns excludes)

def writeGenerator : AssignmentGenerator → Bytes
  | .now => [0x00]
  | .typedId => [0x01]
  | .actor => [0x02]
  | .increment amount => 0x03 :: writeI64 amount
  | .identity => [0x04]

def eventByte : AssignmentEvent → UInt8
  | .insert => 0x00
  | .write => 0x01
  | .delete => 0x02

def writeAssignment (a : Assignment) : Bytes := writeGenerator a.generator ++ [eventByte a.event]

def writeColumn (c : InjectColumn) : Bytes :=
  writeStr c.name ++ (writeStr c.ty ++ ([boolByte c.nullable] ++ (writeOption writeStr c.default ++
    (writeOption writeAssignment c.assign ++ writeOption (fun _ => []) c.collation))))

def writeIndex (i : InjectIndex) : Bytes := writeStr i.name ++ writeStrVec i.columns

def authorPkByte : AuthorPkPolicy → UInt8
  | .allow => 0x00
  | .forbid => 0x01

/-- The order of columns and of indexes counts. -/
def writeInject (spec : InjectSpec) : Bytes :=
  writeVec writeColumn spec.columns ++ (writeVec writeIndex spec.indexes ++
    (writeOption writeStrVec spec.primaryKey ++ ([authorPkByte spec.authorPrimaryKey] ++ [boolByte spec.mandatory])))

def writeNameGlobs (globs : List SegGlob) : Bytes := writeVec writeSeg globs

def writePredicate : ValidatePredicate → Bytes
  | .hasPrimaryKey => [0x00]
  | .columnNamePattern require forbid => 0x01 :: (writeNameGlobs require ++ writeNameGlobs forbid)
  | .forbiddenColumns names => 0x02 :: writeStrVec names
  | .typeNullability column ty nullable =>
    0x03 :: (writeStr column ++ (writeOption writeStr ty ++ writeOption (fun n => [boolByte n]) nullable))
  | .requireIndex columns => 0x04 :: writeStrVec columns
  | .tableNameForbidden patterns => 0x05 :: writePatterns patterns

/-- What is sealed of a layer. -/
structure SealLayer where
  tag : LayerTag
  /-- In the order of the keys, then of the rules of a key. -/
  grants : List (KnobKey × GrantRule)
  (requires injects validates : List Rule)

def GrantModel.flat (m : GrantModel) : List (KnobKey × GrantRule) :=
  m.keys.toList.flatMap fun e => e.2.rules.map fun r => (e.1, r)

def Layer.toSeal (l : Layer) : SealLayer := ⟨l.tag, l.grants.flat, l.requires, l.injects, l.validates⟩

def EffectivePolicy.sealLayers (p : EffectivePolicy) : List SealLayer := p.layers.map Layer.toSeal

def LayerTag.sealByte : LayerTag → UInt8
  | base => 0x00
  | env => 0x01
  | draft => 0x02

def writeKeyed (key : KnobKey) (scope : Scope) (value : KnobValue) : Bytes :=
  writeStr key.text ++ (writeScope scope ++ writeValue value)

def writeGrant (g : KnobKey × GrantRule) : Bytes := writeKeyed g.1 g.2.scope g.2.value

/-- A rule of one of the other kinds. -/
def writeRule (r : Rule) : Bytes :=
  match r.kind with
  | .require key value => writeKeyed key r.scope value
  | .inject spec => writeScope r.scope ++ writeInject spec
  | .validate pred => writeScope r.scope ++ writePredicate pred
  | .grant _ _ => []

def writeLayer (l : SealLayer) : Bytes :=
  [0x0e, l.tag.sealByte] ++ (0x10 :: writeVec writeGrant l.grants ++
    (0x11 :: writeVec writeRule (rulesOf l.requires RuleKind.isRequire) ++
    (0x12 :: writeVec writeRule (rulesOf l.injects RuleKind.isInject) ++
      0x13 :: writeVec writeRule (rulesOf l.validates RuleKind.isValidate))))

def canonicalRuleSet (p : EffectivePolicy) : Bytes := 0x0f :: writeVec writeLayer p.sealLayers

/-- What a policy is sealed with. -/
structure Binding where
  registryDigest : Vector UInt8 32
  dialect : String
  matcherVersion : UInt32
  charterVersion : UInt64
  nonce : Vector UInt8 16

def sealDomain : Bytes := utf8 "zeroship-migrate-policy/seal/v1"

/-- What is fed to the keyed digest. -/
def sealMac (p : EffectivePolicy) (b : Binding) : Bytes :=
  sealDomain ++ (writeBytes (canonicalRuleSet p) ++ (b.registryDigest.toList ++ (writeStr b.dialect ++
    (bigEndian 4 b.matcherVersion.toNat ++ (bigEndian 8 b.charterVersion.toNat ++ b.nonce.toList)))))

/-! ### The digest of a registry -/

inductive Enforcement
  | enforced | declaredOnly | hostEnforced
deriving DecidableEq

inductive ObjectModel
  | perTable | perSchema | global
deriving DecidableEq

/-- The fields of a definition that composition does not read. -/
structure KnobTraits where
  enforcement : Enforcement
  objectModel : ObjectModel
  requiresDbPrivilege : Bool

def enforcementByte : Enforcement → UInt8
  | .enforced => 0x00
  | .declaredOnly => 0x01
  | .hostEnforced => 0x02

def objectModelByte : ObjectModel → UInt8
  | .perTable => 0x00
  | .perSchema => 0x01
  | .global => 0x02

def writeKind : KnobKind → Bytes
  | .bool => [0x00]
  | .strSet => [0x01]
  | .uintCharter hardFloor => 0x02 :: bigEndian 8 hardFloor
  | .orderedEnum variants => 0x03 :: writeStrVec variants
  | .digest => [0x04]

def writePolarity : Polarity → Bytes
  | .grant => [0x00]
  | .require => [0x01]
  | .pinned delegable => [0x02, boolByte delegable]

/-- A default is written as it was declared: its strings are not sorted. -/
def writeDefault : KnobValue → Bytes
  | .bool x => [0x00, boolByte x]
  | .uint x => 0x01 :: bigEndian 8 x
  | .strSet xs => 0x02 :: writeStrVec xs
  | .str s => 0x03 :: writeStr s

def KnobDef.canonicalEncoding (d : KnobDef) (t : KnobTraits) : Bytes :=
  0x01 :: writeStr d.key.text ++ (0x02 :: writeKind d.kind ++ (0x03 :: writePolarity d.polarity ++
    (0x04 :: writeDefault d.default ++ ([0x05, enforcementByte t.enforcement] ++
    ([0x06, objectModelByte t.objectModel] ++ ([0x07, boolByte t.requiresDbPrivilege] ++ [0x08, boolByte d.inherit]))))))

def registryDomain : Bytes := utf8 "zeroship-migrate-policy/registry/v1"

/-- What is fed to the digest of the registry, whose definitions have the traits `t`. -/
def PolicyRegistry.digestInput (r : PolicyRegistry) (t : KnobKey → KnobTraits) : Bytes :=
  registryDomain ++ writeVec (fun d => writeBytes (d.canonicalEncoding (t d.key))) r.iter

/-! ### Sizes

A length is written in four bytes and a number in eight. -/

/-- The list is short enough to be counted, and its elements are of their sizes. -/
def SizedVec {α : Type} (ok : α → Prop) (v : List α) : Prop := v.length < 2 ^ 32 ∧ ∀ a ∈ v, ok a

def SizedStr : Prop := (utf8 s).length < 2 ^ 32

def KnobValue.Sized : KnobValue → Prop
  | .bool _ => True
  | .uint u => u < 2 ^ 64
  | .strSet xs => SizedVec SizedStr xs
  | .str s => SizedStr s

def SegGlob.Sized : Prop := g.prefixBytes.length < 2 ^ 32 ∧ g.suffixBytes.length < 2 ^ 32

def Pattern.Sized (p : Pattern) : Prop := p.schema.Sized ∧ p.table.Sized

def Scope.Sized : Scope → Prop
  | .nothing => True
  | .all => True
  | .of includes excludes => SizedVec Pattern.Sized includes ∧ SizedVec Pattern.Sized excludes

def AssignmentGenerator.Sized : AssignmentGenerator → Prop
  | .increment amount => -2 ^ 63 ≤ amount ∧ amount < 2 ^ 63
  | _ => True

structure InjectColumn.Sized (c : InjectColumn) : Prop where
  name : SizedStr c.name
  ty : SizedStr c.ty
  default : ∀ d ∈ c.default, SizedStr d
  assign : ∀ a ∈ c.assign, a.generator.Sized

structure InjectIndex.Sized (i : InjectIndex) : Prop where
  name : SizedStr i.name
  columns : SizedVec SizedStr i.columns

structure InjectSpec.Sized (spec : InjectSpec) : Prop where
  columns : SizedVec InjectColumn.Sized spec.columns
  indexes : SizedVec InjectIndex.Sized spec.indexes
  primaryKey : ∀ cols ∈ spec.primaryKey, SizedVec SizedStr cols

def ValidatePredicate.Sized : ValidatePredicate → Prop
  | .hasPrimaryKey => True
  | .columnNamePattern require forbid => SizedVec SegGlob.Sized require ∧ SizedVec SegGlob.Sized forbid
  | .forbiddenColumns names => SizedVec SizedStr names
  | .typeNullability column ty _ => SizedStr column ∧ ∀ t ∈ ty, SizedStr t
  | .requireIndex columns => SizedVec SizedStr columns
  | .tableNameForbidden patterns => SizedVec Pattern.Sized patterns

def RuleKind.Sized : RuleKind → Prop
  | .grant key value => SizedStr key.text ∧ value.Sized
  | .require key value => SizedStr key.text ∧ value.Sized
  | .inject spec => spec.Sized
  | .validate pred => pred.Sized

structure Rule.Sized (r : Rule) : Prop where
  scope : r.scope.Sized
  kind : r.kind.Sized

/-- The key, the scope and the value of a grant. -/
structure SizedGrant (g : KnobKey × GrantRule) : Prop where
  key : SizedStr g.1.text
  scope : g.2.scope.Sized
  value : g.2.value.Sized

structure SealLayer.Sized (l : SealLayer) : Prop where
  grants : SizedVec SizedGrant l.grants
  requires : SizedVec Rule.Sized l.requires
  injects : SizedVec Rule.Sized l.injects
  validates : SizedVec Rule.Sized l.validates

def EffectivePolicy.Sized (p : EffectivePolicy) : Prop := SizedVec SealLayer.Sized p.sealLayers

def KnobKind.Sized : KnobKind → Prop
  | .uintCharter hardFloor => hardFloor < 2 ^ 64
  | .orderedEnum variants => SizedVec SizedStr variants
  | _ => True

structure KnobDef.Sized (d : KnobDef) : Prop where
  key : SizedStr d.key.text
  kind : d.kind.Sized
  default : d.default.Sized

def PolicyRegistry.Sized (r : PolicyRegistry) : Prop := SizedVec KnobDef.Sized r.iter

/-! ### Alike

Equal up to the order of patterns and of the strings of a set. -/

def KnobValue.Alike : KnobValue → KnobValue → Prop
  | .strSet xs, .strSet ys => xs.Perm ys
  | a, b => a = b

def Scope.Alike : Scope → Scope → Prop
  | .of includes excludes, .of includes' excludes' => includes.Perm includes' ∧ excludes.Perm excludes'
  | s, t => s = t

def ValidatePredicate.Alike : ValidatePredicate → ValidatePredicate → Prop
  | .tableNameForbidden patterns, .tableNameForbidden patterns' => patterns.Perm patterns'
  | a, b => a = b

def RuleKind.Alike : RuleKind → RuleKind → Prop
  | .grant key value, .grant key' value' => key = key' ∧ value.Alike value'
  | .require key value, .require key' value' => key = key' ∧ value.Alike value'
  | .inject spec, .inject spec' => spec = spec'
  | .validate pred, .validate pred' => pred.Alike pred'
  | _, _ => False

structure Rule.Alike (r r' : Rule) : Prop where
  scope : r.scope.Alike r'.scope
  kind : r.kind.Alike r'.kind

structure GrantRule.Alike (r r' : GrantRule) : Prop where
  scope : r.scope.Alike r'.scope
  value : r.value.Alike r'.value

structure SealLayer.Alike (l l' : SealLayer) : Prop where
  tag : l.tag = l'.tag
  grants : l.grants.Forall₂ (fun g g' => g.1 = g'.1 ∧ g.2.Alike g'.2) l'.grants
  requires : (rulesOf l.requires RuleKind.isRequire).Forall₂ Rule.Alike (rulesOf l'.requires RuleKind.isRequire)
  injects : (rulesOf l.injects RuleKind.isInject).Forall₂ Rule.Alike (rulesOf l'.injects RuleKind.isInject)
  validates : (rulesOf l.validates RuleKind.isValidate).Forall₂ Rule.Alike (rulesOf l'.validates RuleKind.isValidate)

section
variable {α : Type} {write : α → Bytes} {ok : α → Prop} {same : α → α → Prop}

theorem boolByte_injective : Function.Injective boolByte := by
  intro a b
  cases a <;> cases b <;> decide

theorem readable_boolByte : Readable (fun b => [boolByte b]) (fun _ => True) Eq := .of_injective boolByte_injective

theorem readable_length : Readable (bigEndian 4) (· < 2 ^ 32) Eq :=
  (readable_bigEndian 4).mono (fun _ h => h) fun _ _ h => h

theorem readable_word : Readable (bigEndian 8) (· < 2 ^ 64) Eq :=
  (readable_bigEndian 8).mono (fun _ h => h) fun _ _ h => h

theorem readable_bytes : Readable writeBytes (fun b => b.length < 2 ^ 32) Eq := by
  intro a b s t ha hb h
  simp only [writeBytes, List.append_assoc] at h
  obtain ⟨hl, h⟩ := readable_length ha hb h
  exact List.append_inj h hl

theorem utf8_injective : Function.Injective utf8 := by
  intro a b h
  exact String.toByteArray_inj.mp (ByteArray.ext (Array.toList_inj.mp h))

theorem readable_str : Readable writeStr SizedStr Eq :=
  (readable_bytes.comap utf8).mono (fun _ h => h) fun _ _ h => utf8_injective h

theorem readable_vec (h : Readable write ok same) : Readable (writeVec write) (SizedVec ok) (List.Forall₂ same) :=
  Readable.counted readable_length h

theorem readable_vec_eq (h : Readable write ok Eq) : Readable (writeVec write) (SizedVec ok) Eq :=
  (readable_vec h).mono (fun _ h => h) fun _ _ h => List.forall₂_eq_eq_eq ▸ h

theorem readable_strVec : Readable writeStrVec (SizedVec SizedStr) Eq := readable_vec_eq readable_str

theorem SizedVec.sorted [Ord α] {v : List α} (h : SizedVec ok v) : SizedVec ok (sorted v) :=
  ⟨(Base.perm_sorted v).length_eq ▸ h.1, fun a ha => h.2 a ((Base.perm_sorted v).mem_iff.mp ha)⟩

theorem readable_sorted [Ord α] (h : Readable write ok Eq) :
    Readable (fun v => writeVec write (sorted v)) (SizedVec ok) List.Perm :=
  ((readable_vec_eq h).comap Base.sorted).mono (fun _ => SizedVec.sorted) fun _ _ => Base.perm_of_sorted

theorem readable_option (h : Readable write ok Eq) :
    Readable (writeOption write) (fun o => ∀ a ∈ o, ok a) Eq := by
  refine (Readable.option (by decide) h).mono (fun _ h => h) fun o o' hr => ?_
  cases hr with
  | none => rfl
  | some h => rw [h]

theorem readable_i64 : Readable writeI64 (fun i => -2 ^ 63 ≤ i ∧ i < 2 ^ 63) Eq := by
  refine .of_length 8 (fun _ => Base.length_bigEndian 8 _) fun i j hi hj h => ?_
  have h := Base.mod_eq_of_bigEndian h
  omega

end

/-! ### Reading rules -/

theorem readable_value : Readable writeValue KnobValue.Sized KnobValue.Alike := by
  intro a b s t ha hb h
  cases a <;> cases b <;> simp only [writeValue, List.cons_append, List.cons.injEq] at h <;>
    try exact absurd h.1 (by decide)
  case bool x y => exact ⟨congrArg _ (boolByte_injective h.2.1), h.2.2⟩
  case uint x y =>
    obtain ⟨hx, hr⟩ := readable_word ha hb h.2
    exact ⟨congrArg _ hx, hr⟩
  case strSet xs ys => exact readable_sorted readable_str ha hb h.2
  case str x y =>
    obtain ⟨hx, hr⟩ := readable_str ha hb h.2
    exact ⟨congrArg _ hx, hr⟩

theorem SegGlob.eq_of_pieces {g g' : SegGlob} (hs : g.hasStar = g'.hasStar) (hh : g.prefixBytes = g'.prefixBytes)
    (ht : g.suffixBytes = g'.suffixBytes) : g = g' := by
  cases g <;> cases g' <;> simp_all [hasStar, prefixBytes, suffixBytes]

theorem readable_seg : Readable writeSeg Sized Eq := by
  have h := (readable_boolByte.comap hasStar).append
    ((readable_bytes.comap prefixBytes).append (readable_bytes.comap suffixBytes))
  exact h.mono (fun _ hg => ⟨trivial, hg⟩) fun _ _ hg => eq_of_pieces hg.1 hg.2.1 hg.2.2

theorem readable_pattern : Readable writePattern Pattern.Sized Eq := by
  have h := (readable_seg.comap Pattern.schema).append (readable_seg.comap Pattern.table)
  refine h.mono (fun _ hp => hp) ?_
  rintro ⟨schema, table⟩ ⟨schema', table'⟩ ⟨rfl, rfl⟩
  rfl

theorem readable_patterns : Readable writePatterns (SizedVec Pattern.Sized) List.Perm :=
  readable_sorted readable_pattern

theorem readable_scope : Readable writeScope Scope.Sized Scope.Alike := by
  intro a b s t ha hb h
  cases a <;> cases b <;> simp only [writeScope, List.cons_append, List.cons.injEq, List.append_assoc] at h <;>
    try exact absurd h.1 (by decide)
  case nothing => exact ⟨rfl, h.2⟩
  case all => exact ⟨rfl, h.2⟩
  case of i e i' e' => 
    obtain ⟨hi, h⟩ := readable_patterns ha.1 hb.1 h.2
    obtain ⟨he, h⟩ := readable_patterns ha.2 hb.2 h
    exact ⟨⟨hi, he⟩, h⟩

theorem readable_generator : Readable writeGenerator AssignmentGenerator.Sized Eq := by
  intro a b s t ha hb h
  cases a <;> cases b <;> simp only [writeGenerator, List.cons_append, List.cons.injEq] at h <;>
    first | exact absurd h.1 (by decide) | skip
  case increment amount amount' =>
    obtain ⟨heq, h⟩ := readable_i64 ha hb h.2
    exact ⟨congrArg _ heq, h⟩
  all_goals exact ⟨rfl, h.2⟩

theorem eventByte_injective : Function.Injective eventByte := by
  intro a b
  cases a <;> cases b <;> decide

theorem readable_assignment : Readable writeAssignment (fun a => a.generator.Sized) Eq := by
  have h := (readable_generator.comap Assignment.generator).append
    ((Readable.of_injective eventByte_injective).comap Assignment.event)
  refine h.mono (fun _ ha => ⟨ha, trivial⟩) ?_
  rintro ⟨generator, event⟩ ⟨generator', event'⟩ ⟨rfl, rfl⟩
  rfl

theorem readable_column : Readable writeColumn Sized Eq := by
  have hcl : Readable (fun _ : InjectCollation => ([] : Bytes)) (fun _ => True) Eq :=
    .of_length 0 (fun _ => rfl) fun a b _ _ _ => by cases a; cases b; rfl
  have h := (readable_str.comap name).append ((readable_str.comap ty).append
    ((readable_boolByte.comap nullable).append
    (((readable_option readable_str).comap default).append
    (((readable_option readable_assignment).comap assign).append
    ((readable_option hcl).comap collation)))))
  refine h.mono (fun _ hc => ⟨hc.name, hc.ty, trivial, hc.default, hc.assign, fun _ _ => trivial⟩) ?_
  rintro ⟨_, _, _, _, _, _⟩ ⟨_, _, _, _, _, _⟩ ⟨rfl, rfl, rfl, rfl, rfl, rfl⟩
  rfl

theorem readable_index : Readable writeIndex InjectIndex.Sized Eq := by
  have h := (readable_str.comap InjectIndex.name).append (readable_strVec.comap InjectIndex.columns)
  refine h.mono (fun _ hi => ⟨hi.name, hi.columns⟩) ?_
  rintro ⟨_, _⟩ ⟨_, _⟩ ⟨rfl, rfl⟩
  rfl

theorem authorPkByte_injective : Function.Injective authorPkByte := by
  intro a b
  cases a <;> cases b <;> decide

theorem readable_writeInject : Readable writeInject Sized Eq := by
  have h := ((readable_vec_eq readable_column).comap columns).append
    (((readable_vec_eq readable_index).comap indexes).append
    (((readable_option readable_strVec).comap primaryKey).append
    (((Readable.of_injective authorPkByte_injective).comap authorPrimaryKey).append
    (readable_boolByte.comap mandatory))))
  refine h.mono (fun _ hs => ⟨hs.columns, hs.indexes, hs.primaryKey, trivial, trivial⟩) ?_
  rintro ⟨_, _, _, _, _⟩ ⟨_, _, _, _, _⟩ ⟨rfl, rfl, rfl, rfl, rfl⟩
  rfl

theorem readable_predicate : Readable writePredicate ValidatePredicate.Sized ValidatePredicate.Alike := by
  have hg := readable_vec_eq readable_seg
  intro a b s t ha hb h
  cases a <;> cases b <;> simp only [writePredicate, List.cons_append, List.cons.injEq, List.append_assoc] at h <;>
    try exact absurd h.1 (by decide)
  case hasPrimaryKey => exact ⟨rfl, h.2⟩
  case columnNamePattern require forbid require' forbid' =>
    obtain ⟨hr, h⟩ := hg ha.1 hb.1 h.2
    obtain ⟨hf, h⟩ := hg ha.2 hb.2 h
    exact ⟨by rw [hr, hf]; rfl, h⟩
  case forbiddenColumns names names' =>
    obtain ⟨hn, h⟩ := readable_strVec ha hb h.2
    exact ⟨congrArg _ hn, h⟩
  case typeNullability column ty nullable column' ty' nullable' =>
    obtain ⟨hcl, h⟩ := readable_str ha.1 hb.1 h.2
    obtain ⟨ht, h⟩ := readable_option readable_str ha.2 hb.2 h
    obtain ⟨hnl, h⟩ := readable_option readable_boolByte (fun _ _ => trivial) (fun _ _ => trivial) h
    exact ⟨by rw [hcl, ht, hnl]; rfl, h⟩
  case requireIndex columns columns' =>
    obtain ⟨hc, h⟩ := readable_strVec ha hb h.2
    exact ⟨congrArg _ hc, h⟩
  case tableNameForbidden patterns patterns' => exact readable_patterns ha hb h.2

theorem readable_grant : Readable writeGrant SizedGrant fun g g' => g.1 = g'.1 ∧ g.2.Alike g'.2 := by
  have h := (readable_str.comap fun g : KnobKey × GrantRule => g.1.text).append
    ((readable_scope.comap fun g => g.2.scope).append (readable_value.comap fun g => g.2.value))
  refine h.mono (fun _ hg => ⟨hg.key, hg.scope, hg.value⟩) fun g g' hg => ⟨?_, hg.2.1, hg.2.2⟩
  exact congrArg KnobKey.mk hg.1

theorem readable_require : Readable writeRule (fun r => r.Sized ∧ r.kind.isRequire) Rule.Alike := by
  rintro ⟨scope, kind⟩ ⟨scope', kind'⟩ s t ⟨ha, hk⟩ ⟨hb, hk'⟩ h
  cases kind <;> cases hk
  cases kind' <;> cases hk'
  simp only [writeRule, writeKeyed, List.append_assoc] at h
  obtain ⟨hky, h⟩ := readable_str ha.kind.1 hb.kind.1 h
  obtain ⟨hs, h⟩ := readable_scope ha.scope hb.scope h
  obtain ⟨hv, h⟩ := readable_value ha.kind.2 hb.kind.2 h
  exact ⟨⟨hs, congrArg KnobKey.mk hky, hv⟩, h⟩

theorem readable_inject : Readable writeRule (fun r => r.Sized ∧ r.kind.isInject) Rule.Alike := by
  rintro ⟨scope, kind⟩ ⟨scope', kind'⟩ s t ⟨ha, hk⟩ ⟨hb, hk'⟩ h
  cases kind <;> cases hk
  cases kind' <;> cases hk'
  simp only [writeRule, List.append_assoc] at h
  obtain ⟨hs, h⟩ := readable_scope ha.scope hb.scope h
  obtain ⟨hsp, h⟩ := readable_writeInject ha.kind hb.kind h
  exact ⟨⟨hs, hsp⟩, h⟩

theorem readable_validate : Readable writeRule (fun r => r.Sized ∧ r.kind.isValidate) Rule.Alike := by
  rintro ⟨scope, kind⟩ ⟨scope', kind'⟩ s t ⟨ha, hk⟩ ⟨hb, hk'⟩ h
  cases kind <;> cases hk
  cases kind' <;> cases hk'
  simp only [writeRule, List.append_assoc] at h
  obtain ⟨hs, h⟩ := readable_scope ha.scope hb.scope h
  obtain ⟨hp, h⟩ := readable_predicate ha.kind hb.kind h
  exact ⟨⟨hs, hp⟩, h⟩

theorem SizedVec.rulesOf {rules : List Rule} (h : SizedVec Rule.Sized rules) (kinds : RuleKind → Bool) :
    SizedVec (fun r => r.Sized ∧ kinds r.kind) (rulesOf rules kinds) := by
  refine ⟨(List.length_filter_le _ _).trans_lt h.1, fun r hr => ?_⟩
  obtain ⟨hm, hk⟩ := List.mem_filter.mp hr
  exact ⟨h.2 r hm, hk⟩

theorem sealByte_injective : Function.Injective LayerTag.sealByte := by
  intro a b
  cases a <;> cases b <;> decide

theorem readable_layer : Readable writeLayer SealLayer.Sized SealLayer.Alike := by
  have ht := ((Readable.of_injective sealByte_injective).comap SealLayer.tag).cons 0x0e
  have hg := ((readable_vec readable_grant).comap SealLayer.grants).cons 0x10
  have hr := ((readable_vec readable_require).comap
    fun l : SealLayer => rulesOf l.requires RuleKind.isRequire).cons 0x11
  have hi := ((readable_vec readable_inject).comap
    fun l : SealLayer => rulesOf l.injects RuleKind.isInject).cons 0x12
  have hv := ((readable_vec readable_validate).comap
    fun l : SealLayer => rulesOf l.validates RuleKind.isValidate).cons 0x13
  refine (ht.append (hg.append (hr.append (hi.append hv)))).mono (fun l hl => ?_) ?_
  · exact ⟨trivial, hl.grants, hl.requires.rulesOf _, hl.injects.rulesOf _, hl.validates.rulesOf _⟩
  · rintro l l' ⟨ht, hg, hr, hi, hv⟩
    exact ⟨ht, hg, hr, hi, hv⟩

theorem readable_canonicalRuleSet :
    Readable canonicalRuleSet EffectivePolicy.Sized fun p q => p.sealLayers.Forall₂ SealLayer.Alike q.sealLayers :=
  ((readable_vec readable_layer).comap EffectivePolicy.sealLayers).cons 0x0f

theorem readable_prefixed {α : Type} {write : α → Bytes} {ok : α → Prop} {same : α → α → Prop}
    (h : Readable write ok same) : Readable (fun a => writeBytes (write a)) ok same := by
  have hl : Readable (fun a => bigEndian 4 (write a).length) ok fun _ _ => True :=
    .of_length 4 (fun _ => Base.length_bigEndian 4 _) fun _ _ _ _ _ => trivial
  exact (hl.append h).mono (fun _ ha => ⟨ha, ha⟩) fun _ _ hab => hab.2

end Zeroship.Policy
