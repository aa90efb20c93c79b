import Zeroship.Policy.Seal

/-! The scopes that the loader gives to rules.

A knob of schemas cannot be set for single tables, so a rule on one whose own scope names tables
is refused. The default scope of the document is met with the rule's own and not looked at:
`schemaGranular_iff` says when a rule is left with part of a schema. -/
namespace Zeroship.Policy
open List
open Base (bind_ok pure_ok mem_of_mapM exists_of_mapM)

/-- The section that a rule comes from. -/
inductive RuleClass
  | grant | require
deriving DecidableEq

inductive ScopeError
  | scopeIllegalForGlobalKnob (key : KnobKey)
  | scopeTooGranularForKnob (key : KnobKey)
  | grantScopeUnbounded (key : KnobKey)

def patternIsTableGranular (p : Pattern) : Bool := !p.table.isStar

def scopeHasTableGranularPattern : Scope → Bool
  | .of includes excludes => (includes ++ excludes).any patternIsTableGranular
  | _ => false

def effectiveMeet : Option Scope → Option Scope → Scope
  | none, none => .all
  | some s, none => s
  | none, some d => d
  | some s, some d => d.meet s

/-- A global knob takes `All` alone and is exempt from the default scope. -/
def resolveRuleScope (authored : Option Scope) (model : ObjectModel) (defaultScope : Option Scope) (cls : RuleClass)
    (key : KnobKey) : Except ScopeError Scope :=
  if model = .global then
    if authored = some .all then .ok .all else .error (.scopeIllegalForGlobalKnob key)
  else if model = .perSchema ∧ authored.any scopeHasTableGranularPattern then .error (.scopeTooGranularForKnob key)
  else if cls = .grant ∧ authored = none ∧ defaultScope = none then .error (.grantScopeUnbounded key)
  else .ok (effectiveMeet authored defaultScope)

structure WireRule where
  cls : RuleClass
  key : KnobKey
  value : KnobValue
  scope : Option Scope

structure WireDoc where
  defaultScope : Option Scope
  rules : List WireRule

def WireRule.kind (w : WireRule) : RuleKind :=
  match w.cls with
  | .grant => .grant w.key w.value
  | .require => .require w.key w.value

def WireDoc.resolve (model : KnobKey → ObjectModel) (doc : WireDoc) : Except ScopeError (List Rule) :=
  doc.rules.mapM fun w => do
    let scope ← resolveRuleScope w.scope (model w.key) doc.defaultScope w.cls w.key
    pure ⟨scope, w.kind⟩

/-- A document and the bases that it extends: their rules come first, each resolved in its own document. -/
def resolveWithCatalog (model : KnobKey → ObjectModel) : List WireDoc → Except ScopeError (List Rule)
  | [] => .ok []
  | doc :: bases => do
    let own ← doc.resolve model
    let base ← resolveWithCatalog model bases
    pure (base ++ own)

/-- A table is in the scope exactly if its schema is. -/
def Scope.SchemaGranular (s : Scope) : Prop :=
  ∀ schema table, s.objectsMembership ⟨schema, some table⟩ = s.objectsMembership ⟨schema, none⟩

/-- A rule on a knob of schemas. -/
def Rule.OnSchemas (model : KnobKey → ObjectModel) (r : Rule) : Prop :=
  ∃ key value, (r.kind = .grant key value ∨ r.kind = .require key value) ∧ model key = .perSchema

/-- In the schemas of the rule's own scope the default scope does not tell tables apart. -/
def WireRule.Undivided (defaultScope : Option Scope) (w : WireRule) : Prop :=
  ∀ d ∈ defaultScope, ∀ schema table, (∀ s ∈ w.scope, s.objectsMembership ⟨schema, none⟩) →
    d.objectsMembership ⟨schema, some table⟩ = d.objectsMembership ⟨schema, none⟩

section
variable {model : KnobKey → ObjectModel} {doc : WireDoc} {w : WireRule} {s : Scope}

theorem Pattern.matches_of_schema {p : Pattern} (hp : patternIsTableGranular p = false) (schema table : Bytes) :
    p.matches ⟨schema, some table⟩ = p.matches ⟨schema, none⟩ := by
  have hs : p.table = .star := by simpa [patternIsTableGranular, SegGlob.isStar] using hp
  simp [Pattern.matches, hs, SegGlob.star, SegGlob.isStar, SegGlob.matches]

theorem schemaGranular_of_gate (h : scopeHasTableGranularPattern s = false) : s.SchemaGranular := by
  intro schema table
  cases s with
  | nothing | all => rfl
  | of includes excludes =>
    have hs {p : Pattern} (hp : p ∈ includes ++ excludes) :=
      p.matches_of_schema (by simpa using any_eq_false.mp h p hp) schema table
    rw [Bool.eq_iff_iff, mem_of, mem_of]
    refine and_congr (exists_congr fun p => and_congr_right fun hp => ?_) (forall₂_congr fun p hp => not_congr ?_)
    · rw [hs (mem_append_left _ hp)]
    · rw [hs (mem_append_right _ hp)]

theorem granular_resolved {d : Option Scope} (h : resolveRuleScope w.scope .perSchema d w.cls w.key = .ok s) :
    s.SchemaGranular ↔ w.Undivided d := by
  rw [resolveRuleScope, if_neg (by decide)] at h
  split at h
  · cases h
  rename_i hg
  split at h
  · cases h
  cases h
  have ho : ∀ own ∈ w.scope, own.SchemaGranular := fun own hm =>
    schemaGranular_of_gate (by simpa [Option.mem_def.mp hm] using hg)
  cases hs : w.scope with
  | none => cases d <;> simp [effectiveMeet, WireRule.Undivided, Scope.SchemaGranular, hs]
  | some own =>
    have ho := ho own hs
    cases d with
    | none => simp [effectiveMeet, WireRule.Undivided, ho]
    | some d =>
      simp only [effectiveMeet, WireRule.Undivided, Scope.SchemaGranular, mem_meet, hs, Option.mem_def,
        Option.some.injEq, forall_eq']
      refine forall₂_congr fun schema table => ?_
      rw [ho schema table]
      cases own.objectsMembership ⟨schema, none⟩ <;> simp

theorem onSchemas_kind {scope : Scope} : Rule.OnSchemas model ⟨scope, w.kind⟩ ↔ model w.key = .perSchema := by
  cases hc : w.cls <;> simp [Rule.OnSchemas, WireRule.kind, hc]

theorem resolve_granular {rules : List Rule} (h : doc.resolve model = .ok rules) :
    (∀ r ∈ rules, r.OnSchemas model → r.scope.SchemaGranular) ↔
      ∀ w ∈ doc.rules, model w.key = .perSchema → w.Undivided doc.defaultScope := by
  constructor
  · intro ha w hw hm
    obtain ⟨r, hr, ho⟩ := exists_of_mapM h hw
    obtain ⟨scope, hs, hp⟩ := bind_ok.mp ho
    obtain rfl := pure_ok.mp hp
    exact (granular_resolved (hm ▸ hs)).mp (ha _ hr (onSchemas_kind.mpr hm))
  · intro ha r hr hon
    obtain ⟨w, hw, ho⟩ := mem_of_mapM h hr
    obtain ⟨scope, hs, hp⟩ := bind_ok.mp ho
    obtain rfl := pure_ok.mp hp
    have hm := onSchemas_kind.mp hon
    exact (granular_resolved (hm ▸ hs)).mpr (ha w hw hm)

end

/-- The rules on knobs of schemas keep to whole schemas exactly if no default scope divides one of theirs. -/
theorem schemaGranular_iff (model : KnobKey → ObjectModel) {docs : List WireDoc} {rules : List Rule}
    (h : resolveWithCatalog model docs = .ok rules) : (∀ r ∈ rules, r.OnSchemas model → r.scope.SchemaGranular) ↔
      ∀ doc ∈ docs, ∀ w ∈ doc.rules, model w.key = .perSchema → w.Undivided doc.defaultScope := by
  induction docs generalizing rules with
  | nil =>
    cases h
    simp
  | cons doc bases ih =>
    obtain ⟨own, ho, h⟩ := bind_ok.mp h
    obtain ⟨base, hb, h⟩ := bind_ok.mp h
    obtain rfl := pure_ok.mp h
    rw [forall_mem_append, forall_mem_cons, ih hb, resolve_granular ho, and_comm]

def createTable (defaultScope : Pattern) : WireDoc :=
  ⟨some (.of [defaultScope] []), [⟨.grant, ⟨"schema.create_table"⟩, .bool true, none⟩]⟩

/-- The grant is on the table `a.u` and not on its schema. -/
theorem default_divides_schema :
    ∃ rules, resolveWithCatalog (fun _ => .perSchema) [createTable ⟨.literal [97], .literal [117]⟩] = .ok rules ∧
      ∃ r ∈ rules, r.OnSchemas (fun _ => .perSchema) ∧ ¬ r.scope.SchemaGranular := by
  refine ⟨_, rfl, _, mem_singleton_self _, ⟨_, _, .inl rfl, rfl⟩, fun h => ?_⟩
  exact absurd (h [97] [117]) (by decide)

/-- The same grant with a default scope of the whole schema. -/
theorem default_keeps_schema : (Scope.of [.ofSchema (.literal [97])] []).SchemaGranular := by
  have ha := (@schemaGranular_iff (fun _ => .perSchema) [createTable (.ofSchema (.literal [97]))] _ rfl).mpr
  refine ha (fun doc hdc w hw _ d hd => ?_) _ (mem_singleton_self _) ⟨_, _, .inl rfl, rfl⟩
  obtain rfl := mem_singleton.mp hdc
  cases hd
  exact fun schema table _ => schemaGranular_of_gate (by decide) schema table

end Zeroship.Policy
