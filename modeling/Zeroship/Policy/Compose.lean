import Zeroship.Policy.Layer

/-! Trusted charters: how they are assembled and what they must pass.

`overlay` stacks one document over another, and `restrict` meets two into one layer.
Neither rejects a conflict. `finalizeCharter` does, and only what it lets through can
have drafts admitted over it. -/
namespace Zeroship.Policy

/-- A document of the operator. -/
structure TrustedDoc where
  doc : PolicyDoc

/-- The document at the root. -/
structure RootCharter where
  doc : TrustedDoc

/-- A stack of trusted layers that was not yet checked. -/
structure AssembledCharter where
  registry : PolicyRegistry
  layers : List Layer

/-- A stack of trusted layers that was. -/
structure Charter where
  registry : PolicyRegistry
  layers : List Layer

/-- What a draft may be admitted over. -/
class AdmitCharter (χ : Type) where
  /-- The layers under a registry, the innermost first. -/
  charterLayers : χ → PolicyRegistry → Except ComposeError (List Layer)

export AdmitCharter (charterLayers)

/-- A root charter is read again under the registry it is given. -/
instance : AdmitCharter RootCharter where
  charterLayers c registry := do
    let layer ← Layer.fromDoc .base c.doc.doc registry
    pure [layer]

instance : AdmitCharter Charter where
  charterLayers c _ := .ok c.layers

instance : AdmitCharter EffectivePolicy where
  charterLayers p _ := .ok p.layers

def createTableKey : KnobKey := ⟨"schema.create_table"⟩

/-- The scope with the grants of one more map. -/
def addGranted (creatable : Scope) (km : GrantKeyMap) : Except ComposeError Scope := do
  let granted ← km.grantedScope
  pure (creatable.join granted)

/-- Is the rule a mandatory inject? -/
def Rule.isMandatory (r : Rule) : Bool :=
  match r.kind with
  | .inject spec => spec.mandatory
  | _ => false

variable (assembled : AssembledCharter) (layers : List Layer)

/-- The mandatory inject that the creatable scope is not contained in. -/
def creatableEscapeScope : Option CreatableEscape :=
  match (mapsOf layers createTableKey).foldlM addGranted .nothing with
  | .error _ => some .unrepresentable
  | .ok .nothing => none
  | .ok creatable => (layers.flatMap Layer.injects).findSome? fun r =>
    if r.isMandatory && !creatable.subset r.scope then some (.inject r.scope) else none

/-- The conflict of two injects, if their scopes meet. -/
def injectsConflict (a b : Rule) : Option InjectConflict :=
  match a.kind, b.kind with
  | .inject sa, .inject sb =>
    if a.scope.meet b.scope = .nothing then none
    else injectColumnConflict sa sb <|> injectPkConflict sa sb <|> injectIndexConflict sa sb
  | _, _ => none

/-- The first conflict of an inject with a later one. -/
def firstConflict : List Rule → Option InjectConflict
  | [] => none
  | a :: rest => rest.findSome? (injectsConflict a) <|> firstConflict rest

def sameLayerInjectConflict : Option InjectConflict :=
  layers.findSome? fun l => firstConflict l.injects

/-- The injected column that the predicate forbids, if the scopes meet. -/
def injectContradicted (inj val : Rule) : Option String :=
  match inj.kind, val.kind with
  | .inject spec, .validate pred =>
    if inj.scope.meet val.scope = .nothing then none else forbiddenColumn spec pred
  | _, _ => none

def firstContradiction (injects validates : List Rule) : Option String :=
  injects.findSome? fun inj => validates.findSome? (injectContradicted inj)

namespace EffectivePolicy

def checkCreatableEscape (p : EffectivePolicy) : Except ComposeError Unit :=
  match creatableEscapeScope p.layers with
  | none => .ok ()
  | some escaped => .error (.creatableEscapesMandatoryInject escaped)

def checkSameLayerInjectConflicts (p : EffectivePolicy) : Except ComposeError Unit :=
  match sameLayerInjectConflict p.layers with
  | none => .ok ()
  | some detail => .error (.charterInjectCollision detail)

end EffectivePolicy

inductive FinalizeError
  | charterInjectColumnConflict (detail : InjectConflict)
  | charterPrimaryKeyConflict (detail : InjectConflict)
  | charterIndexNameConflict (detail : InjectConflict)
  | charterInjectValidateContradiction (column : String)
  | creatableEscapesMandatoryInject (escaped : CreatableEscape)

/-- The error that a conflict is reported as. -/
def InjectConflict.toFinalizeError (c : InjectConflict) : FinalizeError :=
  match c with
  | .column _ => .charterInjectColumnConflict c
  | .index _ => .charterIndexNameConflict c
  | .primaryKey _ _ => .charterPrimaryKeyConflict c
  | .authorPrimaryKey => .charterPrimaryKeyConflict c

def checkCharterCreatableLint : Except FinalizeError Unit :=
  match creatableEscapeScope assembled.layers with
  | none => .ok ()
  | some escaped => .error (.creatableEscapesMandatoryInject escaped)

/-- The conflicts are looked for across all layers. -/
def finalizeCharter : Except FinalizeError Charter := do
  let injects := assembled.layers.flatMap Layer.injects
  let validates := assembled.layers.flatMap Layer.validates
  match firstConflict injects with
  | some detail => .error detail.toFinalizeError
  | none =>
    match firstContradiction injects validates with
    | some column => .error (.charterInjectValidateContradiction column)
    | none => do
      checkCharterCreatableLint assembled
      pure ⟨assembled.registry, assembled.layers⟩

/-- The second document decides where it covers, and the first elsewhere. -/
def overlay (base env : TrustedDoc) (registry : PolicyRegistry) : Except ComposeError AssembledCharter := do
  let baseLayer ← Layer.fromDoc .base base.doc registry
  let envLayer ← Layer.fromDoc .env env.doc registry
  pure ⟨registry, [envLayer, baseLayer]⟩

/-- The rule where two rules meet, if they do. -/
def clampRule (kind : KnobKind) (outer inner : GrantRule) : Except ComposeError (Option GrantRule) :=
  let scope := outer.scope.meet inner.scope
  if scope = .nothing then .ok none
  else do
    let value ← ofValueOrder (meetValue kind outer.value inner.value)
    pure (some ⟨scope, value⟩)

/-- A key that only one side grants is granted by neither. -/
def clampGrantKey (key : KnobKey) (outer inner : GrantModel) (registry : PolicyRegistry) :
    Except ComposeError GrantKeyMap := do
  let d ← lookup registry key
  match outer.get key, inner.get key with
  | some om, some im => do
    let rules ← (om.rules.product im.rules).mapM fun pair => clampRule d.kind pair.1 pair.2
    pure ⟨d.kind, d.default, rules.reduceOption⟩
  | _, _ => pure ⟨d.kind, d.default, []⟩

/-- The clamped grants with one more key, if any rule is left. -/
def addClamped (outer inner : GrantModel) (registry : PolicyRegistry) (m : GrantModel) (key : KnobKey) :
    Except ComposeError GrantModel := do
  let km ← clampGrantKey key outer inner registry
  pure (if km.rules = [] then m else ⟨m.keys.insert key km⟩)

/-- The meet of two documents, as one layer. -/
def restrict (outer inner : TrustedDoc) (registry : PolicyRegistry) : Except ComposeError AssembledCharter := do
  let og ← GrantModel.build outer.doc.rules registry
  let ig ← GrantModel.build inner.doc.rules registry
  let grants ← (og.keyUnion ig).foldlM (addClamped og ig registry) .empty
  let both (pred : RuleKind → Bool) := rulesOf outer.doc.rules pred ++ rulesOf inner.doc.rules pred
  pure ⟨registry, [{
    tag := .base, grants
    requires := both RuleKind.isRequire
    injects := both RuleKind.isInject
    validates := both RuleKind.isValidate }]⟩

end Zeroship.Policy
