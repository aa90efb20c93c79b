import Zeroship.Policy.Rule

/-! Layers of grants and the policy they compose to.

For each key a layer holds scoped values. The value at a name is the loosest of the
values whose scope has the name, and the default of the knob if there is none. A policy
is a stack of layers, the innermost first: for each key and name the first layer with a
covering rule decides. -/
namespace Zeroship.Policy

/-- What the composer could not interpret. -/
inductive Mismatch
  | unknownKnob (key : KnobKey)
  | value (error : ValueOrderError)
deriving DecidableEq

/-- What a creatable scope escaped. -/
inductive CreatableEscape
  | inject (scope : Scope)
  | unrepresentable
deriving DecidableEq

inductive ComposeError
  | grantExceedsCharter (key : KnobKey) (offending : Scope)
  | uncoveredRegionNotRepresentable (key : KnobKey)
  | draftInjectCollidesCharter (detail : InjectConflict)
  | draftValidateContradictsCharterInject (column : String)
  | creatableEscapesMandatoryInject (escaped : CreatableEscape)
  | charterInjectCollision (detail : InjectConflict)
  | registryOrValueMismatch (detail : Mismatch)
deriving DecidableEq

/-- An error of the value order is a mismatch. -/
def ofValueOrder {α : Type} : Except ValueOrderError α → Except ComposeError α
  | .ok a => .ok a
  | .error e => .error (.registryOrValueMismatch (.value e))

@[simp] theorem ofValueOrder_ok {α : Type} {x : Except ValueOrderError α} {a : α} :
    ofValueOrder x = .ok a ↔ x = .ok a := by
  cases x <;> simp [ofValueOrder]

def lookup (registry : PolicyRegistry) (key : KnobKey) : Except ComposeError KnobDef :=
  match registry.get key with
  | some d => .ok d
  | none => .error (.registryOrValueMismatch (.unknownKnob key))

@[simp] theorem lookup_ok {registry : PolicyRegistry} {key : KnobKey} {d : KnobDef} :
    lookup registry key = .ok d ↔ registry.get key = some d := by
  unfold lookup
  cases registry.get key <;> simp

structure GrantRule where
  scope : Scope
  value : KnobValue

/-- The rules of one key, with the kind and the default of its knob. -/
structure GrantKeyMap where
  kind : KnobKind
  default : KnobValue
  rules : List GrantRule

namespace GrantKeyMap

variable (kind : KnobKind) (o : ObjectName)

/-- The join of one more rule, if it covers the name. -/
def joinCovering (acc : KnobValue) (r : GrantRule) : Except ComposeError KnobValue :=
  if r.scope.objectsMembership o then ofValueOrder (joinValue kind acc r.value) else .ok acc

variable (km : GrantKeyMap)

/-- The loosest covering value. -/
def valueAt (o : ObjectName) : Except ComposeError KnobValue :=
  km.rules.foldlM (joinCovering km.kind o) km.default

/-- The join of one more scope, unless its value is at or below the default. -/
def joinGranted (default : KnobValue) (acc : Scope) (r : GrantRule) : Except ComposeError Scope := do
  if ← ofValueOrder (leqValue kind r.value default) then pure acc else pure (acc.join r.scope)

def grantedScope : Except ComposeError Scope :=
  km.rules.foldlM (joinGranted km.kind km.default) .nothing

def coveredScope : Scope := km.rules.foldl (fun acc r => acc.join r.scope) .nothing

def covers (o : ObjectName) : Bool := km.rules.any fun r => r.scope.objectsMembership o

end GrantKeyMap

/-- The grants of a layer, by key. -/
structure GrantModel where
  keys : Std.TreeMap KnobKey GrantKeyMap

namespace GrantModel

def empty : GrantModel := ⟨∅⟩

variable (m : GrantModel) (key : KnobKey)

def get : Option GrantKeyMap := m.keys[key]?

/-- One more rule for the key, under the kind and default that its first rule came with. -/
def push (kind : KnobKind) (default : KnobValue) (r : GrantRule) : GrantModel :=
  ⟨m.keys.alter key fun entry =>
    let km := entry.getD ⟨kind, default, []⟩
    some { km with rules := km.rules ++ [r] }⟩

def addRule (registry : PolicyRegistry) (m : GrantModel) (rule : Rule) : Except ComposeError GrantModel :=
  match rule.kind with
  | .grant key value => do
    let d ← lookup registry key
    pure (m.push key d.kind d.default ⟨rule.scope, value⟩)
  | _ => pure m

def build (rules : List Rule) (registry : PolicyRegistry) : Except ComposeError GrantModel :=
  rules.foldlM (addRule registry) empty

/-- The keys of both, in order and each once. -/
def keyUnion (other : GrantModel) : List KnobKey := Base.orderedSet (m.keys.keys ++ other.keys.keys)

end GrantModel

inductive LayerTag
  | base | env | draft
deriving DecidableEq

structure Layer where
  tag : LayerTag
  grants : GrantModel
  (requires injects validates : List Rule)

namespace Layer

def fromDoc (tag : LayerTag) (doc : PolicyDoc) (registry : PolicyRegistry) : Except ComposeError Layer := do
  let grants ← GrantModel.build doc.rules registry
  pure {
    tag, grants
    requires := rulesOf doc.rules RuleKind.isRequire
    injects := rulesOf doc.rules RuleKind.isInject
    validates := rulesOf doc.rules RuleKind.isValidate }

/-- Where the layer is silent on the key, it decides for the default. -/
def pinKeyToDefault (layer : Layer) (key : KnobKey) (kind : KnobKind) (default : KnobValue) : Layer :=
  { layer with grants := layer.grants.push key kind default ⟨.all, default⟩ }

end Layer

variable (layers : List Layer) (key : KnobKey)

/-- The grants of the first layer that covers the name. -/
def decidingMap (o : ObjectName) : Option GrantKeyMap :=
  layers.findSome? fun l => (l.grants.get key).filter fun km => km.covers o

/-- How much of the universe a key is granted over. -/
inductive GrantRegion
  | ungranted | top | scoped

inductive Exactness
  | exact | widened

/-- The granted region of the layers so far, and what they cover. -/
structure RegionEstimate where
  region : Scope
  exactness : Exactness
  maskedAbove : Scope

namespace RegionEstimate

def empty : RegionEstimate := ⟨.nothing, .exact, .nothing⟩

/-- The grant of a layer shows through where no layer above covers. -/
def addMap (e : RegionEstimate) (km : GrantKeyMap) : Except ComposeError RegionEstimate := do
  let granted ← km.grantedScope
  let maskedAbove := e.maskedAbove.join km.coveredScope
  match granted.difference e.maskedAbove with
  | .scope visible => pure ⟨e.region.join visible, e.exactness, maskedAbove⟩
  | .notRepresentable => pure ⟨e.region.join granted, .widened, maskedAbove⟩

end RegionEstimate

/-- The maps of a key, the innermost layer first. -/
def mapsOf : List GrantKeyMap := layers.filterMap fun l => l.grants.get key

structure EffectivePolicy where
  registry : PolicyRegistry
  /-- The innermost first. -/
  layers : List Layer

namespace EffectivePolicy

variable (registry : PolicyRegistry)

/-- The floor: every key at its default, and nothing else. -/
def denyAll : EffectivePolicy := ⟨registry, []⟩

def fromLayers (layers : List Layer) : EffectivePolicy := ⟨registry, layers⟩

variable (p : EffectivePolicy) (key : KnobKey) (o : ObjectName)

/-- The value of the key at the name, if the key is known. -/
def grants : Option KnobValue :=
  match decidingMap p.layers key o with
  | some km => (km.valueAt o).toOption
  | none => (p.registry.get key).map KnobDef.default

def effectiveGrantedScope : Except ComposeError (Scope × Exactness) := do
  let e ← (mapsOf p.layers key).foldlM RegionEstimate.addMap .empty
  pure (e.region, e.exactness)

def grantRegion : GrantRegion :=
  match p.effectiveGrantedScope key with
  | .ok (.all, .exact) => .top
  | .ok (.all, .widened) => .scoped
  | .ok (.nothing, _) => .ungranted
  | .ok (.of _ _, _) => .scoped
  | .error _ => .ungranted

/-- What is required at the name, by any layer. -/
def obligations : List (KnobKey × KnobValue) :=
  ((p.layers.flatMap Layer.requires).filter fun r => r.scope.objectsMembership o).filterMap fun r =>
    match r.kind with
    | .require key value => some (key, value)
    | _ => none

/-- The shapes injected at the name, the outermost layer first. -/
def injectsFor : List InjectSpec :=
  ((p.layers.reverse.flatMap Layer.injects).filter fun r => r.scope.objectsMembership o).filterMap fun r =>
    match r.kind with
    | .inject spec => some spec
    | _ => none

/-- The predicates at the name, the outermost layer first. -/
def validatesFor : List ValidatePredicate :=
  ((p.layers.reverse.flatMap Layer.validates).filter fun r => r.scope.objectsMembership o).filterMap fun r =>
    match r.kind with
    | .validate pred => some pred
    | _ => none

end EffectivePolicy

end Zeroship.Policy
