import Zeroship.Policy.Compose

/-! The trust boundary: a draft of a creator meets a finalized charter.

Each rule of the draft that raises a grant is proved within the charter by arithmetic on
scopes, never by looking at a name. -/
namespace Zeroship.Policy

/-- One pass: what has no difference is deferred. -/
def subtractPass (r : Scope) : List Scope → Scope × List Scope
  | [] => (r, [])
  | s :: rest =>
    match r.difference s with
    | .scope next => subtractPass next rest
    | .notRepresentable =>
      let (last, deferred) := subtractPass r rest
      (last, s :: deferred)

/-- Passes until nothing is left, nothing is deferred or a pass made no progress. Each
pass that does make progress shortens what is deferred, which bounds their number. -/
def subtractLoop : Nat → Scope → List Scope → Scope × List Scope
  | 0, r, deferred => (r, deferred)
  | passes + 1, r, deferred =>
    if deferred = [] ∨ r = .nothing then (r, deferred)
    else
      let (next, still) := subtractPass r deferred
      if still.length = deferred.length then (next, still) else subtractLoop passes next still

/-- The region without each of the scopes, unless it has no form. -/
def subtractEach (region : Scope) (subtrahends : List Scope) : Option Scope :=
  let (r, deferred) := subtractLoop subtrahends.length region subtrahends
  if deferred ≠ [] ∧ r ≠ .nothing then none else some r

/-- The scopes whose values are at least as loose as the value, and the others. -/
def splitRules (kind : KnobKind) (value : KnobValue) : List GrantRule → Except ComposeError (List Scope × List Scope)
  | [] => .ok ([], [])
  | r :: rest => do
    let leq ← ofValueOrder (leqValue kind value r.value)
    let (satisfying, fallingShort) ← splitRules kind value rest
    pure (if leq then (r.scope :: satisfying, fallingShort) else (satisfying, r.scope :: fallingShort))

variable (key : KnobKey)

/-- Nothing of the region may be outside the scopes. -/
def checkNoneLeft (region : Scope) (subtrahends : List Scope) : Except ComposeError Unit :=
  match subtractEach region subtrahends with
  | none => .error (.uncoveredRegionNotRepresentable key)
  | some .nothing => .ok ()
  | some left => .error (.grantExceedsCharter key left)

/-- Where a rule of the layer falls short, a layer above decides or a rule beside it lifts. -/
def checkFallingShort (scope : Scope) (exempt : List Scope) (short : Scope) : Except ComposeError Unit :=
  let suspect := scope.meet short
  if suspect = .nothing then .ok () else checkNoneLeft key suspect exempt

/-- The layers from the top, with the scopes already decided. -/
def walkLayers (key : KnobKey) (d : KnobDef) (scope : Scope) (value : KnobValue) :
    List Layer → List Scope → Except ComposeError Unit
  | [], _ => .ok ()
  | l :: rest, decided =>
    match l.grants.get key with
    | none => walkLayers key d scope value rest decided
    | some km => do
      let (satisfying, fallingShort) ← splitRules d.kind value km.rules
      forM fallingShort (checkFallingShort key scope (decided ++ satisfying))
      walkLayers key d scope value rest (decided ++ km.rules.map GrantRule.scope)

/-- The scopes of the rules above their default. -/
def nondefaultScopes (kind : KnobKind) (default : KnobValue) : List GrantRule → Except ComposeError (List Scope)
  | [] => .ok []
  | r :: rest => do
    let leq ← ofValueOrder (leqValue kind r.value default)
    let scopes ← nondefaultScopes kind default rest
    pure (if leq then scopes else r.scope :: scopes)

def layeredNondefaultGrantRules (layers : List Layer) (key : KnobKey) : Except ComposeError (List Scope) := do
  let scopes ← (mapsOf layers key).mapM fun km => nondefaultScopes km.kind km.default km.rules
  pure scopes.flatten

def proveRuleWithinCharter (d : KnobDef) (scope : Scope) (value : KnobValue) (layers : List Layer) :
    Except ComposeError Unit := do
  walkLayers key d scope value layers []
  let raising ← layeredNondefaultGrantRules layers key
  checkNoneLeft key scope raising

/-- A rule at or below the default raises nothing. -/
def checkGrantRule (d : KnobDef) (layers : List Layer) (r : GrantRule) : Except ComposeError Unit := do
  if ← ofValueOrder (leqValue d.kind r.value d.default) then pure ()
  else proveRuleWithinCharter key d r.scope r.value layers

def checkGrantKey (draft : GrantModel) (layers : List Layer) (registry : PolicyRegistry) (key : KnobKey) :
    Except ComposeError Unit :=
  match draft.get key with
  | none => .ok ()
  | some dk => do
    let d ← lookup registry key
    forM dk.rules (checkGrantRule key d layers)

/-- The rules of one kind among the injects and validates, the outermost layer first. -/
def flattenCharter (layers : List Layer) (pred : RuleKind → Bool) : List Rule :=
  (layers.reverse.flatMap fun l => l.injects ++ l.validates).filter fun r => pred r.kind

/-- The collision of two injects, if their scopes meet. -/
def injectsCollide (l r : Rule) : Option InjectConflict :=
  match l.kind, r.kind with
  | .inject ls, .inject rs => if l.scope.meet r.scope = .nothing then none else injectSpecsCollide ls rs
  | _, _ => none

def checkInjectCollisions (charterInjects draftInjects : List Rule) : Except ComposeError Unit :=
  match charterInjects.findSome? fun l => draftInjects.findSome? (injectsCollide l) with
  | some detail => .error (.draftInjectCollidesCharter detail)
  | none => .ok ()

def checkValidateVsInject (charterInjects draftValidates : List Rule) : Except ComposeError Unit :=
  match firstContradiction charterInjects draftValidates with
  | some column => .error (.draftValidateContradictsCharterInject column)
  | none => .ok ()

/-- A knob that is not inherited is pinned. -/
def pinUninherited (layer : Layer) (d : KnobDef) : Layer :=
  if d.inherit then layer else layer.pinKeyToDefault d.key d.kind d.default

/-- The draft over the layers of the charter, if it escalates nowhere. -/
def admitDraft {χ : Type} [AdmitCharter χ] (charter : χ) (draft : PolicyDoc) (registry : PolicyRegistry) :
    Except ComposeError EffectivePolicy := do
  let layers ← charterLayers charter registry
  let draftGrants ← GrantModel.build draft.rules registry
  forM draftGrants.keys.keys (checkGrantKey draftGrants layers registry)
  let charterInjects := flattenCharter layers RuleKind.isInject
  checkInjectCollisions charterInjects (rulesOf draft.rules RuleKind.isInject)
  checkValidateVsInject charterInjects (rulesOf draft.rules RuleKind.isValidate)
  let draftLayer ← Layer.fromDoc .draft draft registry
  pure (.fromLayers registry (registry.iter.foldl pinUninherited draftLayer :: layers))

end Zeroship.Policy
