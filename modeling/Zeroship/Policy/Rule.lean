import Zeroship.Policy.Knob
import Zeroship.Policy.Scope

/-! The registry, scoped rules and the conflicts between injected shapes. -/
namespace Zeroship.Policy

/-- The knob definitions, each under its own key. -/
structure PolicyRegistry where
  defs : Std.TreeMap KnobKey KnobDef
  keyed : ∀ (k : KnobKey) (d : KnobDef), defs[k]? = some d → d.key = k

inductive RegistryError
  | duplicateKey (key : KnobKey)

namespace PolicyRegistry

def empty : PolicyRegistry := ⟨∅, by simp⟩

variable (r : PolicyRegistry)

def get (key : KnobKey) : Option KnobDef := r.defs[key]?

/-- The definitions in the order of their keys. -/
def iter : List KnobDef := r.defs.toList.map Prod.snd

def insert (r : PolicyRegistry) (d : KnobDef) : PolicyRegistry where
  defs := r.defs.insert d.key d
  keyed k d' h := by
    rw [Std.TreeMap.getElem?_insert] at h
    split at h
    · rename_i heq
      cases h
      exact Std.LawfulEqCmp.eq_of_compare heq
    · exact r.keyed k d' h

/-- Add definitions, one for each key. -/
def withDefs (r : PolicyRegistry) : List KnobDef → Except RegistryError PolicyRegistry
  | [] => .ok r
  | d :: rest => if (r.get d.key).isSome then .error (.duplicateKey d.key) else (r.insert d).withDefs rest

theorem mem_iter {r : PolicyRegistry} {d : KnobDef} : d ∈ r.iter ↔ r.get d.key = some d := by
  constructor
  · intro h
    obtain ⟨⟨k, d⟩, hm, rfl⟩ := List.mem_map.mp h
    have hg := Std.TreeMap.mem_toList_iff_getElem?_eq_some.mp hm
    have hk := r.keyed k d hg
    subst hk
    exact hg
  · intro h
    exact List.mem_map.mpr ⟨(d.key, d), Std.TreeMap.mem_toList_iff_getElem?_eq_some.mpr h, rfl⟩

end PolicyRegistry

inductive AssignmentEvent
  | insert | write | delete
deriving DecidableEq

inductive AssignmentGenerator
  | now | typedId | actor
  | increment (amount : Int)
  | identity
deriving DecidableEq

/-- A column value the platform computes: by which generator, on which write. -/
structure Assignment where
  generator : AssignmentGenerator
  event : AssignmentEvent
deriving DecidableEq

inductive InjectCollation
  | bytewise
deriving DecidableEq

structure InjectColumn where
  (name ty : String)
  nullable : Bool
  default : Option String
  assign : Option Assignment
  collation : Option InjectCollation

structure InjectIndex where
  name : String
  columns : List String

inductive AuthorPkPolicy
  | allow | forbid
deriving DecidableEq

/-- What is added to every table created in the scope. -/
structure InjectSpec where
  columns : List InjectColumn
  indexes : List InjectIndex
  primaryKey : Option (List String)
  authorPrimaryKey : AuthorPkPolicy
  mandatory : Bool

inductive ValidatePredicate
  | hasPrimaryKey
  | columnNamePattern (require forbid : List SegGlob)
  | forbiddenColumns (names : List String)
  | typeNullability (column : String) (ty : Option String) (nullable : Option Bool)
  | requireIndex (columns : List String)
  | tableNameForbidden (patterns : List Pattern)

inductive RuleKind
  | grant (key : KnobKey) (value : KnobValue)
  | require (key : KnobKey) (value : KnobValue)
  | inject (spec : InjectSpec)
  | validate (pred : ValidatePredicate)

namespace RuleKind

def isRequire : RuleKind → Bool
  | require _ _ => true
  | _ => false

def isInject : RuleKind → Bool
  | inject _ => true
  | _ => false

def isValidate : RuleKind → Bool
  | validate _ => true
  | _ => false

end RuleKind

structure Rule where
  scope : Scope
  kind : RuleKind

/-- A loaded document. -/
structure PolicyDoc where
  rules : List Rule

/-- The rules of one kind, in document order. -/
def rulesOf (rules : List Rule) (pred : RuleKind → Bool) : List Rule := rules.filter fun r => pred r.kind

/-- What two injects disagree on. -/
inductive InjectConflict
  | column (name : String)
  | index (name : String)
  | primaryKey (a b : List String)
  | authorPrimaryKey
deriving DecidableEq

/-- Do two columns of one name differ in storage or in policy? -/
def injectColumnsDiverge (a b : InjectColumn) : Bool :=
  a.ty ≠ b.ty || a.nullable ≠ b.nullable || a.default ≠ b.default || a.collation ≠ b.collation ||
    a.assign ≠ b.assign

def injectColumnConflict (a b : InjectSpec) : Option InjectConflict :=
  a.columns.findSome? fun ca => b.columns.findSome? fun cb =>
    if namesMatch ca.name cb.name && injectColumnsDiverge ca cb then some (.column ca.name) else none

def injectPkConflict (a b : InjectSpec) : Option InjectConflict :=
  match a.primaryKey, b.primaryKey with
  | some pa, some pb =>
    if pa ≠ pb then some (.primaryKey pa pb)
    else if a.authorPrimaryKey ≠ b.authorPrimaryKey then some .authorPrimaryKey
    else none
  | _, _ => none

def injectIndexConflict (a b : InjectSpec) : Option InjectConflict :=
  a.indexes.findSome? fun ia => b.indexes.findSome? fun ib =>
    if namesMatch ia.name ib.name && ia.columns ≠ ib.columns then some (.index ia.name) else none

/-- The collision a draft is blamed for: columns first, then indexes, then the key. -/
def injectSpecsCollide (a b : InjectSpec) : Option InjectConflict :=
  injectColumnConflict a b <|> injectIndexConflict a b <|> injectPkConflict a b

/-- The first injected column that is forbidden. -/
def forbiddenColumn (spec : InjectSpec) : ValidatePredicate → Option String
  | .forbiddenColumns names => spec.columns.findSome? fun c =>
    if names.any fun f => namesMatch c.name f then some c.name else none
  | _ => none

end Zeroship.Policy
