import Mathlib

/-! The resource tree of a manifest.

A resource is declared under a key: `*`, a URL path whose segments may be patterns, or `rpc:`
and an id. What a deploy accepts is checked here. Keys and paths are lists of characters. -/
namespace Zeroship.Bundle

abbrev Text := List Char

instance : LawfulBEq Text := inferInstance

inductive RequiredPrincipal where
  | anonymous | user
deriving DecidableEq

inductive RateLimitPer where
  | ip | user | session | app
deriving DecidableEq

structure RateLimit where
  (rpm rps : Option Nat)
  per : RateLimitPer := .ip
deriving DecidableEq

inductive HttpMethod where
  | get | post | put | patch | delete | head | options | any
deriving DecidableEq

structure Cors where
  allowOrigins : List String
  allowMethods : List HttpMethod := []
  allowHeaders : List String := []
  exposeHeaders : List String := []
  allowCredentials : Bool := false
  maxAgeSeconds : Option Nat := none
deriving DecidableEq

structure CacheCtl where
  maxAge : Nat
  swrWindow : Option Nat
  immutable : Bool
deriving DecidableEq

inductive ProcedureKind where
  | query | mutation | action | stream | subscription
deriving DecidableEq

structure RedirectAction where
  target : String
  status : Nat := 302
deriving DecidableEq

structure ResourceEntry where
  redirect : Option RedirectAction := none
  rewrite : Option String := none
  static : Option (List String) := none
  auth : Option RequiredPrincipal := none
  rateLimit : Option RateLimit := none
  cors : Option Cors := none
  cache : Option CacheCtl := none
  csrfOrigins : Option (List String) := none
  idempotent : Option Bool := none
  idempotencyTtlHours : Option Nat := none
  maxInputBytes : Option Nat := none
  middleware : List String := []
  publiclyAccessible : Option Bool := none
  requiredScopes : List String := []
  override : List String := []
  kind : Option ProcedureKind := none
  inputSchema : Option String := none
  outputSchema : Option String := none
deriving DecidableEq

structure Manifest where
  resources : List (Text × ResourceEntry)
  schemas : List String := []
  scopes : List String := []

variable (key : Text) (m : Manifest)

def Manifest.keys : List Text := m.resources.map Prod.fst

/-- `trim_start_matches('/')` and `split('/')`. -/
def segments (path : Text) : List Text := (path.dropWhile (· = '/')).splitOn '/'

def root : Text := ['*']

/-- The id of an RPC key. -/
def rpcId? : Option Text := ("rpc:".toList).isPrefixOf? key

def isCatchAll (seg : Text) : Bool := "[...".toList.isPrefixOf seg && seg.getLast? = some ']'

def isValidResourceKey : Bool :=
  key = root || match rpcId? key with
    | some id => id ≠ [] && id.all fun c => c.isAlphanum || c ∈ ['.', '_', '*', '-']
    | none => key.head? = some '/'

def catchAllIsNotLast : Bool :=
  key.head? = some '/' && (segments key).dropLast.any isCatchAll

/-- The keys that a key inherits from, declared or not: the beginnings of its segments. -/
def ancestors : List Text :=
  match rpcId? key with
  | some id =>
    let segs := id.splitOn '.'
    (List.range' 1 (segs.length - 1)).map fun n => "rpc:".toList ++ ((segs.take n).flatMap ('.' :: ·)).tail
  | none =>
    let segs := segments key
    if key.head? = some '/' then (List.range' 1 (segs.length - 1)).map fun n => (segs.take n).flatMap ('/' :: ·)
    else []

/-- `build_inheritance_chain`, from the root to the key. -/
def Manifest.inheritanceChain (key : Text) : List Text :=
  if key = root then [root]
  else (root :: ancestors key).filter (· ∈ m.keys) ++ [key]

variable (s : String)

def isSchemaRef : Bool := match ("sha256:".toList).isPrefixOf? s.toList with
  | some hex => hex.length = 64 && hex.all fun c => c.isDigit || ('a' ≤ c && c ≤ 'f')
  | none => false

/-- `ScopeDef::validate_id_format`. -/
def validScopeId (id : String) : Bool := (id.toList.splitOn ':').all fun
  | [] => false
  | c :: cs => c.isLower && cs.all fun c => c.isLower || c.isDigit || c = '_'

def isReservedIdentityScope : Bool := s ∈ ["openid", "profile", "email", "offline_access"]

/-- Names of fields the child declares that an ancestor also declares. -/
def shadowedFields (child ancestor : ResourceEntry) : List String :=
  [("auth", child.auth.isSome && ancestor.auth.isSome),
    ("rate_limit", child.rateLimit.isSome && ancestor.rateLimit.isSome),
    ("cors", child.cors.isSome && ancestor.cors.isSome),
    ("cache", child.cache.isSome && ancestor.cache.isSome),
    ("csrf_origins", child.csrfOrigins.isSome && ancestor.csrfOrigins.isSome),
    ("idempotent", child.idempotent.isSome && ancestor.idempotent.isSome),
    ("idempotency_ttl_hours", child.idempotencyTtlHours.isSome && ancestor.idempotencyTtlHours.isSome),
    ("max_input_bytes", child.maxInputBytes.isSome && ancestor.maxInputBytes.isSome),
    ("publicly_accessible", child.publiclyAccessible.isSome && ancestor.publiclyAccessible.isSome)].filterMap fun f =>
      if f.2 then some f.1 else none

/-- Credentialed CORS cannot use the wildcard origin. -/
def Cors.wellFormed (cors : Cors) : Bool := !(cors.allowCredentials && cors.allowOrigins.any (· = "*"))

/-- The checks of one entry. -/
def Manifest.entryChecks (key : Text) (entry : ResourceEntry) : List Bool := [
  isValidResourceKey key,
  !catchAllIsNotLast key,
  entry.cors.all Cors.wellFormed,
  !(entry.redirect.isSome && entry.static.isSome),
  entry.rewrite.isNone,
  !(entry.auth = some .anonymous && entry.publiclyAccessible ≠ some true),
  entry.redirect.all fun r => 300 ≤ r.status && r.status < 400,
  entry.idempotencyTtlHours.all fun h => 1 ≤ h && h ≤ 168,
  entry.inputSchema.all fun s => isSchemaRef s && s ∈ m.schemas,
  entry.outputSchema.all fun s => isSchemaRef s && s ∈ m.schemas,
  entry.requiredScopes.all fun s => validScopeId s && (s ∈ m.scopes || isReservedIdentityScope s)]

/-- A field that an ancestor declares too is listed as overridden. -/
def Manifest.validateOverrides (key : Text) (entry : ResourceEntry) : Bool :=
  let chain := m.inheritanceChain key
  chain.length ≤ 16 && chain.dropLast.all fun ancestor =>
    (m.resources.lookup ancestor).all fun a => (shadowedFields entry a).all (· ∈ entry.override)

def Manifest.validateResources : Bool :=
  m.resources.all (fun e => (m.entryChecks e.1 e.2).all id) && m.resources.all fun e => m.validateOverrides e.1 e.2

end Zeroship.Bundle
