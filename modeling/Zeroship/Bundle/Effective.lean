import Zeroship.Base.Lists
import Zeroship.Bundle.Manifest

/-! The policy that a resource inherits.

Every field of the entries on the way from the root to a key is merged by a rule of its own:
the strictest requirement of a user, the union of the scopes, the least of a limit, the
intersection of a list of origins. Origins are intersected as texts, so a parent that allows
every origin by `*` and a child that lists some have none in common. -/
namespace Zeroship.Bundle
open List Cors

/-! ### Merging -/

/-- Absent is unbounded. -/
def pickMin : Option Nat → Option Nat → Option Nat
  | some x, some y => some (min x y)
  | some x, none => some x
  | none, y => y

def mergeRateLimitMin (prev : Option RateLimit) (next : RateLimit) : RateLimit := match prev with
  | none => next
  | some p => ⟨pickMin p.rpm next.rpm, pickMin p.rps next.rps, next.per⟩

def mergeStringIntersect (prev : Option (List String)) (next : List String) : List String := match prev with
  | none => next
  | some p => p.filter (· ∈ next)

def mergeCorsIntersect (prev : Option Cors) (next : Cors) : Cors := match prev with
  | none => next
  | some p => {
    allowOrigins := p.allowOrigins.filter (· ∈ next.allowOrigins)
    allowMethods := p.allowMethods.filter (· ∈ next.allowMethods)
    allowHeaders := p.allowHeaders.filter (· ∈ next.allowHeaders)
    exposeHeaders := p.exposeHeaders.filter (· ∈ next.exposeHeaders)
    allowCredentials := p.allowCredentials && next.allowCredentials
    maxAgeSeconds := pickMin p.maxAgeSeconds next.maxAgeSeconds }

inductive ResolvedAction where
  | workerRpc | workerSsr
  | redirect (target : String) (status : Nat)
  | rewrite (target : String)
  | static (tryChain : List String)

structure EffectivePolicy where
  auth : RequiredPrincipal := .anonymous
  rateLimit : Option RateLimit := none
  cors : Option Cors := none
  cache : Option CacheCtl := none
  csrfOrigins : Option (List String) := none
  idempotent : Bool := false
  idempotencyTtlHours : Option Nat := none
  maxInputBytes : Option Nat := none
  middleware : List String := []
  publiclyAccessible : Bool := false
  requiredScopes : List String := []
  kind : Option ProcedureKind := none
  inputSchema : Option String := none
  outputSchema : Option String := none
  action : ResolvedAction := .workerSsr

/-- The child weakens `auth` only by naming it in its own `override` list. -/
def ResourceEntry.overridesAuth (node : ResourceEntry) : Bool := node.auth.isSome && "auth" ∈ node.override

def mergeAuth (auth : RequiredPrincipal) (isSelf : Bool) (node : ResourceEntry) : RequiredPrincipal := match node.auth with
  | none => auth
  | some a => if isSelf && "auth" ∈ node.override then a else if a = .user then .user else auth

/-- A node of the chain, and whether it is the key itself. -/
def EffectivePolicy.mergeNode (p : EffectivePolicy) (isSelf : Bool) (node : ResourceEntry) : EffectivePolicy where
  auth := mergeAuth p.auth isSelf node
  rateLimit := (node.rateLimit.map (mergeRateLimitMin p.rateLimit)).or p.rateLimit
  cors := (node.cors.map (mergeCorsIntersect p.cors)).or p.cors
  cache := node.cache.or p.cache
  csrfOrigins := (node.csrfOrigins.map (mergeStringIntersect p.csrfOrigins)).or p.csrfOrigins
  idempotent := node.idempotent.getD p.idempotent
  idempotencyTtlHours := node.idempotencyTtlHours.or p.idempotencyTtlHours
  maxInputBytes := pickMin p.maxInputBytes node.maxInputBytes
  middleware := p.middleware ++ node.middleware
  publiclyAccessible := node.publiclyAccessible.getD p.publiclyAccessible
  requiredScopes := node.requiredScopes.foldl (fun scopes s => if s ∈ scopes then scopes else scopes ++ [s]) p.requiredScopes
  kind := if isSelf then node.kind else p.kind
  inputSchema := if isSelf then node.inputSchema else p.inputSchema
  outputSchema := if isSelf then node.outputSchema else p.outputSchema
  action := p.action

variable (cors : Cors) (origin : String) (m : Manifest) (key : Text)

def Manifest.resolveAction : ResolvedAction := match m.resources.lookup key with
  | none => .workerSsr
  | some entry => match entry.redirect, entry.rewrite, entry.static with
    | some r, _, _ => .redirect r.target r.status
    | none, some target, _ => .rewrite target
    | none, none, some tryChain => .static tryChain
    | none, none, none => if (rpcId? key).isSome then .workerRpc else .workerSsr

/-- The declared nodes of the chain, and whether they are the key itself. -/
def Manifest.chainNodes : List (Bool × ResourceEntry) :=
  (m.inheritanceChain key).filterMap fun k => (m.resources.lookup k).map fun node => (decide (k = key), node)

def Manifest.resolveEffectivePolicy : EffectivePolicy :=
  let nodes := m.chainNodes key
  let merged := nodes.foldl (fun (p : EffectivePolicy) node => p.mergeNode node.1 node.2) {}
  let undeclared := nodes.all fun node => node.2.auth.isNone
  {merged with
    auth := if undeclared && (rpcId? key).isSome then .user else merged.auth
    action := m.resolveAction key}

structure CorsHeaders where
  allowOrigin : Option String := none
  varyOrigin : Bool := false
  allowMethods : List HttpMethod := []
  allowHeaders : List String := []
  exposeHeaders : List String := []
  allowCredentials : Bool := false
  maxAge : Option Nat := none

def Cors.wildcardOk : Bool := "*" ∈ cors.allowOrigins && !cors.allowCredentials

def Cors.exactMatch : Bool := origin ∈ cors.allowOrigins

/-- The headers that a preflight and a response share. -/
def Cors.originHeaders : CorsHeaders where
  allowOrigin := if cors.wildcardOk then some "*" else if cors.exactMatch origin then some origin else none
  varyOrigin := !cors.wildcardOk && cors.exactMatch origin
  allowCredentials := cors.allowCredentials && cors.exactMatch origin

def Cors.buildPreflightResponse : CorsHeaders :=
  let granted := cors.wildcardOk || cors.exactMatch origin
  {cors.originHeaders origin with
    allowMethods := if granted then cors.allowMethods else []
    allowHeaders := if granted then cors.allowHeaders else []
    maxAge := if granted then cors.maxAgeSeconds else none}

def Cors.injectResponseHeaders : CorsHeaders :=
  if cors.wildcardOk || cors.exactMatch origin then
    {cors.originHeaders origin with exposeHeaders := cors.exposeHeaders}
  else {}

/-- The browser may read the response. -/
def Cors.grants : Prop := (cors.buildPreflightResponse origin).allowOrigin ≠ none

/-- The browser may send credentials. -/
def Cors.grantsCredentials : Prop :=
  (cors.buildPreflightResponse origin).allowOrigin ≠ none ∧ (cors.buildPreflightResponse origin).allowCredentials

/-- A response names an origin exactly where its preflight does. -/
theorem Cors.injectResponseHeaders_allowOrigin :
    (cors.injectResponseHeaders origin).allowOrigin = (cors.buildPreflightResponse origin).allowOrigin := by
  unfold injectResponseHeaders buildPreflightResponse originHeaders
  cases hw : cors.wildcardOk <;> cases he : cors.exactMatch origin <;> simp

/-! ### What merging keeps -/

section
variable {α β : Type} {merge : Option β → β → β} {l : List β}

/-- Values merged from the left, none if there are none. -/
def mergeAll (merge : Option β → β → β) (l : List β) : Option β := l.foldl (fun acc b => some (merge acc b)) none

theorem foldl_or (merge : Option β → β → β) (f : α → Option β) (l : List α) (acc : Option β) :
    l.foldl (fun acc a => ((f a).map (merge acc)).or acc) acc =
      (l.filterMap f).foldl (fun acc b => some (merge acc b)) acc := by
  induction l generalizing acc with
  | nil => rfl
  | cons a l ih =>
    rw [foldl_cons, ih, filterMap_cons]
    cases f a <;> rfl

theorem mergeAll_eq_none : mergeAll merge l = none ↔ l = [] := by
  have hs (l : List β) (b : β) : l.foldl (fun acc b => some (merge acc b)) (some b) ≠ none := by
    induction l generalizing b with
    | nil => simp
    | cons c l ih => exact ih _
  cases l with
  | nil => simp [mergeAll]
  | cons b l => simpa [mergeAll] using hs l (merge none b)

/-- A property that a merged value has when both sides have it. -/
theorem mergeAll_iff {P : β → Prop} (hn : ∀ b, merge none b = b)
    (hs : ∀ a b, P (merge (some a) b) ↔ P a ∧ P b) {r : β} (h : mergeAll merge l = some r) : P r ↔ ∀ b ∈ l, P b := by
  have hf (l : List β) (a : β) (h : l.foldl (fun acc b => some (merge acc b)) (some a) = some r) :
      P r ↔ P a ∧ ∀ b ∈ l, P b := by
    induction l generalizing a with
    | nil => simp [Option.some.inj h]
    | cons b l ih => rw [ih _ h, hs, forall_mem_cons, and_assoc]
  cases l with
  | nil => cases h
  | cons b l => rw [forall_mem_cons, hf l b (by rw [← hn b]; exact h)]

theorem foldl_pickMin (f : α → Option Nat) (l : List α) (acc : Option Nat) :
    l.foldl (fun acc a => pickMin acc (f a)) acc = (acc.toList ++ l.filterMap f).min? := by
  induction l generalizing acc with
  | nil => cases acc <;> rfl
  | cons a l ih =>
    rw [foldl_cons, ih, filterMap_cons]
    cases acc <;> cases f a <;> simp [pickMin, min?_cons]
    cases (l.filterMap f).min? <;> simp [min_assoc]

end

section
variable (nodes : List (Bool × ResourceEntry)) (p : EffectivePolicy) {s : String}

def mergeNodes : EffectivePolicy := nodes.foldl (fun p node => p.mergeNode node.1 node.2) p

theorem mergeNodes_cors : (mergeNodes nodes {}).cors = mergeAll mergeCorsIntersect (nodes.filterMap (·.2.cors)) := by
  rw [mergeAll, ← foldl_or]
  exact (foldl_hom EffectivePolicy.cors fun _ _ => rfl).symm

theorem mergeNodes_csrfOrigins :
    (mergeNodes nodes {}).csrfOrigins = mergeAll mergeStringIntersect (nodes.filterMap (·.2.csrfOrigins)) := by
  rw [mergeAll, ← foldl_or]
  exact (foldl_hom EffectivePolicy.csrfOrigins fun _ _ => rfl).symm

theorem mergeNodes_maxInputBytes : (mergeNodes nodes {}).maxInputBytes = (nodes.filterMap (·.2.maxInputBytes)).min? :=
  (foldl_hom EffectivePolicy.maxInputBytes fun _ _ => rfl).symm.trans (foldl_pickMin (·.2.maxInputBytes) nodes none)

theorem mergeNodes_rateLimit {limit : RateLimit → Option Nat}
    (hl : ∀ prev next, limit (mergeRateLimitMin (some prev) next) = pickMin (limit prev) (limit next)) :
    (mergeNodes nodes {}).rateLimit.bind limit = (nodes.filterMap (·.2.rateLimit.bind limit)).min? := by
  refine (foldl_hom (fun p : EffectivePolicy => p.rateLimit.bind limit) fun p node => ?_).symm.trans
    (foldl_pickMin (·.2.rateLimit.bind limit) nodes none)
  show _ = ((node.2.rateLimit.map (mergeRateLimitMin p.rateLimit)).or p.rateLimit).bind limit
  cases node.2.rateLimit with
  | none =>
    simp only [Option.bind_none, Option.map_none, Option.none_or]
    cases p.rateLimit.bind limit <;> rfl
  | some next =>
    cases p.rateLimit with
    | none => rfl
    | some prev => exact (hl prev next).symm

theorem mem_foldl_scopes (scopes : List String) : ∀ acc : List String,
    s ∈ scopes.foldl (fun acc s => if s ∈ acc then acc else acc ++ [s]) acc ↔ s ∈ acc ∨ s ∈ scopes := by
  induction scopes with
  | nil => simp
  | cons t scopes ih =>
    intro acc
    rw [foldl_cons, ih, mem_cons]
    split <;> grind

theorem mem_requiredScopes :
    s ∈ (mergeNodes nodes p).requiredScopes ↔ s ∈ p.requiredScopes ∨ ∃ node ∈ nodes, s ∈ node.2.requiredScopes := by
  induction nodes generalizing p with
  | nil => simp [mergeNodes]
  | cons node nodes ih =>
    refine (ih _).trans ?_
    show s ∈ node.2.requiredScopes.foldl _ p.requiredScopes ∨ _ ↔ _
    rw [mem_foldl_scopes, or_assoc, exists_mem_cons_iff]

theorem mergeNodes_auth (h : ∀ node ∈ nodes, node.1 = false) :
    (mergeNodes nodes p).auth = .user ↔ p.auth = .user ∨ ∃ node ∈ nodes, node.2.auth = some .user := by
  induction nodes generalizing p with
  | nil => simp [mergeNodes]
  | cons node nodes ih =>
    obtain ⟨hnd, hn⟩ := forall_mem_cons.mp h
    refine (ih _ hn).trans ?_
    show mergeAuth p.auth node.1 node.2 = .user ∨ _ ↔ _
    rw [exists_mem_cons_iff, ← or_assoc, hnd, mergeAuth]
    cases ha : node.2.auth with
    | none => simp
    | some a => cases a <;> simp

end

/-- The joined beginnings of a text's parts are shorter, and not empty. -/
theorem length_beginning {sep : Char} {text : Text} {n : Nat} (h : n ∈ List.range' 1 ((text.splitOn sep).length - 1)) :
    0 < (((text.splitOn sep).take n).flatMap (sep :: ·)).length ∧
      (((text.splitOn sep).take n).flatMap (sep :: ·)).length ≤ text.length := by
  obtain ⟨hp, hlt⟩ : 1 ≤ n ∧ n < (text.splitOn sep).length := by
    rw [mem_range'_1] at h
    omega
  have hs : (((text.splitOn sep).take n).flatMap (sep :: ·)).length < _ := Base.length_flatMap_take hlt
  rw [Base.flatMap_splitOn] at hs
  refine ⟨?_, Nat.lt_succ_iff.mp hs⟩
  obtain ⟨part, parts, heq⟩ := exists_cons_of_ne_nil
    (ne_nil_of_length_pos (by rw [length_take]; omega) : (text.splitOn sep).take n ≠ [])
  simp [heq]

theorem not_mem_ancestors (key : Text) : key ∉ ancestors key := by
  unfold ancestors
  split
  · next id hid =>
    obtain rfl := isPrefixOf?_eq_some_iff_append_eq.mp hid
    intro hm
    obtain ⟨n, hn, heq⟩ := mem_map.mp hm
    obtain ⟨hp, hle⟩ := length_beginning hn
    have hl := congrArg length (append_cancel_left heq)
    rw [length_tail] at hl
    omega
  · split
    · next hs =>
      intro hm
      obtain ⟨n, hn, heq⟩ := mem_map.mp hm
      obtain ⟨rest, rfl⟩ : ∃ rest, key = '/' :: rest := by
        cases key with
        | nil => cases hs
        | cons c rest => exact ⟨rest, by rw [Option.some.inj hs]⟩
      have hle : (((segments ('/' :: rest)).take n).flatMap ('/' :: ·)).length ≤ (rest.dropWhile (· = '/')).length :=
        (length_beginning hn).2
      rw [heq, length_cons] at hle
      exact absurd (hle.trans (rest.length_dropWhile_le _)) (Nat.not_succ_le_self _)
    · simp

theorem chainNodes_eq {m : Manifest} {key : Text} {entry : ResourceEntry} (h : m.resources.lookup key = some entry) :
    ∃ before, m.chainNodes key = before ++ [(true, entry)] ∧ ∀ node ∈ before, node.1 = false := by
  unfold Manifest.chainNodes Manifest.inheritanceChain
  split
  · next hr => exact ⟨[], by simp [← hr, h], by simp⟩
  next hr =>
  refine ⟨_, by rw [filterMap_append]; simp [h]; rfl, fun node hn => ?_⟩
  obtain ⟨k, hk, hn⟩ := mem_filterMap.mp hn
  obtain ⟨_, -, rfl⟩ := Option.map_eq_some_iff.mp hn
  refine decide_eq_false ?_
  rintro rfl
  rcases mem_cons.mp (mem_of_mem_filter hk) with heq | ha
  · exact hr heq
  · exact not_mem_ancestors k ha

theorem wellFormed_of_mem {m : Manifest} (hv : m.validateResources) {key : Text} {node : Bool × ResourceEntry}
    (hn : node ∈ m.chainNodes key) {cors : Cors} (hcr : node.2.cors = some cors) :
    ¬ (cors.allowCredentials ∧ "*" ∈ cors.allowOrigins) := by
  obtain ⟨k, -, hn⟩ := mem_filterMap.mp hn
  obtain ⟨entry, he, rfl⟩ := Option.map_eq_some_iff.mp hn
  obtain ⟨l₁, l₂, heq, -⟩ := lookup_eq_some_iff.mp he
  have hm : (k, entry) ∈ m.resources := by simp [heq]
  have hc := all_eq_true.mp (all_eq_true.mp (Bool.and_eq_true_iff.mp hv).1 _ hm)
    (entry.cors.all wellFormed) (by simp [Manifest.entryChecks])
  rw [show entry.cors = some cors from hcr] at hc
  rintro ⟨hcrd, hw⟩
  simp [wellFormed, hcrd] at hc
  exact hc _ hw rfl

/-! ### The meet of the chain -/

/-- The CORS rules that the chain declares. -/
def Manifest.chainCors : List Cors := (m.chainNodes key).filterMap (·.2.cors)

/-- The effective policy of a key is the meet of the entries on its chain. -/
structure IsMeet (m : Manifest) (key : Text) (entry : ResourceEntry) (p : EffectivePolicy) : Prop where
  auth : p.auth = .user ↔
    entry.overridesAuth ∧ entry.auth = some .user ∨
    ¬ entry.overridesAuth ∧ (∃ node ∈ m.chainNodes key, node.2.auth = some .user) ∨
    (rpcId? key).isSome ∧ ∀ node ∈ m.chainNodes key, node.2.auth = none
  requiredScopes : ∀ s, s ∈ p.requiredScopes ↔ ∃ node ∈ m.chainNodes key, s ∈ node.2.requiredScopes
  maxInputBytes : p.maxInputBytes = ((m.chainNodes key).filterMap (·.2.maxInputBytes)).min?
  rpm : p.rateLimit.bind (·.rpm) = ((m.chainNodes key).filterMap (·.2.rateLimit.bind (·.rpm))).min?
  rps : p.rateLimit.bind (·.rps) = ((m.chainNodes key).filterMap (·.2.rateLimit.bind (·.rps))).min?
  csrfOrigins : match p.csrfOrigins with
    | none => ∀ node ∈ m.chainNodes key, node.2.csrfOrigins = none
    | some origins => ∀ o, o ∈ origins ↔ ∀ l ∈ (m.chainNodes key).filterMap (·.2.csrfOrigins), o ∈ l
  cors : match p.cors with
    | none => m.chainCors key = []
    | some cors => ∀ origin, (cors.grants origin ↔ ∀ c ∈ m.chainCors key, c.grants origin) ∧
      (cors.grantsCredentials origin ↔ ∀ c ∈ m.chainCors key, c.grantsCredentials origin)

/-- Where every rule of the chain lets an origin in, they all do so by name or all by the wildcard. -/
def Manifest.Unmixed : Prop := ∀ origin, (∀ c ∈ m.chainCors key, c.grants origin) →
  (∀ c ∈ m.chainCors key, "*" ∈ c.allowOrigins) ∨ ∀ c ∈ m.chainCors key, origin ∈ c.allowOrigins

section
variable {cors : Cors} {origin : String}

theorem Cors.grants_iff : cors.grants origin ↔
    "*" ∈ cors.allowOrigins ∧ cors.allowCredentials = false ∨ origin ∈ cors.allowOrigins := by
  unfold grants buildPreflightResponse originHeaders wildcardOk exactMatch
  grind

theorem Cors.grantsCredentials_iff : cors.grantsCredentials origin ↔
    cors.allowCredentials ∧ origin ∈ cors.allowOrigins := by
  unfold grantsCredentials buildPreflightResponse originHeaders wildcardOk exactMatch
  grind

end

section
variable {m : Manifest} {key : Text} {entry : ResourceEntry}

theorem effective_auth (hen : m.resources.lookup key = some entry) : (m.resolveEffectivePolicy key).auth = .user ↔
      entry.overridesAuth ∧ entry.auth = some .user ∨
      ¬ entry.overridesAuth ∧ (∃ node ∈ m.chainNodes key, node.2.auth = some .user) ∨
      (rpcId? key).isSome ∧ ∀ node ∈ m.chainNodes key, node.2.auth = none := by
  obtain ⟨before, hn, hb⟩ := chainNodes_eq hen
  have he := mergeNodes_auth before {} hb
  have hm : (mergeNodes (m.chainNodes key) {}).auth = mergeAuth (mergeNodes before {}).auth true entry := by
    rw [hn, mergeNodes, foldl_append]
    rfl
  show (if _ then RequiredPrincipal.user else (mergeNodes (m.chainNodes key) {}).auth) = .user ↔ _
  rw [hm, hn, mergeAuth]
  cases ha : entry.auth with
  | none =>
    have hd : ((before ++ [(true, entry)]).all (·.2.auth.isNone) && (rpcId? key).isSome) ↔
        (rpcId? key).isSome ∧ ∀ node ∈ before ++ [(true, entry)], node.2.auth = none := by
      rw [Bool.and_eq_true_iff, and_comm, all_eq_true]
      simp only [Option.isNone_iff_eq_none]
    rw [if_congr hd rfl rfl]
    split
    · next h => exact iff_of_true rfl (.inr (.inr h))
    · next h =>
      simp only [h, or_false]
      simp [he, ResourceEntry.overridesAuth, ha]
  | some a =>
    by_cases ho : "auth" ∈ entry.override
    · simp [ResourceEntry.overridesAuth, ha, ho]
    · cases a <;> simp [ResourceEntry.overridesAuth, ha, ho, he]

theorem cors_meet_iff (hv : m.validateResources) : (match mergeAll mergeCorsIntersect (m.chainCors key) with
      | none => m.chainCors key = []
      | some cors => ∀ origin, (cors.grants origin ↔ ∀ c ∈ m.chainCors key, c.grants origin) ∧
        (cors.grantsCredentials origin ↔ ∀ c ∈ m.chainCors key, c.grantsCredentials origin)) ↔ m.Unmixed key := by
  cases hm : mergeAll mergeCorsIntersect (m.chainCors key) with
  | none =>
    have hn := mergeAll_eq_none.mp hm
    simp [Manifest.Unmixed, hn]
  | some cors =>
    have ho (origin : String) : origin ∈ cors.allowOrigins ↔ ∀ c ∈ m.chainCors key, origin ∈ c.allowOrigins :=
      mergeAll_iff (P := fun c => origin ∈ c.allowOrigins) (fun _ => rfl) (by simp [mergeCorsIntersect]) hm
    have hcrd : cors.allowCredentials ↔ ∀ c ∈ m.chainCors key, c.allowCredentials = true :=
      mergeAll_iff (P := fun c => c.allowCredentials) (fun _ => rfl) (by simp [mergeCorsIntersect]) hm
    have hs : ∀ c ∈ m.chainCors key, "*" ∈ c.allowOrigins → c.allowCredentials = false := by
      intro c hc hw
      obtain ⟨node, hnd, hcr⟩ := mem_filterMap.mp hc
      exact Bool.eq_false_iff.mpr fun h => wellFormed_of_mem hv hnd hcr ⟨h, hw⟩
    obtain ⟨first, hf⟩ : ∃ c, c ∈ m.chainCors key := by
      refine exists_mem_of_ne_nil _ fun hn => ?_
      rw [mergeAll_eq_none.mpr hn] at hm
      cases hm
    simp only [grants_iff, grantsCredentials_iff, ho, Manifest.Unmixed]
    refine ⟨fun h origin ha => ((h origin).1.mpr ha).imp_left (·.1), fun h origin => ⟨⟨?_, fun ha => ?_⟩, ?_⟩⟩
    · rintro (⟨hw, -⟩ | he) c hc
      · exact .inl ⟨hw c hc, hs c hc (hw c hc)⟩
      · exact .inr (he c hc)
    · refine (h origin ha).imp_left fun hw => ⟨hw, Bool.eq_false_iff.mpr fun hcred => ?_⟩
      have hfl := hs first hf (hw first hf)
      rw [hcrd.mp hcred first hf] at hfl
      cases hfl
    · rw [hcrd]
      exact forall₂_and.symm

/-- The effective policy is the meet of the chain exactly where the chain's rules for origins do not
mix the wildcard with names. -/
theorem effective_isMeet_iff (hvalid : m.validateResources) (hentry : m.resources.lookup key = some entry) :
    IsMeet m key entry (m.resolveEffectivePolicy key) ↔ m.Unmixed key := by
  have hc := mergeNodes_cors (m.chainNodes key)
  refine ⟨fun h => (cors_meet_iff hvalid).mp (hc ▸ h.cors), fun h => ?_⟩
  constructor
  · exact effective_auth hentry
  · intro s
    exact (mem_requiredScopes (m.chainNodes key) {}).trans (by simp)
  · exact mergeNodes_maxInputBytes _
  · exact mergeNodes_rateLimit _ fun _ _ => rfl
  · exact mergeNodes_rateLimit _ fun _ _ => rfl
  · show match (mergeNodes (m.chainNodes key) {}).csrfOrigins with | none => _ | some _ => _
    rw [mergeNodes_csrfOrigins]
    cases hm : mergeAll mergeStringIntersect ((m.chainNodes key).filterMap (·.2.csrfOrigins)) with
    | none => exact filterMap_eq_nil_iff.mp (mergeAll_eq_none.mp hm)
    | some origins =>
      exact fun o => mergeAll_iff (P := fun l => o ∈ l) (fun _ => rfl) (by simp [mergeStringIntersect]) hm
  · exact hc ▸ (cors_meet_iff hvalid).mpr h

end

def corsOf (origins : List String) : ResourceEntry := {cors := some ⟨origins, [], [], [], false, none⟩, override := ["cors"]}

/-- The root and a path below it allow origins. -/
def twoRules (parent child : List String) : Manifest := ⟨[(root, corsOf parent), ("/api".toList, corsOf child)], [], []⟩

theorem named_origins_isMeet : (twoRules ["https://a", "https://b"] ["https://a"]).validateResources ∧
    IsMeet (twoRules ["https://a", "https://b"] ["https://a"]) "/api".toList (corsOf ["https://a"])
      ((twoRules ["https://a", "https://b"] ["https://a"]).resolveEffectivePolicy "/api".toList) := by
  have hv : (twoRules ["https://a", "https://b"] ["https://a"]).validateResources := by decide +kernel
  have hch : (twoRules ["https://a", "https://b"] ["https://a"]).chainCors "/api".toList =
      [⟨["https://a", "https://b"], [], [], [], false, none⟩, ⟨["https://a"], [], [], [], false, none⟩] := by decide +kernel
  refine ⟨hv, (effective_isMeet_iff hv (by decide +kernel)).mpr fun origin ha => .inr fun c hc => ?_⟩
  refine (grants_iff.mp (ha c hc)).resolve_left fun hw => ?_
  rw [hch] at hc
  simp only [mem_cons, not_mem_nil, or_false] at hc
  rcases hc with rfl | rfl <;> exact absurd hw.1 (by decide +kernel)

/-- The parent allows every origin and the child one; the effective policy allows none. -/
theorem wildcard_parent_blocks : (twoRules ["*"] ["https://a"]).validateResources ∧
    (∀ c ∈ (twoRules ["*"] ["https://a"]).chainCors "/api".toList, c.grants "https://a") ∧
    ((twoRules ["*"] ["https://a"]).resolveEffectivePolicy "/api".toList).cors = some ⟨[], [], [], [], false, none⟩ ∧
    ¬ IsMeet (twoRules ["*"] ["https://a"]) "/api".toList (corsOf ["https://a"])
      ((twoRules ["*"] ["https://a"]).resolveEffectivePolicy "/api".toList) := by
  have hc : (twoRules ["*"] ["https://a"]).chainCors "/api".toList =
      [⟨["*"], [], [], [], false, none⟩, ⟨["https://a"], [], [], [], false, none⟩] := by decide +kernel
  have ha : ∀ c ∈ (twoRules ["*"] ["https://a"]).chainCors "/api".toList, c.grants "https://a" := by
    rw [hc]
    simp [grants_iff]
  have hcr : ((twoRules ["*"] ["https://a"]).resolveEffectivePolicy "/api".toList).cors =
      some ⟨[], [], [], [], false, none⟩ := by decide +kernel
  refine ⟨by decide +kernel, ha, hcr, fun h => ?_⟩
  have hm := h.cors
  rw [hcr] at hm
  exact absurd ((hm "https://a").1.mpr ha) (by simp [grants_iff])

end Zeroship.Bundle
