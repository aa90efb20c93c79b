import Zeroship.Policy.Restrict

/-! The direction check of `extends`.

A document that extends another one is merged with it to one layer, where a value below
that of the base has no effect. The check compares the values at one name of the region
that a rule shares with the base, so a rule may be looser than the base at that name and
tighter at another one. -/
namespace Zeroship.Policy

/-- Why a document is not loaded. -/
inductive LoadError
  | invalidKnobValue (key : String) (detail : ComposeError ⊕ ValueOrderError)
  | extendsGrantDominatedByBase (key : KnobKey) (baseValue ownValue : KnobValue)

section
-- how bytes are printed as text and read back
variable (lossy : Bytes → Bytes)

/-- The printed glob without its star, or `a` if that is empty. -/
def segWitness (g : SegGlob) : Bytes :=
  let rendered := if g.hasStar then lossy g.prefixBytes ++ [42] ++ lossy g.suffixBytes else lossy g.prefixBytes
  let w := rendered.filter (· ≠ 42)
  if w = [] then [97] else w

def patternWitness (p : Pattern) : ObjectName :=
  ⟨segWitness lossy p.schema, if p.table.isStar then none else some (segWitness lossy p.table)⟩

/-- The first name of a pattern that is in the scope, or a table next to it. -/
def witnessOf : Scope → Option ObjectName
  | .nothing => none
  | .all => some ⟨[97], none⟩
  | .of includes excludes => includes.findSome? fun p =>
    let cand := patternWitness lossy p
    let tcand : ObjectName := ⟨cand.schema, some [97]⟩
    if (Scope.of includes excludes).objectsMembership cand then some cand
    else if (Scope.of includes excludes).objectsMembership tcand then some tcand
    else none

/-- Is the value of the extending document at the name another one than the base's, and no looser? -/
def checkValues (key : KnobKey) (baseKey ownKey : GrantKeyMap) (o : ObjectName) : Except LoadError Unit := do
  let baseValue ← (baseKey.valueAt o).mapError fun e => .invalidKnobValue key.text (.inl e)
  let ownValue ← (ownKey.valueAt o).mapError fun e => .invalidKnobValue key.text (.inl e)
  if ownValue = baseValue then pure ()
  else if ← (leqValue ownKey.kind ownValue baseValue).mapError fun e => .invalidKnobValue key.text (.inr e) then
    .error (.extendsGrantDominatedByBase key baseValue ownValue)
  else pure ()

/-- One rule at one name of the region it shares with the base. -/
def checkRule (baseGrants ownGrants : GrantModel) (rule : Rule) : Except LoadError Unit :=
  match rule.kind with
  | .grant key _ =>
    match baseGrants.get key, ownGrants.get key with
    | some baseKey, some ownKey =>
      match witnessOf lossy (rule.scope.meet baseKey.coveredScope) with
      | some o => checkValues key baseKey ownKey o
      | none => pure ()
    | _, _ => pure ()
  | _ => pure ()

def checkExtendsGrantDirection (base own : PolicyDoc) (R : PolicyRegistry) : Except LoadError Unit := do
  let baseGrants ← (GrantModel.build base.rules R).mapError fun e => .invalidKnobValue "<base grants>" (.inl e)
  let ownGrants ← (GrantModel.build own.rules R).mapError fun e =>
    .invalidKnobValue "<extending document grants>" (.inl e)
  own.rules.forM (checkRule lossy baseGrants ownGrants)

end

/-! ### What is accepted -/

variable (schemas : List Bytes) (R : PolicyRegistry) (base own : PolicyDoc)

/-- The value of `own` at the name is strictly below that of `base`. -/
def Tightened (key : KnobKey) (o : ObjectName) : Prop :=
  ∃ d a b, R.get key = some d ∧ own.valueAt R key o = some a ∧ base.valueAt R key o = some b ∧
    NoLooser d.kind a b ∧ ¬ NoLooser d.kind b a

/-- A rule of `own` is tighter than the base at a name that both grant. -/
def IgnoresTightening : Prop :=
  ∃ rule ∈ own.rules, ∃ key value o, rule.kind = .grant key value ∧ rule.scope.objectsMembership o ∧
    (∃ r ∈ grantsOf base.rules key, r.scope.objectsMembership o) ∧ Tightened R base own key o

/-- The region that a rule of `own` shares with the base. -/
def sharedWith (base : PolicyDoc) (d : KnobDef) (rule : Rule) : Scope := rule.scope.meet (base.keyMap d).coveredScope

/-- Where a rule is tighter than the base at one name of the region it shares with it, it is so at
all of them, and one of them is found. -/
def Uniform (lossy : Bytes → Bytes) (R : PolicyRegistry) (base own : PolicyDoc) : Prop :=
  ∀ rule ∈ own.rules, ∀ d value o, R.get d.key = some d → rule.kind = .grant d.key value →
    (sharedWith base d rule).objectsMembership o → Tightened R base own d.key o →
    (witnessOf lossy (sharedWith base d rule)).isSome ∧
      ∀ o', (sharedWith base d rule).objectsMembership o' → Tightened R base own d.key o'

section
variable {R : PolicyRegistry} {base own : PolicyDoc} {lossy : Bytes → Bytes} {baseGrants ownGrants : GrantModel}
  {d : KnobDef} {o : ObjectName} {rule : Rule} {value a b : KnobValue}

theorem checkValues_ok (hb : (base.keyMap d).valueAt o = .ok b) (ha : (own.keyMap d).valueAt o = .ok a)
    (hf : Fits d.kind a ∧ Fits d.kind b) :
    checkValues d.key (base.keyMap d) (own.keyMap d) o = .ok () ↔ ¬ (a ≠ b ∧ NoLooser d.kind a b) := by
  obtain ⟨t, ht⟩ := leqValue_of_fits hf.1 hf.2
  have hk : leqValue (own.keyMap d).kind a b = .ok t := ht
  simp only [checkValues, hb, ha, Except.mapError, NoLooser, ht]
  by_cases hab : a = b
  · simp [hab, bind, Except.bind, pure, Except.pure]
  · cases t <;> simp [hab, hk, bind, Except.bind, pure, Except.pure]

theorem get_build_keyMap {doc : PolicyDoc} {m : GrantModel} (h : GrantModel.build doc.rules R = .ok m)
    (hd : R.get d.key = some d) :
    m.get d.key = if grantsOf doc.rules d.key = [] then none else some (doc.keyMap d) := by
  rcases GrantModel.get_build h d.key with ⟨hn, hnn⟩ | ⟨d', hd', hne, hs⟩
  · rw [if_pos hn, hnn]
  · obtain rfl := Option.mem_unique hd hd'
    rw [if_neg hne, hs, PolicyDoc.keyMap]

theorem checkRule_ok (hb : GrantModel.build base.rules R = .ok baseGrants)
    (ho : GrantModel.build own.rules R = .ok ownGrants) (hd : R.get d.key = some d) (hr : rule ∈ own.rules)
    (hk : rule.kind = .grant d.key value) : checkRule lossy baseGrants ownGrants rule = .ok () ↔
      ∀ o, witnessOf lossy (rule.scope.meet (base.keyMap d).coveredScope) = some o →
        checkValues d.key (base.keyMap d) (own.keyMap d) o = .ok () := by
  have hg : grantsOf own.rules d.key ≠ [] :=
    List.ne_nil_of_mem (mem_grantsOf.mpr ⟨rule, hr, hk, rfl⟩ : (⟨rule.scope, value⟩ : GrantRule) ∈ _)
  rw [checkRule, hk]
  dsimp only
  rw [get_build_keyMap hb hd, get_build_keyMap ho hd, if_neg hg]
  by_cases hn : grantsOf base.rules d.key = []
  · -- a base that is silent on the key covers nothing
    have hc : (base.keyMap d).coveredScope = .nothing := by
      simp [PolicyDoc.keyMap, hn, GrantKeyMap.coveredScope]
    have hm : rule.scope.meet .nothing = .nothing := by cases rule.scope <;> rfl
    simp [hn, hc, hm, witnessOf, pure, Except.pure]
  · rw [if_neg hn]
    dsimp only
    cases witnessOf lossy (rule.scope.meet (base.keyMap d).coveredScope) <;> simp [pure, Except.pure]

/-- An accepted document is not tighter than the base at the name that is looked at. -/
theorem sample_not_tightened (hR : R.Declared) (hbs : base.Loaded R) (how : own.Loaded R)
    (hok : checkExtendsGrantDirection lossy base own R = .ok ()) (hr : rule ∈ own.rules) (hd : R.get d.key = some d)
    (hk : rule.kind = .grant d.key value) (ho : witnessOf lossy (sharedWith base d rule) = some o) :
    ¬ Tightened R base own d.key o := by
  obtain ⟨baseGrants, hbl⟩ := hbs.exists_build
  obtain ⟨ownGrants, hbl'⟩ := how.exists_build
  rw [checkExtendsGrantDirection, hbl, hbl'] at hok
  have hc := (checkRule_ok hbl hbl' hd hr hk).mp (Base.forM_ok.mp hok rule hr) o ho
  obtain ⟨a, ha, hav, had, -⟩ := exists_docValue hR how hd o
  obtain ⟨b, hb, hbv, hbd, -⟩ := exists_docValue hR hbs hd o
  rintro ⟨d', a', b', hd', ha', hb', hl, hnl⟩
  obtain rfl := Option.mem_unique hd hd'
  obtain rfl := Option.mem_unique hav ha'
  obtain rfl := Option.mem_unique hbv hb'
  refine (checkValues_ok hb ha ⟨(fits_of_leqValue had).2, (fits_of_leqValue hbd).2⟩).mp hc ⟨?_, hl⟩
  rintro rfl
  exact hnl hl

theorem mem_foldl_join {rules : List GrantRule} {acc : Scope}
    (h : acc.objectsMembership o ∨ ∃ r ∈ rules, r.scope.objectsMembership o) :
    (rules.foldl (fun acc r => acc.join r.scope) acc).objectsMembership o := by
  induction rules generalizing acc with
  | nil => simpa using h
  | cons r rest ih =>
    refine ih ?_
    rcases h with h | ⟨x, hx, hm⟩
    · exact .inl (mem_join (.inl h))
    · rcases List.mem_cons.mp hx with rfl | hx
      · exact .inl (mem_join (.inr hm))
      · exact .inr ⟨x, hx, hm⟩

theorem witnessOf_mem {s : Scope} (h : witnessOf lossy s = some o) : s.objectsMembership o := by
  cases s with
  | nothing => cases h
  | all => rfl
  | of includes excludes =>
    obtain ⟨p, -, hp⟩ := List.exists_of_findSome?_eq_some h
    dsimp only at hp
    split_ifs at hp with hc ht <;> cases hp
    · exact hc
    · exact ht

end

/-- A document is not accepted where it is tighter than the base, if what one name of a shared
region says holds of the whole region. -/
theorem extends_ignores_none (lossy : Bytes → Bytes) (R : PolicyRegistry) (base own : PolicyDoc) (hR : R.Declared)
    (hbase : base.Loaded R) (hown : own.Loaded R) (huniform : Uniform lossy R base own)
    (haccepted : checkExtendsGrantDirection lossy base own R = .ok ()) : ¬ IgnoresTightening R base own := by
  rintro ⟨rule, hr, key, value, o, hk, hro, hbo, ht⟩
  obtain ⟨d, -, -, hd, -⟩ := id ht
  obtain rfl := R.keyed key d hd
  have hs : (sharedWith base d rule).objectsMembership o := by
    rw [sharedWith, mem_meet, hro, Bool.true_and]
    exact mem_foldl_join (.inr hbo)
  obtain ⟨hw, hall⟩ := huniform rule hr d value o hd hk hs ht
  obtain ⟨o', ho'⟩ := Option.isSome_iff_exists.mp hw
  exact sample_not_tightened hR hbase hown haccepted hr hd hk ho' (hall o' (witnessOf_mem ho'))

/-- Raw SQL as given over the schema. -/
def rawSqlIn (granted : Bool) : Rule :=
  ⟨.of (schemas.map fun s => .ofSchema (.literal s)) [], .grant rawSqlKey (.bool granted)⟩

/-- No raw SQL over `a`, and raw SQL over `b`. -/
def openBase : PolicyDoc := ⟨[rawSqlIn [[97]] false, rawSqlIn [[98]] true]⟩

/-- No raw SQL over the schemas. -/
def closing : PolicyDoc := ⟨[rawSqlIn schemas false]⟩

theorem loaded_openBase : openBase.Loaded rawSqlRegistry := loaded_rawSql (by simp [rawSqlIn])

theorem loaded_closing {s : Bytes} {rest : List Bytes} : (closing (s :: rest)).Loaded rawSqlRegistry :=
  loaded_rawSql (by simp [rawSqlIn])

/-- Over `a` and `b`, the sample is in `a`, where nothing is tightened. -/
theorem tightening_ignored : rawSqlRegistry.Declared ∧ openBase.Loaded rawSqlRegistry ∧
    (closing [[97], [98]]).Loaded rawSqlRegistry ∧
    checkExtendsGrantDirection id openBase (closing [[97], [98]]) rawSqlRegistry = .ok () ∧
    IgnoresTightening rawSqlRegistry openBase (closing [[97], [98]]) := by
  refine ⟨declared_rawSql, loaded_openBase, loaded_closing, rfl, ?_⟩
  refine ⟨_, List.mem_singleton_self _, rawSqlKey, _, ⟨[98], none⟩, rfl, rfl, ⟨⟨_, .bool true⟩, .tail _ (.head _), rfl⟩, ?_⟩
  exact ⟨rawSqlKnob, .bool false, .bool true, rfl, rfl, rfl, rfl, by decide⟩

/-- Over `b` alone the document is tighter throughout, and is refused. -/
theorem tightening_refused : IgnoresTightening rawSqlRegistry openBase (closing [[98]]) ∧
    checkExtendsGrantDirection id openBase (closing [[98]]) rawSqlRegistry ≠ .ok () := by
  have hi : IgnoresTightening rawSqlRegistry openBase (closing [[98]]) := by
    refine ⟨_, List.mem_singleton_self _, rawSqlKey, _, ⟨[98], none⟩, rfl, rfl, ⟨⟨_, .bool true⟩, .tail _ (.head _), rfl⟩, ?_⟩
    exact ⟨rawSqlKnob, .bool false, .bool true, rfl, rfl, rfl, rfl, by decide⟩
  have hu : Uniform id rawSqlRegistry openBase (closing [[98]]) := by
    intro rule hr d value o hd hk _ _
    obtain rfl := List.mem_singleton.mp hr
    obtain ⟨hkey, rfl⟩ := RuleKind.grant.inj hk
    obtain rfl : rawSqlKnob = d := Option.some.inj (by rw [← hd, ← hkey]; rfl)
    refine ⟨rfl, fun o' ho' => ⟨rawSqlKnob, .bool false, .bool true, rfl, ?_, ?_, rfl, by decide⟩⟩
    all_goals
      rw [sharedWith, mem_meet, Bool.and_eq_true] at ho'
      have hm : (rawSqlIn [[98]] true).scope.objectsMembership o' = true := ho'.1
    · have hkm : (closing [[98]]).keyMap rawSqlKnob = ⟨.bool, .bool false, [⟨(rawSqlIn [[98]] true).scope, .bool false⟩]⟩ := rfl
      show (((closing [[98]]).keyMap rawSqlKnob).valueAt o').toOption = _
      simp only [hkm, GrantKeyMap.valueAt, GrantKeyMap.joinCovering, List.foldlM_cons, hm]
      rfl
    · have hkm : openBase.keyMap rawSqlKnob = ⟨.bool, .bool false,
          [⟨(rawSqlIn [[97]] false).scope, .bool false⟩, ⟨(rawSqlIn [[98]] true).scope, .bool true⟩]⟩ := rfl
      show ((openBase.keyMap rawSqlKnob).valueAt o').toOption = _
      simp only [hkm, GrantKeyMap.valueAt, GrantKeyMap.joinCovering, List.foldlM_cons, hm]
      cases (rawSqlIn [[97]] false).scope.objectsMembership o' <;> rfl
  exact ⟨hi, fun hok => extends_ignores_none id _ _ _ declared_rawSql loaded_openBase loaded_closing hu hok hi⟩

end Zeroship.Policy
