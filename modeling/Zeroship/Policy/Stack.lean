import Zeroship.Policy.Boundary

/-! Stacks of layers under one registry.

Every map of a stack carries the kind and the default that the registry declares for its
key. That, and whatever else the rules of the documents have in common, is kept by each
way of composing them. The value of a covered name is then a least upper bound. -/
namespace Zeroship.Policy
open List GrantModel EffectivePolicy Option GrantKeyMap
open Base (bind_ok pure_ok foldlM_invariant)

section
variable {kind : KnobKind} {km : GrantKeyMap} {rules : List GrantRule} {o : ObjectName} {acc v w : KnobValue}

theorem covers_iff : km.covers o ↔ ∃ r ∈ km.rules, r.scope.objectsMembership o := by simp [covers]

theorem foldlM_joinCovering_upper (h : rules.foldlM (joinCovering kind o) acc = .ok w) (hf : Fits kind acc) :
    NoLooser kind acc w ∧ ∀ r ∈ rules, r.scope.objectsMembership o → NoLooser kind r.value w := by
  induction rules generalizing acc with
  | nil =>
    rw [foldlM_nil, pure_ok] at h
    subst h
    exact ⟨hf, by simp⟩
  | cons r rest ih =>
    rw [foldlM_cons, bind_ok] at h
    obtain ⟨next, hn, hrs⟩ := h
    rw [forall_mem_cons]
    by_cases hr : r.scope.objectsMembership o
    · rw [joinCovering, if_pos hr, ofValueOrder_ok] at hn
      obtain ⟨hac, hv, -⟩ := joinValue_lub hn
      obtain ⟨hle, ha⟩ := ih hrs (fits_of_leqValue hac).2
      exact ⟨hac.trans hle, fun _ => hv.trans hle, ha⟩
    · rw [joinCovering, if_neg hr] at hn
      cases hn
      obtain ⟨hle, ha⟩ := ih hrs hf
      exact ⟨hle, fun h => absurd h hr, ha⟩

/-- What bounds the start and every covering value bounds the join, which exists. -/
theorem joinCovering_bounded (ha : NoLooser kind acc v)
    (h : ∀ r ∈ rules, r.scope.objectsMembership o → NoLooser kind r.value v) :
    ∃ w, rules.foldlM (joinCovering kind o) acc = .ok w ∧ NoLooser kind w v := by
  induction rules generalizing acc with
  | nil => exact ⟨acc, rfl, ha⟩
  | cons r rest ih =>
    rw [forall_mem_cons] at h
    by_cases hr : r.scope.objectsMembership o
    · obtain ⟨next, hn, hle⟩ := joinValue_of_bounded ha (h.1 hr)
      obtain ⟨w, hw, hwv⟩ := ih hle h.2
      refine ⟨w, ?_, hwv⟩
      rw [foldlM_cons, bind_ok]
      exact ⟨next, by rw [joinCovering, if_pos hr, ofValueOrder_ok, hn], hw⟩
    · obtain ⟨w, hw, hwv⟩ := ih ha h.2
      refine ⟨w, ?_, hwv⟩
      rw [foldlM_cons, bind_ok]
      exact ⟨acc, by rw [joinCovering, if_neg hr], hw⟩

theorem valueAt_upper (h : km.valueAt o = .ok w) (hf : Fits km.kind km.default) :
    NoLooser km.kind km.default w ∧ ∀ r ∈ km.rules, r.scope.objectsMembership o → NoLooser km.kind r.value w :=
  foldlM_joinCovering_upper h hf

theorem valueAt_bounded (hd : NoLooser km.kind km.default v)
    (h : ∀ r ∈ km.rules, r.scope.objectsMembership o → NoLooser km.kind r.value v) :
    ∃ w, km.valueAt o = .ok w ∧ NoLooser km.kind w v :=
  joinCovering_bounded hd h

end

section
variable {layers : List Layer} {l : Layer} {key : KnobKey} {o : ObjectName} {km : GrantKeyMap}

theorem decidingMap_hit (hm : l.grants.get key = some km) (hc : km.covers o) :
    decidingMap (l :: layers) key o = some km := by
  rw [decidingMap, findSome?_cons, hm, filter_some, if_pos hc]

theorem decidingMap_skip (h : ∀ km, l.grants.get key = some km → ¬ km.covers o) :
    decidingMap (l :: layers) key o = decidingMap layers key o := by
  rw [decidingMap, findSome?_cons]
  cases hm : l.grants.get key with
  | none => rfl
  | some km =>
    rw [filter_some, if_neg (h km hm)]
    rfl

theorem of_decidingMap (h : decidingMap layers key o = some km) :
    (∃ l ∈ layers, l.grants.get key = some km) ∧ km.covers o := by
  obtain ⟨l, hl, hm⟩ := exists_of_findSome?_eq_some h
  obtain ⟨hg, hc⟩ := filter_eq_some_iff.mp hm
  exact ⟨⟨l, hl, hg⟩, hc⟩

theorem decidingMap_ne_none (hl : l ∈ layers) (hm : l.grants.get key = some km) (hc : km.covers o) :
    ∃ km', decidingMap layers key o = some km' := by
  rw [← isSome_iff_exists, decidingMap, findSome?_isSome_iff]
  exact ⟨l, hl, by rw [hm, filter_some, if_pos hc]; rfl⟩

theorem mem_mapsOf : km ∈ mapsOf layers key ↔ ∃ l ∈ layers, l.grants.get key = some km :=
  mem_filterMap

end

/-! ### Maps under a registry -/

variable (R : PolicyRegistry) (I : KnobDef → GrantRule → Prop)

/-- Every map has the kind and the default of its knob, and rules that satisfy `I`. -/
def GrantModel.Under (m : GrantModel) : Prop :=
  ∀ key km, m.get key = some km →
    ∃ d, R.get key = some d ∧ km.kind = d.kind ∧ km.default = d.default ∧ ∀ r ∈ km.rules, I d r

/-- The maps of the stack have the kinds and defaults of the registry. -/
def BuiltUnder (layers : List Layer) : Prop :=
  ∀ l ∈ layers, l.grants.Under R fun _ _ => True

/-- The rules that a document adds satisfy `I`. -/
def PolicyDoc.Under (doc : PolicyDoc) : Prop :=
  ∀ rule ∈ doc.rules, ∀ key value d, rule.kind = .grant key value → R.get key = some d → I d ⟨rule.scope, value⟩

section
variable {R : PolicyRegistry} {I J : KnobDef → GrantRule → Prop} {m : GrantModel} {key : KnobKey} {d : KnobDef}
  {r : GrantRule} {A : AssembledCharter} {doc : PolicyDoc} {og ig : GrantModel} {outer inner : TrustedDoc}

theorem GrantModel.get_push {kind : KnobKind} {default : KnobValue} {k : KnobKey} :
    (m.push key kind default r).get k = if key = k then
      some { (m.get key).getD ⟨kind, default, []⟩ with rules := ((m.get key).getD ⟨kind, default, []⟩).rules ++ [r] }
    else m.get k := by
  rw [get, push, Std.TreeMap.getElem?_alter]
  simp only [Std.LawfulEqCmp.compare_eq_iff_eq]
  rfl

theorem GrantModel.under_empty : empty.Under R I := by
  intro key km h
  simp [get, empty] at h

theorem GrantModel.Under.of_get {km : GrantKeyMap} (h : m.Under R I) (hd : R.get key = some d)
    (hg : m.get key = some km) : km.kind = d.kind ∧ km.default = d.default ∧ ∀ r ∈ km.rules, I d r := by
  obtain ⟨d', hd', hk⟩ := h key km hg
  obtain rfl : d = d' := mem_unique hd hd'
  exact hk

theorem GrantModel.Under.mono (h : m.Under R I)
    (hI : ∀ key km d, m.get key = some km → R.get key = some d → ∀ r ∈ km.rules, I d r → J d r) : m.Under R J := by
  intro key km hm
  obtain ⟨d, hd, hk, hdf, hrl⟩ := h key km hm
  exact ⟨d, hd, hk, hdf, fun r hr => hI key km d hm hd r hr (hrl r hr)⟩

theorem GrantModel.Under.push (h : m.Under R I) (hd : R.get key = some d) (hr : I d r) :
    (m.push key d.kind d.default r).Under R I := by
  intro k km hm
  rw [get_push] at hm
  split at hm
  · rename_i hk
    subst hk
    cases hm
    refine ⟨d, hd, ?_⟩
    cases hg : m.get key with
    | none => simpa using hr
    | some km =>
      obtain ⟨hkn, hdf, hrl⟩ := h.of_get hd hg
      refine ⟨hkn, hdf, fun r' hr' => ?_⟩
      rcases mem_append.mp hr' with hr' | hr'
      · exact hrl r' hr'
      · exact mem_singleton.mp hr' ▸ hr
  · exact h k km hm

theorem GrantModel.under_build (h : build doc.rules R = .ok m) (hdc : doc.Under R I) : m.Under R I := by
  refine foldlM_invariant (Under R I) h under_empty ?_
  intro m m' rule hmm hm hs
  unfold addRule at hs
  split at hs
  · rename_i key value hk
    obtain ⟨d, hd, hp⟩ := bind_ok.mp hs
    rw [lookup_ok] at hd
    obtain rfl := pure_ok.mp hp
    exact hm.push hd (hdc rule hmm key value d hk hd)
  · exact pure_ok.mp hs ▸ hm

theorem under_fromDoc {tag : LayerTag} {l : Layer} (h : Layer.fromDoc tag doc R = .ok l)
    (hd : doc.Under R I) : l.grants.Under R I := by
  obtain ⟨m, hm, hl⟩ := bind_ok.mp h
  obtain rfl := pure_ok.mp hl
  exact under_build hm hd

theorem under_root {c : RootCharter} {layers : List Layer} (h : charterLayers c R = .ok layers)
    (hd : c.doc.doc.Under R I) : ∀ l ∈ layers, l.grants.Under R I := by
  obtain ⟨l, hl, h⟩ := bind_ok.mp h
  obtain rfl := pure_ok.mp h
  exact forall_mem_singleton.mpr (under_fromDoc hl hd)

theorem under_overlay {base env : TrustedDoc} (h : overlay base env R = .ok A)
    (hbs : base.doc.Under R I) (hen : env.doc.Under R I) : ∀ l ∈ A.layers, l.grants.Under R I := by
  obtain ⟨b, hb, h⟩ := bind_ok.mp h
  obtain ⟨e, he, h⟩ := bind_ok.mp h
  obtain rfl := pure_ok.mp h
  exact forall_mem_cons.mpr ⟨under_fromDoc he hen, forall_mem_singleton.mpr (under_fromDoc hb hbs)⟩

theorem finalizeCharter_ok {C : Charter} (h : finalizeCharter A = .ok C) :
    C = ⟨A.registry, A.layers⟩ ∧ creatableEscapeScope A.layers = none := by
  unfold finalizeCharter at h
  dsimp only at h
  split at h
  · cases h
  split at h
  · cases h
  obtain ⟨_, hl, hC⟩ := bind_ok.mp h
  refine ⟨(pure_ok.mp hC).symm, ?_⟩
  unfold checkCharterCreatableLint at hl
  split at hl
  · assumption
  · cases hl

theorem get_addClamped {m m' : GrantModel} (h : addClamped og ig R m key = .ok m') :
    ∃ km, clampGrantKey key og ig R = .ok km ∧
      ∀ k, m'.get k = if key = k ∧ km.rules ≠ [] then some km else m.get k := by
  obtain ⟨km, hk, h⟩ := bind_ok.mp h
  obtain rfl := pure_ok.mp h
  refine ⟨km, hk, fun k => ?_⟩
  by_cases hr : km.rules = []
  · simp [hr]
  · rw [if_neg hr, GrantModel.get, Std.TreeMap.getElem?_insert]
    simp only [Std.LawfulEqCmp.compare_eq_iff_eq, hr, ne_eq, not_false_eq_true, and_true]
    rfl

/-- One layer, and for each key the products of its rules, unless there are none. -/
theorem restrict_ok (h : restrict outer inner R = .ok A) : A.registry = R ∧ ∃ l og ig, A.layers = [l] ∧
    GrantModel.build outer.doc.rules R = .ok og ∧ GrantModel.build inner.doc.rules R = .ok ig ∧
    (∀ key km, l.grants.get key = some km → clampGrantKey key og ig R = .ok km) ∧
    ∀ key ∈ og.keyUnion ig, ∃ km, clampGrantKey key og ig R = .ok km ∧ (l.grants.get key = some km ∨ km.rules = []) := by
  obtain ⟨og, ho, h⟩ := bind_ok.mp h
  obtain ⟨ig, hi, h⟩ := bind_ok.mp h
  obtain ⟨m, hm, h⟩ := bind_ok.mp h
  obtain rfl := pure_ok.mp h
  refine ⟨rfl, _, og, ig, rfl, ho, hi, ?_, fun key hky => ?_⟩
  · refine foldlM_invariant (fun m => ∀ key km, m.get key = some km → clampGrantKey key og ig R = .ok km) hm ?_ ?_
    · intro key km hg
      simp [GrantModel.get, GrantModel.empty] at hg
    intro m m' k _ ih hs key km hg
    obtain ⟨km', hk', hg'⟩ := get_addClamped hs
    rw [hg'] at hg
    split at hg
    · rename_i hk
      exact hk.1 ▸ Option.some.inj hg ▸ hk'
    · exact ih key km hg
  · refine Base.foldlM_reaches
      (fun m => ∃ km, clampGrantKey key og ig R = .ok km ∧ (m.get key = some km ∨ km.rules = [])) hm hky ?_ ?_
    · intro m m' hs
      obtain ⟨km, hkm, hg⟩ := get_addClamped hs
      refine ⟨km, hkm, ?_⟩
      by_cases hr : km.rules = []
      · exact .inr hr
      · exact .inl (by rw [hg, if_pos ⟨rfl, hr⟩])
    · rintro m m' k ⟨km, hkm, hor⟩ hs
      refine ⟨km, hkm, hor.imp_left fun hm => ?_⟩
      obtain ⟨km', hk', hg⟩ := get_addClamped hs
      rw [hg]
      split
      · rename_i hk
        rw [hk.1] at hk'
        exact congrArg some (Except.ok.inj (hk'.symm.trans hkm))
      · exact hm

theorem mem_clampGrantKey {km : GrantKeyMap} (hd : R.get key = some d)
    (h : clampGrantKey key og ig R = .ok km) : km.kind = d.kind ∧ km.default = d.default ∧
    ∀ r, r ∈ km.rules ↔ ∃ om im, og.get key = some om ∧ ig.get key = some im ∧
      ∃ a ∈ om.rules, ∃ b ∈ im.rules, clampRule d.kind a b = .ok (some r) := by
  obtain ⟨d', hd', h⟩ := bind_ok.mp h
  obtain rfl : d = d' := mem_unique hd (lookup_ok.mp hd')
  split at h
  · rename_i om im ho hi
    obtain ⟨rules, hrl, hk⟩ := bind_ok.mp h
    obtain rfl := pure_ok.mp hk
    refine ⟨rfl, rfl, fun r => ?_⟩
    rw [reduceOption_mem_iff]
    constructor
    · intro hr
      obtain ⟨⟨a, b⟩, hp, hr⟩ := Base.mem_of_mapM hrl hr
      obtain ⟨ha, hb⟩ := pair_mem_product.mp hp
      exact ⟨om, im, ho, hi, a, ha, b, hb, hr⟩
    · rintro ⟨om', im', ho', hi', a, ha, b, hb, hr⟩
      obtain rfl := mem_unique ho ho'
      obtain rfl := mem_unique hi hi'
      obtain ⟨r', hr', hf⟩ := Base.exists_of_mapM hrl (pair_mem_product.mpr ⟨ha, hb⟩)
      rw [hr] at hf
      exact Except.ok.inj hf ▸ hr'
  · rename_i hn
    obtain rfl := pure_ok.mp h
    refine ⟨rfl, rfl, fun r => ?_⟩
    simp only [not_mem_nil, false_iff]
    rintro ⟨om, im, ho, hi, -⟩
    exact hn om im ho hi

/-- The rules of both documents are under `I`, which the products keep. -/
theorem under_restrict (h : restrict outer inner R = .ok A) (ho : outer.doc.Under R I) (hi : inner.doc.Under R I)
    (hcl : ∀ d a b c, I d a → I d b → clampRule d.kind a b = .ok (some c) → I d c) :
    ∀ l ∈ A.layers, l.grants.Under R I := by
  obtain ⟨-, l, og, ig, hl, hog, hig, hc, -⟩ := restrict_ok h
  rw [hl]
  refine forall_mem_singleton.mpr fun key km hg => ?_
  have hk := hc key km hg
  obtain ⟨d, hd, -⟩ := bind_ok.mp hk
  rw [lookup_ok] at hd
  obtain ⟨hkn, hdf, hm⟩ := mem_clampGrantKey hd hk
  refine ⟨d, hd, hkn, hdf, fun r hr => ?_⟩
  obtain ⟨om, im, hom, him, a, ha, b, hb, hr⟩ := (hm r).mp hr
  have hom := (under_build hog ho).of_get hd hom
  have him := (under_build hig hi).of_get hd him
  exact hcl d a b r (hom.2.2 a ha) (him.2.2 b hb) hr

theorem under_pinUninherited {defs : List KnobDef} {l : Layer} (hd : ∀ d ∈ defs, R.get d.key = some d)
    (h : l.grants.Under R I) (hp : ∀ d ∈ defs, I d ⟨.all, d.default⟩) :
    (defs.foldl pinUninherited l).grants.Under R I := by
  induction defs generalizing l with
  | nil => exact h
  | cons d rest ih =>
    rw [forall_mem_cons] at hd hp
    refine ih hd.2 ?_ hp.2
    unfold pinUninherited
    split
    · exact h
    · exact h.push hd.1 hp.1

end

/-- The rule as one of the key, if it grants the key. -/
def Rule.grantOf (key : KnobKey) (rule : Rule) : Option GrantRule :=
  match rule.kind with
  | .grant k value => if k = key then some ⟨rule.scope, value⟩ else none
  | _ => none

/-- The grants of the key, in document order. -/
def grantsOf (rules : List Rule) (key : KnobKey) : List GrantRule := rules.filterMap (Rule.grantOf key)

section
variable {R : PolicyRegistry} {rules : List Rule} {m : GrantModel} {key : KnobKey}

theorem mem_grantsOf {r : GrantRule} :
    r ∈ grantsOf rules key ↔ ∃ rule ∈ rules, rule.kind = .grant key r.value ∧ rule.scope = r.scope := by
  rw [grantsOf, mem_filterMap]
  refine exists_congr fun rule => and_congr_right fun _ => ?_
  obtain ⟨scope, kind⟩ := rule
  obtain ⟨scope', value'⟩ := r
  cases kind <;> simp [Rule.grantOf]
  rename_i k value
  constructor
  · rintro ⟨rfl, rfl, rfl⟩
    exact ⟨⟨rfl, rfl⟩, rfl⟩
  · rintro ⟨⟨rfl, rfl⟩, rfl⟩
    exact ⟨rfl, rfl, rfl⟩

/-- A key has a map of all its grants, or neither. -/
theorem GrantModel.get_build (h : build rules R = .ok m) (key : KnobKey) :
    (grantsOf rules key = [] ∧ m.get key = none) ∨
      ∃ d, R.get key = some d ∧ grantsOf rules key ≠ [] ∧ m.get key = some ⟨d.kind, d.default, grantsOf rules key⟩ := by
  induction rules using reverseRecOn generalizing m with
  | nil =>
    obtain rfl := pure_ok.mp h
    exact .inl ⟨rfl, by simp [get, empty]⟩
  | append_singleton rest rule ih =>
    rw [build, foldlM_append, bind_ok] at h
    obtain ⟨m', hm', h⟩ := h
    rw [foldlM_cons, bind_ok] at h
    obtain ⟨m'', hm'', h⟩ := h
    obtain rfl := pure_ok.mp h
    have ih := ih hm'
    unfold addRule at hm''
    simp only [grantsOf, filterMap_append, filterMap_cons, filterMap_nil] at ih ⊢
    split at hm''
    · rename_i k value hkn
      obtain ⟨d, hd, hp⟩ := bind_ok.mp hm''
      rw [lookup_ok] at hd
      obtain rfl := pure_ok.mp hp
      rw [get_push]
      by_cases hk : k = key
      · -- one more rule of the key, the first or a later one
        subst hk
        have ho : rule.grantOf k = some ⟨rule.scope, value⟩ := by simp [Rule.grantOf, hkn]
        rw [if_pos rfl, ho]
        refine .inr ⟨d, hd, by simp, ?_⟩
        rcases ih with ⟨hn, hnn⟩ | ⟨d', hd', -, hs⟩
        · simp [hn, hnn]
        · obtain rfl : d = d' := mem_unique hd hd'
          simp [hs]
      · have ho : rule.grantOf key = none := by simp [Rule.grantOf, hkn, hk]
        rw [if_neg hk, ho]
        simpa using ih
    · rename_i hkn
      obtain rfl := pure_ok.mp hm''
      have ho : rule.grantOf key = none := by
        unfold Rule.grantOf
        split
        · rename_i k value hg
          exact absurd hg (hkn k value)
        · rfl
      rw [ho]
      simpa using ih

theorem GrantModel.exists_build : (∃ m, build rules R = .ok m) ↔
    ∀ rule ∈ rules, ∀ key value, rule.kind = .grant key value → ∃ d, R.get key = some d := by
  induction rules using reverseRecOn with
  | nil => simpa using ⟨_, rfl⟩
  | append_singleton rest rule ih =>
    simp only [build, foldlM_append, bind_ok, foldlM_cons, foldlM_nil, pure_ok,
      forall_mem_append, forall_mem_singleton]
    rw [← ih]
    constructor
    · rintro ⟨m, m', hm', m'', hs, rfl⟩
      refine ⟨⟨m', hm'⟩, fun key value hkn => ?_⟩
      rw [addRule, hkn] at hs
      obtain ⟨d, hd, -⟩ := bind_ok.mp hs
      exact ⟨d, lookup_ok.mp hd⟩
    · rintro ⟨⟨m', hm'⟩, hk⟩
      have hs : ∃ m'', addRule R m' rule = .ok m'' := by
        unfold addRule
        split
        · rename_i key value hkn
          obtain ⟨d, hd⟩ := hk key value hkn
          exact ⟨_, bind_ok.mpr ⟨d, lookup_ok.mpr hd, rfl⟩⟩
        · exact ⟨m', rfl⟩
      obtain ⟨m'', hs⟩ := hs
      exact ⟨m'', m', hm', m'', hs, rfl⟩

end

section
variable {R : PolicyRegistry} {layers : List Layer} {key : KnobKey} {d : KnobDef} {o : ObjectName} {v : KnobValue}
  {km : GrantKeyMap}

theorem BuiltUnder.of_decidingMap (h : BuiltUnder R layers) (hd : R.get key = some d)
    (hk : decidingMap layers key o = some km) : km.kind = d.kind ∧ km.default = d.default := by
  obtain ⟨⟨l, hl, hg⟩, -⟩ := Policy.of_decidingMap hk
  obtain ⟨hkn, hdf, -⟩ := (h l hl).of_get hd hg
  exact ⟨hkn, hdf⟩

theorem grants_of_deciding (hk : decidingMap layers key o = some km) (hv : km.valueAt o = .ok v) :
    (fromLayers R layers).grants key o = some v := by
  simp only [grants, fromLayers, hk, hv]
  rfl

theorem grants_of_undecided (hn : decidingMap layers key o = none) (hd : R.get key = some d) :
    (fromLayers R layers).grants key o = some d.default := by
  simp only [grants, fromLayers, hn, hd]
  rfl

theorem grants_of_unregistered (h : BuiltUnder R layers) (hk : R.get key = none) :
    (fromLayers R layers).grants key o = none := by
  unfold grants
  split
  · rename_i km hkm
    obtain ⟨⟨l, hl, hg⟩, -⟩ := Policy.of_decidingMap hkm
    obtain ⟨d, hd, -⟩ := h l hl key km hg
    simp [hk] at hd
  · exact congrArg (Option.map _) hk

theorem grants_upper (h : BuiltUnder R layers) (hd : R.get key = some d) (hf : Fits d.kind d.default)
    (hv : (fromLayers R layers).grants key o = some v) :
    NoLooser d.kind d.default v ∧ ∀ km, decidingMap layers key o = some km →
      ∀ r ∈ km.rules, r.scope.objectsMembership o → NoLooser d.kind r.value v := by
  cases hk : decidingMap layers key o with
  | none =>
    rw [grants_of_undecided hk hd] at hv
    obtain rfl : d.default = v := some.inj hv
    exact ⟨hf, by simp⟩
  | some km =>
    obtain ⟨hkn, hdf⟩ := h.of_decidingMap hd hk
    have hvl : km.valueAt o = .ok v := by
      simp only [grants, fromLayers, hk] at hv
      cases hvl : km.valueAt o with
      | ok w => exact congrArg _ (by simpa [hvl, Except.toOption] using hv)
      | error e => simp [hvl, Except.toOption] at hv
    have hu := valueAt_upper hvl (by rw [hkn, hdf]; exact hf)
    rw [hkn, hdf] at hu
    refine ⟨hu.1, fun km' hk' => ?_⟩
    obtain rfl := some.inj hk'
    exact hu.2

end

end Zeroship.Policy
