import Zeroship.Policy.Region

/-! `restrict` against the meet of the values of its documents.

The code meets every rule of one document with every rule of the other and joins the
products again at the name. The order of values is distributive and the meet of scopes is
exact, so the join of the products is the meet of the joins (`restrict_is_meet`). -/
namespace Zeroship.Policy
open List Option GrantModel
open Base (bind_ok pure_ok)

/-- All grants of the knob, in document order. -/
def PolicyDoc.keyMap (doc : PolicyDoc) (d : KnobDef) : GrantKeyMap := ⟨d.kind, d.default, grantsOf doc.rules d.key⟩

/-- The join of the default with all covering rules, if the key is known. -/
def PolicyDoc.valueAt (R : PolicyRegistry) (doc : PolicyDoc) (key : KnobKey) (o : ObjectName) : Option KnobValue :=
  (R.get key).bind fun d => ((doc.keyMap d).valueAt o).toOption

/-- The value of the key at the name. -/
def AssembledCharter.valueAt (A : AssembledCharter) (key : KnobKey) (o : ObjectName) : Option KnobValue :=
  (EffectivePolicy.fromLayers A.registry A.layers).grants key o

/-- The tightest of two values at the name, if both are there. -/
def meetAt (R : PolicyRegistry) (f g : KnobKey → ObjectName → Option KnobValue) (key : KnobKey) (o : ObjectName) :
    Option KnobValue :=
  (R.get key).bind fun d => (f key o).bind fun a => (g key o).bind fun b => (meetValue d.kind a b).toOption

/-- The same value, or none, for every key and name. -/
def SameValues (f g : KnobKey → ObjectName → Option KnobValue) : Prop :=
  ∀ key o, Option.Rel KnobValue.Same (f key o) (g key o)

section
variable {R : PolicyRegistry} {doc : PolicyDoc} {d : KnobDef} {key : KnobKey} {o : ObjectName} {kind : KnobKind}
  {rules : List GrantRule} {acc a z v : KnobValue}

theorem PolicyDoc.Loaded.sound (h : doc.Loaded R) (hR : R.Declared) (hd : R.get d.key = some d) :
    (doc.keyMap d).Sound d := by
  refine ⟨rfl, rfl, fits_of_validateFor (hR d.key d hd).1, fun r hr => ?_⟩
  obtain ⟨rule, hrl, hk, hs⟩ := mem_grantsOf.mp hr
  have hsn := h.under hR rule hrl d.key r.value d hk hd
  rwa [hs] at hsn

theorem PolicyDoc.Loaded.exists_build (h : doc.Loaded R) : ∃ m, GrantModel.build doc.rules R = .ok m := by
  refine GrantModel.exists_build.mpr fun rule hr key value hk => ?_
  obtain ⟨-, d, hd, -⟩ := h rule hr key value hk
  exact ⟨d, hd⟩

theorem joinCovering_distrib (h : rules.foldlM (GrantKeyMap.joinCovering kind o) acc = .ok a)
    (ha : ∀ w, NoLooser kind w acc → NoLooser kind w z → NoLooser kind w v)
    (hrl : ∀ r ∈ rules, r.scope.objectsMembership o →
      ∀ w, NoLooser kind w r.value → NoLooser kind w z → NoLooser kind w v) :
    ∀ w, NoLooser kind w a → NoLooser kind w z → NoLooser kind w v := by
  induction rules generalizing acc with
  | nil =>
    obtain rfl := pure_ok.mp h
    exact ha
  | cons r rest ih =>
    rw [foldlM_cons, bind_ok] at h
    obtain ⟨next, hn, hrs⟩ := h
    rw [forall_mem_cons] at hrl
    refine ih hrs ?_ hrl.2
    by_cases hr : r.scope.objectsMembership o
    · rw [GrantKeyMap.joinCovering, if_pos hr, ofValueOrder_ok] at hn
      exact joinValue_distrib hn ha (hrl.1 hr)
    · rw [GrantKeyMap.joinCovering, if_neg hr] at hn
      exact Except.ok.inj hn ▸ ha

/-- What bounds the default and the meet of any two covering values bounds the meet of the
two values. -/
theorem under_of_products {other : PolicyDoc} {b : KnobValue} (ha : (doc.keyMap d).valueAt o = .ok a)
    (hb : (other.keyMap d).valueAt o = .ok b) (hv : NoLooser d.kind d.default v)
    (hp : ∀ x ∈ grantsOf doc.rules d.key, x.scope.objectsMembership o →
      ∀ y ∈ grantsOf other.rules d.key, y.scope.objectsMembership o →
        ∃ m, meetValue d.kind x.value y.value = .ok m ∧ NoLooser d.kind m v) :
    ∀ w, NoLooser d.kind w a → NoLooser d.kind w b → NoLooser d.kind w v := by
  refine joinCovering_distrib ha (fun w hw _ => hw.trans hv) ?_
  intro x hx hxo w hwx hwb
  refine joinCovering_distrib (z := x.value) hb (fun w hw _ => hw.trans hv) ?_ w hwb hwx
  intro y hy hyo w hwy hwx
  obtain ⟨m, hm, hmv⟩ := hp x hx hxo y hy hyo
  exact ((meetValue_glb hm).2.2 w hwx hwy).trans hmv

end

section
variable {R : PolicyRegistry} {outer inner : TrustedDoc} {A : AssembledCharter} {d : KnobDef} {key : KnobKey}
  {o : ObjectName} {r : GrantRule} {a b : GrantRule} {kind : KnobKind}

theorem GrantModel.mem_keyUnion {m m' : GrantModel} :
    key ∈ m.keyUnion m' ↔ (∃ km, m.get key = some km) ∨ ∃ km, m'.get key = some km := by
  simp only [keyUnion, Base.mem_orderedSet, mem_append, Std.TreeMap.mem_keys,
    Std.TreeMap.mem_iff_isSome_getElem?, isSome_iff_exists, get]

theorem clampRule_some (h : clampRule kind a b = .ok (some r)) :
    r.scope = a.scope.meet b.scope ∧ meetValue kind a.value b.value = .ok r.value := by
  unfold clampRule at h
  dsimp only at h
  split at h
  · cases h
  obtain ⟨value, hv, hr⟩ := bind_ok.mp h
  obtain rfl := some.inj (pure_ok.mp hr)
  exact ⟨rfl, ofValueOrder_ok.mp hv⟩

theorem clampRule_of_sound (ha : a.Sound d) (hb : b.Sound d) : ∃ x, clampRule d.kind a b = .ok x := by
  unfold clampRule
  dsimp only
  split
  · exact ⟨none, rfl⟩
  obtain ⟨value, hv⟩ : ∃ value, meetValue d.kind a.value b.value = .ok value := by
    by_cases hd : d.kind = .digest
    · obtain ⟨value, hv, -⟩ := meetValue_of_bounded hb.fits hb.fits
      refine ⟨value, ?_⟩
      rwa [ha.digest hd, ← hb.digest hd]
    · exact (exists_of_fits hd ha.fits hb.fits).2
  exact ⟨_, bind_ok.mpr ⟨value, ofValueOrder_ok.mpr hv, rfl⟩⟩

theorem mem_clampRule (h : clampRule kind a b = .ok (some r)) :
    r.scope.objectsMembership o ↔ a.scope.objectsMembership o ∧ b.scope.objectsMembership o := by
  rw [(clampRule_some h).1, mem_meet, Bool.and_eq_true]

theorem exists_clampRule {x : Option GrantRule} (h : clampRule kind a b = .ok x)
    (ha : a.scope.objectsMembership o) (hb : b.scope.objectsMembership o) : ∃ r, x = some r := by
  unfold clampRule at h
  dsimp only at h
  split at h
  · rename_i hn
    have hm : (a.scope.meet b.scope).objectsMembership o := by rw [mem_meet, ha, hb]; rfl
    rw [hn] at hm
    cases hm
  · obtain ⟨value, -, hr⟩ := bind_ok.mp h
    exact ⟨_, (pure_ok.mp hr).symm⟩

/-- Every pair of covering rules has its product in the deciding map. -/
theorem restrict_decides (h : restrict outer inner R = .ok A) (hd : R.get d.key = some d)
    (ha : a ∈ grantsOf outer.doc.rules d.key) (hao : a.scope.objectsMembership o)
    (hb : b ∈ grantsOf inner.doc.rules d.key) (hbo : b.scope.objectsMembership o) :
    ∃ km, decidingMap A.layers d.key o = some km ∧
      ∃ r ∈ km.rules, r.scope.objectsMembership o ∧ meetValue d.kind a.value b.value = .ok r.value := by
  obtain ⟨-, l, og, ig, hl, hog, hig, -, hu⟩ := restrict_ok h
  rcases get_build hog d.key with ⟨hn, -⟩ | ⟨d₁, hd₁, -, ho⟩
  · rw [hn] at ha
    cases ha
  rcases get_build hig d.key with ⟨hn, -⟩ | ⟨d₂, hd₂, -, hi⟩
  · rw [hn] at hb
    cases hb
  obtain ⟨km, hk, hg⟩ := hu d.key (mem_keyUnion.mpr (.inl ⟨_, ho⟩))
  obtain ⟨x, hx⟩ : ∃ x, clampRule d.kind a b = .ok x := by
    obtain ⟨d', hd', hm⟩ := bind_ok.mp hk
    obtain rfl : d = d' := mem_unique hd (lookup_ok.mp hd')
    rw [ho, hi] at hm
    obtain ⟨rules, hrl, -⟩ := bind_ok.mp hm
    obtain ⟨x, -, hx⟩ := Base.exists_of_mapM hrl (pair_mem_product.mpr ⟨ha, hb⟩)
    exact ⟨x, hx⟩
  obtain ⟨r, rfl⟩ := exists_clampRule hx hao hbo
  have hr : r ∈ km.rules := ((mem_clampGrantKey hd hk).2.2 r).mpr ⟨_, _, ho, hi, a, ha, b, hb, hx⟩
  have hro : r.scope.objectsMembership o := (mem_clampRule hx).mpr ⟨hao, hbo⟩
  have hly : l.grants.get d.key = some km := hg.resolve_right (ne_nil_of_mem hr)
  refine ⟨km, ?_, r, hr, hro, (clampRule_some hx).2⟩
  rw [hl]
  exact decidingMap_hit hly (covers_iff.mpr ⟨r, hr, hro⟩)

theorem of_restrict_decides (h : restrict outer inner R = .ok A) (hd : R.get d.key = some d) {km : GrantKeyMap}
    (hk : decidingMap A.layers d.key o = some km) : km.kind = d.kind ∧ km.default = d.default ∧ ∀ r ∈ km.rules,
      ∃ a ∈ grantsOf outer.doc.rules d.key, ∃ b ∈ grantsOf inner.doc.rules d.key, clampRule d.kind a b = .ok (some r) := by
  obtain ⟨-, l, og, ig, hl, hog, hig, hc, -⟩ := restrict_ok h
  obtain ⟨⟨l', hl', hg⟩, -⟩ := of_decidingMap hk
  rw [hl] at hl'
  obtain rfl := mem_singleton.mp hl'
  obtain ⟨hkn, hdf, hrl⟩ := mem_clampGrantKey hd (hc d.key km hg)
  refine ⟨hkn, hdf, fun r hr => ?_⟩
  obtain ⟨om, im, ho, hi, a, ha, b, hb, hr⟩ := (hrl r).mp hr
  rcases get_build hog d.key with ⟨-, hn⟩ | ⟨d₁, -, -, ho'⟩
  · rw [ho] at hn
    cases hn
  rcases get_build hig d.key with ⟨-, hn⟩ | ⟨d₂, -, -, hi'⟩
  · rw [hi] at hn
    cases hn
  obtain rfl := mem_unique ho ho'
  obtain rfl := mem_unique hi hi'
  exact ⟨a, ha, b, hb, hr⟩

end

/-! ### The meet of the values -/

section
variable {R : PolicyRegistry} {outer inner : TrustedDoc} {A : AssembledCharter} {d : KnobDef} {key : KnobKey}
  {o : ObjectName} {doc : PolicyDoc}

theorem exists_docValue (hR : R.Declared) (h : doc.Loaded R) (hd : R.get d.key = some d) (o : ObjectName) :
    ∃ a, (doc.keyMap d).valueAt o = .ok a ∧ doc.valueAt R d.key o = some a ∧ NoLooser d.kind d.default a ∧
      ∀ r ∈ grantsOf doc.rules d.key, r.scope.objectsMembership o → NoLooser d.kind r.value a := by
  have hs := h.sound hR hd
  obtain ⟨a, ha⟩ := exists_valueAt hs (o := o)
  obtain ⟨hdf, hr⟩ := valueAt_upper ha hs.fits
  refine ⟨a, ha, ?_, hdf, hr⟩
  rw [PolicyDoc.valueAt, hd, bind_some, ha]
  rfl

theorem exists_restrict (hR : R.Declared) (ho : outer.doc.Loaded R) (hi : inner.doc.Loaded R) :
    ∃ A, restrict outer inner R = .ok A := by
  obtain ⟨og, hog⟩ := ho.exists_build
  obtain ⟨ig, hig⟩ := hi.exists_build
  have ho' := under_build hog (ho.under hR)
  have hi' := under_build hig (hi.under hR)
  have hs : ∀ key ∈ og.keyUnion ig, ∀ m, ∃ m', addClamped og ig R m key = .ok m' := by
    intro key hk m
    obtain ⟨d, hd⟩ : ∃ d, R.get key = some d := by
      rcases mem_keyUnion.mp hk with ⟨km, hkm⟩ | ⟨km, hkm⟩
      · obtain ⟨d, hd, -⟩ := ho' key km hkm
        exact ⟨d, hd⟩
      · obtain ⟨d, hd, -⟩ := hi' key km hkm
        exact ⟨d, hd⟩
    have hc : ∃ km, clampGrantKey key og ig R = .ok km := by
      rw [clampGrantKey]
      cases hom : og.get key with
      | none => exact ⟨_, bind_ok.mpr ⟨d, lookup_ok.mpr hd, rfl⟩⟩
      | some om =>
        cases him : ig.get key with
        | none => exact ⟨_, bind_ok.mpr ⟨d, lookup_ok.mpr hd, rfl⟩⟩
        | some im =>
          obtain ⟨rules, hr⟩ : ∃ rules, (om.rules.product im.rules).mapM
              (fun pair => clampRule d.kind pair.1 pair.2) = .ok rules := by
            refine Base.mapM_total ?_
            rintro ⟨a, b⟩ hp
            obtain ⟨ha, hb⟩ := pair_mem_product.mp hp
            exact clampRule_of_sound ((ho'.of_get hd hom).2.2 a ha) ((hi'.of_get hd him).2.2 b hb)
          exact ⟨_, bind_ok.mpr ⟨d, lookup_ok.mpr hd, bind_ok.mpr ⟨rules, hr, rfl⟩⟩⟩
    obtain ⟨km, hkm⟩ := hc
    exact ⟨_, bind_ok.mpr ⟨km, hkm, rfl⟩⟩
  obtain ⟨m, hm⟩ := Base.foldlM_total hs empty
  exact ⟨_, bind_ok.mpr ⟨og, hog, bind_ok.mpr ⟨ig, hig, bind_ok.mpr ⟨m, hm, rfl⟩⟩⟩⟩

/-- At every name the value is the meet of the values of the documents. -/
theorem restrict_value (hR : R.Declared) (ho : outer.doc.Loaded R) (hi : inner.doc.Loaded R)
    (h : restrict outer inner R = .ok A) (hd : R.get d.key = some d) (o : ObjectName) :
    ∃ a b m c, outer.doc.valueAt R d.key o = some a ∧ inner.doc.valueAt R d.key o = some b ∧
      meetValue d.kind a b = .ok m ∧ A.valueAt d.key o = some c ∧ c.Same m := by
  obtain ⟨a, hfl, ha, hda, hra⟩ := exists_docValue hR ho hd o
  obtain ⟨b, hf', hb, hdb, hrb⟩ := exists_docValue hR hi hd o
  obtain ⟨m, hm, hdm⟩ := meetValue_of_bounded hda hdb
  obtain ⟨hma, hmb, hg⟩ := meetValue_glb hm
  have hs : ∀ l ∈ A.layers, l.grants.Under R GrantRule.Sound :=
    under_restrict h (ho.under hR) (hi.under hR) fun d a b c => sound_clampRule
  have hbl : BuiltUnder R A.layers := fun l hl => (hs l hl).mono fun _ _ _ _ _ _ _ _ => trivial
  have hf : Fits d.kind d.default := fits_of_validateFor (hR d.key d hd).1
  obtain ⟨c, hc⟩ := exists_grants (o := o) (sound_mapsOf hs hd hf) hd
  obtain ⟨hdc, hu⟩ := grants_upper hbl hd hf hc
  refine ⟨a, b, m, c, ha, hb, hm, by rw [AssembledCharter.valueAt, (restrict_ok h).1]; exact hc, ?_⟩
  refine (?_ : NoLooser d.kind c m).antisymm ?_
  · -- the products and the default are under both values
    cases hk : decidingMap A.layers d.key o with
    | none =>
      rw [grants_of_undecided hk hd] at hc
      exact some.inj hc ▸ hdm
    | some km =>
      obtain ⟨hkn, hdf, hrl⟩ := of_restrict_decides h hd hk
      obtain ⟨w, hw, hwm⟩ : ∃ w, km.valueAt o = .ok w ∧ NoLooser km.kind w m := by
        refine valueAt_bounded (by rw [hkn, hdf]; exact hdm) fun r hr hro => ?_
        obtain ⟨x, hx, y, hy, hcl⟩ := hrl r hr
        obtain ⟨hxo, hyo⟩ := (mem_clampRule hcl).mp hro
        obtain ⟨hrx, hry, -⟩ := meetValue_glb (clampRule_some hcl).2
        rw [hkn]
        exact hg r.value (hrx.trans (hra x hx hxo)) (hry.trans (hrb y hy hyo))
      rw [grants_of_deciding hk hw] at hc
      exact some.inj hc ▸ hkn ▸ hwm
  · -- the meet of the joins is under the join of the products
    refine under_of_products hfl hf' hdc (fun x hx hxo y hy hyo => ?_) m hma hmb
    obtain ⟨km, hk, r, hr, hro, hmt⟩ := restrict_decides h hd hx hxo hy hyo
    exact ⟨r.value, hmt, hu km hk r hr hro⟩

end

/-- The product of two grants of a key, as a rule. -/
def meetRule (R : PolicyRegistry) (x y : Rule) : Option Rule :=
  match x.kind, y.kind with
  | .grant key v, .grant key' v' =>
    if key = key' then
      (R.get key).bind fun d => match clampRule d.kind ⟨x.scope, v⟩ ⟨y.scope, v'⟩ with
        | .ok (some r) => some ⟨r.scope, .grant key r.value⟩
        | _ => none
    else none
  | _, _ => none

/-- The products of all grants of two documents. -/
def meetDoc (R : PolicyRegistry) (outer inner : PolicyDoc) : PolicyDoc :=
  ⟨outer.rules.flatMap fun x => inner.rules.filterMap (meetRule R x)⟩

section
variable {R : PolicyRegistry} {outer inner : PolicyDoc} {d : KnobDef} {key : KnobKey} {r : GrantRule} {x y z : Rule}

theorem meetRule_some : meetRule R x y = some z ↔ ∃ d r v v', R.get d.key = some d ∧ x.kind = .grant d.key v ∧
    y.kind = .grant d.key v' ∧ clampRule d.kind ⟨x.scope, v⟩ ⟨y.scope, v'⟩ = .ok (some r) ∧
    z = ⟨r.scope, .grant d.key r.value⟩ := by
  constructor
  · intro h
    unfold meetRule at h
    split at h
    · rename_i key v key' v' hx hy
      split at h
      · rename_i hk
        subst hk
        obtain ⟨d, hd, h⟩ := bind_eq_some_iff.mp h
        obtain rfl := R.keyed key d hd
        split at h
        · rename_i r hr
          exact ⟨d, r, v, v', hd, hx, hy, hr, (some.inj h).symm⟩
        · cases h
      · cases h
    · cases h
  · rintro ⟨d, r, v, v', hd, hx, hy, hr, rfl⟩
    unfold meetRule
    rw [hx, hy]
    dsimp only
    rw [if_pos rfl, hd, bind_some, hr]

theorem mem_grantsOf_meetDoc (hd : R.get d.key = some d) : r ∈ grantsOf (meetDoc R outer inner).rules d.key ↔
    ∃ a ∈ grantsOf outer.rules d.key, ∃ b ∈ grantsOf inner.rules d.key, clampRule d.kind a b = .ok (some r) := by
  simp only [mem_grantsOf, meetDoc, mem_flatMap, mem_filterMap, meetRule_some]
  constructor
  · rintro ⟨rule, ⟨x, hx, y, hy, d', r', v, v', hd', hkx, hky, hr, rfl⟩, hkn, hs⟩
    obtain ⟨hk, hv⟩ := RuleKind.grant.inj hkn
    obtain rfl : d = d' := mem_unique hd (hk ▸ hd')
    obtain rfl : r' = r := by
      cases r
      cases r'
      simp_all
    exact ⟨⟨x.scope, v⟩, ⟨x, hx, hkx, rfl⟩, ⟨y.scope, v'⟩, ⟨y, hy, hky, rfl⟩, hr⟩
  · rintro ⟨a, ⟨x, hx, hkx, hsx⟩, b, ⟨y, hy, hky, hsy⟩, hr⟩
    refine ⟨_, ⟨x, hx, y, hy, d, r, a.value, b.value, hd, hkx, hky, ?_, rfl⟩, rfl, rfl⟩
    rwa [hsx, hsy]

theorem loaded_meetDoc (ho : outer.Loaded R) (hi : inner.Loaded R) : (meetDoc R outer inner).Loaded R := by
  intro rule hrl key value hk
  simp only [meetDoc, mem_flatMap, mem_filterMap, meetRule_some] at hrl
  obtain ⟨x, hx, y, hy, d, r, v, v', hd, hkx, hky, hr, rfl⟩ := hrl
  cases hk
  obtain ⟨hpr, d₁, hd₁, hp, hv⟩ := ho x hx d.key v hkx
  obtain ⟨hp', d₂, hd₂, -, hv'⟩ := hi y hy d.key v' hky
  obtain rfl : d = d₁ := mem_unique hd hd₁
  obtain rfl : d = d₂ := mem_unique hd hd₂
  obtain ⟨hs, hvl⟩ := clampRule_some hr
  refine ⟨?_, d, hd, hp, validateFor_meetValue hv hv' hvl⟩
  rw [hs]
  exact proper_meet hpr hp'

end

/-! ### The laws of a meet -/

/-- The tightest of two values, whatever it is represented by. -/
structure IsMeet (kind : KnobKind) (a b c : KnobValue) : Prop where
  left : NoLooser kind c a
  right : NoLooser kind c b
  greatest : ∀ w, NoLooser kind w a → NoLooser kind w b → NoLooser kind w c

section
variable {R : PolicyRegistry} {A B : TrustedDoc} {AB : AssembledCharter} {d : KnobDef} {kind : KnobKind}
  {a b c c' : KnobValue} {f g : KnobKey → ObjectName → Option KnobValue}

theorem IsMeet.unique (h : IsMeet kind a b c) (h' : IsMeet kind a b c') : c.Same c' :=
  (h'.greatest c h.left h.right).antisymm (h.greatest c' h'.left h'.right)

theorem IsMeet.symm (h : IsMeet kind a b c) : IsMeet kind b a c :=
  ⟨h.right, h.left, fun w hb ha => h.greatest w ha hb⟩

theorem restrict_isMeet (hR : R.Declared) (hA : A.doc.Loaded R) (hB : B.doc.Loaded R)
    (h : restrict A B R = .ok AB) (hd : R.get d.key = some d) (o : ObjectName) :
    ∃ a b c, A.doc.valueAt R d.key o = some a ∧ B.doc.valueAt R d.key o = some b ∧ AB.valueAt d.key o = some c ∧
      IsMeet d.kind a b c := by
  obtain ⟨a, b, m, c, ha, hb, hm, hc, hs⟩ := restrict_value hR hA hB h hd o
  obtain ⟨hma, hmb, hg⟩ := meetValue_glb hm
  obtain ⟨hcm, hmc⟩ := hs.bounds (fits_of_meetValue hm)
  exact ⟨a, b, c, ha, hb, hc, hcm.trans hma, hcm.trans hmb, fun w hw hwb => (hg w hw hwb).trans hmc⟩

theorem sameValues_of
    (hf : ∀ key o, R.get key = none → f key o = none) (hg : ∀ key o, R.get key = none → g key o = none)
    (h : ∀ d o, R.get d.key = some d → ∃ a b, f d.key o = some a ∧ g d.key o = some b ∧ a.Same b) :
    SameValues f g := by
  intro key o
  cases hk : R.get key with
  | none =>
    rw [hf key o hk, hg key o hk]
    exact .none
  | some d =>
    obtain rfl := R.keyed key d hk
    obtain ⟨a, b, ha, hb, hs⟩ := h d o hk
    rw [ha, hb]
    exact .some hs

theorem docValue_unregistered {doc : PolicyDoc} (key : KnobKey) (o : ObjectName) (h : R.get key = none) :
    doc.valueAt R key o = none := by
  rw [PolicyDoc.valueAt, h]
  rfl

theorem restrict_unknown (hAB : restrict A B R = .ok AB) (key : KnobKey) (o : ObjectName) (h : R.get key = none) :
    AB.valueAt key o = none := by
  rw [AssembledCharter.valueAt, (restrict_ok hAB).1]
  refine grants_of_unregistered ?_ h
  exact under_restrict hAB (fun _ _ _ _ _ _ _ => trivial) (fun _ _ _ _ _ _ _ => trivial) fun _ _ _ _ _ _ _ => trivial

section
variable (hR : R.Declared) (hA : A.doc.Loaded R) (hB : B.doc.Loaded R) (h : restrict A B R = .ok AB)
include hR hA hB h

/-- The products of two documents denote their meet. -/
theorem meetDoc_denotes : SameValues ((meetDoc R A.doc B.doc).valueAt R) AB.valueAt := by
  refine sameValues_of docValue_unregistered (restrict_unknown h) fun d o hd => ?_
  obtain ⟨a, hf, ha, hda, hra⟩ := exists_docValue hR hA hd o
  obtain ⟨b, hf', hb, hdb, hrb⟩ := exists_docValue hR hB hd o
  obtain ⟨x, hx, hv, hdx, hrx⟩ := exists_docValue hR (loaded_meetDoc hA hB) hd o
  obtain ⟨a', b', c, ha', hb', hc, hmt⟩ := restrict_isMeet hR hA hB h hd o
  obtain rfl := mem_unique ha ha'
  obtain rfl := mem_unique hb hb'
  refine ⟨x, c, hv, hc, (?_ : IsMeet d.kind a b x).unique hmt⟩
  have hbn : ∀ v, NoLooser d.kind d.default v → (∀ p ∈ grantsOf A.doc.rules d.key, p.scope.objectsMembership o →
      ∀ q ∈ grantsOf B.doc.rules d.key, q.scope.objectsMembership o → ∀ m,
        meetValue d.kind p.value q.value = .ok m → NoLooser d.kind m v) → NoLooser d.kind x v := by
    intro v hdv hpr
    obtain ⟨w, hw, hwv⟩ : ∃ w, ((meetDoc R A.doc B.doc).keyMap d).valueAt o = .ok w ∧ NoLooser d.kind w v := by
      refine valueAt_bounded hdv fun r hr hro => ?_
      obtain ⟨p, hp, q, hq, hcl⟩ := (mem_grantsOf_meetDoc hd).mp hr
      obtain ⟨hpo, hqo⟩ := (mem_clampRule hcl).mp hro
      exact hpr p hp hpo q hq hqo r.value (clampRule_some hcl).2
    exact Except.ok.inj (hw.symm.trans hx) ▸ hwv
  refine ⟨hbn a hda ?_, hbn b hdb ?_, under_of_products hf hf' hdx ?_⟩
  · intro p hp hpo q _ _ m hm
    exact (meetValue_glb hm).1.trans (hra p hp hpo)
  · intro p _ _ q hq hqo m hm
    exact (meetValue_glb hm).2.1.trans (hrb q hq hqo)
  · intro p hp hpo q hq hqo
    obtain ⟨y, hy⟩ := clampRule_of_sound ((hA.sound hR hd).rules p hp) ((hB.sound hR hd).rules q hq)
    obtain ⟨r, rfl⟩ := exists_clampRule hy hpo hqo
    exact ⟨r.value, (clampRule_some hy).2,
      hrx r ((mem_grantsOf_meetDoc hd).mpr ⟨p, hp, q, hq, hy⟩) ((mem_clampRule hy).mpr ⟨hpo, hqo⟩)⟩

theorem restrict_meetAt : SameValues AB.valueAt (meetAt R (A.doc.valueAt R) (B.doc.valueAt R)) := by
  refine sameValues_of (restrict_unknown h) (fun key o hk => by rw [meetAt, hk]; rfl) fun d o hd => ?_
  obtain ⟨a, b, m, c, ha, hb, hm, hc, hs⟩ := restrict_value hR hA hB h hd o
  refine ⟨c, m, hc, ?_, hs⟩
  rw [meetAt, hd, bind_some, ha, bind_some, hb, bind_some, hm]
  rfl

theorem restrict_comm {BA : AssembledCharter} (h' : restrict B A R = .ok BA) : SameValues BA.valueAt AB.valueAt := by
  refine sameValues_of (restrict_unknown h') (restrict_unknown h) fun d o hd => ?_
  obtain ⟨a, b, c, ha, hb, hc, hm⟩ := restrict_isMeet hR hA hB h hd o
  obtain ⟨b', a', c', hb', ha', hc', hm'⟩ := restrict_isMeet hR hB hA h' hd o
  obtain rfl := mem_unique ha ha'
  obtain rfl := mem_unique hb hb'
  exact ⟨c', c, hc', hc, hm'.symm.unique hm⟩

end

theorem restrict_self {AA : AssembledCharter} (hR : R.Declared) (hA : A.doc.Loaded R) (h : restrict A A R = .ok AA) :
    SameValues AA.valueAt (A.doc.valueAt R) := by
  refine sameValues_of (restrict_unknown h) docValue_unregistered fun d o hd => ?_
  obtain ⟨a, a', c, ha, ha', hc, hm⟩ := restrict_isMeet hR hA hA h hd o
  obtain rfl := mem_unique ha ha'
  have hf : Fits d.kind a := (fits_of_leqValue hm.left).2
  exact ⟨c, a, hc, ha, hm.left.antisymm (hm.greatest a hf hf)⟩

/-- What a document denotes at a known key, read off what it is the same as. -/
theorem SameValues.some_of (h : SameValues f g) {key : KnobKey}
    {o : ObjectName} (hf : f key o = some a) (hg : g key o = some b) : a.Same b := by
  have hr := h key o
  rw [hf, hg] at hr
  cases hr with
  | some hs => exact hs

/-- Two ways to meet three documents, through documents for the meets of two. -/
theorem restrict_assoc {C D E : TrustedDoc} {BC X Y : AssembledCharter} (hR : R.Declared) (hA : A.doc.Loaded R)
    (hB : B.doc.Loaded R) (hC : C.doc.Loaded R) (hD : D.doc.Loaded R) (hE : E.doc.Loaded R)
    (hAB : restrict A B R = .ok AB) (hBC : restrict B C R = .ok BC) (hDAB : SameValues (D.doc.valueAt R) AB.valueAt)
    (hEBC : SameValues (E.doc.valueAt R) BC.valueAt) (hX : restrict D C R = .ok X) (hY : restrict A E R = .ok Y) :
    SameValues X.valueAt Y.valueAt := by
  refine sameValues_of (restrict_unknown hX) (restrict_unknown hY) fun e o he => ?_
  obtain ⟨a, b, ab, ha, hb, hab, meetAB⟩ := restrict_isMeet hR hA hB hAB he o
  obtain ⟨b', c, bc, hb', hc, hbc, meetBC⟩ := restrict_isMeet hR hB hC hBC he o
  obtain ⟨d, c', x, hd, hc', hx, meetX⟩ := restrict_isMeet hR hD hC hX he o
  obtain ⟨a', e', y, ha', he', hy, meetY⟩ := restrict_isMeet hR hA hE hY he o
  obtain rfl := mem_unique hb hb'
  obtain rfl := mem_unique hc hc'
  obtain rfl := mem_unique ha ha'
  obtain ⟨hdb, habd⟩ := (hDAB.some_of hd hab).bounds (fits_of_leqValue meetAB.left).1
  obtain ⟨heb, hbce⟩ := (hEBC.some_of he' hbc).bounds (fits_of_leqValue meetBC.left).1
  refine ⟨x, y, hx, hy, (?_ : NoLooser e.kind x y).antisymm ?_⟩
  · -- `x` is under all three, so under `bc`, and `a`
    have hxb : NoLooser e.kind x ab := meetX.left.trans hdb
    have hxbc : NoLooser e.kind x bc := meetBC.greatest x (hxb.trans meetAB.right) meetX.right
    exact meetY.greatest x (hxb.trans meetAB.left) (hxbc.trans hbce)
  · have hyb : NoLooser e.kind y bc := meetY.right.trans heb
    have hya : NoLooser e.kind y ab := meetAB.greatest y meetY.left (hyb.trans meetBC.left)
    exact meetX.greatest y (hya.trans habd) (hyb.trans meetBC.right)

/-- `restrict` is the meet of two documents at every key and name. What it denotes is again
denoted by a document, and on what is denoted it is commutative, idempotent and associative. -/
theorem restrict_is_meet (hR : R.Declared) (hA : A.doc.Loaded R) (hB : B.doc.Loaded R) :
    ∃ AB, restrict A B R = .ok AB ∧ (∀ key o, R.get key ≠ none → AB.valueAt key o ≠ none) ∧
      SameValues AB.valueAt (meetAt R (A.doc.valueAt R) (B.doc.valueAt R)) ∧
      (∃ D : TrustedDoc, D.doc.Loaded R ∧ SameValues (D.doc.valueAt R) AB.valueAt) ∧
      (∃ BA, restrict B A R = .ok BA ∧ SameValues BA.valueAt AB.valueAt) ∧
      (∃ AA, restrict A A R = .ok AA ∧ SameValues AA.valueAt (A.doc.valueAt R)) ∧
      ∀ C : TrustedDoc, C.doc.Loaded R → ∃ BC, restrict B C R = .ok BC ∧
        ∀ D E : TrustedDoc, D.doc.Loaded R → E.doc.Loaded R → SameValues (D.doc.valueAt R) AB.valueAt →
          SameValues (E.doc.valueAt R) BC.valueAt →
          ∃ X Y, restrict D C R = .ok X ∧ restrict A E R = .ok Y ∧ SameValues X.valueAt Y.valueAt := by
  obtain ⟨AB, hAB⟩ := exists_restrict hR hA hB
  obtain ⟨BA, hBA⟩ := exists_restrict hR hB hA
  obtain ⟨AA, hAA⟩ := exists_restrict hR hA hA
  refine ⟨AB, hAB, fun key o hk => ?_, restrict_meetAt hR hA hB hAB,
    ⟨⟨meetDoc R A.doc B.doc⟩, loaded_meetDoc hA hB, meetDoc_denotes hR hA hB hAB⟩,
    ⟨BA, hBA, restrict_comm hR hA hB hAB hBA⟩, ⟨AA, hAA, restrict_self hR hA hAA⟩, fun C hC => ?_⟩
  · obtain ⟨d, hd⟩ := ne_none_iff_exists'.mp hk
    obtain rfl := R.keyed key d hd
    obtain ⟨-, -, c, -, -, hc, -⟩ := restrict_isMeet hR hA hB hAB hd o
    rw [hc]
    exact some_ne_none c
  · obtain ⟨BC, hBC⟩ := exists_restrict hR hB hC
    refine ⟨BC, hBC, fun D E hD hE hDAB hEBC => ?_⟩
    obtain ⟨X, hX⟩ := exists_restrict hR hD hC
    obtain ⟨Y, hY⟩ := exists_restrict hR hA hE
    exact ⟨X, Y, hX, hY, restrict_assoc hR hA hB hC hD hE hAB hBC hDAB hEBC hX hY⟩

end

/-- Timeouts of 30 and 10 seconds over everything meet in the tighter one. -/
theorem restrict_meets_timeouts : ∃ AB, restrict ⟨timeoutDoc 30000⟩ ⟨timeoutDoc 10000⟩ timeoutRegistry = .ok AB ∧
    SameValues AB.valueAt
      (meetAt timeoutRegistry ((timeoutDoc 30000).valueAt timeoutRegistry) ((timeoutDoc 10000).valueAt timeoutRegistry)) ∧
    ∀ o, meetAt timeoutRegistry ((timeoutDoc 30000).valueAt timeoutRegistry)
      ((timeoutDoc 10000).valueAt timeoutRegistry) timeoutKey o = some (.uint 10000) := by
  have hR : timeoutRegistry.Declared := by
    intro key d hd
    simp only [timeoutRegistry, PolicyRegistry.get, PolicyRegistry.insert, Std.TreeMap.getElem?_insert] at hd
    split at hd
    · cases hd
      exact ⟨rfl, fun h => by cases h⟩
    · simp [PolicyRegistry.empty] at hd
  have hl : ∀ value, 1 ≤ value → (timeoutDoc value).Loaded timeoutRegistry := by
    intro value hv rule hr key v hk
    obtain rfl := mem_singleton.mp hr
    cases hk
    exact ⟨trivial, _, rfl, rfl, if_neg (Nat.not_lt.mpr hv)⟩
  obtain ⟨AB, hAB, -, hm, -⟩ :=
    restrict_is_meet (A := ⟨timeoutDoc 30000⟩) (B := ⟨timeoutDoc 10000⟩) hR (hl _ (by decide)) (hl _ (by decide))
  exact ⟨AB, hAB, hm, fun o => rfl⟩

end Zeroship.Policy
