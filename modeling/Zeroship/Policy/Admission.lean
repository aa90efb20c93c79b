import Zeroship.Policy.Stack

/-! What an admission proves.

Subtraction of scopes may only leave too much. So if nothing is left of the region where
a rule of the charter falls short, every name of the region is decided by a layer above
or lifted by a rule beside it (`within_charter`). Hence no name gets a looser value than
the charter gives it (`no_escalation`). -/
namespace Zeroship.Policy
open List EffectivePolicy
open Base (bind_ok pure_ok forM_ok)

section
variable {r region : Scope} {scopes : List Scope} {o : ObjectName}

theorem mem_subtractPass (ho : r.objectsMembership o) (hs : ∀ s ∈ scopes, ¬ s.objectsMembership o) :
    (subtractPass r scopes).1.objectsMembership o ∧ (subtractPass r scopes).2 ⊆ scopes := by
  induction scopes generalizing r with
  | nil => exact ⟨ho, Subset.refl _⟩
  | cons s rest ih =>
    rw [forall_mem_cons] at hs
    unfold subtractPass
    split
    · rename_i next hd
      obtain ⟨hm, hsb⟩ := ih (mem_difference hd ho hs.1) hs.2
      exact ⟨hm, subset_cons_of_subset s hsb⟩
    · obtain ⟨hm, hsb⟩ := ih ho hs.2
      exact ⟨hm, cons_subset_cons s hsb⟩

theorem mem_subtractLoop {passes : Nat} (ho : r.objectsMembership o) (hs : ∀ s ∈ scopes, ¬ s.objectsMembership o) :
    (subtractLoop passes r scopes).1.objectsMembership o := by
  induction passes generalizing r scopes with
  | zero => exact ho
  | succ passes ih =>
    obtain ⟨hm, hsb⟩ := mem_subtractPass ho hs
    unfold subtractLoop
    split
    · exact ho
    dsimp only
    split
    · exact hm
    · exact ih hm fun s h => hs s (hsb h)

theorem mem_subtractEach (h : subtractEach region scopes = some r) (ho : region.objectsMembership o)
    (hs : ∀ s ∈ scopes, ¬ s.objectsMembership o) : r.objectsMembership o := by
  unfold subtractEach at h
  dsimp only at h
  split at h
  · cases h
  · exact Option.some.inj h ▸ mem_subtractLoop ho hs

theorem exists_of_checkNoneLeft {key : KnobKey} (h : checkNoneLeft key region scopes = .ok ())
    (ho : region.objectsMembership o) : ∃ s ∈ scopes, s.objectsMembership o := by
  by_contra hn
  unfold checkNoneLeft at h
  split at h
  · cases h
  · rename_i hl
    have hm := mem_subtractEach hl ho fun s hs hso => hn ⟨s, hs, hso⟩
    simp at hm
  · cases h

end

section
variable {key : KnobKey} {d : KnobDef} {scope : Scope} {value : KnobValue} {layers : List Layer} {o : ObjectName}
  {kind : KnobKind} {rules : List GrantRule}

theorem mem_splitRules {satisfying fallingShort : List Scope}
    (h : splitRules kind value rules = .ok (satisfying, fallingShort)) :
    (∀ r ∈ rules, NoLooser kind value r.value ∨ r.scope ∈ fallingShort) ∧
      ∀ s ∈ satisfying, ∃ r ∈ rules, r.scope = s ∧ NoLooser kind value r.value := by
  induction rules generalizing satisfying fallingShort with
  | nil => simp_all [splitRules]
  | cons r rest ih =>
    obtain ⟨leq, hl, hr⟩ := bind_ok.mp h
    obtain ⟨⟨s, f⟩, hsp, hp⟩ := bind_ok.mp hr
    rw [ofValueOrder_ok] at hl
    obtain ⟨ha, hst⟩ := ih hsp
    have hp := pure_ok.mp hp
    rw [forall_mem_cons]
    cases leq with
    | true =>
      cases hp
      refine ⟨⟨.inl hl, ha⟩, ?_⟩
      rw [forall_mem_cons]
      exact ⟨⟨r, .head _, rfl, hl⟩, fun s hs => (hst s hs).imp fun r' h => ⟨.tail _ h.1, h.2⟩⟩
    | false =>
      cases hp
      refine ⟨⟨.inr (.head _), fun r' hr' => (ha r' hr').imp_right (.tail _)⟩, ?_⟩
      exact fun s hs => (hst s hs).imp fun r' h => ⟨.tail _ h.1, h.2⟩

theorem exists_of_walkLayers {decided : List Scope} {km : GrantKeyMap}
    (h : walkLayers key d scope value layers decided = .ok ()) (ho : scope.objectsMembership o)
    (hd : ∀ s ∈ decided, ¬ s.objectsMembership o) (hk : decidingMap layers key o = some km) :
    ∃ r ∈ km.rules, r.scope.objectsMembership o ∧ NoLooser d.kind value r.value := by
  induction layers generalizing decided with
  | nil => cases hk
  | cons l rest ih =>
    unfold walkLayers at h
    split at h
    · rename_i hn
      rw [decidingMap_skip (by simp [hn])] at hk
      exact ih h hd hk
    rename_i lm hl
    obtain ⟨⟨satisfying, fallingShort⟩, hsp, hch⟩ := bind_ok.mp h
    obtain ⟨_, hsh, hw⟩ := bind_ok.mp hch
    by_cases hcv : lm.covers o
    · rw [decidingMap_hit hl hcv] at hk
      cases hk
      obtain ⟨ha, hst⟩ := mem_splitRules hsp
      obtain ⟨r, hr, hro⟩ := covers_iff.mp hcv
      rcases ha r hr with hle | hm
      · exact ⟨r, hr, hro, hle⟩
      -- the rule falls short, so the name is in an exempt scope, which is not a decided one
      have hc := forM_ok.mp hsh r.scope hm
      have hss : (scope.meet r.scope).objectsMembership o := by simp [ho, hro]
      unfold checkFallingShort at hc
      dsimp only at hc
      split at hc
      · rename_i hnt
        simp [hnt] at hss
      obtain ⟨s, hs, hso⟩ := exists_of_checkNoneLeft hc hss
      rcases mem_append.mp hs with hs | hs
      · exact absurd hso (hd s hs)
      · obtain ⟨r', hr', rfl, hle⟩ := hst s hs
        exact ⟨r', hr', hso, hle⟩
    · rw [decidingMap_skip fun km h => Option.mem_unique hl h ▸ hcv] at hk
      refine ih hw (fun s hs hso => ?_) hk
      rcases mem_append.mp hs with hs | hs
      · exact hd s hs hso
      · obtain ⟨r, hr, rfl⟩ := mem_map.mp hs
        exact hcv (covers_iff.mpr ⟨r, hr, hso⟩)

theorem mem_nondefaultScopes {default : KnobValue} {scopes : List Scope}
    (h : nondefaultScopes kind default rules = .ok scopes) : ∀ s ∈ scopes, ∃ r ∈ rules, r.scope = s := by
  induction rules generalizing scopes with
  | nil =>
    cases h
    simp
  | cons r rest ih =>
    obtain ⟨leq, -, hr⟩ := bind_ok.mp h
    obtain ⟨tail, ht, hsc⟩ := bind_ok.mp hr
    obtain rfl := pure_ok.mp hsc
    intro s hs
    have hc : s = r.scope ∨ s ∈ tail := by
      cases leq <;> simp_all
    rcases hc with rfl | hs
    · exact ⟨r, .head _, rfl⟩
    · obtain ⟨r', hr', hs'⟩ := ih ht s hs
      exact ⟨r', .tail _ hr', hs'⟩

theorem within_charter {r : GrantRule} (h : checkGrantRule key d layers r = .ok ()) (ho : r.scope.objectsMembership o) :
    NoLooser d.kind r.value d.default ∨ leqValue d.kind r.value d.default = .ok false ∧
      ∃ km, decidingMap layers key o = some km ∧
        ∃ r' ∈ km.rules, r'.scope.objectsMembership o ∧ NoLooser d.kind r.value r'.value := by
  obtain ⟨leq, hlq, hp⟩ := bind_ok.mp h
  rw [ofValueOrder_ok] at hlq
  cases leq with
  | true => exact .inl hlq
  | false =>
    refine .inr ⟨hlq, ?_⟩
    obtain ⟨_, hw, hr⟩ := bind_ok.mp hp
    obtain ⟨raising, hsc, hlf⟩ := bind_ok.mp hr
    -- some rule above its default has the name, so some layer decides it
    obtain ⟨s, hs, hso⟩ := exists_of_checkNoneLeft hlf ho
    obtain ⟨lists, hli, hf⟩ := bind_ok.mp hsc
    obtain rfl := pure_ok.mp hf
    obtain ⟨list, hls, hs⟩ := mem_flatten.mp hs
    obtain ⟨km, hk, hn⟩ := Base.mem_of_mapM hli hls
    obtain ⟨r', hr', rfl⟩ := mem_nondefaultScopes hn s hs
    obtain ⟨l, hl, hg⟩ := mem_mapsOf.mp hk
    obtain ⟨deciding, hd⟩ := decidingMap_ne_none hl hg (covers_iff.mpr ⟨r', hr', hso⟩)
    exact ⟨deciding, hd, exists_of_walkLayers hw ho (by simp) hd⟩

end

/-! ### Admission -/

section
variable {χ : Type} [AdmitCharter χ] {charter : χ} {draft : PolicyDoc} {R : PolicyRegistry} {P : EffectivePolicy}
  {layers : List Layer} {I : KnobDef → GrantRule → Prop} {l : Layer}

/-- A rule of the draft that was checked, or a pinned default. -/
def Checked (layers : List Layer) (d : KnobDef) (r : GrantRule) : Prop :=
  r.value = d.default ∨ checkGrantRule d.key d layers r = .ok ()

/-- An admitted policy is a layer of checked rules over the charter. Whatever the rules of the
draft and the defaults satisfy, the rules of the layer do. -/
theorem admitDraft_under (h : admitDraft charter draft R = .ok P)
    (hdr : draft.Under R I) (hp : ∀ d ∈ R.iter, I d ⟨.all, d.default⟩) :
    ∃ layers l, charterLayers charter R = .ok layers ∧ P = .fromLayers R (l :: layers) ∧
      l.grants.Under R fun d r => Checked layers d r ∧ I d r := by
  obtain ⟨layers, hly, h⟩ := bind_ok.mp h
  obtain ⟨m, hm, h⟩ := bind_ok.mp h
  obtain ⟨_, hk, h⟩ := bind_ok.mp h
  obtain ⟨_, -, h⟩ := bind_ok.mp h
  obtain ⟨_, -, h⟩ := bind_ok.mp h
  obtain ⟨l, hl, h⟩ := bind_ok.mp h
  refine ⟨layers, _, hly, (pure_ok.mp h).symm, under_pinUninherited (fun d => PolicyRegistry.mem_iter.mp) ?_
    fun d hd => ⟨.inl rfl, hp d hd⟩⟩
  have hgr : l.grants = m := by
    obtain ⟨m', hm', hl⟩ := bind_ok.mp hl
    obtain rfl := pure_ok.mp hl
    exact Except.ok.inj (hm'.symm.trans hm)
  rw [hgr]
  refine (GrantModel.under_build hm hdr).mono ?_
  intro key km d hg hd r hr hI
  refine ⟨.inr ?_, hI⟩
  -- the key is one of those that were checked
  obtain rfl := R.keyed key d hd
  have hc := forM_ok.mp hk d.key (Std.TreeMap.mem_keys.mpr (Std.TreeMap.mem_iff_isSome_getElem?.mpr
    (Option.isSome_iff_exists.mpr ⟨km, hg⟩)))
  rw [checkGrantKey, hg] at hc
  obtain ⟨d', hd', hrl⟩ := bind_ok.mp hc
  obtain rfl : d = d' := Option.mem_unique hd (lookup_ok.mp hd')
  exact forM_ok.mp hrl r hr

theorem admitDraft_ok (h : admitDraft charter draft R = .ok P) :
    ∃ layers l, charterLayers charter R = .ok layers ∧ P = .fromLayers R (l :: layers) ∧
      l.grants.Under R (Checked layers) := by
  obtain ⟨layers, l, hly, hP, hl⟩ := admitDraft_under (I := fun _ _ => True) h (fun _ _ _ _ _ _ _ => trivial)
    fun _ _ => trivial
  exact ⟨layers, l, hly, hP, hl.mono fun _ _ _ _ _ _ _ h => h.1⟩

theorem grants_noLooser {key : KnobKey} {d : KnobDef} {o : ObjectName} {v : KnobValue}
    (hl : l.grants.Under R (Checked layers)) (hb : BuiltUnder R layers) (hd : R.get key = some d)
    (hft : Fits d.kind d.default) (hv : (fromLayers R layers).grants key o = some v) :
    ∃ w, (fromLayers R (l :: layers)).grants key o = some w ∧ NoLooser d.kind w v := by
  obtain ⟨hdf, hrl⟩ := grants_upper hb hd hft hv
  by_cases hcv : ∃ km, l.grants.get key = some km ∧ km.covers o
  · -- the layer decides: every covering rule of it is bounded by the charter
    obtain ⟨km, hg, hcv⟩ := hcv
    have hkm : decidingMap (l :: layers) key o = some km := decidingMap_hit hg hcv
    obtain ⟨hkn, hk, hche⟩ := hl.of_get hd hg
    have hbn : ∀ r ∈ km.rules, r.scope.objectsMembership o → NoLooser d.kind r.value v := by
      intro r hr hro
      rcases hche r hr with hva | hch
      · rw [hva]
        exact hdf
      rw [R.keyed key d hd] at hch
      rcases within_charter hch hro with hle | ⟨-, km', hk', r', hr', hro', hle⟩
      · exact hle.trans hdf
      · exact hle.trans (hrl km' hk' r' hr' hro')
    have hvl : ∃ w, km.valueAt o = .ok w ∧ NoLooser km.kind w v := by
      refine valueAt_bounded ?_ ?_
      · rw [hkn, hk]
        exact hdf
      · rw [hkn]
        exact hbn
    obtain ⟨w, hw, hwv⟩ := hvl
    exact ⟨w, grants_of_deciding hkm hw, hkn ▸ hwv⟩
  · -- the layer is silent: the value is that of the charter
    have hf : (fromLayers R (l :: layers)).grants key o = some v := by
      rw [← hv]
      unfold grants fromLayers
      rw [decidingMap_skip fun km hg hc => hcv ⟨km, hg, hc⟩]
    exact ⟨v, hf, (fits_of_leqValue hdf).2⟩

theorem BuiltUnder.cons (hl : l.grants.Under R I) (h : BuiltUnder R layers) : BuiltUnder R (l :: layers) :=
  forall_mem_cons.mpr ⟨hl.mono fun _ _ _ _ _ _ _ _ => trivial, h⟩

/-- An admitted draft gets no looser value than the charter gives, for any key and name. -/
theorem no_escalation (hlayers : charterLayers charter R = .ok layers) (hbuilt : BuiltUnder R layers)
    (h : admitDraft charter draft R = .ok P) (key : KnobKey) (o : ObjectName) :
    match R.get key with
    | none => P.grants key o = none
    | some d => Fits d.kind d.default → ∀ v, (EffectivePolicy.fromLayers R layers).grants key o = some v →
      ∃ w, P.grants key o = some w ∧ NoLooser d.kind w v := by
  obtain ⟨layers', l, hl', rfl, hl⟩ := admitDraft_ok h
  obtain rfl : layers = layers' := Except.ok.inj (hlayers.symm.trans hl')
  split
  · rename_i hk
    exact grants_of_unregistered (hbuilt.cons hl) hk
  · rename_i d hd
    intro hf v hv
    exact grants_noLooser hl hbuilt hd hf hv

end

def timeoutKey : KnobKey := ⟨"runtime.timeout_ms"⟩

def timeoutRegistry : PolicyRegistry := PolicyRegistry.empty.insert ⟨timeoutKey, .uintCharter 1, .grant, .uint 1, true⟩

/-- A document with one timeout over everything. -/
def timeoutDoc (value : Nat) : PolicyDoc := ⟨[⟨.all, .grant timeoutKey (.uint value)⟩]⟩

def platformCharter : RootCharter := ⟨⟨timeoutDoc 30000⟩⟩

/-- An organisation that narrows the platform is admitted, and gets no more than it. -/
theorem no_escalation_of_narrowing : ∃ layers P, charterLayers platformCharter timeoutRegistry = .ok layers ∧
    BuiltUnder timeoutRegistry layers ∧ admitDraft platformCharter (timeoutDoc 10000) timeoutRegistry = .ok P ∧
    ∀ o, ∃ w, P.grants timeoutKey o = some w ∧ NoLooser (.uintCharter 1) w (.uint 30000) := by
  obtain ⟨layers, hl⟩ : ∃ layers, charterLayers platformCharter timeoutRegistry = .ok layers := ⟨_, rfl⟩
  obtain ⟨P, hP⟩ : ∃ P, admitDraft platformCharter (timeoutDoc 10000) timeoutRegistry = .ok P := ⟨_, rfl⟩
  have hb : BuiltUnder timeoutRegistry layers := under_root hl fun _ _ _ _ _ _ _ => trivial
  refine ⟨layers, P, hl, hb, hP, fun o => ?_⟩
  obtain rfl := Except.ok.inj hl
  exact no_escalation hl hb hP timeoutKey o rfl (.uint 30000) rfl

/-- The policies that a chain of drafts leads to, each admitted over the ones before. -/
inductive AdmittedOver (R : PolicyRegistry) (layers : List Layer) : EffectivePolicy → Prop
  | nil : AdmittedOver R layers (.fromLayers R layers)
  | next {χ : Type} [AdmitCharter χ] {charter : χ} {draft : PolicyDoc} {P P' : EffectivePolicy}
      (chain : AdmittedOver R layers P) (same : charterLayers charter R = .ok P.layers)
      (admitted : admitDraft charter draft R = .ok P') : AdmittedOver R layers P'

namespace AdmittedOver
variable {R : PolicyRegistry} {layers : List Layer} {P : EffectivePolicy} {o : ObjectName}

/-- What holds of the charter, and of a layer of checked rules over a stack of the chain if it
holds of the stack, holds of the policy. -/
theorem holds (I : List Layer → Prop) (h : AdmittedOver R layers P) (nil : I layers)
    (next : ∀ below l, AdmittedOver R layers (.fromLayers R below) → l.grants.Under R (Checked below) →
      I below → I (l :: below)) : P = .fromLayers R P.layers ∧ I P.layers := by
  induction h with
  | nil => exact ⟨rfl, nil⟩
  | next chain same admitted ih =>
    obtain ⟨hP, hb⟩ := ih
    obtain ⟨below, l, hs, rfl, hl⟩ := admitDraft_ok admitted
    obtain rfl := Except.ok.inj (same.symm.trans hs)
    exact ⟨rfl, next _ l (hP ▸ chain) hl hb⟩

theorem subset_layers (h : AdmittedOver R layers P) : layers ⊆ P.layers :=
  (h.holds (layers ⊆ ·) (Subset.refl _) fun _ l _ _ hs => subset_cons_of_subset l hs).2

theorem builtUnder (h : AdmittedOver R layers P) (hbl : BuiltUnder R layers) : BuiltUnder R P.layers :=
  (h.holds (BuiltUnder R) hbl fun _ _ _ hl hb => BuiltUnder.cons hl hb).2

theorem covering_subset {β : Type} {more : List Layer} (hs : layers ⊆ more) (rules : Layer → List Rule)
    (f : Rule → Option β) :
    ((layers.flatMap rules).filter fun r => r.scope.objectsMembership o).filterMap f ⊆
      ((more.flatMap rules).filter fun r => r.scope.objectsMembership o).filterMap f := by
  intro b hb
  obtain ⟨r, hr, hf⟩ := mem_filterMap.mp hb
  obtain ⟨hr, hro⟩ := mem_filter.mp hr
  obtain ⟨l, hl, hin⟩ := mem_flatMap.mp hr
  exact mem_filterMap.mpr ⟨r, mem_filter.mpr ⟨mem_flatMap.mpr ⟨l, hs hl, hin⟩, hro⟩, hf⟩

/-- Nothing that the charter requires, injects or validates is dropped. -/
theorem keeps_rules (h : AdmittedOver R layers P) (o : ObjectName) :
    (fromLayers R layers).obligations o ⊆ P.obligations o ∧ (fromLayers R layers).injectsFor o ⊆ P.injectsFor o ∧
      (fromLayers R layers).validatesFor o ⊆ P.validatesFor o := by
  have hs := h.subset_layers
  have hr : layers.reverse ⊆ P.layers.reverse := by simpa [subset_def] using hs
  exact ⟨covering_subset hs _ _, covering_subset hr _ _, covering_subset hr _ _⟩

/-- A chain of drafts, however long, gets no looser value than its charter gives, and keeps what the
charter requires, injects and validates. -/
theorem chain_only_tightens (hbuilt : BuiltUnder R layers) (hchain : AdmittedOver R layers P) {key : KnobKey}
    {d : KnobDef} (hd : R.get key = some d) (hfits : Fits d.kind d.default) {v : KnobValue}
    (hv : (fromLayers R layers).grants key o = some v) : (∃ w, P.grants key o = some w ∧ NoLooser d.kind w v) ∧
      (fromLayers R layers).obligations o ⊆ P.obligations o ∧ (fromLayers R layers).injectsFor o ⊆ P.injectsFor o ∧
      (fromLayers R layers).validatesFor o ⊆ P.validatesFor o := by
  refine ⟨?_, hchain.keeps_rules o⟩
  obtain ⟨hP, -, hw⟩ := hchain.holds
    (fun stack => BuiltUnder R stack ∧ ∃ w, (fromLayers R stack).grants key o = some w ∧ NoLooser d.kind w v)
    ⟨hbuilt, v, hv, (fits_of_leqValue (grants_upper hbuilt hd hfits hv).1).2⟩
    fun below l _ hl ⟨hb, w, hw, hle⟩ => by
      obtain ⟨w', hw', hle'⟩ := grants_noLooser hl hb hd hfits hw
      exact ⟨hb.cons hl, w', hw', hle'.trans hle⟩
  rw [hP]
  exact hw

end AdmittedOver

/-- Two drafts that narrow the platform one after the other. -/
theorem chain_only_tightens_of_timeouts : ∃ layers P, AdmittedOver timeoutRegistry layers P ∧
    ∀ o, ∃ w, P.grants timeoutKey o = some w ∧ NoLooser (.uintCharter 1) w (.uint 30000) := by
  obtain ⟨layers, hl⟩ : ∃ layers, charterLayers platformCharter timeoutRegistry = .ok layers := ⟨_, rfl⟩
  have hb : BuiltUnder timeoutRegistry layers := under_root hl fun _ _ _ _ _ _ _ => trivial
  obtain rfl := Except.ok.inj hl
  obtain ⟨P, hP, hs, P', hP'⟩ : ∃ P, admitDraft platformCharter (timeoutDoc 10000) timeoutRegistry = .ok P ∧
      charterLayers P timeoutRegistry = .ok P.layers ∧ ∃ P', admitDraft P (timeoutDoc 5000) timeoutRegistry = .ok P' :=
    ⟨_, rfl, rfl, _, rfl⟩
  have hc : AdmittedOver timeoutRegistry _ P' := .next (.next .nil hl hP) hs hP'
  have hd : timeoutRegistry.get timeoutKey = some ⟨timeoutKey, .uintCharter 1, .grant, .uint 1, true⟩ := rfl
  exact ⟨_, P', hc, fun o => (AdmittedOver.chain_only_tightens hb hc hd rfl rfl).1⟩

end Zeroship.Policy
