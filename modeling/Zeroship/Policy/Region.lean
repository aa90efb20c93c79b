import Zeroship.Policy.Mandatory
import Zeroship.Policy.Union

/-! The granted region against the values at the names.

`grantRegion` takes from each layer what it raises without the union of what the layers
above cover. That union forgets excludes, so it may take too much: a name may be raised
though the region is empty. `grantRegion_agrees_iff` says exactly when. -/
namespace Zeroship.Policy
open List GrantKeyMap Base EffectivePolicy GrantRule PolicyRegistry

/-- Every default is valid, and digests are never granted. -/
def PolicyRegistry.Declared (R : PolicyRegistry) : Prop :=
  ∀ key d, R.get key = some d → d.default.validateFor d.kind = .ok () ∧ (d.kind = .digest → d.polarity ≠ .grant)

/-- What the loader lets through: a grant names a knob that is granted, its value is valid
and its scope has an include. -/
def PolicyDoc.Loaded (R : PolicyRegistry) (doc : PolicyDoc) : Prop :=
  ∀ rule ∈ doc.rules, ∀ key value, rule.kind = .grant key value → rule.scope.Proper ∧
    ∃ d, R.get key = some d ∧ d.polarity = .grant ∧ value.validateFor d.kind = .ok ()

/-- The stacks that loaded documents are composed to. -/
inductive Composed (R : PolicyRegistry) : List Layer → Prop
  | root {c : RootCharter} {layers : List Layer} (doc : c.doc.doc.Loaded R)
      (charter : charterLayers c R = .ok layers) : Composed R layers
  | overlay {base env : TrustedDoc} {A : AssembledCharter} {C : Charter} (base_doc : base.doc.Loaded R)
      (env_doc : env.doc.Loaded R) (assembled : overlay base env R = .ok A) (final : finalizeCharter A = .ok C) :
      Composed R C.layers
  | restrict {outer inner : TrustedDoc} {A : AssembledCharter} {C : Charter} (outer_doc : outer.doc.Loaded R)
      (inner_doc : inner.doc.Loaded R) (assembled : restrict outer inner R = .ok A)
      (final : finalizeCharter A = .ok C) : Composed R C.layers
  | policy {χ : Type} [AdmitCharter χ] {charter : χ} {draft : PolicyDoc} {layers : List Layer} {P : EffectivePolicy}
      (below : Composed R layers) (same : charterLayers charter R = .ok layers) (doc : draft.Loaded R)
      (admitted : admitDraft charter draft R = .ok P) : Composed R P.layers

/-- A rule with a proper scope and a value that can be joined. -/
structure GrantRule.Sound (d : KnobDef) (r : GrantRule) : Prop where
  proper : r.scope.Proper
  fits : Fits d.kind r.value
  digest : d.kind = .digest → r.value = d.default

section
variable {R : PolicyRegistry} {doc : PolicyDoc} {layers : List Layer}

theorem PolicyDoc.Loaded.under (h : doc.Loaded R) (hR : R.Declared) : doc.Under R Sound := by
  intro rule hr key value d hk hd
  obtain ⟨hpr, d', hd', hp, hv⟩ := h rule hr key value hk
  obtain rfl : d = d' := Option.mem_unique hd hd'
  exact ⟨hpr, fits_of_validateFor hv, fun hdg => absurd hp ((hR key d hd).2 hdg)⟩

theorem sound_default {d : KnobDef} (hR : R.Declared) (hd : d ∈ R.iter) : Sound d ⟨.all, d.default⟩ :=
  ⟨trivial, fits_of_validateFor (hR d.key d (mem_iter.mp hd)).1, fun _ => rfl⟩

theorem sound_clampRule {d : KnobDef} {a b c : GrantRule} (ha : a.Sound d) (hb : b.Sound d)
    (h : clampRule d.kind a b = .ok (some c)) : c.Sound d := by
  unfold clampRule at h
  dsimp only at h
  split at h
  · cases h
  obtain ⟨value, hv, hc⟩ := bind_ok.mp h
  rw [ofValueOrder_ok] at hv
  obtain rfl := Option.some.inj (pure_ok.mp hc)
  refine ⟨proper_meet ha.proper hb.proper, fits_of_meetValue hv, fun hd => ?_⟩
  rw [ha.digest hd, hb.digest hd, hd] at hv
  simp only [meetValue, bind_ok] at hv
  obtain ⟨x, hx, y, hy, hv⟩ := hv
  obtain rfl : x = y := Except.ok.inj (hx.symm.trans hy)
  rw [if_pos rfl] at hv
  exact (pure_ok.mp hv).symm

theorem Composed.sound (h : Composed R layers) (hR : R.Declared) : ∀ l ∈ layers, l.grants.Under R Sound := by
  induction h with
  | root doc charter => exact under_root charter (doc.under hR)
  | overlay base_doc env_doc assembled final =>
    rw [(finalizeCharter_ok final).1]
    exact under_overlay assembled (base_doc.under hR) (env_doc.under hR)
  | restrict outer_doc inner_doc assembled final =>
    rw [(finalizeCharter_ok final).1]
    exact under_restrict assembled (outer_doc.under hR) (inner_doc.under hR) fun d a b c => sound_clampRule
  | policy _ same doc admitted ih =>
    obtain ⟨below, l, hs, rfl, hl⟩ := admitDraft_under admitted (doc.under hR) fun d => sound_default hR
    obtain rfl := Except.ok.inj (same.symm.trans hs)
    exact forall_mem_cons.mpr ⟨hl.mono fun _ _ _ _ _ _ _ h => h.2, ih⟩

end

namespace GrantKeyMap

def scopes (km : GrantKeyMap) : List Scope := km.rules.map GrantRule.scope

/-- The scopes of the rules above the default. -/
def raising (km : GrantKeyMap) : List Scope :=
  (km.rules.filter fun r => leqValue km.kind r.value km.default = .ok false).map GrantRule.scope

/-- A map of the knob with sound rules. -/
structure Sound (d : KnobDef) (km : GrantKeyMap) : Prop where
  kind : km.kind = d.kind
  default : km.default = d.default
  fits : Fits d.kind d.default
  rules : ∀ r ∈ km.rules, r.Sound d

end GrantKeyMap

variable (maps : List GrantKeyMap)

/-- The scopes of all the maps. -/
def scopesOf : List Scope := maps.flatMap GrantKeyMap.scopes

section
variable {R : PolicyRegistry} {layers : List Layer} {d : KnobDef} {km : GrantKeyMap} {o : ObjectName}
  {rules : List GrantRule} {done : List Scope} {acc : Scope}

theorem sound_mapsOf (hs : ∀ l ∈ layers, l.grants.Under R Sound) (hd : R.get d.key = some d)
    (hf : Fits d.kind d.default) : ∀ km ∈ mapsOf layers d.key, km.Sound d := by
  intro km hk
  obtain ⟨l, hl, hg⟩ := mem_mapsOf.mp hk
  obtain ⟨hkn, hdf, hr⟩ := (hs l hl).of_get hd hg
  exact ⟨hkn, hdf, hf, hr⟩

theorem mem_raising {s : Scope} :
    s ∈ km.raising ↔ ∃ r ∈ km.rules, leqValue km.kind r.value km.default = .ok false ∧ r.scope = s := by
  simp [raising, and_assoc]

theorem covers_iff_scopes : km.covers o ↔ ∃ s ∈ km.scopes, s.objectsMembership o := by
  simp [covers_iff, scopes]

theorem GrantKeyMap.Sound.proper (h : km.Sound d) : ∀ s ∈ km.scopes, s.Proper := by
  intro s hs
  obtain ⟨r, hr, rfl⟩ := mem_map.mp hs
  exact (h.rules r hr).proper

theorem unites_foldl (ha : Unites done acc) (hd : ∀ s ∈ done, s.Proper) (hr : ∀ r ∈ rules, r.scope.Proper) :
    Unites (done ++ rules.map scope) (rules.foldl (fun acc r => acc.join r.scope) acc) := by
  induction rules generalizing done acc with
  | nil => simpa using ha
  | cons r rest ih =>
    rw [forall_mem_cons] at hr
    have hn := ha.join (unites_singleton hr.1) hd
    have hp : ∀ s ∈ done ++ [r.scope], s.Proper := by simpa [or_imp, forall_and] using ⟨hd, hr.1⟩
    simpa using ih hn hp hr.2

theorem unites_coveredScope (h : km.Sound d) : Unites km.scopes km.coveredScope :=
  unites_foldl unites_nil (by simp) fun r hr => (h.rules r hr).proper

theorem unites_foldlM {kind : KnobKind} {default : KnobValue} (ha : Unites done acc) (hd : ∀ s ∈ done, s.Proper)
    (hrl : ∀ r ∈ rules, r.scope.Proper ∧ ∃ t, leqValue kind r.value default = .ok t) :
    ∃ granted, rules.foldlM (joinGranted kind default) acc = .ok granted ∧
      Unites (done ++ (rules.filter fun r => leqValue kind r.value default = .ok false).map scope) granted := by
  induction rules generalizing done acc with
  | nil => exact ⟨acc, rfl, by simpa using ha⟩
  | cons r rest ih =>
    rw [forall_mem_cons] at hrl
    obtain ⟨⟨hp, t, ht⟩, hr⟩ := hrl
    cases t with
    | true =>
      obtain ⟨granted, hg, hu⟩ := ih ha hd hr
      refine ⟨granted, ?_, by simpa [ht] using hu⟩
      rw [foldlM_cons, bind_ok]
      exact ⟨acc, by simp [joinGranted, ht, ofValueOrder]; rfl, hg⟩
    | false =>
      have hn := ha.join (unites_singleton hp) hd
      have hp' : ∀ s ∈ done ++ [r.scope], s.Proper := by simpa [or_imp, forall_and] using ⟨hd, hp⟩
      obtain ⟨granted, hg, hu⟩ := ih hn hp' hr
      refine ⟨granted, ?_, by simpa [ht] using hu⟩
      rw [foldlM_cons, bind_ok]
      exact ⟨acc.join r.scope, by simp [joinGranted, ht, ofValueOrder]; rfl, hg⟩

theorem unites_grantedScope (h : km.Sound d) : ∃ granted, km.grantedScope = .ok granted ∧ Unites km.raising granted := by
  refine unites_foldlM unites_nil (by simp) fun r hr => ⟨(h.rules r hr).proper, ?_⟩
  rw [h.kind, h.default]
  exact leqValue_of_fits (h.rules r hr).fits h.fits

end

/-! ### The estimate -/

/-- Something that a map raises is left without what the maps above cover. -/
def Outlives : Prop :=
  Base.ExistsSplit (fun above km => LeavesSome km.raising (scopesOf above)) maps

/-- A map raises everything, and those above cover nothing. -/
def Tops : Prop :=
  Base.ExistsSplit (fun above km => (∀ s ∈ scopesOf above, s = .nothing) ∧ .all ∈ km.raising) maps

/-- What the estimate says of the maps so far. -/
structure Estimates (maps : List GrantKeyMap) (e : RegionEstimate) : Prop where
  proper : e.region.Proper
  masked : Unites (scopesOf maps) e.maskedAbove
  empty : e.region = .nothing ↔ ¬ Outlives maps
  top : e.region = .all → e.exactness = .exact → Tops maps

section
variable {d : KnobDef} {km : GrantKeyMap} {maps rest : List GrantKeyMap} {e : RegionEstimate} {granted mask : Scope}

theorem proper_visible (h : granted.Proper) : (granted.visible mask).Proper := by
  cases granted <;> cases mask <;> simp only [Scope.visible, Scope.difference]
  case of.of => exact proper_join proper_normalize (by split; trivial; exact proper_meet h proper_normalize)
  all_goals trivial

theorem difference_eq_all (h : granted.difference mask = .scope .all) : granted = .all ∧ mask = .nothing := by
  cases granted with
  | nothing => cases mask <;> simp [Scope.difference] at h
  | all => cases mask <;> simp [Scope.difference] at h ⊢
  | of gi ge => exact absurd h difference_of_ne_all

theorem outlives_concat : Outlives (maps ++ [km]) ↔ Outlives maps ∨ LeavesSome km.raising (scopesOf maps) :=
  existsSplit_concat

theorem addMap_eq (h : km.grantedScope = .ok granted) : e.addMap km = .ok {
    region := e.region.join (granted.visible e.maskedAbove)
    exactness := if granted.difference e.maskedAbove = .notRepresentable then .widened else e.exactness
    maskedAbove := e.maskedAbove.join km.coveredScope } := by
  rw [RegionEstimate.addMap, bind_ok]
  refine ⟨granted, h, ?_⟩
  rw [Scope.visible]
  cases granted.difference e.maskedAbove <;> rfl

theorem Estimates.addMap (he : Estimates maps e) (hmaps : ∀ km ∈ maps, km.Sound d) (hk : km.Sound d) :
    ∃ e', e.addMap km = .ok e' ∧ Estimates (maps ++ [km]) e' := by
  obtain ⟨granted, hg, hu⟩ := unites_grantedScope hk
  have hp : ∀ s ∈ scopesOf maps, s.Proper := by
    intro s hs
    obtain ⟨km', hk', hs⟩ := mem_flatMap.mp hs
    exact (hmaps km' hk').proper s hs
  have hrs : ∀ s ∈ km.raising, s.Proper := by
    intro s hs
    obtain ⟨r, hr, -, rfl⟩ := mem_raising.mp hs
    exact (hk.rules r hr).proper
  have hm : Unites (scopesOf (maps ++ [km])) (e.maskedAbove.join km.coveredScope) := by
    simpa [scopesOf] using he.masked.join (unites_coveredScope hk) hp
  have hv : (granted.visible e.maskedAbove).Proper := proper_visible (hu.proper hrs)
  have hem : e.region.join (granted.visible e.maskedAbove) = .nothing ↔ ¬ Outlives (maps ++ [km]) := by
    rw [join_eq_nothing he.proper, he.empty, visible_eq_nothing hu he.masked, outlives_concat, not_or]
  refine ⟨_, addMap_eq hg, proper_join he.proper hv, hm, hem, fun ha hex => ?_⟩
  rw [Tops, existsSplit_concat]
  -- the region is exact, so the last difference had a form
  cases hd : granted.difference e.maskedAbove with
  | notRepresentable => simp [hd] at hex
  | scope visible =>
    simp only [hd, reduceCtorEq, if_false] at hex
    simp only [Scope.visible, hd] at ha
    rcases (join_eq_all he.proper).mp ha with ha | rfl
    · exact .inl (he.top ha hex)
    obtain ⟨rfl, hms⟩ := difference_eq_all hd
    refine .inr ⟨?_, hu⟩
    have hun := he.masked
    rwa [hms] at hun

theorem estimates_foldlM (he : Estimates maps e) (hmaps : ∀ km ∈ maps, km.Sound d) (hr : ∀ km ∈ rest, km.Sound d) :
    ∃ e', rest.foldlM RegionEstimate.addMap e = .ok e' ∧ Estimates (maps ++ rest) e' := by
  induction rest generalizing maps e with
  | nil => exact ⟨e, rfl, by simpa using he⟩
  | cons km rest ih =>
    rw [forall_mem_cons] at hr
    obtain ⟨next, hn, hes⟩ := he.addMap hmaps hr.1
    have hm' : ∀ km' ∈ maps ++ [km], km'.Sound d := by
      simpa [or_imp, forall_and] using ⟨hmaps, hr.1⟩
    obtain ⟨e', he', hf⟩ := ih hes hm' hr.2
    refine ⟨e', ?_, by simpa using hf⟩
    rw [foldlM_cons, bind_ok]
    exact ⟨next, hn, he'⟩

theorem estimates_empty : Estimates [] .empty := by
  refine ⟨trivial, unites_nil, ?_, fun h => by cases h⟩
  simp [RegionEstimate.empty, Outlives, ExistsSplit]

/-- The region is empty exactly if nothing outlives its mask, and universal only if a map that
raises everything is the first to cover anything. -/
theorem grantRegion_of_sound {P : EffectivePolicy} {key : KnobKey} (h : ∀ km ∈ mapsOf P.layers key, km.Sound d) :
    (P.grantRegion key = .ungranted ↔ ¬ Outlives (mapsOf P.layers key)) ∧
      (P.grantRegion key = .top → Tops (mapsOf P.layers key)) := by
  obtain ⟨e, he, hes⟩ := estimates_foldlM estimates_empty (by simp) h
  have hs : P.effectiveGrantedScope key = .ok (e.region, e.exactness) := by
    rw [effectiveGrantedScope, he]
    rfl
  rw [nil_append] at hes
  rw [← hes.empty, grantRegion, hs]
  have ht := hes.top
  cases hr : e.region with
  | nothing | of includes excludes => simp
  | all => cases hex : e.exactness <;> simp_all

end

section
variable {R : PolicyRegistry} {layers : List Layer} {key : KnobKey} {d : KnobDef} {km : GrantKeyMap} {o : ObjectName}

theorem decidingMap_eq_find? : decidingMap layers key o = (mapsOf layers key).find? fun km => km.covers o := by
  induction layers with
  | nil => rfl
  | cons l rest ih =>
    cases hm : l.grants.get key with
    | none =>
      rw [decidingMap_skip (by simp [hm]), ih]
      simp [mapsOf, hm]
    | some km =>
      by_cases hc : km.covers o
      · rw [decidingMap_hit hm hc]
        simp [mapsOf, hm, hc]
      · rw [decidingMap_skip fun _ h => Option.mem_unique hm h ▸ hc, ih]
        simp [mapsOf, hm, hc]

theorem raised_iff (hmaps : ∀ km ∈ mapsOf layers d.key, km.Sound d) : Raised d layers o ↔
    ExistsSplit (fun above km => (∀ s ∈ scopesOf above, ¬ s.objectsMembership o) ∧
      ∃ s ∈ km.raising, s.objectsMembership o) (mapsOf layers d.key) := by
  have hc {above : List GrantKeyMap} :
      (∀ s ∈ scopesOf above, ¬ s.objectsMembership o) ↔ ∀ km ∈ above, (!km.covers o) := by
    simp only [scopesOf, mem_flatMap, Bool.not_eq_true', ← Bool.not_eq_true, covers_iff_scopes]
    exact ⟨fun h km hk ⟨s, hs, hso⟩ => h s ⟨km, hk, hs⟩ hso, fun h s ⟨km, hk, hs⟩ hso => h km hk ⟨s, hs, hso⟩⟩
  have hrs {km : GrantKeyMap} (hk : km.Sound d) : (∃ s ∈ km.raising, s.objectsMembership o) ↔
      ∃ r ∈ km.rules, r.scope.objectsMembership o ∧ leqValue d.kind r.value d.default = .ok false := by
    simp only [mem_raising, hk.kind, hk.default]
    exact ⟨fun ⟨_, ⟨r, hr, ha, rfl⟩, hso⟩ => ⟨r, hr, hso, ha⟩,
      fun ⟨r, hr, hso, ha⟩ => ⟨_, ⟨r, hr, ha, rfl⟩, hso⟩⟩
  simp only [Raised, decidingMap_eq_find?, find?_eq_some_iff_append]
  constructor
  · rintro ⟨km, ⟨-, above, below, heq, ha⟩, hr⟩
    refine ⟨above, km, below, heq, hc.mpr ha, (hrs (hmaps km ?_)).mpr hr⟩
    simp [heq]
  · rintro ⟨above, km, below, heq, ha, hs⟩
    obtain ⟨r, hr, hro, hl⟩ := (hrs (hmaps km (by simp [heq]))).mp hs
    exact ⟨km, ⟨covers_iff.mpr ⟨r, hr, hro⟩, above, below, heq, hc.mp ha⟩, r, hr, hro, hl⟩

theorem joinCovering_of_fits {kind : KnobKind} {rules : List GrantRule} {acc : KnobValue} (hk : kind ≠ .digest)
    (ha : Fits kind acc) (hrl : ∀ r ∈ rules, Fits kind r.value) :
    ∃ w, rules.foldlM (joinCovering kind o) acc = .ok w := by
  induction rules generalizing acc with
  | nil => exact ⟨acc, rfl⟩
  | cons r rest ih =>
    rw [forall_mem_cons] at hrl
    by_cases hr : r.scope.objectsMembership o
    · obtain ⟨next, hn⟩ := (exists_of_fits hk ha hrl.1).1
      obtain ⟨w, hw⟩ := ih (fits_of_leqValue (joinValue_lub hn).1).2 hrl.2
      exact ⟨w, bind_ok.mpr ⟨next, by rw [joinCovering, if_pos hr, ofValueOrder_ok, hn], hw⟩⟩
    · obtain ⟨w, hw⟩ := ih ha hrl.2
      exact ⟨w, bind_ok.mpr ⟨acc, by rw [joinCovering, if_neg hr], hw⟩⟩

theorem exists_valueAt (h : km.Sound d) : ∃ w, km.valueAt o = .ok w := by
  have hf : Fits km.kind km.default := by
    rw [h.kind, h.default]
    exact h.fits
  by_cases hd : d.kind = .digest
  · -- digests are at the default, which bounds them
    obtain ⟨w, hw, -⟩ := valueAt_bounded (o := o) hf fun r hr _ => by
      rw [(h.rules r hr).digest hd, ← h.default]
      exact hf
    exact ⟨w, hw⟩
  · refine joinCovering_of_fits (by rw [h.kind]; exact hd) hf fun r hr => ?_
    rw [h.kind]
    exact (h.rules r hr).fits

theorem exists_grants (hmaps : ∀ km ∈ mapsOf layers d.key, km.Sound d) (hd : R.get d.key = some d) :
    ∃ w, (fromLayers R layers).grants d.key o = some w := by
  cases hk : decidingMap layers d.key o with
  | none => exact ⟨_, grants_of_undecided hk hd⟩
  | some km =>
    obtain ⟨w, hw⟩ := exists_valueAt (hmaps km (mem_mapsOf.mpr (of_decidingMap hk).1)) (o := o)
    exact ⟨w, grants_of_deciding hk hw⟩

theorem grants_above_iff (hb : BuiltUnder R layers) (hd : R.get d.key = some d) (hf : Fits d.kind d.default)
    {w : KnobValue} (hw : (fromLayers R layers).grants d.key o = some w) :
    leqValue d.kind w d.default = .ok false ↔ Raised d layers o := by
  refine ⟨raised_of_grants hb hd hw, ?_⟩
  rintro ⟨km, hk, r, hr, hro, ha⟩
  exact above_default ha ((grants_upper hb hd hf hw).2 km hk r hr hro)

end

/-! ### Agreement -/

/-- A map raises a name that the maps above do not cover, yet their union swallows it. -/
def Hidden (maps : List GrantKeyMap) (o : ObjectName) : Prop :=
  Base.ExistsSplit (fun above km => (∀ s ∈ scopesOf above, ¬ s.objectsMembership o) ∧
    (∃ s ∈ km.raising, s.objectsMembership o) ∧ Swallows (scopesOf above) o) maps

section
variable {R : PolicyRegistry} {layers : List Layer} {key : KnobKey} {d : KnobDef} {o : ObjectName} {P : EffectivePolicy}

theorem mem_visible {granted mask : Scope} (hg : granted.objectsMembership o) (hm : ¬ mask.objectsMembership o) :
    (granted.visible mask).objectsMembership o := by
  unfold Scope.visible
  split
  · rename_i hd
    exact mem_difference hd hg hm
  · exact hg

section
variable (hmaps : ∀ km ∈ mapsOf layers d.key, km.Sound d)
include hmaps

/-- If nothing outlives its mask, every raised name is hidden. -/
theorem hidden_of_raised (hn : ¬ Outlives (mapsOf layers d.key))
    (h : Raised d layers o) : Hidden (mapsOf layers d.key) o := by
  obtain ⟨above, km, below, heq, hu, s, hs, hso⟩ := (raised_iff hmaps).mp h
  refine ⟨above, km, below, heq, hu, ⟨s, hs, hso⟩, ?_⟩
  rw [heq] at hmaps
  obtain ⟨granted, -, hg⟩ := unites_grantedScope (hmaps km (by simp))
  obtain ⟨e, -, he⟩ := estimates_foldlM estimates_empty (by simp) fun km' hk' =>
    hmaps km' (mem_append_left _ hk')
  have hm : Unites (scopesOf above) e.maskedAbove := he.masked
  have hv : granted.visible e.maskedAbove = .nothing :=
    (visible_eq_nothing hg hm).mpr fun hl => hn ⟨above, km, below, heq, hl⟩
  -- the mask has the name: otherwise it would show
  refine hm.swallows ?_ hu
  by_contra hun
  have hmm := mem_visible (hg.mem hs hso) hun
  simp [hv] at hmm

theorem exists_grants_iff (hb : BuiltUnder R layers) (hd : R.get d.key = some d) (hf : Fits d.kind d.default) :
    ∃ w, (fromLayers R layers).grants d.key o = some w ∧
      (leqValue d.kind w d.default = .ok false ↔ Raised d layers o) ∧
      (NoLooser d.kind w d.default ↔ ¬ Raised d layers o) := by
  obtain ⟨w, hw⟩ := exists_grants (o := o) hmaps hd
  have hi := grants_above_iff hb hd hf hw
  obtain ⟨t, ht⟩ := leqValue_of_fits (fits_of_leqValue (grants_upper hb hd hf hw).1).2 hf
  refine ⟨w, hw, hi, ?_⟩
  rw [← hi, NoLooser, ht]
  cases t <;> simp

theorem raised_of_tops (h : Tops (mapsOf layers d.key)) : Raised d layers o := by
  obtain ⟨above, km, below, heq, he, ha⟩ := h
  refine (raised_iff hmaps).mpr ⟨above, km, below, heq, fun s hs => ?_, .all, ha, rfl⟩
  simp [he s hs]

end

/-- The region agrees with the values unless it is empty while a raised name is hidden. -/
theorem grantRegion_agrees_iff {χ : Type} [AdmitCharter χ] {charter : χ} {draft : PolicyDoc} (hR : R.Declared)
    (hcharter : Composed R layers) (hlayers : charterLayers charter R = .ok layers) (hdraft : draft.Loaded R)
    (h : admitDraft charter draft R = .ok P) (hd : R.get key = some d) :
    ((P.grantRegion key = .ungranted → ∀ o, ∃ w, P.grants key o = some w ∧ NoLooser d.kind w d.default) ∧
      (P.grantRegion key = .top → ∀ o, ∃ w, P.grants key o = some w ∧ leqValue d.kind w d.default = .ok false)) ↔
    Outlives (mapsOf P.layers key) ∨ ∀ o, ¬ Hidden (mapsOf P.layers key) o := by
  obtain rfl := R.keyed key d hd
  have hs := (Composed.policy hcharter hlayers hdraft h).sound hR
  have hP : P = .fromLayers R P.layers := by
    obtain ⟨_, _, -, rfl, -⟩ := admitDraft_ok h
    rfl
  have hf : Fits d.kind d.default := fits_of_validateFor (hR d.key d hd).1
  have hb : BuiltUnder R P.layers := fun l hl => (hs l hl).mono fun _ _ _ _ _ _ _ _ => trivial
  have hmaps := sound_mapsOf hs hd hf
  have hv (o : ObjectName) := exists_grants_iff (o := o) hmaps hb hd hf
  rw [← hP] at hv
  obtain ⟨hu, ht⟩ := grantRegion_of_sound hmaps
  constructor
  · rintro ⟨hn, -⟩
    by_contra hno
    push Not at hno
    obtain ⟨ho, o, above, km, below, heq, hun, hrsn, -⟩ := hno
    obtain ⟨w, hw, -, hnt⟩ := hv o
    obtain ⟨w', hw', hle⟩ := hn (hu.mpr ho) o
    obtain rfl := Option.mem_unique hw hw'
    exact hnt.mp hle ((raised_iff hmaps).mpr ⟨above, km, below, heq, hun, hrsn⟩)
  · refine fun hc => ⟨fun hr o => ?_, fun hr o => ?_⟩
    · obtain ⟨w, hw, -, hnt⟩ := hv o
      refine ⟨w, hw, hnt.mpr fun hrs => ?_⟩
      have hn := hu.mp hr
      exact (hc.resolve_left hn) o (hidden_of_raised hmaps hn hrs)
    · obtain ⟨w, hw, ha, -⟩ := hv o
      exact ⟨w, hw, ha.mpr (raised_of_tops hmaps (ht hr))⟩

end

def rawSqlKey : KnobKey := ⟨"core.raw_sql"⟩

def rawSqlKnob : KnobDef := ⟨rawSqlKey, .bool, .grant, .bool false, true⟩

def rawSqlRegistry : PolicyRegistry := PolicyRegistry.empty.insert rawSqlKnob

/-- The schema `app_secret`. -/
def appSecret : ObjectName := ⟨[97, 112, 112, 95, 115, 101, 99, 114, 101, 116], none⟩

def appSecretPattern : Pattern := .ofSchema (.literal appSecret.schema)

/-- Raw SQL over `app_secret`. -/
def secretCharter : RootCharter := ⟨⟨⟨[⟨.of [appSecretPattern] [], .grant rawSqlKey (.bool true)⟩]⟩⟩⟩

/-- No raw SQL over `app*` but `app_secret`, and none over `foo`. -/
def maskingDraft : PolicyDoc := ⟨[
  ⟨.of [.ofSchema (.infixGlob [97, 112, 112] [])] [appSecretPattern], .grant rawSqlKey (.bool false)⟩,
  ⟨.of [.ofSchema (.literal [102, 111, 111])] [], .grant rawSqlKey (.bool false)⟩]⟩

theorem declared_rawSql : rawSqlRegistry.Declared := by
  intro key d hd
  have hd : d = rawSqlKnob := by
    simp only [rawSqlRegistry, PolicyRegistry.get, PolicyRegistry.insert, Std.TreeMap.getElem?_insert] at hd
    split at hd
    · exact (Option.some.inj hd).symm
    · simp [PolicyRegistry.empty] at hd
  subst hd
  exact ⟨rfl, fun h => by cases h⟩

theorem loaded_rawSql {rules : List Rule}
    (h : ∀ r ∈ rules, ∃ i e on, r = ⟨.of i e, .grant rawSqlKey (.bool on)⟩ ∧ i ≠ []) :
    (⟨rules⟩ : PolicyDoc).Loaded rawSqlRegistry := by
  intro rule hr key value hk
  obtain ⟨i, e, on, rfl, hi⟩ := h rule hr
  cases hk
  exact ⟨hi, rawSqlKnob, rfl, rfl, rfl⟩

theorem loaded_secretCharter : secretCharter.doc.doc.Loaded rawSqlRegistry := loaded_rawSql (by simp)

theorem loaded_maskingDraft : maskingDraft.Loaded rawSqlRegistry := loaded_rawSql (by simp)

/-- The draft is admitted, the region is empty, and `app_secret` has the grant. -/
theorem ungranted_though_granted : rawSqlRegistry.Declared ∧ secretCharter.doc.doc.Loaded rawSqlRegistry ∧
    maskingDraft.Loaded rawSqlRegistry ∧ ∃ P, admitDraft secretCharter maskingDraft rawSqlRegistry = .ok P ∧
      P.grantRegion rawSqlKey = .ungranted ∧ P.grants rawSqlKey appSecret = some (.bool true) ∧
      leqValue rawSqlKnob.kind (.bool true) rawSqlKnob.default = .ok false :=
  ⟨declared_rawSql, loaded_secretCharter, loaded_maskingDraft, _, rfl, rfl, rfl, rfl⟩

/-- No raw SQL over `app*`. -/
def appGrant : GrantRule := ⟨.of [.ofSchema (.infixGlob [97, 112, 112] [])] [], .bool false⟩

def appDraft : PolicyDoc := ⟨[⟨appGrant.scope, .grant rawSqlKey appGrant.value⟩]⟩

def appPolicy : EffectivePolicy := .fromLayers rawSqlRegistry [
  ⟨.draft, GrantModel.empty.push rawSqlKey .bool (.bool false) appGrant, [], [], []⟩,
  ⟨.base, GrantModel.empty.push rawSqlKey .bool (.bool false) ⟨.of [appSecretPattern] [], .bool true⟩, [], [], []⟩]

/-- One rule hides nothing that it does not cover. -/
theorem not_hidden_appPolicy (o : ObjectName) : ¬ Hidden (mapsOf appPolicy.layers rawSqlKey) o := by
  rintro ⟨above, km, below, heq, -, -, hl, -⟩
  match above, heq with
  | [], _ => simp [scopesOf] at hl
  | [a], heq =>
    obtain rfl := (cons.inj heq).1
    revert hl
    decide
  | _ :: _ :: rest, heq =>
    have hln : 2 = (rest ++ km :: below).length + 2 := congrArg length heq
    simp at hln

/-- Under a draft of one rule the region is empty, and so is the grant. -/
theorem ungranted_under_appDraft : ∃ layers, Composed rawSqlRegistry layers ∧
    charterLayers secretCharter rawSqlRegistry = .ok layers ∧
    admitDraft secretCharter appDraft rawSqlRegistry = .ok appPolicy ∧ appPolicy.grantRegion rawSqlKey = .ungranted ∧
    ∀ o, ∃ w, appPolicy.grants rawSqlKey o = some w ∧ NoLooser .bool w (.bool false) := by
  obtain ⟨layers, hl⟩ : ∃ layers, charterLayers secretCharter rawSqlRegistry = .ok layers := ⟨_, rfl⟩
  have hc : Composed rawSqlRegistry layers := .root loaded_secretCharter hl
  have hld : appDraft.Loaded rawSqlRegistry := loaded_rawSql (by simp [appGrant])
  have ha : admitDraft secretCharter appDraft rawSqlRegistry = .ok appPolicy := rfl
  have hr : appPolicy.grantRegion rawSqlKey = .ungranted := rfl
  have hag := (grantRegion_agrees_iff declared_rawSql hc hl hld ha rfl).mpr
    (.inr not_hidden_appPolicy)
  exact ⟨layers, hc, hl, ha, hr, hag.1 hr⟩

end Zeroship.Policy
