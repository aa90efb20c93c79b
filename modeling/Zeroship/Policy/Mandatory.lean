import Zeroship.Policy.Admission

/-! Mandatory injects.

A name is raised if a rule above the default covers it in the layer that decides. What an
admitted draft raises, the charter raised already. The check of the charter puts every
raised name of `schema.create_table` into each mandatory inject, so no chain of drafts
leads out of one. -/
namespace Zeroship.Policy
open Base

/-- The deciding layer covers the name with a rule above the default. -/
def Raised (d : KnobDef) (layers : List Layer) (o : ObjectName) : Prop :=
  ∃ km, decidingMap layers d.key o = some km ∧
    ∃ r ∈ km.rules, r.scope.objectsMembership o ∧ leqValue d.kind r.value d.default = .ok false

section
variable {R : PolicyRegistry} {layers : List Layer} {l : Layer} {d : KnobDef} {o : ObjectName} {v w : KnobValue}

theorem not_above_default : leqValue d.kind d.default d.default ≠ .ok false := by
  intro h
  have hf : NoLooser d.kind d.default d.default := (fits_of_leqValue h).1
  simp [NoLooser, h] at hf

theorem above_default (hv : leqValue d.kind v d.default = .ok false) (hle : NoLooser d.kind v w) :
    leqValue d.kind w d.default = .ok false := by
  obtain ⟨t, ht⟩ := leqValue_of_fits (fits_of_leqValue hle).2 (fits_of_leqValue hv).2
  cases t with
  | false => exact ht
  | true =>
    have htr : NoLooser d.kind v d.default := hle.trans ht
    simp [NoLooser, hv] at htr

/-- A value above the default comes from a raised name. -/
theorem raised_of_grants (hb : BuiltUnder R layers) (hd : R.get d.key = some d)
    (hw : (EffectivePolicy.fromLayers R layers).grants d.key o = some w)
    (ha : leqValue d.kind w d.default = .ok false) : Raised d layers o := by
  have hf : Fits d.kind d.default := (fits_of_leqValue ha).2
  obtain ⟨-, hrl⟩ := grants_upper hb hd hf hw
  cases hk : decidingMap layers d.key o with
  | none =>
    obtain rfl : d.default = w := Option.some.inj ((grants_of_undecided hk hd).symm.trans hw)
    exact absurd ha not_above_default
  | some km =>
    refine ⟨km, hk, ?_⟩
    by_contra hn
    -- otherwise the default bounds every covering value, and so the join
    have hbn : ∀ r ∈ km.rules, r.scope.objectsMembership o → NoLooser d.kind r.value d.default := by
      intro r hr hro
      obtain ⟨t, ht⟩ := leqValue_of_fits (fits_of_leqValue (hrl km hk r hr hro)).1 hf
      cases t with
      | true => exact ht
      | false => exact absurd ⟨r, hr, hro, ht⟩ hn
    obtain ⟨hkn, hdf⟩ := hb.of_decidingMap hd hk
    have hv : ∃ w, km.valueAt o = .ok w ∧ NoLooser km.kind w d.default := by
      refine valueAt_bounded ?_ ?_
      · rw [hkn, hdf]
        exact hf
      · rw [hkn]
        exact hbn
    obtain ⟨w', hw', hle⟩ := hv
    obtain rfl : w' = w := Option.some.inj ((grants_of_deciding hk hw').symm.trans hw)
    rw [hkn, NoLooser, ha] at hle
    simp at hle

theorem raised_of_checked (hl : l.grants.Under R (Checked layers)) (hd : R.get d.key = some d)
    (h : Raised d (l :: layers) o) : Raised d layers o := by
  obtain ⟨km, hk, r, hr, hro, ha⟩ := h
  by_cases hcv : ∃ km, l.grants.get d.key = some km ∧ km.covers o
  · obtain ⟨lm, hg, hcv⟩ := hcv
    rw [decidingMap_hit hg hcv] at hk
    obtain rfl := Option.some.inj hk
    rcases (hl.of_get hd hg).2.2 r hr with hv | hch
    · rw [hv] at ha
      exact absurd ha not_above_default
    rcases within_charter hch hro with hle | ⟨-, km', hk', r', hr', hro', hle⟩
    · simp [NoLooser, ha] at hle
    · exact ⟨km', hk', r', hr', hro', above_default ha hle⟩
  · rw [decidingMap_skip fun km hg hc => hcv ⟨km, hg, hc⟩] at hk
    exact ⟨km, hk, r, hr, hro, ha⟩

end

section
variable {layers : List Layer} {km : GrantKeyMap} {r : GrantRule} {granted creatable : Scope} {o : ObjectName}

theorem mem_grantedScope (h : km.grantedScope = .ok granted) (hr : r ∈ km.rules) (hro : r.scope.objectsMembership o)
    (hab : leqValue km.kind r.value km.default = .ok false) : granted.objectsMembership o := by
  refine foldlM_reaches (fun s => s.objectsMembership o) h hr ?_ ?_
  · intro acc acc' hs
    obtain ⟨leq, hl, ha⟩ := bind_ok.mp hs
    rw [ofValueOrder_ok, hab] at hl
    cases hl
    exact pure_ok.mp ha ▸ mem_join (.inr hro)
  · intro acc acc' r' hm hs
    obtain ⟨leq, -, ha⟩ := bind_ok.mp hs
    cases leq with
    | true => exact pure_ok.mp ha ▸ hm
    | false => exact pure_ok.mp ha ▸ mem_join (.inl hm)

theorem mem_creatable {maps : List GrantKeyMap} (h : maps.foldlM addGranted .nothing = .ok creatable)
    (hk : km ∈ maps) (hr : r ∈ km.rules) (hro : r.scope.objectsMembership o)
    (hab : leqValue km.kind r.value km.default = .ok false) : creatable.objectsMembership o := by
  refine foldlM_reaches (fun s => s.objectsMembership o) h hk ?_ ?_
  · intro acc acc' hs
    obtain ⟨granted, hg, ha⟩ := bind_ok.mp hs
    exact pure_ok.mp ha ▸ mem_join (.inr (mem_grantedScope hg hr hro hab))
  · intro acc acc' km' hm hs
    obtain ⟨granted, -, ha⟩ := bind_ok.mp hs
    exact pure_ok.mp ha ▸ mem_join (.inl hm)

theorem mem_mandatory {R : PolicyRegistry} {d : KnobDef} {rule : Rule} (hn : creatableEscapeScope layers = none)
    (hb : BuiltUnder R layers) (hd : R.get createTableKey = some d) (hrs : Raised d layers o)
    (hrl : rule ∈ layers.flatMap Layer.injects) (hm : rule.isMandatory) : rule.scope.objectsMembership o := by
  obtain ⟨km, hk, r, hr, hro, ha⟩ := hrs
  rw [R.keyed createTableKey d hd] at hk
  obtain ⟨hkn, hdf⟩ := hb.of_decidingMap hd hk
  rw [← hkn, ← hdf] at ha
  have hmp : km ∈ mapsOf layers createTableKey := mem_mapsOf.mpr (of_decidingMap hk).1
  unfold creatableEscapeScope at hn
  split at hn
  · cases hn
  · rename_i he
    have hmm := mem_creatable he hmp hr hro ha
    simp at hmm
  · rename_i creatable _ hc
    have hsb := List.findSome?_eq_none_iff.mp hn rule hrl
    refine mem_of_subset ?_ (mem_creatable hc hmp hr hro ha)
    by_contra hs
    simp [hm, hs] at hsb

end

/-! ### Chains of drafts -/

/-- A stack that `finalizeCharter` let through, or that of a policy which passed its check. -/
def EscapeChecked (layers : List Layer) : Prop :=
  (∃ A C, finalizeCharter A = .ok C ∧ C.layers = layers) ∨
    ∃ P : EffectivePolicy, P.checkCreatableEscape = .ok () ∧ P.layers = layers

section
variable {R : PolicyRegistry} {layers : List Layer} {P : EffectivePolicy} {o : ObjectName}

theorem EscapeChecked.creatableEscapeScope (h : EscapeChecked layers) : creatableEscapeScope layers = none := by
  rcases h with ⟨A, C, hC, rfl⟩ | ⟨P, hP, rfl⟩
  · obtain ⟨rfl, hn⟩ := finalizeCharter_ok hC
    exact hn
  unfold EffectivePolicy.checkCreatableEscape at hP
  split at hP
  · assumption
  · cases hP

/-- A chain of drafts raises no name that the charter does not. -/
theorem AdmittedOver.raised (h : AdmittedOver R layers P) {d : KnobDef} (hd : R.get d.key = some d)
    (hr : Raised d P.layers o) : Raised d layers o :=
  (h.holds (fun stack => Raised d stack o → Raised d layers o) id fun _ _ _ hl ih hr =>
    ih (raised_of_checked hl hd hr)).2 hr

theorem mem_injectsFor {rule : Rule} {spec : InjectSpec} (hr : rule ∈ layers.flatMap Layer.injects)
    (hk : rule.kind = .inject spec) (ho : rule.scope.objectsMembership o) :
    spec ∈ (EffectivePolicy.fromLayers R layers).injectsFor o := by
  refine List.mem_filterMap.mpr ⟨rule, List.mem_filter.mpr ⟨?_, ho⟩, by rw [hk]⟩
  obtain ⟨l, hl, hm⟩ := List.mem_flatMap.mp hr
  exact List.mem_flatMap.mpr ⟨l, List.mem_reverse.mpr hl, hm⟩

/-- Where a chain of drafts may create tables, every mandatory inject of the charter applies. -/
theorem mandatory_inject_applies (hchecked : EscapeChecked layers) (hbuilt : BuiltUnder R layers)
    (hchain : AdmittedOver R layers P) {d : KnobDef} (hd : R.get createTableKey = some d) {w : KnobValue}
    (hw : P.grants createTableKey o = some w) (habove : leqValue d.kind w d.default = .ok false) {rule : Rule}
    {spec : InjectSpec} (hrule : rule ∈ layers.flatMap Layer.injects) (hkind : rule.kind = .inject spec)
    (hmand : spec.mandatory) : rule.scope.objectsMembership o ∧ spec ∈ P.injectsFor o := by
  have hk : d.key = createTableKey := R.keyed createTableKey d hd
  rw [← hk] at hd hw
  rw [(hchain.holds (fun _ => True) trivial fun _ _ _ _ _ => trivial).1] at hw
  have hr := hchain.raised hd (raised_of_grants (hchain.builtUnder hbuilt) hd hw habove)
  have hm : rule.scope.objectsMembership o := by
    refine mem_mandatory hchecked.creatableEscapeScope hbuilt (hk ▸ hd) hr hrule ?_
    simp [Rule.isMandatory, hkind, hmand]
  exact ⟨hm, (hchain.keeps_rules o).2.1 (mem_injectsFor hrule hkind hm)⟩

end

def createTableRegistry : PolicyRegistry :=
  PolicyRegistry.empty.insert ⟨createTableKey, .bool, .grant, .bool false, true⟩

def appSchemas : Scope := .of [.ofSchema (.infixGlob [97, 112, 112] [])] []

def auditSpec : InjectSpec := ⟨[⟨"created_at", "timestamptz", false, none, none, none⟩], [], none, .allow, true⟩

def auditedDoc : TrustedDoc := ⟨⟨[⟨appSchemas, .grant createTableKey (.bool true)⟩, ⟨appSchemas, .inject auditSpec⟩]⟩⟩

/-- The document under an empty one. -/
def auditedLayers : List Layer := [⟨.env, .empty, [], [], []⟩,
  ⟨.base, GrantModel.empty.push createTableKey .bool (.bool false) ⟨appSchemas, .bool true⟩, [],
    [⟨appSchemas, .inject auditSpec⟩], []⟩]

def app1 : ObjectName := ⟨[97, 112, 112, 49], none⟩

def app1Grant : GrantRule := ⟨.of [.ofSchema (.literal app1.schema)] [], .bool true⟩

def app1Draft : PolicyDoc := ⟨[⟨app1Grant.scope, .grant createTableKey app1Grant.value⟩]⟩

def app1Policy : EffectivePolicy := .fromLayers createTableRegistry
  (⟨.draft, GrantModel.empty.push createTableKey .bool (.bool false) app1Grant, [], [], []⟩ :: auditedLayers)

/-- A silent draft over it. -/
def silentPolicy : EffectivePolicy := .fromLayers createTableRegistry (⟨.draft, .empty, [], [], []⟩ :: app1Policy.layers)

/-- A draft for `app1` and a silent one after it are admitted, and the inject applies to `app1`. -/
theorem mandatory_inject_applies_to_app1 :
    finalizeCharter ⟨createTableRegistry, auditedLayers⟩ = .ok ⟨createTableRegistry, auditedLayers⟩ ∧
    AdmittedOver createTableRegistry auditedLayers silentPolicy ∧
    silentPolicy.grants createTableKey app1 = some (.bool true) ∧ auditSpec ∈ silentPolicy.injectsFor app1 := by
  have ho : overlay auditedDoc ⟨⟨[]⟩⟩ createTableRegistry = .ok ⟨createTableRegistry, auditedLayers⟩ := rfl
  have hb : BuiltUnder createTableRegistry auditedLayers :=
    under_overlay ho (fun _ _ _ _ _ _ _ => trivial) fun _ _ _ _ _ _ _ => trivial
  have hf : finalizeCharter ⟨createTableRegistry, auditedLayers⟩ = .ok ⟨createTableRegistry, auditedLayers⟩ := rfl
  have ha : admitDraft (Charter.mk createTableRegistry auditedLayers) app1Draft createTableRegistry =
    .ok app1Policy := rfl
  have hs : admitDraft app1Policy ⟨[]⟩ createTableRegistry = .ok silentPolicy := rfl
  have hc : AdmittedOver createTableRegistry auditedLayers silentPolicy := .next (.next .nil rfl ha) rfl hs
  have hr : ⟨appSchemas, .inject auditSpec⟩ ∈ auditedLayers.flatMap Layer.injects := by simp [auditedLayers]
  have hg : silentPolicy.grants createTableKey app1 = some (.bool true) := rfl
  exact ⟨hf, hc, hg,
    (mandatory_inject_applies (.inl ⟨_, _, hf, rfl⟩) hb hc rfl hg rfl hr rfl rfl).2⟩

end Zeroship.Policy
