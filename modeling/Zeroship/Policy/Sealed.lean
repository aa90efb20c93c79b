import Zeroship.Policy.Seal

/-! What a seal determines.

The bytes of the seal determine what it is bound to and, for policies that were obtained
by admission or are the floor, the layers up to the order of patterns and of the strings
of a set. The kinds and defaults of the keys come in with the digest of the registry. -/
namespace Zeroship.Policy
open GrantModel Layer GrantKeyMap
open Base (bigEndian Readable bind_ok pure_ok)

theorem sealMac_determines {P Q : EffectivePolicy} {B C : Binding} (hP : P.Sized) (hQ : Q.Sized)
    (hB : SizedStr B.dialect) (hC : SizedStr C.dialect) (h : sealMac P B = sealMac Q C) :
    B = C ∧ P.sealLayers.Forall₂ SealLayer.Alike Q.sealLayers := by
  have h := List.append_cancel_left h
  obtain ⟨hl, h⟩ := readable_prefixed readable_canonicalRuleSet hP hQ h
  obtain ⟨hd, h⟩ := List.append_inj h (by simp)
  obtain ⟨hdl, h⟩ := readable_str hB hC h
  obtain ⟨hm, h⟩ := readable_length B.matcherVersion.toNat_lt C.matcherVersion.toNat_lt h
  obtain ⟨hc, hn⟩ := readable_word B.charterVersion.toNat_lt C.charterVersion.toNat_lt h
  refine ⟨?_, hl⟩
  obtain ⟨digest, dialect, matcher, charter, nonce⟩ := B
  obtain ⟨digest', dialect', matcher', charter', nonce'⟩ := C
  obtain rfl : digest = digest' := Vector.toList_inj.mp hd
  obtain rfl : dialect = dialect' := hdl
  obtain rfl : matcher = matcher' := UInt32.toNat_inj.mp hm
  obtain rfl : charter = charter' := UInt64.toNat_inj.mp hc
  obtain rfl : nonce = nonce' := Vector.toList_inj.mp hn
  rfl

section

theorem readable_default : Readable writeDefault KnobValue.Sized Eq := by
  intro a b s t ha hb h
  cases a <;> cases b <;> simp only [writeDefault, List.cons_append, List.cons.injEq] at h <;>
    try exact absurd h.1 (by decide)
  case bool x y => exact ⟨congrArg _ (boolByte_injective h.2.1), h.2.2⟩
  case uint x y =>
    obtain ⟨hx, hr⟩ := readable_word ha hb h.2
    exact ⟨congrArg _ hx, hr⟩
  case strSet xs ys =>
    obtain ⟨hx, hr⟩ := readable_strVec ha hb h.2
    exact ⟨congrArg _ hx, hr⟩
  case str x y =>
    obtain ⟨hx, hr⟩ := readable_str ha hb h.2
    exact ⟨congrArg _ hx, hr⟩

theorem readable_kind : Readable writeKind KnobKind.Sized Eq := by
  intro a b s t ha hb h
  cases a <;> cases b <;> simp only [writeKind, List.cons_append, List.cons.injEq] at h <;>
    try exact absurd h.1 (by decide)
  case uintCharter floor floor' =>
    obtain ⟨hf, hr⟩ := readable_word ha hb h.2
    exact ⟨congrArg _ hf, hr⟩
  case orderedEnum variants variants' =>
    obtain ⟨hv, hr⟩ := readable_strVec ha hb h.2
    exact ⟨congrArg _ hv, hr⟩
  all_goals exact ⟨rfl, h.2⟩

theorem readable_polarity : Readable writePolarity (fun _ => True) Eq := by
  intro a b s t _ _ h
  cases a <;> cases b <;> simp only [writePolarity, List.cons_append, List.cons.injEq] at h <;>
    try exact absurd h.1 (by decide)
  case pinned delegable delegable' => exact ⟨congrArg _ (boolByte_injective h.2.1), h.2.2⟩
  all_goals exact ⟨rfl, h.2⟩

theorem enforcementByte_injective : Function.Injective enforcementByte := by
  intro a b
  cases a <;> cases b <;> decide

theorem objectModelByte_injective : Function.Injective objectModelByte := by
  intro a b
  cases a <;> cases b <;> decide

theorem readable_canonicalEncoding :
    Readable (fun e : KnobDef × KnobTraits => e.1.canonicalEncoding e.2) (fun e => e.1.Sized) Eq := by
  have hk := (readable_str.comap fun e : KnobDef × KnobTraits => e.1.key.text).cons 0x01
  have hkn := (readable_kind.comap fun e : KnobDef × KnobTraits => e.1.kind).cons 0x02
  have hp := (readable_polarity.comap fun e : KnobDef × KnobTraits => e.1.polarity).cons 0x03
  have hd := (readable_default.comap fun e : KnobDef × KnobTraits => e.1.default).cons 0x04
  have hen := ((Readable.of_injective enforcementByte_injective).comap
    fun e : KnobDef × KnobTraits => e.2.enforcement).cons 0x05
  have ho := ((Readable.of_injective objectModelByte_injective).comap
    fun e : KnobDef × KnobTraits => e.2.objectModel).cons 0x06
  have hpr := (readable_boolByte.comap fun e : KnobDef × KnobTraits => e.2.requiresDbPrivilege).cons 0x07
  have hi := (readable_boolByte.comap fun e : KnobDef × KnobTraits => e.1.inherit).cons 0x08
  refine (hk.append (hkn.append (hp.append (hd.append (hen.append (ho.append
    (hpr.append hi))))))).mono (fun e he => ?_) ?_
  · exact ⟨he.key, he.kind, trivial, he.default, trivial, trivial, trivial, trivial⟩
  · rintro ⟨⟨⟨_⟩, _, _, _, _⟩, _, _, _⟩ ⟨⟨⟨_⟩, _, _, _, _⟩, _, _, _⟩ ⟨rfl, rfl, rfl, rfl, rfl, rfl, rfl, rfl⟩
    rfl

theorem digestInput_determines {R R' : PolicyRegistry} {t t' : KnobKey → KnobTraits} (hR : R.Sized) (hR' : R'.Sized)
    (h : R.digestInput t = R'.digestInput t') (key : KnobKey) : R.get key = R'.get key := by
  have hv : ∀ (r : PolicyRegistry) (u : KnobKey → KnobTraits),
      writeVec (fun d => writeBytes (d.canonicalEncoding (u d.key))) r.iter =
        writeVec (fun e : KnobDef × KnobTraits => writeBytes (e.1.canonicalEncoding e.2))
          (r.iter.map fun d => (d, u d.key)) := by
    intro r u
    simp only [writeVec, List.length_map, List.flatMap_map]
  have hs : ∀ (r : PolicyRegistry) (u : KnobKey → KnobTraits), r.Sized →
      SizedVec (fun e : KnobDef × KnobTraits => e.1.Sized) (r.iter.map fun d => (d, u d.key)) := by
    intro r u hr
    refine ⟨by rw [List.length_map]; exact hr.1, ?_⟩
    simpa using hr.2
  have h := List.append_cancel_left h
  rw [hv, hv, ← List.append_nil (writeVec _ (R.iter.map _)), ← List.append_nil (writeVec _ (R'.iter.map _))] at h
  obtain ⟨heq, -⟩ := readable_vec_eq (readable_prefixed readable_canonicalEncoding) (hs R t hR) (hs R' t' hR') h
  have hi : R.iter = R'.iter := by simpa [Function.comp_def] using congrArg (List.map Prod.fst) heq
  have hm : ∀ d, R.get d.key = some d ↔ R'.get d.key = some d := by
    intro d
    rw [← PolicyRegistry.mem_iter, ← PolicyRegistry.mem_iter, hi]
  refine Option.ext fun d => ⟨fun hd => ?_, fun hd => ?_⟩
  · obtain rfl := R.keyed key d hd
    exact (hm d).mp hd
  · obtain rfl := R'.keyed key d hd
    exact (hm d).mpr hd

end

/-! ### Policies that can be obtained -/

/-- A charter that was assembled and passed its checks. -/
inductive Charter.Finalized : Charter → Prop
  | overlay {base env : TrustedDoc} {R : PolicyRegistry} {A : AssembledCharter} {C : Charter}
      (assembled : overlay base env R = .ok A) (final : finalizeCharter A = .ok C) : Finalized C
  | restrict {outer inner : TrustedDoc} {R : PolicyRegistry} {A : AssembledCharter} {C : Charter}
      (assembled : restrict outer inner R = .ok A) (final : finalizeCharter A = .ok C) : Finalized C

/-- The floor, and what admits a draft over one of the three kinds of charter. -/
inductive EffectivePolicy.Obtained : EffectivePolicy → Prop
  | denyAll (R : PolicyRegistry) : Obtained (.denyAll R)
  | root {c : RootCharter} {draft : PolicyDoc} {R : PolicyRegistry} {P : EffectivePolicy}
      (admitted : admitDraft c draft R = .ok P) : Obtained P
  | charter {C : Charter} {draft : PolicyDoc} {R : PolicyRegistry} {P : EffectivePolicy} (charter : C.Finalized)
      (admitted : admitDraft C draft R = .ok P) : Obtained P
  | policy {below : EffectivePolicy} {draft : PolicyDoc} {R : PolicyRegistry} {P : EffectivePolicy}
      (charter : Obtained below) (admitted : admitDraft below draft R = .ok P) : Obtained P

/-- Nothing is kept for a key without rules, and each list has the rules of its kind. -/
structure Layer.Kept (l : Layer) : Prop where
  rules : ∀ key km, l.grants.get key = some km → km.rules ≠ []
  requires : ∀ r ∈ l.requires, r.kind.isRequire
  injects : ∀ r ∈ l.injects, r.kind.isInject
  validates : ∀ r ∈ l.validates, r.kind.isValidate

section
variable {R : PolicyRegistry} {l : Layer}

theorem of_rulesOf {rules : List Rule} {kinds : RuleKind → Bool} : ∀ r ∈ rulesOf rules kinds, kinds r.kind :=
  fun _ hr => (List.mem_filter.mp hr).2

theorem kept_fromDoc {tag : LayerTag} {doc : PolicyDoc} (h : fromDoc tag doc R = .ok l) : l.Kept := by
  obtain ⟨m, hm, hl⟩ := bind_ok.mp h
  obtain rfl := pure_ok.mp hl
  refine ⟨fun key km hk => ?_, of_rulesOf, of_rulesOf, of_rulesOf⟩
  rcases get_build hm key with ⟨-, hn⟩ | ⟨d, -, hne, hs⟩
  · exact absurd (hn.symm.trans hk) (by simp)
  · obtain rfl := Option.mem_unique hs hk
    exact hne

theorem Layer.Kept.pin (h : l.Kept) (d : KnobDef) : (pinUninherited l d).Kept := by
  unfold pinUninherited
  split
  · exact h
  refine ⟨fun key km hk => ?_, h.requires, h.injects, h.validates⟩
  rw [pinKeyToDefault, get_push] at hk
  split at hk
  · cases hk
    simp
  · exact h.rules key km hk

theorem Layer.Kept.pins (h : l.Kept) (defs : List KnobDef) : (defs.foldl pinUninherited l).Kept := by
  induction defs generalizing l with
  | nil => exact h
  | cons d rest ih => exact ih (h.pin d)

theorem kept_restrict {outer inner : TrustedDoc} {A : AssembledCharter} (h : restrict outer inner R = .ok A) :
    ∀ l ∈ A.layers, l.Kept := by
  obtain ⟨og, -, h⟩ := bind_ok.mp h
  obtain ⟨ig, -, h⟩ := bind_ok.mp h
  obtain ⟨m, hm, h⟩ := bind_ok.mp h
  obtain rfl := pure_ok.mp h
  have hb : ∀ {kinds : RuleKind → Bool}, ∀ r ∈ rulesOf outer.doc.rules kinds ++ rulesOf inner.doc.rules kinds,
      kinds r.kind := fun r hr => (List.mem_append.mp hr).elim (of_rulesOf r) (of_rulesOf r)
  refine List.forall_mem_singleton.mpr ⟨?_, hb, hb, hb⟩
  refine Base.foldlM_invariant (fun m => ∀ key km, m.get key = some km → km.rules ≠ []) hm ?_ ?_
  · simp [GrantModel.get, GrantModel.empty]
  intro m m' key _ hm hs k km hg
  obtain ⟨km', -, hi⟩ := bind_ok.mp hs
  obtain rfl := pure_ok.mp hi
  split at hg
  · exact hm k km hg
  rename_i hne
  rw [GrantModel.get, Std.TreeMap.getElem?_insert] at hg
  split at hg
  · cases hg
    exact hne
  · exact hm k km hg

theorem Charter.Finalized.kept {C : Charter} (h : C.Finalized) : ∀ l ∈ C.layers, l.Kept := by
  cases h with
  | overlay assembled final =>
    obtain ⟨rfl, -⟩ := finalizeCharter_ok final
    obtain ⟨b, hb, h⟩ := bind_ok.mp assembled
    obtain ⟨e, he, h⟩ := bind_ok.mp h
    obtain rfl := pure_ok.mp h
    exact List.forall_mem_cons.mpr ⟨kept_fromDoc he, List.forall_mem_singleton.mpr (kept_fromDoc hb)⟩
  | restrict assembled final =>
    obtain ⟨rfl, -⟩ := finalizeCharter_ok final
    exact kept_restrict assembled

theorem kept_admitDraft {χ : Type} [AdmitCharter χ] {charter : χ} {draft : PolicyDoc} {P : EffectivePolicy}
    (h : admitDraft charter draft R = .ok P)
    (hc : ∀ layers, charterLayers charter R = .ok layers → ∀ l ∈ layers, l.Kept) : ∀ l ∈ P.layers, l.Kept := by
  obtain ⟨layers, hly, h⟩ := bind_ok.mp h
  obtain ⟨_, -, h⟩ := bind_ok.mp h
  obtain ⟨_, -, h⟩ := bind_ok.mp h
  obtain ⟨_, -, h⟩ := bind_ok.mp h
  obtain ⟨_, -, h⟩ := bind_ok.mp h
  obtain ⟨l, hl, h⟩ := bind_ok.mp h
  obtain rfl := pure_ok.mp h
  exact List.forall_mem_cons.mpr ⟨(kept_fromDoc hl).pins _, hc layers hly⟩

theorem EffectivePolicy.Obtained.kept {P : EffectivePolicy} (h : P.Obtained) : ∀ l ∈ P.layers, l.Kept := by
  induction h with
  | denyAll R => simp [EffectivePolicy.denyAll]
  | root admitted =>
    refine kept_admitDraft admitted fun layers hly => ?_
    obtain ⟨l, hl, h⟩ := bind_ok.mp hly
    obtain rfl := pure_ok.mp h
    exact List.forall_mem_singleton.mpr (kept_fromDoc hl)
  | charter final admitted =>
    refine kept_admitDraft admitted fun layers hly => ?_
    cases hly
    exact final.kept
  | policy _ admitted ih =>
    refine kept_admitDraft admitted fun layers hly => ?_
    cases hly
    exact ih

end

/-- Equal up to the order of patterns and of the strings of a set. -/
structure Layer.Alike (l l' : Layer) : Prop where
  tag : l.tag = l'.tag
  grants : ∀ key, Option.Rel (fun km km' => km.rules.Forall₂ GrantRule.Alike km'.rules) (l.grants.get key)
    (l'.grants.get key)
  requires : l.requires.Forall₂ Rule.Alike l'.requires
  injects : l.injects.Forall₂ Rule.Alike l'.injects
  validates : l.validates.Forall₂ Rule.Alike l'.validates

section

/-- The rules of a key among all of a model. -/
def ruleAt (key : KnobKey) (g : KnobKey × GrantRule) : Option GrantRule := if g.1 = key then some g.2 else none

/-- Rules of distinct keys do not mix. -/
theorem filterMap_ruleAt {entries : List (KnobKey × GrantKeyMap)} (key : KnobKey)
    (hd : entries.Pairwise fun a b => a.1 ≠ b.1) :
    (∀ km, (key, km) ∈ entries →
      (entries.flatMap fun e => e.2.rules.map fun r => (e.1, r)).filterMap (ruleAt key) = km.rules) ∧
    ((∀ km, (key, km) ∉ entries) →
      (entries.flatMap fun e => e.2.rules.map fun r => (e.1, r)).filterMap (ruleAt key) = []) := by
  induction entries with
  | nil => simp
  | cons e rest ih =>
    obtain ⟨k, km⟩ := e
    obtain ⟨hne, hr⟩ := List.pairwise_cons.mp hd
    obtain ⟨hm, hn⟩ := ih hr
    simp only [List.flatMap_cons, List.filterMap_append, List.filterMap_map, List.mem_cons, Prod.mk.injEq]
    by_cases hk : k = key
    · -- the rules of the entry, and none from the rest
      subst hk
      have ho : km.rules.filterMap (ruleAt k ∘ fun r => (k, r)) = km.rules := by
        simp [Function.comp_def, ruleAt]
      have hot : ∀ km', (k, km') ∉ rest := fun km' h => hne _ h rfl
      rw [ho, hn hot, List.append_nil]
      refine ⟨fun km' h => ?_, fun h => absurd (.inl ⟨rfl, rfl⟩) (h km)⟩
      rcases h with ⟨-, rfl⟩ | h
      · rfl
      · exact absurd h (hot km')
    · have ho : km.rules.filterMap (ruleAt key ∘ fun r => (k, r)) = [] := by
        simp [Function.comp_def, ruleAt, hk]
      rw [ho, List.nil_append]
      refine ⟨fun km' h => ?_, fun h => hn fun km' h' => h km' (.inr h')⟩
      rcases h with ⟨rfl, -⟩ | h
      · exact absurd rfl hk
      · exact hm km' h

theorem GrantModel.flat_ruleAt (m : GrantModel) (key : KnobKey) :
    m.flat.filterMap (ruleAt key) = ((m.get key).map rules).getD [] := by
  have hd : m.keys.toList.Pairwise fun a b => a.1 ≠ b.1 := by
    refine Std.TreeMap.distinct_keys_toList.imp fun {a b} hne heq => hne ?_
    rw [heq]
    exact Std.ReflCmp.compare_self
  obtain ⟨hm, hn⟩ := filterMap_ruleAt key hd
  simp only [Std.TreeMap.mem_toList_iff_getElem?_eq_some] at hm hn
  cases hg : m.get key with
  | none =>
    refine hn fun km hk => ?_
    exact absurd (hg.symm.trans hk) (by simp)
  | some km => exact hm km hg

theorem rel_of_flat {m m' : GrantModel} (hm : ∀ key km, m.get key = some km → km.rules ≠ [])
    (hm' : ∀ key km, m'.get key = some km → km.rules ≠ [])
    (h : m.flat.Forall₂ (fun g g' => g.1 = g'.1 ∧ g.2.Alike g'.2) m'.flat) (key : KnobKey) :
    Option.Rel (fun km km' => km.rules.Forall₂ GrantRule.Alike km'.rules) (m.get key) (m'.get key) := by
  have hr : (m.flat.filterMap (ruleAt key)).Forall₂ GrantRule.Alike (m'.flat.filterMap (ruleAt key)) := by
    refine List.rel_filterMap (fun g g' hg => ?_) h
    unfold ruleAt
    rw [hg.1]
    split
    · exact .some hg.2
    · exact .none
  rw [flat_ruleAt, flat_ruleAt] at hr
  cases hgt : m.get key with
  | none =>
    cases hg' : m'.get key with
    | none => exact .none
    | some km' =>
      rw [hgt, hg'] at hr
      exact absurd (List.forall₂_nil_left_iff.mp hr) (hm' key km' hg')
  | some km =>
    cases hg' : m'.get key with
    | none =>
      rw [hgt, hg'] at hr
      exact absurd (List.forall₂_nil_right_iff.mp hr) (hm key km hgt)
    | some km' =>
      rw [hgt, hg'] at hr
      exact .some hr

theorem rulesOf_kept {rules : List Rule} {kinds : RuleKind → Bool} (h : ∀ r ∈ rules, kinds r.kind) :
    rulesOf rules kinds = rules := List.filter_eq_self.mpr h

theorem alike_of_toSeal {l l' : Layer} (hl : l.Kept) (hl' : l'.Kept) (h : l.toSeal.Alike l'.toSeal) : l.Alike l' := by
  obtain ⟨ht, hg, hr, hi, hv⟩ := h
  simp only [toSeal, rulesOf_kept hl.requires, rulesOf_kept hl'.requires, rulesOf_kept hl.injects,
    rulesOf_kept hl'.injects, rulesOf_kept hl.validates, rulesOf_kept hl'.validates] at hr hi hv
  exact ⟨ht, rel_of_flat hl.rules hl'.rules hg, hr, hi, hv⟩

theorem layers_alike {layers layers' : List Layer} (hl : ∀ l ∈ layers, l.Kept) (hl' : ∀ l ∈ layers', l.Kept)
    (h : (layers.map toSeal).Forall₂ SealLayer.Alike (layers'.map toSeal)) : layers.Forall₂ Alike layers' := by
  rw [List.forall₂_map_left_iff, List.forall₂_map_right_iff] at h
  induction h with
  | nil => exact .nil
  | cons ha _ ih =>
    rw [List.forall_mem_cons] at hl hl'
    exact .cons (alike_of_toSeal hl.1 hl'.1 ha) (ih hl.2 hl'.2)

end

/-! ### Answers -/

section
variable {o : ObjectName} {key : KnobKey} {km km' : GrantKeyMap} {layers layers' : List Layer}

theorem Scope.Alike.membership {s t : Scope} (h : s.Alike t) (o : ObjectName) :
    s.objectsMembership o = t.objectsMembership o := by
  unfold Scope.Alike at h
  split at h
  · rw [Scope.objectsMembership, Scope.objectsMembership, h.1.any_eq, h.2.any_eq]
  · rw [h]

theorem joinValue_alike {kind : KnobKind} {a v v' : KnobValue} (h : v.Alike v') :
    joinValue kind a v = joinValue kind a v' := by
  unfold KnobValue.Alike at h
  split at h
  · rename_i xs ys
    have hs : asStrset (.strSet xs) = asStrset (.strSet ys) :=
      congrArg Except.ok (Base.orderedSet_congr fun _ => h.mem_iff)
    cases kind <;> simp only [joinValue, hs] <;> rfl
  · rw [h]

theorem covers_alike (h : km.rules.Forall₂ GrantRule.Alike km'.rules) (o : ObjectName) :
    km.covers o = km'.covers o := by
  unfold covers
  generalize km.rules = rules, km'.rules = rules' at h ⊢
  induction h with
  | nil => rfl
  | cons hr _ ih => rw [List.any_cons, List.any_cons, hr.scope.membership, ih]

theorem valueAt_alike (hk : km.kind = km'.kind) (hd : km.default = km'.default)
    (h : km.rules.Forall₂ GrantRule.Alike km'.rules) (o : ObjectName) : km.valueAt o = km'.valueAt o := by
  rw [valueAt, valueAt, hk, hd]
  generalize km'.default = acc
  generalize km.rules = rules, km'.rules = rules' at h ⊢
  induction h generalizing acc with
  | nil => rfl
  | cons hr _ ih =>
    rw [List.foldlM_cons, List.foldlM_cons, joinCovering, joinCovering, hr.scope.membership, joinValue_alike hr.value]
    exact congrArg _ (funext ih)

theorem decidingMap_alike (h : layers.Forall₂ Alike layers') (key : KnobKey)
    (o : ObjectName) : Option.Rel (fun km km' => km.rules.Forall₂ GrantRule.Alike km'.rules)
      (decidingMap layers key o) (decidingMap layers' key o) := by
  induction h with
  | nil => exact .none
  | @cons l l' _ _ hl _ ih =>
    have hr := hl.grants key
    cases hm : l.grants.get key with
    | none =>
      rw [hm] at hr
      have hm' : l'.grants.get key = none := by
        cases hr' : l'.grants.get key with
        | none => rfl
        | some km' => rw [hr'] at hr; cases hr
      rw [decidingMap_skip (by simp [hm]), decidingMap_skip (by simp [hm'])]
      exact ih
    | some km =>
      rw [hm] at hr
      cases hm' : l'.grants.get key with
      | none => rw [hm'] at hr; cases hr
      | some km' =>
        rw [hm'] at hr
        cases hr with
        | some hrl =>
          by_cases hc : km.covers o
          · rw [decidingMap_hit hm hc, decidingMap_hit hm' (covers_alike hrl o ▸ hc)]
            exact .some hrl
          have hc' : ¬ km'.covers o := covers_alike hrl o ▸ hc
          rw [decidingMap_skip (by simpa [hm] using hc),
            decidingMap_skip (by simpa [hm'] using hc')]
          exact ih

variable {P Q : EffectivePolicy}

theorem grants_alike (h : P.layers.Forall₂ Alike Q.layers) (hrg : ∀ key, P.registry.get key = Q.registry.get key)
    (hP : BuiltUnder P.registry P.layers) (hQ : BuiltUnder Q.registry Q.layers) (key : KnobKey) (o : ObjectName) :
    P.grants key o = Q.grants key o := by
  have hr := decidingMap_alike h key o
  unfold EffectivePolicy.grants
  cases hm : decidingMap P.layers key o with
  | none =>
    rw [hm] at hr
    cases hm' : decidingMap Q.layers key o with
    | none => simp only [hrg]
    | some km' => rw [hm'] at hr; cases hr
  | some km =>
    rw [hm] at hr
    cases hm' : decidingMap Q.layers key o with
    | none => rw [hm'] at hr; cases hr
    | some km' =>
      rw [hm'] at hr
      cases hr with
      | some hrl =>
        obtain ⟨⟨l, hl, hg⟩, -⟩ := of_decidingMap hm
        obtain ⟨d, hd, hk, hdf, -⟩ := hP l hl key km hg
        obtain ⟨hk', hd'⟩ := hQ.of_decidingMap (hrg key ▸ hd) hm'
        simp only [valueAt_alike (hk.trans hk'.symm) (hdf.trans hd'.symm) hrl o]

theorem rulesAt_alike {part : Layer → List Rule} (hp : ∀ l l', Alike l l' → (part l).Forall₂ Rule.Alike (part l'))
    (h : layers.Forall₂ Alike layers') (o : ObjectName) :
    ((layers.flatMap part).filter fun r => r.scope.objectsMembership o).Forall₂ Rule.Alike
      ((layers'.flatMap part).filter fun r => r.scope.objectsMembership o) :=
  List.rel_filter (fun _ _ hr => iff_of_eq (congrArg (· = true) (hr.scope.membership o)))
    (List.rel_flatMap h fun l l' hl => hp l l' hl)

/-- Every question has the same answer, up to the order of patterns and of the strings of a set. -/
structure EffectivePolicy.AnswersAlike (P Q : EffectivePolicy) : Prop where
  grants : ∀ key o, P.grants key o = Q.grants key o
  obligations : ∀ o, (P.obligations o).Forall₂ (fun a b => a.1 = b.1 ∧ a.2.Alike b.2) (Q.obligations o)
  injectsFor : ∀ o, P.injectsFor o = Q.injectsFor o
  validatesFor : ∀ o, (P.validatesFor o).Forall₂ ValidatePredicate.Alike (Q.validatesFor o)

theorem answersAlike (h : P.layers.Forall₂ Alike Q.layers) (hrg : ∀ key, P.registry.get key = Q.registry.get key)
    (hP : BuiltUnder P.registry P.layers) (hQ : BuiltUnder Q.registry Q.layers) : P.AnswersAlike Q := by
  have hr := List.forall₂_reverse_iff.mpr h
  refine ⟨grants_alike h hrg hP hQ, fun o => List.rel_filterMap ?_ (rulesAt_alike (fun _ _ hl => hl.requires) h o),
    fun o => (congrFun₂ List.forall₂_eq_eq_eq _ _).mp
      (List.rel_filterMap ?_ (rulesAt_alike (fun _ _ hl => hl.injects) hr o)),
    fun o => List.rel_filterMap ?_ (rulesAt_alike (fun _ _ hl => hl.validates) hr o)⟩
  all_goals
    rintro ⟨scope, kind⟩ ⟨scope', kind'⟩ ⟨-, hk⟩
    cases kind <;> cases kind' <;> first | exact hk.elim | exact .none | exact .some hk

/-- Equal bytes have equal bindings and layers that are alike. If each was sealed with the
digest of the registry its layers were built under, and the digest does not confuse the
two registries, the policies answer alike. -/
theorem seal_identifies_policy {B C : Binding} (hP : P.Obtained) (hQ : Q.Obtained) (sP : P.Sized) (sQ : Q.Sized)
    (sB : SizedStr B.dialect) (sC : SizedStr C.dialect) (h : sealMac P B = sealMac Q C) :
    (B.registryDigest = C.registryDigest ∧ B.dialect = C.dialect ∧ B.matcherVersion = C.matcherVersion ∧
      B.charterVersion = C.charterVersion ∧ B.nonce = C.nonce) ∧ P.layers.Forall₂ Layer.Alike Q.layers ∧
    ∀ (digest : Bytes → Vector UInt8 32) (t t' : KnobKey → KnobTraits),
      B.registryDigest = digest (P.registry.digestInput t) → C.registryDigest = digest (Q.registry.digestInput t') →
      (digest (P.registry.digestInput t) = digest (Q.registry.digestInput t') →
        P.registry.digestInput t = Q.registry.digestInput t') →
      P.registry.Sized → Q.registry.Sized → BuiltUnder P.registry P.layers → BuiltUnder Q.registry Q.layers →
      P.AnswersAlike Q := by
  obtain ⟨rfl, hl⟩ := sealMac_determines sP sQ sB sC h
  have ha := layers_alike hP.kept hQ.kept hl
  refine ⟨⟨rfl, rfl, rfl, rfl, rfl⟩, ha, ?_⟩
  intro digest t t' hd hd' hi sR sR' hb hb'
  have hin := hi (hd.symm.trans hd')
  exact answersAlike ha (digestInput_determines sR sR' hin) hb hb'

end

variable (a b : Pattern)

/-- Raw SQL over two schemas. -/
def pairCharter : RootCharter := ⟨⟨⟨[⟨.of [a, b] [], .grant rawSqlKey (.bool true)⟩]⟩⟩⟩

/-- The empty draft over it. -/
def pairPolicy : EffectivePolicy := .fromLayers rawSqlRegistry [
  ⟨.draft, .empty, [], [], []⟩,
  ⟨.base, GrantModel.empty.push rawSqlKey .bool (.bool false) ⟨.of [a, b] [], .bool true⟩, [], [], []⟩]

/-- The schema `foo`. -/
def fooPattern : Pattern := .ofSchema (.literal [102, 111, 111])

def plainTraits : KnobKey → KnobTraits := fun _ => ⟨.enforced, .global, false⟩

/-- A digest of 32 bytes that adds the bytes up. -/
def sumDigest (bytes : Bytes) : Vector UInt8 32 := .replicate 32 bytes.sum

def pairBinding : Binding :=
  ⟨sumDigest (rawSqlRegistry.digestInput plainTraits), "postgres", 1, 1, Vector.replicate 16 0⟩

section
variable {a b : Pattern}

theorem admitDraft_pairCharter : admitDraft (pairCharter a b) ⟨[]⟩ rawSqlRegistry = .ok (pairPolicy a b) := rfl

theorem sized_pairPolicy (ha : a.Sized) (hb : b.Sized) : (pairPolicy a b).Sized := by
  have hn : ∀ {α : Type} (ok : α → Prop), SizedVec ok [] := fun ok => ⟨by simp, by simp⟩
  have hk : SizedStr rawSqlKey.text := (by decide : (utf8 "core.raw_sql").length < 2 ^ 32)
  have hs : (Scope.of [a, b] []).Sized := ⟨⟨by simp, by simp [ha, hb]⟩, hn _⟩
  have hg : SizedVec SizedGrant [(rawSqlKey, ⟨.of [a, b] [], .bool true⟩)] :=
    ⟨by simp, List.forall_mem_singleton.mpr ⟨hk, hs, trivial⟩⟩
  refine ⟨(by decide : 2 < 2 ^ 32), List.forall_mem_cons.mpr ⟨⟨hn _, hn _, hn _, hn _⟩, ?_⟩⟩
  exact List.forall_mem_singleton.mpr ⟨hg, hn _, hn _, hn _⟩

theorem sized_rawSqlRegistry : rawSqlRegistry.Sized :=
  ⟨by decide, List.forall_mem_singleton.mpr ⟨(by decide : (utf8 "core.raw_sql").length < 2 ^ 32), trivial, trivial⟩⟩

theorem builtUnder_pairPolicy : BuiltUnder rawSqlRegistry (pairPolicy a b).layers := by
  refine List.forall_mem_cons.mpr ⟨under_empty, List.forall_mem_singleton.mpr ?_⟩
  exact under_empty.push (d := rawSqlKnob) rfl trivial

end

/-- Two schemas in either order are sealed under the same bytes, and the policies answer alike. -/
theorem seal_of_swapped_patterns : sealMac (pairPolicy appSecretPattern fooPattern) pairBinding =
      sealMac (pairPolicy fooPattern appSecretPattern) pairBinding ∧
    (pairPolicy appSecretPattern fooPattern).layers.Forall₂ Layer.Alike (pairPolicy fooPattern appSecretPattern).layers ∧
    (pairPolicy appSecretPattern fooPattern).AnswersAlike (pairPolicy fooPattern appSecretPattern) := by
  have hs : appSecretPattern.Sized := ⟨⟨by decide, by decide⟩, by decide, by decide⟩
  have hf : fooPattern.Sized := ⟨⟨by decide, by decide⟩, by decide, by decide⟩
  have hd : SizedStr pairBinding.dialect := by
    show (utf8 "postgres").length < 2 ^ 32
    decide
  have hb : sealMac (pairPolicy appSecretPattern fooPattern) pairBinding =
      sealMac (pairPolicy fooPattern appSecretPattern) pairBinding := rfl
  obtain ⟨-, hl, ha⟩ := seal_identifies_policy (.root admitDraft_pairCharter) (.root admitDraft_pairCharter)
    (sized_pairPolicy hs hf) (sized_pairPolicy hf hs) hd hd hb
  refine ⟨hb, hl, ?_⟩
  exact ha sumDigest plainTraits plainTraits rfl rfl (fun _ => rfl) sized_rawSqlRegistry sized_rawSqlRegistry
    builtUnder_pairPolicy builtUnder_pairPolicy

/-! ### Registries that differ

A layer keeps the default of the registry it was built under, and neither its bytes nor the digest
of the registry of the last draft have it. -/

def timeoutRegistryOf (default : Nat) : PolicyRegistry :=
  PolicyRegistry.empty.insert ⟨timeoutKey, .uintCharter 1, .grant, .uint default, true⟩

/-- A charter of 3 ms admitted under one registry, and an empty draft under another. -/
def readmitted (default : Nat) : EffectivePolicy := .fromLayers timeoutRegistry [
  ⟨.draft, .empty, [], [], []⟩, ⟨.draft, .empty, [], [], []⟩,
  ⟨.base, GrantModel.empty.push timeoutKey (.uintCharter 1) (.uint default) ⟨.all, .uint 3⟩, [], [], []⟩]

theorem obtained_readmitted {default : Nat}
    (hc : admitDraft (RootCharter.mk ⟨timeoutDoc 3⟩) ⟨[]⟩ (timeoutRegistryOf default) =
      .ok (.fromLayers (timeoutRegistryOf default) (readmitted default).layers.tail))
    (hd : admitDraft (EffectivePolicy.fromLayers (timeoutRegistryOf default) (readmitted default).layers.tail) ⟨[]⟩
      timeoutRegistry = .ok (readmitted default)) : (readmitted default).Obtained :=
  .policy (.root hc) hd

theorem sized_readmitted (default : Nat) : (readmitted default).Sized := by
  have hn : ∀ {α : Type} (ok : α → Prop), SizedVec ok [] := fun ok => ⟨by simp, by simp⟩
  have hk : SizedStr timeoutKey.text := (by decide : (utf8 "runtime.timeout_ms").length < 2 ^ 32)
  have hv : KnobValue.Sized (.uint 3) := (by decide : 3 < 2 ^ 64)
  have hg : SizedVec SizedGrant [(timeoutKey, ⟨.all, .uint 3⟩)] := ⟨by simp, List.forall_mem_singleton.mpr ⟨hk, trivial, hv⟩⟩
  have he : SealLayer.Sized ⟨.draft, [], [], [], []⟩ := ⟨hn _, hn _, hn _, hn _⟩
  refine ⟨(by decide : 3 < 2 ^ 32), List.forall_mem_cons.mpr ⟨he, List.forall_mem_cons.mpr ⟨he, ?_⟩⟩⟩
  exact List.forall_mem_singleton.mpr ⟨hg, hn _, hn _, hn _⟩

/-- Two such policies are sealed under the same bytes, and one grants 3 ms where the other grants 5. -/
theorem seal_of_mismatched_registries : (readmitted 1).Obtained ∧ (readmitted 5).Obtained ∧
    (readmitted 1).Sized ∧ (readmitted 5).Sized ∧ (readmitted 1).registry = (readmitted 5).registry ∧
    sealMac (readmitted 1) pairBinding = sealMac (readmitted 5) pairBinding ∧
    (readmitted 1).grants timeoutKey app1 = some (.uint 3) ∧ (readmitted 5).grants timeoutKey app1 = some (.uint 5) :=
  ⟨obtained_readmitted rfl rfl, obtained_readmitted rfl rfl, sized_readmitted 1, sized_readmitted 5, rfl, rfl, rfl, rfl⟩

end Zeroship.Policy
