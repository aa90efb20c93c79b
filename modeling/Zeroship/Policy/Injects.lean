import Zeroship.Policy.Region

/-! The shapes that are injected into one table.

Conflicts are looked for in three places: in a charter when it is finalized, between a draft and
all that it is admitted over, and within each layer of the policy at last. Together they leave
no two rules that disagree on a name both apply to. -/
namespace Zeroship.Policy
open List GrantModel RuleKind
open Base (bind_ok pure_ok forM_ok)

section
variable {χ : Type} [AdmitCharter χ] {charter : χ} {draft : PolicyDoc} {R : PolicyRegistry} {layers : List Layer}
  {injects validates : List Rule} {pred : RuleKind → Bool}

theorem findSome_pair_none {α : Type} {f : Rule → Rule → Option α} :
    (injects.findSome? fun l => validates.findSome? (f l)) = none ↔ ∀ l ∈ injects, ∀ r ∈ validates, f l r = none := by
  simp [findSome?_eq_none_iff]

theorem injectCollisions_ok :
    checkInjectCollisions injects validates = .ok () ↔ ∀ l ∈ injects, ∀ r ∈ validates, injectsCollide l r = none := by
  rw [checkInjectCollisions, ← findSome_pair_none]
  split <;> simp [*]

theorem validateVsInject_ok :
    checkValidateVsInject injects validates = .ok () ↔ ∀ l ∈ injects, ∀ r ∈ validates, injectContradicted l r = none := by
  rw [checkValidateVsInject, firstContradiction, ← findSome_pair_none]
  split <;> simp [*]

theorem mem_flattenCharter {r : Rule} :
    r ∈ flattenCharter layers pred ↔ (∃ l ∈ layers, r ∈ l.injects ∨ r ∈ l.validates) ∧ pred r.kind := by
  simp [flattenCharter]

/-- What a draft has to pass, rule by rule. -/
structure Admissible (R : PolicyRegistry) (layers : List Layer) (draft : PolicyDoc) : Prop where
  known : ∀ rule ∈ draft.rules, ∀ key value, rule.kind = .grant key value → ∃ d, R.get key = some d
  within : ∀ rule ∈ draft.rules, ∀ key value d, rule.kind = .grant key value → R.get key = some d →
    checkGrantRule key d layers ⟨rule.scope, value⟩ = .ok ()
  injects : ∀ l ∈ flattenCharter layers RuleKind.isInject, ∀ r ∈ draft.rules, r.kind.isInject →
    injectsCollide l r = none
  validates : ∀ l ∈ flattenCharter layers RuleKind.isInject, ∀ r ∈ draft.rules, r.kind.isValidate →
    injectContradicted l r = none

theorem admitDraft_accepts_iff : (∃ P, admitDraft charter draft R = .ok P) ↔
    ∃ layers, charterLayers charter R = .ok layers ∧ Admissible R layers draft := by
  constructor
  · rintro ⟨P, h⟩
    obtain ⟨layers, hly, h⟩ := bind_ok.mp h
    obtain ⟨m, hm, h⟩ := bind_ok.mp h
    obtain ⟨_, hky, h⟩ := bind_ok.mp h
    obtain ⟨_, hi, h⟩ := bind_ok.mp h
    obtain ⟨_, hv, h⟩ := bind_ok.mp h
    refine ⟨layers, hly, exists_build.mp ⟨m, hm⟩, ?_, ?_, ?_⟩
    · intro rule hrl key value d hkn hd
      have hmm : (⟨rule.scope, value⟩ : GrantRule) ∈ grantsOf draft.rules key :=
        mem_grantsOf.mpr ⟨rule, hrl, hkn, rfl⟩
      rcases get_build hm key with ⟨hn, -⟩ | ⟨d', hd', -, hg⟩
      · rw [hn] at hmm
        cases hmm
      obtain rfl : d = d' := Option.mem_unique hd hd'
      have hc := forM_ok.mp hky key (Std.TreeMap.mem_keys.mpr
        (Std.TreeMap.mem_iff_isSome_getElem?.mpr (Option.isSome_iff_exists.mpr ⟨_, hg⟩)))
      rw [checkGrantKey, hg] at hc
      obtain ⟨d', hd', hru⟩ := bind_ok.mp hc
      obtain rfl : d = d' := Option.mem_unique hd (lookup_ok.mp hd')
      exact forM_ok.mp hru _ hmm
    · intro l hl r hr hkn
      exact injectCollisions_ok.mp hi l hl r (mem_filter.mpr ⟨hr, hkn⟩)
    · intro l hl r hr hkn
      exact validateVsInject_ok.mp hv l hl r (mem_filter.mpr ⟨hr, hkn⟩)
  · rintro ⟨layers, hly, hk, hw, hi, hv⟩
    obtain ⟨m, hm⟩ := exists_build.mpr hk
    have hky : forM m.keys.keys (checkGrantKey m layers R) = .ok () := by
      refine forM_ok.mpr fun key _ => ?_
      rw [checkGrantKey]
      rcases get_build hm key with ⟨-, hnn⟩ | ⟨d, hd, -, hg⟩
      · rw [hnn]
      rw [hg]
      refine bind_ok.mpr ⟨d, lookup_ok.mpr hd, forM_ok.mpr fun r hr => ?_⟩
      obtain ⟨rule, hrl, hkn, hs⟩ := mem_grantsOf.mp hr
      have hc := hw rule hrl key r.value d hkn hd
      rwa [hs] at hc
    have hcl : checkInjectCollisions (flattenCharter layers isInject)
        (rulesOf draft.rules isInject) = .ok () := by
      refine injectCollisions_ok.mpr fun l hl r hr => ?_
      exact hi l hl r (mem_filter.mp hr).1 (mem_filter.mp hr).2
    have hcn : checkValidateVsInject (flattenCharter layers isInject)
        (rulesOf draft.rules isValidate) = .ok () := by
      refine validateVsInject_ok.mpr fun l hl r hr => ?_
      exact hv l hl r (mem_filter.mp hr).1 (mem_filter.mp hr).2
    obtain ⟨l, hl⟩ : ∃ l, Layer.fromDoc .draft draft R = .ok l := ⟨_, bind_ok.mpr ⟨m, hm, rfl⟩⟩
    refine ⟨.fromLayers R (R.iter.foldl pinUninherited l :: layers), ?_⟩
    refine bind_ok.mpr ⟨layers, hly, bind_ok.mpr ⟨m, hm, bind_ok.mpr ⟨(), hky, ?_⟩⟩⟩
    exact bind_ok.mpr ⟨(), hcl, bind_ok.mpr ⟨(), hcn, bind_ok.mpr ⟨l, hl, rfl⟩⟩⟩

end

/-- Shapes that can be added to one table. -/
structure InjectSpec.Agree (a b : InjectSpec) : Prop where
  columns : ∀ x ∈ a.columns, ∀ y ∈ b.columns, namesMatch x.name y.name →
    x.ty = y.ty ∧ x.nullable = y.nullable ∧ x.default = y.default ∧ x.collation = y.collation ∧ x.assign = y.assign
  indexes : ∀ x ∈ a.indexes, ∀ y ∈ b.indexes, namesMatch x.name y.name → x.columns = y.columns
  keys : ∀ x ∈ a.primaryKey, ∀ y ∈ b.primaryKey, x = y ∧ a.authorPrimaryKey = b.authorPrimaryKey

/-- Where both rules apply, their shapes agree. -/
def Rule.Agree (a b : Rule) : Prop := ∀ o sa sb, a.scope.objectsMembership o → b.scope.objectsMembership o →
  a.kind = .inject sa → b.kind = .inject sb → sa.Agree sb

/-- The layers that drafts are admitted over at first. -/
inductive Trusted (R : PolicyRegistry) : List Layer → Prop
  | root {c : RootCharter} {layers : List Layer} (charter : charterLayers c R = .ok layers) : Trusted R layers
  | final {A : AssembledCharter} {C : Charter} (charter : finalizeCharter A = .ok C) : Trusted R C.layers

section
variable {a b : Rule} {sa sb : InjectSpec} {rules : List Rule} {layers : List Layer} {R : PolicyRegistry}
  {P : EffectivePolicy} {o : ObjectName}

theorem InjectSpec.Agree.symm (h : sa.Agree sb) : sb.Agree sa where
  columns x hx y hy hxy := by
    obtain ⟨h1, h2, h3, h4, h5⟩ := h.columns y hy x hx (by simpa [namesMatch, eq_comm] using hxy)
    exact ⟨h1.symm, h2.symm, h3.symm, h4.symm, h5.symm⟩
  indexes x hx y hy hxy := (h.indexes y hy x hx (by simpa [namesMatch, eq_comm] using hxy)).symm
  keys x hx y hy := ⟨(h.keys y hy x hx).1.symm, (h.keys y hy x hx).2.symm⟩

theorem InjectSpec.Agree.of_none (hc : injectColumnConflict sa sb = none)
    (hi : injectIndexConflict sa sb = none) (hk : injectPkConflict sa sb = none) : sa.Agree sb where
  columns x hx y hy hxy := by
    have hn := findSome?_eq_none_iff.mp (findSome?_eq_none_iff.mp hc x hx) y hy
    simpa [hxy, injectColumnsDiverge, and_assoc] using hn
  indexes x hx y hy hxy := by
    have hn := findSome?_eq_none_iff.mp (findSome?_eq_none_iff.mp hi x hx) y hy
    simpa [hxy] using hn
  keys x hx y hy := by
    rw [Option.mem_def] at hx hy
    simp only [injectPkConflict, hx, hy] at hk
    split_ifs at hk with hp ha
    exact ⟨not_not.mp hp, not_not.mp ha⟩

theorem meet_ne_nothing {s t : Scope} (hs : s.objectsMembership o) (ht : t.objectsMembership o) : s.meet t ≠ .nothing := by
  intro hmt
  have hm : (s.meet t).objectsMembership o := by rw [mem_meet, hs, ht, Bool.and_self]
  rw [hmt] at hm
  cases hm

theorem Rule.Agree.of_conflict (h : injectsConflict a b = none) : a.Agree b := by
  intro o sa sb ha hb hs hsb
  simp only [injectsConflict, hs, hsb, if_neg (meet_ne_nothing ha hb), Option.orElse_eq_none] at h
  exact .of_none h.1 h.2.2 h.2.1

theorem Rule.Agree.of_collide (h : injectsCollide a b = none) : a.Agree b := by
  intro o sa sb ha hb hs hsb
  simp only [injectsCollide, injectSpecsCollide, hs, hsb, if_neg (meet_ne_nothing ha hb), Option.orElse_eq_none] at h
  exact .of_none h.1 h.2.1 h.2.2

theorem pairwise_of_firstConflict (h : firstConflict rules = none) : rules.Pairwise Rule.Agree := by
  induction rules with
  | nil => exact .nil
  | cons a rest ih =>
    simp only [firstConflict, Option.orElse_eq_none] at h
    exact .cons (fun b hb => .of_conflict (findSome?_eq_none_iff.mp h.1 b hb)) (ih h.2)

theorem foldl_pinUninherited (defs : List KnobDef) (l : Layer) :
    (defs.foldl pinUninherited l).injects = l.injects ∧ (defs.foldl pinUninherited l).validates = l.validates := by
  induction defs generalizing l with
  | nil => exact ⟨rfl, rfl⟩
  | cons d rest ih =>
    rw [foldl_cons, (ih _).1, (ih _).2, pinUninherited]
    split <;> exact ⟨rfl, rfl⟩

theorem admitDraft_layers {χ : Type} [AdmitCharter χ] {charter : χ} {draft : PolicyDoc}
    (hl : charterLayers charter R = .ok layers) (h : admitDraft charter draft R = .ok P) :
    ∃ l, P.layers = l :: layers ∧ (∀ r ∈ l.injects, r ∈ draft.rules ∧ r.kind.isInject) ∧
      (∀ r ∈ l.validates, r ∈ draft.rules ∧ r.kind.isValidate) ∧ Admissible R layers draft := by
  obtain ⟨layers', hs, ha⟩ := admitDraft_accepts_iff.mp ⟨P, h⟩
  obtain rfl := Except.ok.inj (hl.symm.trans hs)
  simp only [admitDraft, Layer.fromDoc, bind_ok, pure_ok] at h
  obtain ⟨_, hs, _, _, _, _, _, _, _, _, l, ⟨_, _, rfl⟩, rfl⟩ := h
  obtain rfl := Except.ok.inj (hl.symm.trans hs)
  refine ⟨_, rfl, fun r hr => ?_, fun r hr => ?_, ha⟩
  · rw [(foldl_pinUninherited _ _).1] at hr
    exact mem_filter.mp hr
  · rw [(foldl_pinUninherited _ _).2] at hr
    exact mem_filter.mp hr

/-- The injects of no layer disagree with those below, and of no draft with what it is admitted over. -/
structure Settled (layers stack : List Layer) : Prop where
  agree : stack.Pairwise fun upper lower => ∀ a ∈ lower.injects, ∀ b ∈ upper.injects, a.Agree b
  allowed : ∀ above l below, stack = above ++ l :: (below ++ layers) → ∀ v ∈ l.validates,
    ∀ r ∈ (below ++ layers).flatMap Layer.injects, r.kind.isInject → injectContradicted r v = none

theorem Trusted.agree (h : Trusted R layers) :
    layers.Pairwise fun upper lower => ∀ a ∈ lower.injects, ∀ b ∈ upper.injects, a.Agree b := by
  cases h with
  | root charter =>
    obtain ⟨l, _, charter⟩ := bind_ok.mp charter
    obtain rfl := pure_ok.mp charter
    exact pairwise_singleton _ _
  | final charter =>
    simp only [finalizeCharter] at charter
    split at charter
    · cases charter
    rename_i hn
    split at charter
    · cases charter
    obtain ⟨_, _, charter⟩ := bind_ok.mp charter
    obtain rfl := pure_ok.mp charter
    refine (pairwise_flatMap.mp (pairwise_of_firstConflict hn)).2.imp fun hp a ha b hb => ?_
    exact fun o sa sb hao hbo hs hsb => (hp b hb a ha o sb sa hbo hao hsb hs).symm

theorem AdmittedOver.settled (hbs : Trusted R layers) (h : AdmittedOver R layers P) : Settled layers P.layers := by
  induction h with
  | nil =>
    refine ⟨hbs.agree, fun above l below hs => ?_⟩
    have := congrArg length hs
    simp [EffectivePolicy.fromLayers] at this
    omega
  | next chain same admitted ih =>
    obtain ⟨l, hP, hi, hvl, had⟩ := admitDraft_layers same admitted
    rw [hP]
    refine ⟨.cons (fun lower hl a ha b hb o sa sb hao hbo hsa hsb => ?_) ih.agree, fun above u below hs => ?_⟩
    · refine Rule.Agree.of_collide ?_ o sa sb hao hbo hsa hsb
      refine had.injects a (mem_flattenCharter.mpr ⟨⟨lower, hl, .inl ha⟩, ?_⟩) b (hi b hb).1 (hi b hb).2
      rw [hsa]
      rfl
    · cases above with
      | cons top above => exact ih.allowed above u below (cons.inj hs).2
      | nil =>
        obtain ⟨rfl, hbl⟩ := cons.inj hs
        intro v hv r hr hk
        obtain ⟨lower, hl, hr⟩ := mem_flatMap.mp hr
        refine had.validates r (mem_flattenCharter.mpr ⟨⟨lower, ?_, .inl hr⟩, hk⟩) v (hvl v hv).1
          (hvl v hv).2
        rw [hbl]
        exact hl

end

/-- The shapes that a policy injects at one name agree with each other, and no draft forbids a
column that what it was admitted over injects there. -/
theorem injects_agree {R : PolicyRegistry} {layers : List Layer} {P : EffectivePolicy} (hbase : Trusted R layers)
    (hchain : AdmittedOver R layers P) (hchecked : P.checkSameLayerInjectConflicts = .ok ()) (o : ObjectName) :
    (P.injectsFor o).Pairwise InjectSpec.Agree ∧ ∀ above l below, P.layers = above ++ l :: (below ++ layers) →
        ∀ v ∈ l.validates, ∀ names, v.kind = .validate (.forbiddenColumns names) → v.scope.objectsMembership o →
          ∀ r ∈ (below ++ layers).flatMap Layer.injects, ∀ spec, r.kind = .inject spec → r.scope.objectsMembership o →
            ∀ c ∈ spec.columns, ∀ name ∈ names, namesMatch c.name name = false := by
  have hs := hchain.settled hbase
  constructor
  · have hsm : ∀ l ∈ P.layers, l.injects.Pairwise Rule.Agree := by
      intro l hl
      apply pairwise_of_firstConflict
      rw [EffectivePolicy.checkSameLayerInjectConflicts] at hchecked
      split at hchecked
      · rename_i hn
        exact findSome?_eq_none_iff.mp hn l hl
      · cases hchecked
    have hal : (P.layers.reverse.flatMap Layer.injects).Pairwise Rule.Agree :=
      pairwise_flatMap.mpr ⟨fun l hl => hsm l (mem_reverse.mp hl), pairwise_reverse.mpr hs.agree⟩
    refine pairwise_filterMap.mpr (Pairwise.imp_of_mem ?_ (hal.filter _))
    intro a b ha hb hab sa hsa sb hsb
    refine hab o sa sb (mem_filter.mp ha).2 (mem_filter.mp hb).2 ?_ ?_
    · split at hsa <;> simp_all
    · split at hsb <;> simp_all
  · intro above l below hspl v hv names hk hvo r hr spec hsp hro c hc name hnm
    have hn := hs.allowed above l below hspl v hv r hr (by rw [hsp]; rfl)
    simp only [injectContradicted, hsp, hk, if_neg (meet_ne_nothing hro hvo), forbiddenColumn] at hn
    have hf := findSome?_eq_none_iff.mp hn c hc
    simp only [ite_eq_right_iff, reduceCtorEq, imp_false, Bool.not_eq_true, any_eq_false] at hf
    simpa using hf name hnm

/-- A draft over the audited charter repeats its column beside one of its own, and forbids another. -/
def ownerSpec : InjectSpec :=
  ⟨⟨"owner", "text", false, none, none, none⟩ :: auditSpec.columns, [], none, .allow, true⟩

def forbidsPassword : Rule := ⟨app1Grant.scope, .validate (.forbiddenColumns ["password"])⟩

def ownerDraft : PolicyDoc :=
  ⟨app1Draft.rules ++ [⟨app1Grant.scope, .inject ownerSpec⟩, forbidsPassword]⟩

def ownerLayer : Layer :=
  ⟨.draft, GrantModel.empty.push createTableKey .bool (.bool false) app1Grant, [], [⟨app1Grant.scope, .inject ownerSpec⟩],
    [forbidsPassword]⟩

def ownerPolicy : EffectivePolicy := .fromLayers createTableRegistry (ownerLayer :: auditedLayers)

theorem owner_injects_agree : ownerPolicy.injectsFor app1 = [auditSpec, ownerSpec] ∧
    (ownerPolicy.injectsFor app1).Pairwise InjectSpec.Agree ∧
    ∀ c ∈ auditSpec.columns, namesMatch c.name "password" = false := by
  have hf : finalizeCharter ⟨createTableRegistry, auditedLayers⟩ = .ok ⟨createTableRegistry, auditedLayers⟩ := rfl
  have hc : checkInjectCollisions (flattenCharter auditedLayers RuleKind.isInject)
    (rulesOf ownerDraft.rules RuleKind.isInject) = .ok () := by decide +kernel
  have hv : checkValidateVsInject (flattenCharter auditedLayers RuleKind.isInject)
    (rulesOf ownerDraft.rules RuleKind.isValidate) = .ok () := by decide +kernel
  have ha : admitDraft (Charter.mk createTableRegistry auditedLayers) ownerDraft createTableRegistry =
      .ok ownerPolicy := by
    simp only [admitDraft, bind_ok]
    exact ⟨_, rfl, _, rfl, _, rfl, _, hc, _, hv, _, rfl, rfl⟩
  obtain ⟨hagree, hallowed⟩ := injects_agree (.final hf) (.next .nil rfl ha) rfl app1
  refine ⟨rfl, hagree, fun c hc => ?_⟩
  exact hallowed [] ownerLayer [] rfl forbidsPassword (by simp [ownerLayer]) ["password"] rfl rfl
    ⟨appSchemas, .inject auditSpec⟩ (by simp [auditedLayers]) auditSpec rfl rfl c hc "password" (by simp)

end Zeroship.Policy
