import Zeroship.Base.Fallible

/-! Knobs, their values and the order of looseness.

A knob declares the shape of its values. The order on values is read off the shape; a
value of another shape has no place in it and is an error. `NoLooser` is a preorder on
the values of the shape, and `joinValue` is its least upper bound. -/
namespace Zeroship.Policy
open List
open Base (bind_ok pure_ok mem_orderedSet)

/-- A key `namespace.name`. -/
structure KnobKey where
  text : String
deriving DecidableEq

instance : Ord KnobKey := ⟨compareOn KnobKey.text⟩

instance : Std.TransOrd KnobKey := inferInstanceAs (Std.TransCmp (compareOn KnobKey.text))

instance : Std.LawfulEqOrd KnobKey where
  toReflCmp := inferInstanceAs (Std.ReflCmp (compareOn KnobKey.text))
  eq_of_compare := by
    rintro ⟨a⟩ ⟨b⟩ h
    have hab : compare a b = .eq := h
    exact congrArg KnobKey.mk (Std.LawfulEqCmp.eq_of_compare hab)

/-- The shape of a knob's values. -/
inductive KnobKind
  | bool | strSet
  | uintCharter (hardFloor : Nat)
  /-- The variants, tightest first. -/
  | orderedEnum (variants : List String)
  | digest
deriving DecidableEq

inductive KnobValue
  | bool (b : Bool)
  | uint (u : Nat)
  | strSet (xs : List String)
  | str (s : String)
deriving DecidableEq

inductive KnobValueError
  | typeMismatch
  | belowHardFloor (value hardFloor : Nat)
  | unknownVariant

def KnobValue.validateFor (value : KnobValue) (kind : KnobKind) : Except KnobValueError Unit :=
  match kind, value with
  | .bool, .bool _ => .ok ()
  | .strSet, .strSet _ => .ok ()
  | .uintCharter hardFloor, .uint v => if v < hardFloor then .error (.belowHardFloor v hardFloor) else .ok ()
  | .orderedEnum variants, .str s => if s ∈ variants then .ok () else .error .unknownVariant
  | .digest, .str _ => .ok ()
  | _, _ => .error .typeMismatch

/-- How values compose across layers. -/
inductive Polarity
  | grant | require
  | pinned (delegable : Bool)

structure KnobDef where
  key : KnobKey
  kind : KnobKind
  polarity : Polarity
  /-- The tightest value. -/
  default : KnobValue
  /-- Does a silent draft inherit the grant of the charter? -/
  inherit : Bool

/-! ### The order of values -/

inductive ValueOrderError
  | shapeMismatch | unknownVariant
deriving DecidableEq

def asBool : KnobValue → Except ValueOrderError Bool
  | .bool b => .ok b
  | _ => .error .shapeMismatch

def asUint : KnobValue → Except ValueOrderError Nat
  | .uint u => .ok u
  | _ => .error .shapeMismatch

def asStr : KnobValue → Except ValueOrderError String
  | .str s => .ok s
  | _ => .error .shapeMismatch

def asStrset : KnobValue → Except ValueOrderError (List String)
  | .strSet xs => .ok (Base.orderedSet xs)
  | _ => .error .shapeMismatch

/-- The place of a variant, tightest first. -/
def rank (variants : List String) (v : KnobValue) : Except ValueOrderError Nat := do
  let s ← asStr v
  match variants.idxOf? s with
  | some i => .ok i
  | none => .error .unknownVariant

variable (kind : KnobKind) (a b : KnobValue)

def leqValue : Except ValueOrderError Bool :=
  match kind with
  | .bool => do
    let x ← asBool a
    let y ← asBool b
    pure (!x || y)
  | .strSet => do
    let x ← asStrset a
    let y ← asStrset b
    pure (x.all fun s => s ∈ y)
  | .uintCharter _ => do
    let x ← asUint a
    let y ← asUint b
    pure (x ≤ y)
  | .orderedEnum variants => do
    let x ← rank variants a
    let y ← rank variants b
    pure (x ≤ y)
  | .digest => do
    let x ← asStr a
    let y ← asStr b
    pure (x = y)

/-- The loosest of two values. -/
def joinValue : Except ValueOrderError KnobValue :=
  match kind with
  | .bool => do
    let x ← asBool a
    let y ← asBool b
    pure (.bool (x || y))
  | .strSet => do
    let x ← asStrset a
    let y ← asStrset b
    pure (.strSet (Base.orderedSet (x ++ y)))
  | .uintCharter _ => do
    let x ← asUint a
    let y ← asUint b
    pure (.uint (max x y))
  | .orderedEnum variants => do
    let ra ← rank variants a
    let rb ← rank variants b
    pure (if rb ≤ ra then a else b)
  | .digest => do
    let x ← asStr a
    let y ← asStr b
    if x = y then pure a else .error .shapeMismatch

/-- The tightest of two values. -/
def meetValue : Except ValueOrderError KnobValue :=
  match kind with
  | .bool => do
    let x ← asBool a
    let y ← asBool b
    pure (.bool (x && y))
  | .strSet => do
    let x ← asStrset a
    let y ← asStrset b
    pure (.strSet (x.filter fun s => s ∈ y))
  | .uintCharter _ => do
    let x ← asUint a
    let y ← asUint b
    pure (.uint (min x y))
  | .orderedEnum variants => do
    let ra ← rank variants a
    let rb ← rank variants b
    pure (if ra ≤ rb then a else b)
  | .digest => do
    let x ← asStr a
    let y ← asStr b
    if x = y then pure a else .error .shapeMismatch

/-- `a` is no looser than `b`, and both have the shape. -/
def NoLooser : Prop := leqValue kind a b = .ok true

/-- The value has the shape of the kind. -/
def Fits (v : KnobValue) : Prop := NoLooser kind v v

instance (kind : KnobKind) (a b : KnobValue) : Decidable (NoLooser kind a b) :=
  inferInstanceAs (Decidable (_ = _))

section
variable {kind : KnobKind} {a b c d v : KnobValue} {t : Bool}

theorem asBool_ok {x : Bool} : asBool v = .ok x ↔ v = .bool x := by
  cases v <;> simp [asBool]

theorem asUint_ok {x : Nat} : asUint v = .ok x ↔ v = .uint x := by
  cases v <;> simp [asUint]

theorem asStr_ok {x : String} : asStr v = .ok x ↔ v = .str x := by
  cases v <;> simp [asStr]

theorem asStrset_ok {x : List String} : asStrset v = .ok x ↔ ∃ xs, v = .strSet xs ∧ x = Base.orderedSet xs := by
  cases v <;> simp [asStrset, eq_comm]

theorem rank_ok {variants : List String} {i : Nat} :
    rank variants v = .ok i ↔ ∃ s, v = .str s ∧ variants.idxOf? s = some i := by
  simp only [rank, bind_ok, asStr_ok]
  refine exists_congr fun s => and_congr_right fun _ => ?_
  cases variants.idxOf? s <;> simp

/-- What a comparison that succeeds compares, by the kind. -/
theorem leqValue_ok : leqValue kind a b = .ok t ↔ match kind with
    | .bool => ∃ x y, a = .bool x ∧ b = .bool y ∧ t = (!x || y)
    | .strSet => ∃ xs ys, a = .strSet xs ∧ b = .strSet ys ∧ t = decide (xs ⊆ ys)
    | .uintCharter _ => ∃ x y, a = .uint x ∧ b = .uint y ∧ t = decide (x ≤ y)
    | .orderedEnum variants => ∃ x y, rank variants a = .ok x ∧ rank variants b = .ok y ∧ t = decide (x ≤ y)
    | .digest => ∃ x y, a = .str x ∧ b = .str y ∧ t = decide (x = y) := by
  cases kind <;> simp only [leqValue, bind_ok, pure_ok, asBool_ok, asUint_ok, asStr_ok, asStrset_ok]
  case strSet =>
    constructor
    · rintro ⟨_, ⟨xs, rfl, rfl⟩, _, ⟨ys, rfl, rfl⟩, rfl⟩
      refine ⟨xs, ys, rfl, rfl, ?_⟩
      rw [Bool.eq_iff_iff]
      simp [subset_def]
    · rintro ⟨xs, ys, rfl, rfl, rfl⟩
      refine ⟨_, ⟨xs, rfl, rfl⟩, _, ⟨ys, rfl, rfl⟩, ?_⟩
      rw [Bool.eq_iff_iff]
      simp [subset_def]
  all_goals
    constructor
    · rintro ⟨x, hx, y, hy, rfl⟩
      exact ⟨x, y, hx, hy, rfl⟩
    · rintro ⟨x, y, hx, hy, rfl⟩
      exact ⟨x, hx, y, hy, rfl⟩

theorem fits_of_leqValue (h : leqValue kind a b = .ok t) : Fits kind a ∧ Fits kind b := by
  rw [Fits, Fits, NoLooser, NoLooser, leqValue_ok, leqValue_ok]
  rw [leqValue_ok] at h
  cases kind <;> obtain ⟨x, y, hx, hy, -⟩ := h <;>
    exact ⟨⟨x, x, hx, hx, by simp⟩, y, y, hy, hy, by simp⟩

theorem leqValue_of_fits (ha : Fits kind a) (hb : Fits kind b) : ∃ t, leqValue kind a b = .ok t := by
  rw [Fits, NoLooser, leqValue_ok] at ha hb
  cases kind <;> obtain ⟨x, _, hx, -, -⟩ := ha <;> obtain ⟨y, _, hy, -, -⟩ := hb <;>
    exact ⟨_, leqValue_ok.mpr ⟨x, y, hx, hy, rfl⟩⟩

theorem noLooser_iff : NoLooser kind a b ↔ match kind with
    | .bool => ∃ x y, a = .bool x ∧ b = .bool y ∧ x ≤ y
    | .strSet => ∃ xs ys, a = .strSet xs ∧ b = .strSet ys ∧ xs ⊆ ys
    | .uintCharter _ => ∃ x y, a = .uint x ∧ b = .uint y ∧ x ≤ y
    | .orderedEnum variants => ∃ x y, rank variants a = .ok x ∧ rank variants b = .ok y ∧ x ≤ y
    | .digest => ∃ x y, a = .str x ∧ b = .str y ∧ x = y := by
  rw [NoLooser, leqValue_ok]
  cases kind <;> refine exists_congr fun x => exists_congr fun y =>
    and_congr_right fun _ => and_congr_right fun _ => ?_
  case bool => cases x <;> cases y <;> decide
  all_goals exact eq_comm.trans decide_eq_true_iff

theorem NoLooser.trans (ha : NoLooser kind a b) (hbc : NoLooser kind b c) : NoLooser kind a c := by
  rw [noLooser_iff] at ha hbc ⊢
  cases kind <;> obtain ⟨x, y, hx, hy, hxy⟩ := ha <;> obtain ⟨y', z, hy', hz, hyz⟩ := hbc <;>
    obtain rfl : y = y' := by simpa [hy] using hy'
  case strSet => exact ⟨x, z, hx, hz, Subset.trans hxy hyz⟩
  all_goals exact ⟨x, z, hx, hz, hxy.trans hyz⟩

/-- In a chain the join is the looser of the two. -/
theorem joinValue_chain (hk : kind ≠ .strSet) (h : joinValue kind a b = .ok c) :
    c = a ∧ NoLooser kind b a ∨ c = b ∧ NoLooser kind a b := by
  simp only [noLooser_iff]
  cases kind <;> simp only [joinValue, bind_ok, pure_ok, asBool_ok, asUint_ok, asStr_ok] at h
  case strSet => exact absurd rfl hk
  case bool =>
    obtain ⟨x, rfl, y, rfl, rfl⟩ := h
    cases x <;> cases y <;> simp
  case uintCharter =>
    obtain ⟨x, rfl, y, rfl, rfl⟩ := h
    rcases le_total x y with hle | hle <;> simp [hle]
  case orderedEnum =>
    obtain ⟨x, hx, y, hy, rfl⟩ := h
    split
    · exact .inl ⟨rfl, y, x, hy, hx, ‹_›⟩
    · exact .inr ⟨rfl, x, y, hx, hy, (not_le.mp ‹_›).le⟩
  case digest =>
    obtain ⟨x, rfl, y, rfl, h⟩ := h
    split at h
    · exact .inl ⟨(pure_ok.mp h).symm, y, x, rfl, rfl, Eq.symm ‹_›⟩
    · cases h

/-- In a chain the meet is the tighter of the two. -/
theorem meetValue_chain (hk : kind ≠ .strSet) (h : meetValue kind a b = .ok c) :
    c = a ∧ NoLooser kind a b ∨ c = b ∧ NoLooser kind b a := by
  simp only [noLooser_iff]
  cases kind <;> simp only [meetValue, bind_ok, pure_ok, asBool_ok, asUint_ok, asStr_ok] at h
  case strSet => exact absurd rfl hk
  case bool =>
    obtain ⟨x, rfl, y, rfl, rfl⟩ := h
    cases x <;> cases y <;> simp
  case uintCharter =>
    obtain ⟨x, rfl, y, rfl, rfl⟩ := h
    rcases le_total x y with hle | hle <;> simp [hle]
  case orderedEnum =>
    obtain ⟨x, hx, y, hy, rfl⟩ := h
    split
    · exact .inl ⟨rfl, x, y, hx, hy, ‹_›⟩
    · exact .inr ⟨rfl, y, x, hy, hx, (not_le.mp ‹_›).le⟩
  case digest =>
    obtain ⟨x, rfl, y, rfl, h⟩ := h
    split at h
    · exact .inl ⟨(pure_ok.mp h).symm, x, y, rfl, rfl, ‹_›⟩
    · cases h

theorem joinValue_lub (h : joinValue kind a b = .ok c) :
    NoLooser kind a c ∧ NoLooser kind b c ∧ ∀ d, NoLooser kind a d → NoLooser kind b d → NoLooser kind c d := by
  cases kind
  case strSet =>
    simp only [joinValue, bind_ok, pure_ok, asStrset_ok] at h
    simp only [noLooser_iff]
    obtain ⟨_, ⟨xs, rfl, rfl⟩, _, ⟨ys, rfl, rfl⟩, rfl⟩ := h
    refine ⟨⟨xs, _, rfl, rfl, fun s hs => by simp [hs]⟩, ⟨ys, _, rfl, rfl, fun s hs => by simp [hs]⟩, ?_⟩
    rintro d ⟨x', zs, ⟨⟩, rfl, hx⟩ ⟨y', z', ⟨⟩, ⟨⟩, hy⟩
    refine ⟨_, zs, rfl, rfl, fun s hs => ?_⟩
    simp only [mem_orderedSet, mem_append] at hs
    exact hs.elim (fun hs => hx hs) (fun hs => hy hs)
  all_goals
    rcases joinValue_chain (by simp) h with ⟨rfl, hle⟩ | ⟨rfl, hle⟩
    · exact ⟨(fits_of_leqValue hle).2, hle, fun d ha _ => ha⟩
    · exact ⟨hle, (fits_of_leqValue hle).2, fun d _ hb => hb⟩

/-- Values of the shape have a join and a tightest, unless they are digests. -/
theorem exists_of_fits (hk : kind ≠ .digest) (ha : Fits kind a) (hb : Fits kind b) :
    (∃ c, joinValue kind a b = .ok c) ∧ ∃ c, meetValue kind a b = .ok c := by
  rw [Fits, noLooser_iff] at ha hb
  cases kind
  case digest => exact absurd rfl hk
  all_goals
    obtain ⟨x, _, hx, -, -⟩ := ha
    obtain ⟨y, _, hy, -, -⟩ := hb
  case orderedEnum =>
    exact ⟨⟨_, bind_ok.mpr ⟨x, hx, bind_ok.mpr ⟨y, hy, rfl⟩⟩⟩, _,
      bind_ok.mpr ⟨x, hx, bind_ok.mpr ⟨y, hy, rfl⟩⟩⟩
  all_goals
    subst hx hy
    exact ⟨⟨_, rfl⟩, _, rfl⟩

theorem joinValue_of_bounded (ha : NoLooser kind a v) (hb : NoLooser kind b v) :
    ∃ c, joinValue kind a b = .ok c ∧ NoLooser kind c v := by
  have hj : ∃ c, joinValue kind a b = .ok c := by
    by_cases hk : kind = .digest
    · -- digests under one bound are the same digest
      subst hk
      obtain ⟨x, y, rfl, rfl, rfl⟩ := noLooser_iff.mp ha
      obtain ⟨x', y, rfl, ⟨⟩, rfl⟩ := noLooser_iff.mp hb
      exact ⟨.str _, if_pos rfl⟩
    · exact (exists_of_fits hk (fits_of_leqValue ha).1 (fits_of_leqValue hb).1).1
  obtain ⟨c, hc⟩ := hj
  exact ⟨c, hc, (joinValue_lub hc).2.2 v ha hb⟩

theorem meetValue_glb (h : meetValue kind a b = .ok c) :
    NoLooser kind c a ∧ NoLooser kind c b ∧ ∀ d, NoLooser kind d a → NoLooser kind d b → NoLooser kind d c := by
  cases kind
  case strSet =>
    simp only [meetValue, bind_ok, pure_ok, asStrset_ok] at h
    simp only [noLooser_iff]
    obtain ⟨_, ⟨xs, rfl, rfl⟩, _, ⟨ys, rfl, rfl⟩, rfl⟩ := h
    refine ⟨⟨_, xs, rfl, rfl, fun s hs => ?_⟩, ⟨_, ys, rfl, rfl, fun s hs => ?_⟩, ?_⟩
    · simp only [mem_filter, mem_orderedSet] at hs
      exact hs.1
    · simp only [mem_filter, mem_orderedSet, decide_eq_true_eq] at hs
      exact hs.2
    rintro d ⟨zs, x', rfl, ⟨⟩, hz⟩ ⟨z', y', ⟨⟩, ⟨⟩, hzy⟩
    refine ⟨zs, _, rfl, rfl, fun s hs => ?_⟩
    simp only [mem_filter, mem_orderedSet, decide_eq_true_eq]
    exact ⟨hz hs, hzy hs⟩
  all_goals
    rcases meetValue_chain (by simp) h with ⟨rfl, hle⟩ | ⟨rfl, hle⟩
    · exact ⟨(fits_of_leqValue hle).1, hle, fun d hd _ => hd⟩
    · exact ⟨hle, (fits_of_leqValue hle).1, fun d _ hdb => hdb⟩

theorem fits_of_meetValue (h : meetValue kind a b = .ok c) : Fits kind c :=
  (fits_of_leqValue (meetValue_glb h).1).1

theorem meetValue_of_bounded (ha : NoLooser kind v a) (hb : NoLooser kind v b) :
    ∃ c, meetValue kind a b = .ok c ∧ NoLooser kind v c := by
  have hm : ∃ c, meetValue kind a b = .ok c := by
    by_cases hk : kind = .digest
    · -- digests above one value are the same digest
      subst hk
      obtain ⟨x, y, rfl, rfl, rfl⟩ := noLooser_iff.mp ha
      obtain ⟨x', y, ⟨⟩, rfl, rfl⟩ := noLooser_iff.mp hb
      exact ⟨.str _, if_pos rfl⟩
    · exact (exists_of_fits hk (fits_of_leqValue ha).2 (fits_of_leqValue hb).2).2
  obtain ⟨c, hc⟩ := hm
  exact ⟨c, hc, (meetValue_glb hc).2.2 v ha hb⟩

/-- The meet of a join is under what bounds both meets: the order is distributive. -/
theorem joinValue_distrib (h : joinValue kind a b = .ok c)
    (ha : ∀ w, NoLooser kind w a → NoLooser kind w d → NoLooser kind w v)
    (hb : ∀ w, NoLooser kind w b → NoLooser kind w d → NoLooser kind w v) :
    ∀ w, NoLooser kind w c → NoLooser kind w d → NoLooser kind w v := by
  intro w hw hwd
  cases kind
  case strSet =>
    -- the part of `w` in `a` and the part of it in `b`
    simp only [joinValue, bind_ok, pure_ok, asStrset_ok] at h
    obtain ⟨_, ⟨xs, rfl, rfl⟩, _, ⟨ys, rfl, rfl⟩, rfl⟩ := h
    obtain ⟨ws, cs, rfl, hc, hw⟩ := noLooser_iff.mp hw
    obtain ⟨ws', ds, hws, rfl, hwd⟩ := noLooser_iff.mp hwd
    cases hc
    cases hws
    have hp (zs : List String) (hz : ∀ w, NoLooser .strSet w (.strSet zs) → NoLooser .strSet w (.strSet ds) →
        NoLooser .strSet w v) : NoLooser .strSet (.strSet (ws.filter (· ∈ zs))) v := by
      apply hz
      · exact noLooser_iff.mpr ⟨_, zs, rfl, rfl, fun s hs => by simpa using (mem_filter.mp hs).2⟩
      · exact noLooser_iff.mpr ⟨_, ds, rfl, rfl, fun s hs => hwd (mem_filter.mp hs).1⟩
    obtain ⟨_, vs, hl, rfl, hxs⟩ := noLooser_iff.mp (hp xs ha)
    obtain ⟨_, vs', hr, hv, hys⟩ := noLooser_iff.mp (hp ys hb)
    cases hl
    cases hr
    cases hv
    refine noLooser_iff.mpr ⟨ws, vs, rfl, rfl, fun s hs => ?_⟩
    have hm := hw hs
    simp only [mem_orderedSet, mem_append] at hm
    rcases hm with hx | hy
    · exact hxs (mem_filter.mpr ⟨hs, by simpa using hx⟩)
    · exact hys (mem_filter.mpr ⟨hs, by simpa using hy⟩)
  all_goals
    rcases joinValue_chain (by simp) h with ⟨rfl, -⟩ | ⟨rfl, -⟩
    · exact ha w hw hwd
    · exact hb w hw hwd

theorem fits_of_validateFor (h : v.validateFor kind = .ok ()) : Fits kind v := by
  rw [Fits, noLooser_iff]
  cases kind <;> cases v <;> simp only [KnobValue.validateFor, reduceCtorEq] at h
  case bool.bool x => exact ⟨x, x, rfl, rfl, le_rfl⟩
  case strSet.strSet xs => exact ⟨xs, xs, rfl, rfl, Subset.refl xs⟩
  case uintCharter.uint x => exact ⟨x, x, rfl, rfl, le_rfl⟩
  case orderedEnum.str variants s =>
    split at h
    · rename_i hm
      obtain ⟨i, hi⟩ := Option.isSome_iff_exists.mp (isSome_idxOf?.mpr hm)
      exact ⟨i, i, rank_ok.mpr ⟨s, rfl, hi⟩, rank_ok.mpr ⟨s, rfl, hi⟩, le_rfl⟩
    · cases h
  case digest.str s => exact ⟨s, s, rfl, rfl, rfl⟩

/-- Equal values; sets are equal if they have the same elements. -/
def KnobValue.Same : KnobValue → KnobValue → Prop
  | .strSet xs, .strSet ys => ∀ s, s ∈ xs ↔ s ∈ ys
  | a, b => a = b

theorem KnobValue.Same.symm (h : a.Same b) : b.Same a := by
  cases a <;> cases b <;> simp_all [KnobValue.Same]

theorem NoLooser.antisymm (ha : NoLooser kind a b) (hb : NoLooser kind b a) : a.Same b := by
  rw [noLooser_iff] at ha hb
  cases kind
  case strSet =>
    obtain ⟨xs, ys, rfl, rfl, hxy⟩ := ha
    obtain ⟨ys', xs', ⟨⟩, ⟨⟩, hyx⟩ := hb
    exact fun s => ⟨fun hs => hxy hs, fun hs => hyx hs⟩
  case orderedEnum variants =>
    -- a rank has one variant
    obtain ⟨x, y, hx, hy, hxy⟩ := ha
    obtain ⟨y', x', hy', hx', hyx⟩ := hb
    obtain rfl : y = y' := Except.ok.inj (hy.symm.trans hy')
    obtain rfl : x = x' := Except.ok.inj (hx.symm.trans hx')
    obtain rfl := le_antisymm hxy hyx
    obtain ⟨s, rfl, hs⟩ := rank_ok.mp hx
    obtain ⟨t, rfl, ht⟩ := rank_ok.mp hy
    obtain ⟨_, hs, -⟩ := findIdx?_eq_some_iff_getElem.mp hs
    obtain ⟨_, ht, -⟩ := findIdx?_eq_some_iff_getElem.mp ht
    exact congrArg _ ((beq_iff_eq.mp hs).symm.trans (beq_iff_eq.mp ht))
  all_goals
    obtain ⟨x, y, rfl, rfl, hxy⟩ := ha
    obtain ⟨y', x', ⟨⟩, ⟨⟩, hyx⟩ := hb
  case bool => exact congrArg _ (le_antisymm hxy hyx)
  case uintCharter => exact congrArg _ (le_antisymm hxy hyx)
  case digest => exact congrArg _ hxy

theorem validateFor_meetValue (ha : a.validateFor kind = .ok ()) (hb : b.validateFor kind = .ok ())
    (h : meetValue kind a b = .ok c) : c.validateFor kind = .ok () := by
  cases kind <;>
    simp only [meetValue, bind_ok, pure_ok, asBool_ok, asUint_ok, asStr_ok, asStrset_ok] at h
  case bool =>
    obtain ⟨x, -, y, -, rfl⟩ := h
    rfl
  case strSet =>
    obtain ⟨x, -, y, -, rfl⟩ := h
    rfl
  case uintCharter har =>
    obtain ⟨x, rfl, y, rfl, rfl⟩ := h
    rcases min_choice x y with hm | hm <;> rw [hm] <;> assumption
  case orderedEnum variants =>
    obtain ⟨x, -, y, -, rfl⟩ := h
    rcases ite_eq_or_eq (x ≤ y) a b with hc | hc <;> rw [hc] <;> assumption
  case digest =>
    obtain ⟨x, -, y, -, h⟩ := h
    split at h
    · exact pure_ok.mp h ▸ ha
    · cases h

theorem KnobValue.Same.noLooser (h : a.Same b) (ha : Fits kind a) : NoLooser kind a b := by
  cases a with
  | strSet xs =>
    cases b with
    | strSet ys =>
      -- only sets have the shape of sets
      cases kind <;> simp only [Fits, noLooser_iff, rank_ok, reduceCtorEq, false_and, exists_false, and_false] at ha
      exact noLooser_iff.mpr ⟨xs, ys, rfl, rfl, fun s hs => (h s).mp hs⟩
    | bool y | uint y | str y => cases h
  | bool x | uint x | str x => exact h ▸ ha

theorem KnobValue.Same.bounds (h : a.Same b) (hb : Fits kind b) : NoLooser kind a b ∧ NoLooser kind b a := by
  have hba := h.symm.noLooser hb
  exact ⟨h.noLooser (fits_of_leqValue hba).2, hba⟩

end

end Zeroship.Policy
