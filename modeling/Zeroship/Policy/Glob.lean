import Zeroship.Base.Lists

/-! Single-segment globs and their intersection.

A glob is over the bytes of one name segment and has at most one star. Intersection is
a set of globs, because the words that two globs share through an overlap of head and
tail are not one glob. It is exact: overlaps too short for either glob are dropped. -/
namespace Zeroship.Policy
open List

/-- The bytes of one segment of a name. -/
abbrev Bytes := List UInt8

/-- A literal, or a head and a tail around the one star. -/
inductive SegGlob
  | literal (bytes : Bytes)
  | infixGlob (head tail : Bytes)
deriving DecidableEq

namespace SegGlob

/-- The bytes before the star: all of them when there is none. -/
def prefixBytes : SegGlob → Bytes
  | literal bytes => bytes
  | infixGlob head _ => head

def suffixBytes : SegGlob → Bytes
  | literal _ => []
  | infixGlob _ tail => tail

def hasStar : SegGlob → Bool
  | literal _ => false
  | infixGlob _ _ => true

/-- The glob `*`. -/
def star : SegGlob := infixGlob [] []

def isStar (g : SegGlob) : Bool := g = star

/-- Head bytes, then tail bytes, then literals before globs. -/
instance : Ord SegGlob where
  compare a b := (compare a.prefixBytes b.prefixBytes).then
    ((compare a.suffixBytes b.suffixBytes).then (compare a.hasStar b.hasStar))

end SegGlob

/-- Does the glob match the segment `w`? Head and tail may not overlap. -/
def SegGlob.matches : SegGlob → Bytes → Bool
  | .literal bytes, w => w = bytes
  | .infixGlob head tail, w => head.length + tail.length ≤ w.length ∧ head <+: w ∧ tail <:+ w

/-- Does the first glob match whatever the second one matches? -/
def SegGlob.covers : SegGlob → SegGlob → Bool
  | .literal a, .literal b => a = b
  | .literal _, .infixGlob _ _ => false
  | .infixGlob head tail, .literal b => (SegGlob.infixGlob head tail).matches b
  | .infixGlob head tail, .infixGlob head' tail' => head <+: head' ∧ tail <:+ tail'

variable (x y : Bytes)

/-- The longer of two byte strings, if one starts with the other. -/
def longerPrefix : Option Bytes :=
  if y <+: x then some x else if x <+: y then some y else none

/-- The longer of two byte strings, if one ends with the other. -/
def longerSuffix : Option Bytes :=
  if y <:+ x then some x else if x <:+ y then some y else none

/-- The globs of the words that start with `p`, end with `s` and have `floor` bytes: those
with room for both, and the overlaps, which are literals. -/
def enumeratePrefixSuffix (p s : Bytes) (floor : Nat) : List SegGlob :=
  (if floor ≤ p.length + s.length then [.infixGlob p s] else []) ++
    ((((List.range' 1 (min p.length s.length)).filter fun o => p.drop (p.length - o) = s.take o).map fun o =>
      p ++ s.drop o).filter fun lit => floor ≤ lit.length).map .literal

/-- Drop what another glob of the set covers. -/
def subsume (globs : List SegGlob) : List SegGlob := Base.undominated SegGlob.covers globs

/-- The globs both globs share, before they are ordered and reduced. -/
def sharedGlobs : SegGlob → SegGlob → List SegGlob
  | .literal a, .literal b => if a = b then [.literal a] else []
  | .literal a, .infixGlob p s => if (SegGlob.infixGlob p s).matches a then [.literal a] else []
  | .infixGlob p s, .literal b => if (SegGlob.infixGlob p s).matches b then [.literal b] else []
  | .infixGlob pa sa, .infixGlob pb sb => match longerPrefix pa pb, longerSuffix sa sb with
    | some p, some s => enumeratePrefixSuffix p s (max (pa.length + sa.length) (pb.length + sb.length))
    | _, _ => []

/-- The globs whose words are exactly those both globs match. -/
def intersectSeg (a b : SegGlob) : List SegGlob := subsume (Base.orderedSet (sharedGlobs a b))

section
variable {a b c : SegGlob} {p s w : Bytes}

@[simp] theorem matches_literal {bytes : Bytes} : (SegGlob.literal bytes).matches w ↔ w = bytes := by
  simp [SegGlob.matches]

@[simp] theorem matches_infixGlob : (SegGlob.infixGlob p s).matches w ↔
    p.length + s.length ≤ w.length ∧ p <+: w ∧ s <:+ w := by simp [SegGlob.matches]

theorem SegGlob.matches_of_covers (h : a.covers b) (hw : b.matches w) : a.matches w := by
  cases a with
  | literal x =>
    cases b with
    | literal y => simp_all [covers]
    | infixGlob p s => simp [covers] at h
  | infixGlob p s =>
    cases b with
    | literal y =>
      rw [matches_literal] at hw
      rwa [hw]
    | infixGlob p' s' =>
      simp only [covers, decide_eq_true_eq] at h
      rw [matches_infixGlob] at hw ⊢
      have hp := h.1.length_le
      have hs := h.2.length_le
      exact ⟨by omega, h.1.trans hw.2.1, h.2.trans hw.2.2⟩

theorem SegGlob.covers_refl (a : SegGlob) : a.covers a := by
  cases a <;> simp [covers]

theorem SegGlob.covers_trans (hab : a.covers b) (hbc : b.covers c) : a.covers c := by
  cases c with
  | literal z =>
    have hz : (SegGlob.literal z).matches z := by simp
    have ha := matches_of_covers hab (matches_of_covers hbc hz)
    cases a with
    | literal x =>
      rw [matches_literal] at ha
      simp [covers, ha]
    | infixGlob p s => exact ha
  | infixGlob p s =>
    cases b with
    | literal y => simp [covers] at hbc
    | infixGlob p' s' =>
      cases a with
      | literal x => simp [covers] at hab
      | infixGlob p'' s'' =>
        simp only [covers, decide_eq_true_eq] at hab hbc ⊢
        exact ⟨hab.1.trans hbc.1, hab.2.trans hbc.2⟩

theorem SegGlob.covers_antisymm (ha : a.covers b) (hb : b.covers a) : a = b := by
  cases a with
  | literal x =>
    cases b with
    | literal y => simpa [covers] using ha
    | infixGlob p s => simp [covers] at ha
  | infixGlob p s =>
    cases b with
    | literal y => simp [covers] at hb
    | infixGlob p' s' =>
      simp only [covers, decide_eq_true_eq] at ha hb
      have hp := ha.1.eq_of_length_le hb.1.length_le
      have hs := ha.2.eq_of_length_le hb.2.length_le
      rw [hp, hs]

/-- Every glob matches some word: its head and tail side by side. -/
theorem SegGlob.exists_matches (a : SegGlob) : ∃ w, a.matches w := by
  cases a with
  | literal x => exact ⟨x, by simp⟩
  | infixGlob p s => exact ⟨p ++ s, by simp⟩

@[simp] theorem SegGlob.isStar_iff : a.isStar ↔ a = star := by simp [isStar]

theorem SegGlob.eq_star_of_covers (h : a.covers star) : a = star := by
  cases a with
  | literal x => simp [covers, star] at h
  | infixGlob p s => simpa [covers, star] using h

end

/-! ### Intersection -/

section
variable {a b g : SegGlob} {p s w x y : Bytes} {floor : Nat}

theorem longerPrefix_some (h : longerPrefix x y = some p) : p <+: w ↔ x <+: w ∧ y <+: w := by
  unfold longerPrefix at h
  split at h
  · rename_i hy
    cases h
    exact ⟨fun hw => ⟨hw, hy.trans hw⟩, fun hw => hw.1⟩
  split at h
  · rename_i hx
    cases h
    exact ⟨fun hw => ⟨hx.trans hw, hw⟩, fun hw => hw.2⟩
  · cases h

theorem longerSuffix_some (h : longerSuffix x y = some s) : s <:+ w ↔ x <:+ w ∧ y <:+ w := by
  unfold longerSuffix at h
  split at h
  · rename_i hy
    cases h
    exact ⟨fun hw => ⟨hw, hy.trans hw⟩, fun hw => hw.1⟩
  split at h
  · rename_i hx
    cases h
    exact ⟨fun hw => ⟨hx.trans hw, hw⟩, fun hw => hw.2⟩
  · cases h

theorem longerPrefix_none (h : longerPrefix x y = none) : ¬ (x <+: w ∧ y <+: w) := by
  unfold longerPrefix at h
  rintro ⟨hx, hy⟩
  rcases prefix_or_prefix_of_prefix hx hy with hxy | hyx
  · by_cases hyx : y <+: x <;> simp [hxy, hyx] at h
  · simp [hyx] at h

theorem longerSuffix_none (h : longerSuffix x y = none) : ¬ (x <:+ w ∧ y <:+ w) := by
  unfold longerSuffix at h
  rintro ⟨hx, hy⟩
  rcases suffix_or_suffix_of_suffix hx hy with hxy | hyx
  · by_cases hyx : y <:+ x <;> simp [hxy, hyx] at h
  · simp [hyx] at h

theorem drop_eq_take_iff {o : Nat} (hp : o ≤ p.length) (hs : o ≤ s.length) :
    p.drop (p.length - o) = s.take o ↔ ∃ x, x.length = o ∧ x <:+ p ∧ x <+: s := by
  constructor
  · intro h
    refine ⟨s.take o, by simp [hs], ?_, take_prefix o s⟩
    rw [← h]
    exact drop_suffix _ _
  · rintro ⟨x, rfl, hx, hxs⟩
    rw [← suffix_iff_eq_drop.mp hx, ← prefix_iff_eq_take.mp hxs]

theorem mem_enumerate : g ∈ enumeratePrefixSuffix p s floor ↔ (floor ≤ p.length + s.length ∧ g = .infixGlob p s) ∨
      ∃ x, x ≠ [] ∧ x <:+ p ∧ x <+: s ∧ floor ≤ (p ++ s.drop x.length).length ∧
        g = .literal (p ++ s.drop x.length) := by
  unfold enumeratePrefixSuffix
  rw [mem_append]
  refine or_congr ?_ ?_
  · split <;> simp_all
  simp only [mem_map, mem_filter, mem_range'_1, decide_eq_true_eq]
  constructor
  · rintro ⟨_, ⟨⟨o, ⟨ho, heq⟩, rfl⟩, hl⟩, rfl⟩
    obtain ⟨x, rfl, hx, hxs⟩ := (drop_eq_take_iff (by omega) (by omega)).mp heq
    exact ⟨x, by rintro rfl; simp at ho, hx, hxs, hl, rfl⟩
  rintro ⟨x, hne, hx, hxs, hl, rfl⟩
  have hp := hx.length_le
  have hs := hxs.length_le
  have hps := length_pos_iff.mpr hne
  exact ⟨_, ⟨⟨x.length, ⟨by omega, (drop_eq_take_iff hp hs).mpr ⟨x, rfl, hx, hxs⟩⟩, rfl⟩, hl⟩, rfl⟩

/-- The words that start with `p`, end with `s` and reach the floor. -/
theorem matches_enumerate (hf : floor ≤ p.length + s.length) :
    (∃ g ∈ enumeratePrefixSuffix p s floor, g.matches w) ↔ floor ≤ w.length ∧ p <+: w ∧ s <:+ w := by
  constructor
  · rintro ⟨g, hg, hw⟩
    rcases mem_enumerate.mp hg with ⟨-, rfl⟩ | ⟨x, -, hx, hxs, hl, rfl⟩
    · rw [matches_infixGlob] at hw
      exact ⟨hf.trans hw.1, hw.2⟩
    · rw [matches_literal] at hw
      subst hw
      exact ⟨hl, prefix_append _ _, Base.suffix_overlap hx hxs⟩
  · rintro ⟨hl, hp, hs⟩
    by_cases hr : p.length + s.length ≤ w.length
    · exact ⟨.infixGlob p s, mem_enumerate.mpr (.inl ⟨hf, rfl⟩), matches_infixGlob.mpr ⟨hr, hp, hs⟩⟩
    · -- no room for both: they overlap
      obtain ⟨x, hne, hx, hxs, rfl⟩ := Base.overlap_of_short hp hs (not_le.mp hr)
      exact ⟨_, mem_enumerate.mpr (.inr ⟨x, hne, hx, hxs, hl, rfl⟩), by simp⟩

theorem matches_sharedGlobs : (∃ g ∈ sharedGlobs a b, g.matches w) ↔ a.matches w ∧ b.matches w := by
  cases a with
  | literal x =>
    cases b with
    | literal y =>
      simp only [sharedGlobs, matches_literal]
      split
      · simp_all
      · simp only [not_mem_nil, false_and, exists_false, false_iff]
        rintro ⟨rfl, rfl⟩
        contradiction
    | infixGlob p s =>
      simp only [sharedGlobs]
      split
      · simp_all
      · simp only [not_mem_nil, false_and, exists_false, false_iff, matches_literal]
        rintro ⟨rfl, hw⟩
        contradiction
  | infixGlob p s =>
    cases b with
    | literal y =>
      simp only [sharedGlobs]
      split
      · simp_all
      · simp only [not_mem_nil, false_and, exists_false, false_iff, matches_literal]
        rintro ⟨hw, rfl⟩
        contradiction
    | infixGlob p' s' =>
      simp only [sharedGlobs, matches_infixGlob]
      split
      · rename_i q t hq ht
        have hl : p.length ≤ q.length := ((longerPrefix_some hq).mp (prefix_refl q)).1.length_le
        have hl' : p'.length ≤ q.length := ((longerPrefix_some hq).mp (prefix_refl q)).2.length_le
        have hls : s.length ≤ t.length := ((longerSuffix_some ht).mp (suffix_refl t)).1.length_le
        have hls' : s'.length ≤ t.length := ((longerSuffix_some ht).mp (suffix_refl t)).2.length_le
        rw [matches_enumerate (by omega), longerPrefix_some hq, longerSuffix_some ht, Nat.max_le]
        tauto
      · rename_i hn
        simp only [not_mem_nil, false_and, exists_false, false_iff]
        rintro ⟨⟨-, hp, hs⟩, -, hp', hs'⟩
        cases hq : longerPrefix p p' with
        | none => exact longerPrefix_none hq ⟨hp, hp'⟩
        | some q =>
          cases ht : longerSuffix s s' with
          | none => exact longerSuffix_none ht ⟨hs, hs'⟩
          | some t => exact hn q t hq ht

theorem mem_of_mem_intersectSeg (h : g ∈ intersectSeg a b) : g ∈ sharedGlobs a b :=
  Base.mem_orderedSet.mp (Base.mem_of_undominated h)

theorem matches_seg : (∃ g ∈ intersectSeg a b, g.matches w) ↔ a.matches w ∧ b.matches w := by
  rw [← matches_sharedGlobs]
  constructor
  · rintro ⟨g, hg, hw⟩
    exact ⟨g, mem_of_mem_intersectSeg hg, hw⟩
  -- what was dropped is covered by what is left
  rintro ⟨g, hg, hw⟩
  obtain ⟨g', hg', hc⟩ := Base.exists_undominated SegGlob.covers_refl (fun _ _ _ => SegGlob.covers_trans)
    (fun _ _ => SegGlob.covers_antisymm) (Base.mem_orderedSet.mpr hg)
  exact ⟨g', hg', SegGlob.matches_of_covers hc hw⟩

/-- The star comes of stars alone. -/
theorem star_mem_intersectSeg : .star ∈ intersectSeg a b ↔ a = .star ∧ b = .star := by
  constructor
  · intro h
    have hsh := mem_of_mem_intersectSeg h
    cases a with
    | literal x =>
      cases b <;> simp only [sharedGlobs] at hsh <;> split at hsh <;> simp [SegGlob.star] at hsh
    | infixGlob p s =>
      cases b with
      | literal y => simp only [sharedGlobs] at hsh; split at hsh <;> simp [SegGlob.star] at hsh
      | infixGlob p' s' =>
        simp only [sharedGlobs] at hsh
        split at hsh
        · rename_i q t hq ht
          obtain ⟨-, hst⟩ | ⟨x, -, -, -, -, hst⟩ := mem_enumerate.mp hsh
          · obtain ⟨rfl, rfl⟩ : q = [] ∧ t = [] := by simpa [SegGlob.star, eq_comm] using hst
            have hp := (longerPrefix_some hq).mp (prefix_refl [])
            have hs := (longerSuffix_some ht).mp (suffix_refl [])
            simp_all [SegGlob.star]
          · simp [SegGlob.star] at hst
        · simp at hsh
  · rintro ⟨rfl, rfl⟩
    decide

end

end Zeroship.Policy
