import Zeroship.Policy.Glob

/-! Two-segment patterns and the names they match.

A pattern is a schema glob and a table glob; a schema alone stands for itself and all its
tables. Names are folded by one rule wherever two of them are compared: unquoted segments
lose their case, quoted ones keep every byte. -/
namespace Zeroship.Policy

/-- A schema, or a table in one. -/
structure ObjectName where
  schema : Bytes
  table : Option Bytes

structure Pattern where
  (schema table : SegGlob)
deriving DecidableEq

/-- By schema, then by table. -/
instance : Ord Pattern where
  compare a b := (compare a.schema b.schema).then (compare a.table b.table)

namespace Pattern

/-- A schema pattern, which also covers the tables of the schema. -/
def ofSchema (glob : SegGlob) : Pattern := ⟨glob, .star⟩

def universePattern : Pattern := ⟨.star, .star⟩

end Pattern

/-- Does the pattern match the name? A schema itself is matched by `P.*` alone. -/
def Pattern.matches (p : Pattern) (n : ObjectName) : Bool :=
  p.schema.matches n.schema && match n.table with
    | some t => p.table.matches t
    | none => p.table.isStar

variable (text : String) (bytes : Bytes) (a b : Pattern)

/-- The patterns of the names both patterns match. -/
def intersectPattern : List Pattern :=
  (intersectSeg a.schema b.schema).flatMap fun s => (intersectSeg a.table b.table).map fun t => ⟨s, t⟩

/-- Does `a` match whatever `b` matches? -/
def patternCovers : Bool := a.schema.covers b.schema && a.table.covers b.table

/-- A segment after the fold, and whether it was quoted. -/
structure NormalizedSegment where
  bytes : Bytes
  quoted : Bool

def quoteByte : UInt8 := 34
def dotByte : UInt8 := 46

def toAsciiLowercase (b : UInt8) : UInt8 := if 65 ≤ b ∧ b ≤ 90 then b + 32 else b

/-- An empty segment and one that mixes quoted with unquoted bytes are refused. -/
def finishSegment (quoted unquoted : Bool) : Option NormalizedSegment :=
  if bytes = [] then none
  else if quoted && unquoted then none
  else some ⟨bytes, quoted⟩

/-- What has been read: the finished segments, and the current one with the kinds of bytes
it has; `inside` a quoted run dots and letters are taken as they are. -/
structure SegmentScan where
  out : List NormalizedSegment := []
  cur : Bytes := []
  quoted : Bool := false
  unquoted : Bool := false
  inside : Bool := false

/-- Close the current segment. A third one is too many. -/
def SegmentScan.finish (s : SegmentScan) : Option SegmentScan := do
  let segment ← finishSegment s.cur s.quoted s.unquoted
  let out := s.out ++ [segment]
  if out.length > 2 then none else some {out}

/-- Read the bytes of a name. A quote inside a quoted run ends it unless it is doubled. -/
def SegmentScan.read (s : SegmentScan) : Bytes → Option (List NormalizedSegment)
  | [] => if s.inside then none else s.finish.map SegmentScan.out
  | b :: rest =>
    if s.inside then
      if b = quoteByte then
        match rest with
        | b' :: rest' =>
          if b' = quoteByte then read {s with cur := s.cur ++ [quoteByte]} rest'
          else read {s with inside := false} (b' :: rest')
        | [] => read {s with inside := false} []
      else read {s with cur := s.cur ++ [b]} rest
    else if b = quoteByte then read {s with quoted := true, inside := true} rest
    else if b = dotByte then
      match s.finish with
      | some s => read s rest
      | none => none
    else read {s with unquoted := true, cur := s.cur ++ [toAsciiLowercase b]} rest

def splitNormalizeSegments : Option (List NormalizedSegment) := SegmentScan.read {} bytes

def normalizeObjectName : Option ObjectName :=
  match splitNormalizeSegments text.toUTF8.toList with
  | some [schema] => some ⟨schema.bytes, none⟩
  | some [schema, table] => some ⟨schema.bytes, some table.bytes⟩
  | _ => none

def fold : Bytes :=
  match normalizeObjectName text with
  | some name => name.schema
  | none => text.toUTF8.toList.map toAsciiLowercase

/-- Are two identifiers the same under the fold? -/
def namesMatch (a b : String) : Bool := fold a = fold b

section
variable {a b c p : Pattern} {n : ObjectName}

theorem matches_iff : p.matches n ↔ p.schema.matches n.schema ∧
    ((∃ t, n.table = some t ∧ p.table.matches t) ∨ (n.table = none ∧ p.table = .star)) := by
  obtain ⟨schema, table⟩ := n
  cases table <;> simp [Pattern.matches]

theorem matches_covers (h : patternCovers a b) (hn : b.matches n) : a.matches n := by
  simp only [patternCovers, Bool.and_eq_true] at h
  rw [matches_iff] at hn ⊢
  refine ⟨SegGlob.matches_of_covers h.1 hn.1, ?_⟩
  rcases hn.2 with ⟨t, ht, hm⟩ | ⟨ht, hs⟩
  · exact .inl ⟨t, ht, SegGlob.matches_of_covers h.2 hm⟩
  · exact .inr ⟨ht, SegGlob.eq_star_of_covers (hs ▸ h.2)⟩

theorem Pattern.exists_matches (p : Pattern) : ∃ n, p.matches n := by
  obtain ⟨s, hs⟩ := p.schema.exists_matches
  obtain ⟨t, ht⟩ := p.table.exists_matches
  exact ⟨⟨s, some t⟩, by simp [Pattern.matches, hs, ht]⟩

theorem mem_intersectPattern : p ∈ intersectPattern a b ↔
    p.schema ∈ intersectSeg a.schema b.schema ∧ p.table ∈ intersectSeg a.table b.table := by
  obtain ⟨s, t⟩ := p
  simp [intersectPattern]

theorem matches_intersect : (∃ p ∈ intersectPattern a b, p.matches n) ↔ a.matches n ∧ b.matches n := by
  simp only [mem_intersectPattern, matches_iff]
  constructor
  · rintro ⟨⟨s, t⟩, ⟨hs, ht⟩, hms, hm⟩
    obtain ⟨has, hbs⟩ := matches_seg.mp ⟨s, hs, hms⟩
    rcases hm with ⟨w, hw, hm⟩ | ⟨hw, rfl⟩
    · obtain ⟨ha, hb⟩ := matches_seg.mp ⟨t, ht, hm⟩
      exact ⟨⟨has, .inl ⟨w, hw, ha⟩⟩, hbs, .inl ⟨w, hw, hb⟩⟩
    · obtain ⟨ha, hb⟩ := star_mem_intersectSeg.mp ht
      exact ⟨⟨has, .inr ⟨hw, ha⟩⟩, hbs, .inr ⟨hw, hb⟩⟩
  · rintro ⟨⟨has, ha⟩, hbs, hb⟩
    obtain ⟨s, hs, hms⟩ := matches_seg.mpr ⟨has, hbs⟩
    rcases ha with ⟨w, hw, ha⟩ | ⟨hw, ha⟩
    · rcases hb with ⟨w', hw', hb⟩ | ⟨hw', -⟩
      · obtain rfl : w = w' := Option.mem_unique hw hw'
        obtain ⟨t, ht, hm⟩ := matches_seg.mpr ⟨ha, hb⟩
        exact ⟨⟨s, t⟩, ⟨hs, ht⟩, hms, .inl ⟨w, hw, hm⟩⟩
      · simp [hw] at hw'
    · rcases hb with ⟨w', hw', -⟩ | ⟨-, hb⟩
      · simp [hw] at hw'
      · exact ⟨⟨s, .star⟩, ⟨hs, star_mem_intersectSeg.mpr ⟨ha, hb⟩⟩, hms, .inr ⟨hw, rfl⟩⟩

theorem intersect_eq_nil : intersectPattern a b = [] ↔ ∀ n, ¬ (a.matches n ∧ b.matches n) := by
  constructor
  · intro h n hn
    obtain ⟨p, hp, -⟩ := matches_intersect.mpr hn
    simp [h] at hp
  intro h
  refine List.eq_nil_iff_forall_not_mem.mpr fun p hp => ?_
  obtain ⟨n, hn⟩ := p.exists_matches
  exact h n (matches_intersect.mp ⟨p, hp, hn⟩)

theorem intersect_ne_nil (h : patternCovers a b) : intersectPattern b a ≠ [] := by
  intro hnl
  obtain ⟨n, hn⟩ := b.exists_matches
  exact intersect_eq_nil.mp hnl n ⟨hn, matches_covers h hn⟩

end

end Zeroship.Policy
